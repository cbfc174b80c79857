/-
Solvency of a route of collateral and synthetic routers with different scales.

The collateral that is not owned by liquidity providers, valued in message units, covers the synthetic supply and the
messages on their way, whatever is sent, delivered, deposited, withdrawn, donated or transferred, in any order. Rounding
is down wherever value leaves: when a message is sent and when it is delivered.

- `Moves`: what a piece of a call does to the free balances of the collateral routers and to the synthetic supplies.
- `transferRemote_moves`, `transferTo_moves`: sending and receiving.
- `step_inv`, `run_inv`: one operation, and every run.
- `route_solvent`: the invariant from a route without synthetic supply.

An approval for a fee hook counts as spent: the hook may pull it at any later time.
-/
import Hyperlane.Warp.Route

namespace Hyperlane.Warp

open Hyperlane.Tokens

variable {R U E C : Type}

/-! ## What a piece of a call does -/

variable {c : Config R U E C} {w w' w1 : World R U E C} {r : R} {δ σ δ' σ' : R → ℤ}

/-- what the fee hook may still pull -/
def hookAllowance (c : Config R U E C) (w : World R U E C) (r : R) : ℕ :=
  match c.feeHook r with
  | none => 0
  | some (hook, _) => (w (c.token r)).allowance (.router r) (.user hook)

def freeBalance (c : Config R U E C) (w : World R U E C) (r : R) : ℤ :=
  (w (c.token r)).balance (.router r) - hookAllowance c w r

def syntheticSupply (c : Config R U E C) (w : World R U E C) (r : R) : ℕ := (w (c.token r)).totalSupply

/-- routers approve nobody but their fee hooks -/
def Confined (c : Config R U E C) (w : World R U E C) : Prop :=
  ∀ r t spender, (w t).allowance (.router r) spender ≠ 0 →
    t = c.token r ∧ ∃ hook beneficiary, c.feeHook r = some (hook, beneficiary) ∧ spender = .user hook

theorem hookAllowance_mono (h : ∀ t o s, (w' t).allowance o s ≤ (w t).allowance o s) (r : R) :
    hookAllowance c w' r ≤ hookAllowance c w r := by
  unfold hookAllowance
  split
  · exact le_rfl
  · exact h _ _ _

/-- free balances grow by at least `δ`, synthetic supplies by at most `σ` -/
structure Moves (c : Config R U E C) (w w' : World R U E C) (δ σ : R → ℤ) : Prop where
  confined : Confined c w → Confined c w'
  free : Confined c w → ∀ r, c.isSynthetic r = false → freeBalance c w r + δ r ≤ freeBalance c w' r
  supply : ∀ r, c.isSynthetic r = true → (syntheticSupply c w' r : ℤ) ≤ syntheticSupply c w r + σ r

theorem Moves.refl (w : World R U E C) : Moves c w w 0 0 :=
  ⟨id, fun _ _ _ => by simp, fun _ _ => by simp⟩

theorem Moves.trans (h : Moves c w w1 δ σ) (h' : Moves c w1 w' δ' σ') : Moves c w w' (δ + δ') (σ + σ') := by
  refine ⟨fun hc => h'.confined (h.confined hc), fun hc r hr => ?_, fun r hr => ?_⟩
  · have h1 := h.free hc r hr
    have h2 := h'.free (h.confined hc) r hr
    simp only [Pi.add_apply]
    linarith
  · have h1 := h.supply r hr
    have h2 := h'.supply r hr
    simp only [Pi.add_apply]
    linarith

theorem Moves.weaken (h : Moves c w w' δ σ) (hδ : ∀ r, c.isSynthetic r = false → δ' r ≤ δ r)
    (hσ : ∀ r, c.isSynthetic r = true → σ r ≤ σ' r) : Moves c w w' δ' σ' := by
  refine ⟨h.confined, fun hc r hr => ?_, fun r hr => ?_⟩
  · linarith [h.free hc r hr, hδ r hr]
  · linarith [h.supply r hr, hσ r hr]

/-! ## Worth -/

/-- message units for a unit of the router's token -/
def Config.rate (c : Config R U E C) (r : R) : ℚ := c.scaleNumerator r / c.scaleDenominator r

theorem rate_pos (r : R) : 0 < c.rate r :=
  div_pos (Nat.cast_pos.2 (c.numerator_pos r)) (Nat.cast_pos.2 (c.denominator_pos r))

/-- a message is worth at most what was sent -/
theorem outboundAmount_le {localAmount messageAmount : ℕ} (h : outboundAmount c r localAmount = .ok messageAmount) :
    (messageAmount : ℚ) ≤ localAmount * c.rate r := by
  rw [checked_ok h, Config.rate, ← mul_div_assoc, ← Nat.cast_mul]
  exact Nat.cast_div_le

/-- at most the worth of a message is paid out -/
theorem inboundAmount_le {messageAmount localAmount : ℕ} (h : inboundAmount c r messageAmount = .ok localAmount) :
    (localAmount : ℚ) * c.rate r ≤ messageAmount := by
  have hn : (0 : ℚ) < c.scaleNumerator r := Nat.cast_pos.2 (c.numerator_pos r)
  have hd : (0 : ℚ) < c.scaleDenominator r := Nat.cast_pos.2 (c.denominator_pos r)
  have hle : (localAmount : ℚ) ≤ messageAmount * c.scaleDenominator r / c.scaleNumerator r := by
    rw [checked_ok h, ← Nat.cast_mul]
    exact Nat.cast_div_le
  calc (localAmount : ℚ) * c.rate r
      ≤ messageAmount * c.scaleDenominator r / c.scaleNumerator r * c.rate r :=
        mul_le_mul_of_nonneg_right hle (rate_pos r).le
    _ = messageAmount := by
        unfold Config.rate
        field_simp

section Worth

variable [Fintype R]

/-- the collateral that liquidity providers do not own -/
def collateral (c : Config R U E C) (s : Route R U E C) : ℚ :=
  ∑ r with c.isSynthetic r = false, (((s.world (c.token r)).balance (.router r) : ℚ) - s.lpAssets r) * c.rate r

/-- the synthetic supply and the messages on their way -/
def liabilities (c : Config R U E C) (s : Route R U E C) : ℚ :=
  ∑ r with c.isSynthetic r = true, (syntheticSupply c s.world r : ℚ) * c.rate r +
    (s.messages.map fun m => (m.amount : ℚ)).sum

/-- what is not approved for fee hooks covers the liabilities -/
structure Inv (c : Config R U E C) (s : Route R U E C) : Prop where
  confined : Confined c s.world
  covered : liabilities c s ≤ ∑ r with c.isSynthetic r = false, ((freeBalance c s.world r : ℚ) - s.lpAssets r) * c.rate r

/-- what a call does is balanced -/
theorem Inv.of_moves {s s' : Route R U E C} {δ σ ζ : R → ℤ} {μ : ℚ} (h : Inv c s) (hm : Moves c s.world s'.world δ σ)
    (hlp : ∀ r, (s'.lpAssets r : ℤ) = s.lpAssets r + ζ r)
    (hmessages : (s'.messages.map fun m => (m.amount : ℚ)).sum = (s.messages.map fun m => (m.amount : ℚ)).sum + μ)
    (hnet : ∑ r with c.isSynthetic r = true, (σ r : ℚ) * c.rate r + μ ≤
      ∑ r with c.isSynthetic r = false, ((δ - ζ) r : ℚ) * c.rate r) : Inv c s' := by
  refine ⟨hm.confined h.confined, ?_⟩
  have hsupply : ∑ r with c.isSynthetic r = true, (syntheticSupply c s'.world r : ℚ) * c.rate r ≤
      ∑ r with c.isSynthetic r = true, (syntheticSupply c s.world r : ℚ) * c.rate r +
        ∑ r with c.isSynthetic r = true, (σ r : ℚ) * c.rate r := by
    rw [← Finset.sum_add_distrib]
    refine Finset.sum_le_sum fun r hr => ?_
    have hle := hm.supply r (Finset.mem_filter.1 hr).2
    rw [← add_mul]
    exact mul_le_mul_of_nonneg_right (by exact_mod_cast hle) (rate_pos r).le
  have hfree : ∑ r with c.isSynthetic r = false, ((freeBalance c s.world r : ℚ) - s.lpAssets r) * c.rate r +
      ∑ r with c.isSynthetic r = false, ((δ - ζ) r : ℚ) * c.rate r ≤
      ∑ r with c.isSynthetic r = false, ((freeBalance c s'.world r : ℚ) - s'.lpAssets r) * c.rate r := by
    rw [← Finset.sum_add_distrib]
    refine Finset.sum_le_sum fun r hr => ?_
    have hle := hm.free h.confined r (Finset.mem_filter.1 hr).2
    have hle' : freeBalance c s.world r - s.lpAssets r + (δ - ζ) r ≤ freeBalance c s'.world r - s'.lpAssets r := by
      rw [hlp, Pi.sub_apply]
      linarith
    rw [← add_mul]
    exact mul_le_mul_of_nonneg_right (by exact_mod_cast hle') (rate_pos r).le
  have hcovered := h.covered
  unfold liabilities at hcovered ⊢
  rw [hmessages]
  linarith

/-- a call that moves nothing out -/
theorem Inv.quiet {s : Route R U E C} {w : World R U E C} (h : Inv c s) (hm : Moves c s.world w 0 0) :
    Inv c { s with world := w } :=
  h.of_moves (ζ := 0) (μ := 0) hm (fun _ => by simp) (by simp) (by simp)

end Worth

/-! ## Changes at one router -/

theorem token_native (h : c.kind r = .HypNative) : c.token r = c.currency r ∧ c.isSynthetic r = false := by
  simp [Config.token, Config.currency, Config.isSynthetic, h]

theorem token_ne_currency (h : c.kind r ≠ .HypNative) : c.token r ≠ c.currency r := by
  cases hk : c.kind r with
  | HypNative => exact absurd hk h
  | HypERC20Collateral t => simp [Config.token, Config.currency, hk]
  | HypERC20 => simp [Config.token, Config.currency, hk]

theorem token_synthetic {r' : R} (h : c.isSynthetic r' = true) : c.token r' = .erc20 (.synthetic r) ↔ r' = r := by
  unfold Config.isSynthetic at h
  cases hk : c.kind r' with
  | HypERC20 => simp [Config.token, hk]
  | HypNative => simp [hk] at h
  | HypERC20Collateral t => simp [hk] at h

theorem onlyCollateral_ok {u : Unit} (h : onlyCollateral c r = .ok u) : c.isSynthetic r = false := by
  unfold onlyCollateral at h
  split at h
  · exact nomatch h
  next hsyn => exact eq_false_of_ne_true hsyn

theorem valueLeft_ok {value x refund : ℕ} (h : valueLeft value x = .ok refund) : refund + x = value := by
  unfold valueLeft at h
  split at h
  next hle =>
    obtain rfl := Except.ok.inj h
    exact Nat.sub_add_cancel hle
  next => exact nomatch h

theorem start_inv [Fintype R] (c : Config R U E C) (foreign : World R U E C) : Inv c (Route.start foreign) := by
  have hzero : ∀ t (r : R) spender, (startWorld foreign t).allowance (.router r) spender = 0 := by
    intro t r spender
    match t with
    | .native chain => rfl
    | .erc20 (.external e) => rfl
    | .erc20 (.synthetic r) => rfl
    | .erc20 (.lpShare r) => rfl
  have hsupply : ∀ r, c.isSynthetic r = true → syntheticSupply c (startWorld foreign) r = 0 := by
    intro r hr
    rw [syntheticSupply, (token_synthetic hr).2 rfl]
    rfl
  have hleft : liabilities c (Route.start foreign) = 0 := by
    unfold liabilities Route.start
    rw [Finset.sum_eq_zero fun r hr => by rw [hsupply r (Finset.mem_filter.1 hr).2, Nat.cast_zero, zero_mul]]
    simp
  refine ⟨fun r t spender hne => absurd (hzero t r spender) hne, ?_⟩
  rw [hleft]
  refine Finset.sum_nonneg fun r _ => mul_nonneg ?_ (rate_pos r).le
  have hallow : hookAllowance c (startWorld foreign) r = 0 := by
    unfold hookAllowance
    split
    · rfl
    · exact hzero _ _ _
  simp [Route.start, freeBalance, hallow]

variable [DecidableEq R]

/-- a change of the free balance of a collateral router -/
def credit (c : Config R U E C) (r : R) (x : ℤ) : R → ℤ := if c.isSynthetic r then 0 else Pi.single r x

/-- a change of the supply of a synthetic router -/
def issue (c : Config R U E C) (r : R) (x : ℤ) : R → ℤ := if c.isSynthetic r then Pi.single r x else 0

theorem credit_add (x y : ℤ) : credit c r x + credit c r y = credit c r (x + y) := by
  unfold credit
  split
  · simp
  · rw [← Pi.single_add]

theorem issue_add (x y : ℤ) : issue c r x + issue c r y = issue c r (x + y) := by
  unfold issue
  split
  · rw [← Pi.single_add]
  · simp

theorem credit_mono {x y : ℤ} (h : x ≤ y) (r' : R) : credit c r x r' ≤ credit c r y r' := by
  unfold credit
  split
  · exact le_rfl
  · exact Pi.single_le_single.2 h r'

theorem issue_mono {x y : ℤ} (h : x ≤ y) (r' : R) : issue c r x r' ≤ issue c r y r' := by
  unfold issue
  split
  · exact Pi.single_le_single.2 h r'
  · exact le_rfl

theorem credit_apply {r' : R} (h : c.isSynthetic r' = false) (x : ℤ) : credit c r x r' = (Pi.single r x : R → ℤ) r' := by
  unfold credit
  split
  next hsyn =>
    have hne : r' ≠ r := fun he => Bool.false_ne_true (h.symm.trans (he ▸ hsyn))
    rw [Pi.single_eq_of_ne hne, Pi.zero_apply]
  next => rfl

theorem issue_apply {r' : R} (h : c.isSynthetic r' = true) (x : ℤ) : issue c r x r' = (Pi.single r x : R → ℤ) r' := by
  unfold issue
  split
  next => rfl
  next hsyn =>
    have hne : r' ≠ r := fun he => hsyn (he ▸ h)
    rw [Pi.single_eq_of_ne hne, Pi.zero_apply]

theorem sum_single_mul [Fintype R] (P : R → Bool) (r : R) (x : ℤ) (ρ : R → ℚ) :
    ∑ r' with P r' = true, ((Pi.single r x : R → ℤ) r' : ℚ) * ρ r' = if P r then x * ρ r else 0 := by
  rw [Finset.sum_filter, Finset.sum_eq_single r]
  · rw [Pi.single_eq_same]
  · intro r' _ hr'
    rw [Pi.single_eq_of_ne hr', Int.cast_zero, zero_mul, ite_self]
  · exact fun hr => absurd (Finset.mem_univ r) hr

/-- a call of one router -/
theorem Inv.moves [Fintype R] {s s' : Route R U E C} {x y z : ℤ} {μ : ℚ} (h : Inv c s)
    (hm : Moves c s.world s'.world (credit c r x) (issue c r y))
    (hlp : ∀ r', (s'.lpAssets r' : ℤ) = s.lpAssets r' + (Pi.single r z : R → ℤ) r')
    (hmessages : (s'.messages.map fun m => (m.amount : ℚ)).sum = (s.messages.map fun m => (m.amount : ℚ)).sum + μ)
    (hsyn : c.isSynthetic r = true → y * c.rate r + μ ≤ 0) (hcoll : c.isSynthetic r = false → μ ≤ (x - z) * c.rate r) :
    Inv c s' := by
  refine h.of_moves (δ := Pi.single r x) (σ := Pi.single r y) (hm.weaken (fun r' hr' => (credit_apply hr' x).ge)
    fun r' hr' => (issue_apply hr' y).le) hlp hmessages ?_
  have hissue := sum_single_mul (fun r => c.isSynthetic r) r y c.rate
  have hcredit := sum_single_mul (fun r => !c.isSynthetic r) r (x - z) c.rate
  simp only [Bool.not_eq_true', Int.cast_sub] at hcredit
  rw [hissue, ← Pi.single_sub, hcredit]
  cases hr : c.isSynthetic r with
  | true => simpa using hsyn hr
  | false => simpa using hcoll hr

/-- liquidity that comes in -/
theorem Inv.payIn [Fintype R] {s : Route R U E C} {amount lpAssets : ℕ} (h : Inv c s) (hm : Moves c s.world w (credit c r amount) 0)
    (hlp : checked (s.lpAssets r + amount) = .ok lpAssets) (hsyn : c.isSynthetic r = false) :
    Inv c { s with world := w, lpAssets := Function.update s.lpAssets r lpAssets } := by
  refine h.moves (y := 0) (z := amount) (μ := 0) (hm.weaken (fun _ _ => le_rfl) fun _ _ => by simp [issue, hsyn])
    (fun r' => ?_) (by simp) (fun hs => absurd (hsyn.symm.trans hs) Bool.false_ne_true) fun _ => by simp
  rw [checked_ok hlp]
  by_cases hr : r' = r
  · subst hr
    simp
  · simp [hr]

/-! ## Tokens -/

variable [DecidableEq E] [DecidableEq C]

/-- value that is the router's own token -/
def carried (c : Config R U E C) (r : R) (x : ℤ) : ℤ := if c.kind r = .HypNative then x else 0

/-- an operation on one token that leaves the routers' approvals alone -/
theorem Moves.of_on {t : Token R E C} {f : Ledger (Account R U) → Except Reason (Ledger (Account R U))} {β : R → ℤ} {ς : ℤ}
    (h : w.on t f = .ok w') (hallow : ∀ r spender, (w' t).allowance (.router r) spender = (w t).allowance (.router r) spender)
    (hbalance : ∀ r, ((w t).balance (.router r) : ℤ) + β r ≤ (w' t).balance (.router r))
    (hsupply : ((w' t).totalSupply : ℤ) ≤ (w t).totalSupply + ς) :
    Moves c w w' (fun r => if c.token r = t then β r else 0) (fun r => if c.token r = t then ς else 0) := by
  have hother := (Bank.on_ok h).2
  have hsame : ∀ t' r spender, (w' t').allowance (.router r) spender = (w t').allowance (.router r) spender := by
    intro t' r spender
    by_cases ht : t' = t
    · rw [ht, hallow]
    · rw [hother t' ht]
  have hhook : ∀ r, hookAllowance c w' r = hookAllowance c w r := by
    intro r
    unfold hookAllowance
    split
    · rfl
    · exact hsame _ _ _
  refine ⟨fun hc r t' spender hne => hc r t' spender (hsame t' r spender ▸ hne), fun _ r _ => ?_, fun r _ => ?_⟩
  · simp only [freeBalance, hhook]
    by_cases ht : c.token r = t
    · rw [if_pos ht, ht]
      linarith [hbalance r]
    · rw [if_neg ht, hother _ ht]
      linarith
  · simp only [syntheticSupply]
    by_cases ht : c.token r = t
    · rw [if_pos ht, ht]
      exact hsupply
    · rw [if_neg ht, hother _ ht]
      linarith

variable [DecidableEq U]

/-- what arrives at the collateral routers when `x` of a token goes to an account -/
def inflow (c : Config R U E C) (t : Token R E C) (a : Account R U) (x : ℕ) (r : R) : ℤ :=
  if c.token r = t then Ledger.part (.router r = a) x else 0

theorem inflow_nonneg (t : Token R E C) (a : Account R U) (x : ℕ) (r : R) : 0 ≤ inflow c t a x r := by
  unfold inflow Ledger.part
  split_ifs <;> omega

theorem inflow_user (t : Token R E C) (u : U) (x : ℕ) (r : R) : inflow c t (.user u) x r = 0 := by
  simp [inflow, Ledger.part]

theorem inflow_router (r : R) (x : ℕ) : inflow c (c.token r) (.router r) x = Pi.single r (x : ℤ) := by
  funext r'
  by_cases hr : r' = r
  · subst hr
    simp [inflow, Ledger.part]
  · simp [inflow, Ledger.part, hr]

/-- what does not go to a router in its own token does not count -/
theorem inflow_other {t : Token R E C} {r : R} (h : c.token r ≠ t) (x : ℕ) : inflow c t (.router r) x = 0 := by
  funext r'
  by_cases hr : r' = r
  · subst hr
    simp [inflow, h]
  · simp [inflow, Ledger.part, hr]

/-- value arriving at a router counts if it is its token -/
theorem inflow_currency (r : R) (x : ℕ) : inflow c (c.currency r) (.router r) x = credit c r (carried c r x) := by
  unfold credit carried
  by_cases hk : c.kind r = .HypNative
  · obtain ⟨htoken, hsyn⟩ := token_native hk
    rw [← htoken, inflow_router, if_pos hk, hsyn]
    rfl
  · rw [inflow_other (token_ne_currency hk), if_neg hk]
    split <;> simp

theorem transfer_moves {t : Token R E C} {src dst : Account R U} {x : ℕ}
    (h : w.on t (fun l => l.transfer src dst x) = .ok w') :
    Moves c w w' (inflow c t dst x - inflow c t src x) 0 := by
  obtain ⟨-, hallow, hsupply, hbalance⟩ := Ledger.transfer_ok (Bank.on_ok h).1
  have hmoves : Moves c w w' _ _ := Moves.of_on (ς := 0)
    (β := fun r => Ledger.part (.router r = dst) x - Ledger.part (.router r = src) x) h (fun _ _ => by rw [hallow])
    (fun r => by rw [hbalance]; linarith) (by rw [hsupply, add_zero])
  refine hmoves.weaken (fun r _ => ?_) fun r _ => ?_
  · simp only [Pi.sub_apply, inflow]
    split <;> simp
  · simp

theorem mint_moves {t : Token R E C} {dst : Account R U} {x : ℕ} (h : w.on t (fun l => l.mint dst x) = .ok w') :
    Moves c w w' (inflow c t dst x) fun r => if c.token r = t then (x : ℤ) else 0 := by
  obtain ⟨hallow, hsupply, hbalance⟩ := Ledger.mint_ok (Bank.on_ok h).1
  exact Moves.of_on h (fun _ _ => by rw [hallow]) (fun r => (hbalance (.router r)).ge)
    (by rw [hsupply, Nat.cast_add])

theorem burn_moves {t : Token R E C} {src : Account R U} {x : ℕ}
    (h : w.on t (fun l => l.burn src x) = .ok w') :
    Moves c w w' (-inflow c t src x) fun r => if c.token r = t then -(x : ℤ) else 0 := by
  obtain ⟨-, hallow, hsupply, hbalance⟩ := Ledger.burn_ok (Bank.on_ok h).1
  have hmoves : Moves c w w' _ _ := Moves.of_on (ς := -(x : ℤ)) (β := fun r => -Ledger.part (.router r = src) x) h
    (fun _ _ => by rw [hallow]) (fun r => by rw [hbalance]; linarith) (by rw [← hsupply]; push_cast; linarith)
  refine hmoves.weaken (fun r _ => ?_) fun r _ => le_rfl
  simp only [Pi.neg_apply, inflow]
  split <;> simp

/-- what is spent of a router's approval was approved for its fee hook -/
theorem spend_moves {t : Token R E C} {owner : Account R U} {spender : U} {x : ℕ}
    (h : w.on t (fun l => l.spendAllowance owner (.user spender) x) = .ok w') : Moves c w w' (inflow c t owner x) 0 := by
  obtain ⟨hl, hother⟩ := Bank.on_ok h
  obtain ⟨hx, hl⟩ := Ledger.spendAllowance_ok hl
  have hallow : ∀ t' o s, (w' t').allowance o s =
      if t' = t ∧ o = owner ∧ s = .user spender then (w t).allowance owner (.user spender) - x else (w t').allowance o s := by
    intro t' o s
    by_cases ht : t' = t
    · rw [ht, hl]
      simp [Ledger.approve]
    · rw [hother t' ht, if_neg fun hc => ht hc.1]
  have hle : ∀ t' o s, (w' t').allowance o s ≤ (w t').allowance o s := by
    intro t' o s
    rw [hallow]
    split
    next hc =>
      obtain ⟨rfl, rfl, rfl⟩ := hc
      exact Nat.sub_le _ _
    next => exact le_rfl
  have hrest : ∀ t', (w' t').balance = (w t').balance ∧ (w' t').totalSupply = (w t').totalSupply := by
    intro t'
    by_cases ht : t' = t
    · rw [ht, hl]
      exact ⟨rfl, rfl⟩
    · rw [hother t' ht]
      exact ⟨rfl, rfl⟩
  refine ⟨fun hc r t' s hne => hc r t' s fun h0 => hne (Nat.le_zero.1 (h0 ▸ hle t' _ s)), fun hc r _ => ?_, fun r _ => ?_⟩
  · have hspent : (hookAllowance c w' r : ℤ) + inflow c t owner x r ≤ hookAllowance c w r := by
      by_cases hin : inflow c t owner x r = 0
      · rw [hin, add_zero]
        exact_mod_cast hookAllowance_mono hle r
      · -- the router itself approved the spender, which is its fee hook
        obtain ⟨ht, howner, hx0⟩ : c.token r = t ∧ .router r = owner ∧ x ≠ 0 := by
          unfold inflow Ledger.part at hin
          split_ifs at hin with ht howner
          · exact ⟨ht, howner, fun h0 => hin (by rw [h0]; rfl)⟩
          · exact absurd rfl hin
          · exact absurd rfl hin
        subst ht howner
        have hne : (w (c.token r)).allowance (.router r) (.user spender) ≠ 0 := fun h0 => hx0 (Nat.le_zero.1 (h0 ▸ hx))
        obtain ⟨-, hook, beneficiary, hhook, hspender⟩ := hc r _ _ hne
        rw [inflow_router, Pi.single_eq_same]
        simp only [hookAllowance, hhook, ← hspender, hallow, and_self, if_true]
        rw [Nat.cast_sub hx]
        linarith
    simp only [freeBalance, (hrest _).1]
    linarith
  · simp [syntheticSupply, (hrest _).2]

theorem transferFrom_moves {t : Token R E C} {spender : U} {src dst : Account R U} {x : ℕ}
    (h : w.on t (fun l => l.transferFrom (.user spender) src dst x) = .ok w') : Moves c w w' (inflow c t dst x) 0 := by
  obtain ⟨w1, hspend, htransfer⟩ := Outcome.bind_eq_ok.1 ((Bank.on_bind _ _ _ _).symm.trans h)
  exact ((spend_moves hspend).trans (transfer_moves htransfer)).weaken (fun r _ => by simp) fun r _ => by simp

/-- somebody spends the approval of a user -/
theorem userTransferFrom_moves {t : Token R E C} {spender : Account R U} {u : U} {dst : Account R U} {x : ℕ}
    (h : w.on t (fun l => l.transferFrom spender (.user u) dst x) = .ok w') : Moves c w w' (inflow c t dst x) 0 := by
  obtain ⟨-, hsupply, hallow, hbalance⟩ := Ledger.transferFrom_ok (Bank.on_ok h).1
  have hmoves : Moves c w w' _ _ := Moves.of_on (ς := 0) (β := fun r => Ledger.part (.router r = dst) x) h
    (fun _ _ => by rw [hallow]; simp [Ledger.approve]) (fun r => by rw [hbalance]; simp [Ledger.part])
    (by rw [hsupply, add_zero])
  exact hmoves.weaken (fun r _ => le_rfl) fun r _ => by simp

theorem userApprove_moves {t : Token R E C} {u : U} {spender : Account R U} {x : ℕ}
    (h : w.on t (fun l => .ok (l.approve (.user u) spender x)) = .ok w') : Moves c w w' 0 0 := by
  have hl := Except.ok.inj (Bank.on_ok h).1
  have hmoves : Moves c w w' _ _ := Moves.of_on (ς := 0) (β := fun _ => 0) h (fun _ _ => by rw [← hl]; simp [Ledger.approve])
    (fun r => by rw [← hl]; simp [Ledger.approve]) (by rw [← hl]; simp [Ledger.approve])
  exact hmoves.weaken (fun r _ => by simp) fun r _ => by simp

/-- a router approves its fee hook -/
theorem hookApprove_moves {r : R} {hook beneficiary : U} (hhook : c.feeHook r = some (hook, beneficiary)) {x : ℕ}
    (h : w.on (c.token r) (fun l => .ok (l.approve (.router r) (.user hook) x)) = .ok w') :
    Moves c w w' (-Pi.single r (x : ℤ)) 0 := by
  obtain ⟨hl, hother⟩ := Bank.on_ok h
  have hl := Except.ok.inj hl
  have hrest : ∀ t, (w' t).balance = (w t).balance ∧ (w' t).totalSupply = (w t).totalSupply := by
    intro t
    by_cases ht : t = c.token r
    · rw [ht, ← hl]
      exact ⟨rfl, rfl⟩
    · rw [hother t ht]
      exact ⟨rfl, rfl⟩
  have hallow : ∀ t o s, (w' t).allowance o s =
      if t = c.token r ∧ o = .router r ∧ s = .user hook then x else (w t).allowance o s := by
    intro t o s
    by_cases ht : t = c.token r
    · rw [ht, ← hl]
      simp [Ledger.approve]
    · rw [hother t ht, if_neg fun hc => ht hc.1]
  refine ⟨fun hc r' t s hne => ?_, fun _ r' _ => ?_, fun r' _ => ?_⟩
  · rw [hallow] at hne
    split at hne
    next hcase =>
      obtain ⟨ht, hr, hs⟩ := hcase
      obtain rfl := Account.router.inj hr
      exact ⟨ht, hook, beneficiary, hhook, hs⟩
    next => exact hc r' t s hne
  · simp only [freeBalance, (hrest _).1, Pi.neg_apply]
    by_cases hr : r' = r
    · subst hr
      have hnew : hookAllowance c w' r' = x := by simp [hookAllowance, hhook, hallow]
      rw [hnew, Pi.single_eq_same]
      have := Int.natCast_nonneg (hookAllowance c w r')
      linarith
    · have hsame : hookAllowance c w' r' = hookAllowance c w r' := by
        unfold hookAllowance
        split
        · rfl
        · rw [hallow, if_neg fun hcase => hr (Account.router.inj hcase.2.1)]
      rw [hsame, Pi.single_eq_of_ne hr]
      linarith
  · simp [syntheticSupply, (hrest _).2]

/-- liquidity shares are no router's synthetic token -/
theorem lpMint_moves {r : R} {receiver : Account R U} {shares : ℕ}
    (h : w.on (.erc20 (.lpShare r)) (fun l => l.mint receiver shares) = .ok w') : Moves c w w' 0 0 := by
  refine (mint_moves h).weaken (fun r' _ => inflow_nonneg _ _ _ r') fun r' hr' => ?_
  have hne : c.token r' ≠ .erc20 (.lpShare r) := by
    rw [(token_synthetic hr').2 rfl]
    exact fun he => nomatch he
  rw [if_neg hne, Pi.zero_apply]

theorem lpBurn_moves {r : R} {caller : U} {owner : Account R U} {shares : ℕ}
    (hspend : w.on (.erc20 (.lpShare r)) (fun l =>
      if .user caller = owner then .ok l else l.spendAllowance owner (.user caller) shares) = .ok w1)
    (hburn : w1.on (.erc20 (.lpShare r)) (fun l => l.burn owner shares) = .ok w') : Moves c w w' 0 0 := by
  have happroved : Moves c w w1 (inflow c (.erc20 (.lpShare r)) owner shares) 0 := by
    by_cases howner : .user caller = owner
    · simp only [howner, if_true] at hspend
      have hl := Except.ok.inj (Bank.on_ok hspend).1
      have hsame : w1 = w := by
        funext t
        by_cases ht : t = .erc20 (.lpShare r)
        · rw [ht, hl]
        · exact (Bank.on_ok hspend).2 t ht
      rw [hsame, ← howner]
      exact (Moves.refl w).weaken (fun r' _ => (inflow_user _ _ _ r').le) fun r' _ => le_rfl
    · simp only [howner, if_false] at hspend
      exact spend_moves hspend
  refine (happroved.trans (burn_moves hburn)).weaken (fun r' _ => by simp) fun r' hr' => ?_
  have hne : c.token r' ≠ .erc20 (.lpShare r) := by
    rw [(token_synthetic hr').2 rfl]
    exact fun he => nomatch he
  simp [hne]

/-! ## Routers -/

theorem payValue_moves {sender : U} {value : ℕ} (h : payValue c r sender value w = .ok w') :
    Moves c w w' (credit c r (carried c r value)) 0 := by
  refine (transfer_moves h).weaken (fun r' _ => ?_) fun r' _ => le_rfl
  rw [Pi.sub_apply, inflow_user, sub_zero, inflow_currency]

theorem transferTo_moves {recipient : Account R U} {amount : ℕ} (h : transferTo c r recipient amount w = .ok w') :
    Moves c w w' (credit c r (-amount)) (issue c r amount) := by
  unfold transferTo at h
  have hout : ∀ t, c.token r = t → c.isSynthetic r = false →
      w.on t (fun l => l.transfer (.router r) recipient amount) = .ok w' →
      Moves c w w' (credit c r (-amount)) (issue c r amount) := by
    intro t ht hsyn h
    subst ht
    refine (transfer_moves h).weaken (fun r' _ => ?_) fun r' _ => ?_
    · have hin := inflow_nonneg (c := c) (c.token r) recipient amount r'
      simp only [credit, hsyn, Pi.sub_apply, inflow_router, Bool.false_eq_true, if_false, Pi.single_neg, Pi.neg_apply]
      linarith
    · simp [issue, hsyn]
  cases hk : c.kind r with
  | HypNative =>
    rw [hk] at h
    exact hout _ (by simp [Config.token, hk]) (by simp [Config.isSynthetic, hk]) h
  | HypERC20Collateral t =>
    rw [hk] at h
    exact hout _ (by simp [Config.token, hk]) (by simp [Config.isSynthetic, hk]) h
  | HypERC20 =>
    rw [hk] at h
    have hsyn : c.isSynthetic r = true := by simp [Config.isSynthetic, hk]
    refine (mint_moves h).weaken (fun r' _ => ?_) fun r' hr' => ?_
    · simpa [credit, hsyn] using inflow_nonneg (c := c) _ recipient amount r'
    · simp only [issue, hsyn, if_true, token_synthetic hr', Pi.single_apply]
      exact le_rfl

theorem transferFromSender_moves {sender : U} {value amount : ℕ}
    (h : transferFromSender c r sender value amount w = .ok w') :
    Moves c w w' (credit c r (amount - carried c r amount)) (issue c r (-amount)) := by
  unfold transferFromSender at h
  cases hk : c.kind r with
  | HypNative =>
    simp only [hk] at h
    split at h
    · obtain rfl := Except.ok.inj h
      refine (Moves.refl w).weaken (fun r' _ => ?_) fun r' _ => ?_
      · simp [credit, carried, hk]
      · simp [issue, (token_native hk).2]
    · exact nomatch h
  | HypERC20Collateral t =>
    rw [hk] at h
    have hsyn : c.isSynthetic r = false := by simp [Config.isSynthetic, hk]
    have htoken : c.token r = .erc20 t := by simp [Config.token, hk]
    refine (userTransferFrom_moves h).weaken (fun r' _ => ?_) fun r' _ => ?_
    · rw [← htoken, inflow_router]
      simp [credit, carried, hk, hsyn]
    · simp [issue, hsyn]
  | HypERC20 =>
    rw [hk] at h
    have hsyn : c.isSynthetic r = true := by simp [Config.isSynthetic, hk]
    refine (burn_moves h).weaken (fun r' _ => ?_) fun r' hr' => ?_
    · simp [credit, hsyn, inflow_user]
    · simp only [issue, hsyn, if_true, token_synthetic hr', Pi.single_apply]
      exact le_rfl

/-- assets that a user pays in -/
theorem payIn_moves {sender : U} {value amount : ℕ} (hpay : payValue c r sender value w = .ok w1)
    (hpull : transferFromSender c r sender value amount w1 = .ok w') (hsyn : c.isSynthetic r = false) :
    Moves c w w' (credit c r amount) 0 := by
  have hmoves := (payValue_moves hpay).trans (transferFromSender_moves hpull)
  rw [credit_add, zero_add] at hmoves
  refine hmoves.weaken (fun r' _ => credit_mono ?_ r') fun r' _ => by simp [issue, hsyn]
  by_cases hk : c.kind r = .HypNative
  · have hle : amount ≤ value := by
      simp only [transferFromSender, hk] at hpull
      split at hpull
      · assumption
      · exact nomatch hpull
    simp only [carried, hk, if_true]
    omega
  · simp [carried, hk]

theorem transferFee_moves {recipient : Option (Account R U)} {fee : ℕ} (h : transferFee c r recipient fee w = .ok w') :
    Moves c w w' (credit c r (-fee)) (issue c r fee) := by
  have hnone : Moves c w w (credit c r (-fee)) (issue c r fee) := by
    refine (Moves.refl w).weaken (fun r' _ => ?_) fun r' _ => ?_
    · refine (credit_mono (y := 0) (by simp) r').trans (le_of_eq ?_)
      simp [credit]
    · refine (le_of_eq ?_).trans (issue_mono (x := 0) (by simp) r')
      simp [issue]
  unfold transferFee at h
  split at h
  · split at h
    · exact transferTo_moves h
    · obtain rfl := Except.ok.inj h
      exact hnone
  · obtain rfl := Except.ok.inj h
    exact hnone

/-- what is added to the charge is approved for the hook -/
theorem chargeHook_moves {sender : U} {charge charge' hookFee : ℕ}
    (h : chargeHook c r sender charge hookFee w = .ok (w', charge')) :
    Moves c w w' (credit c r (charge - charge')) 0 ∧ (c.isSynthetic r = true ∨ c.kind r = .HypNative → charge' = charge) := by
  unfold chargeHook at h
  split at h
  next =>
    obtain ⟨rfl, rfl⟩ := Prod.mk.inj (Except.ok.inj h)
    refine ⟨(Moves.refl w).weaken (fun r' _ => ?_) fun r' _ => le_rfl, fun _ => rfl⟩
    simp [credit]
  next hook beneficiary hhook =>
    have hnative : c.kind r ≠ .HypNative := fun hk => nomatch (c.feeHook_erc20 r hk).symm.trans hhook
    split at h
    next hsyn =>
      obtain ⟨w1, hpull, h⟩ := Outcome.bind_eq_ok.1 h
      obtain ⟨w2, happrove, h⟩ := Outcome.bind_eq_ok.1 h
      obtain ⟨rfl, rfl⟩ := Prod.mk.inj (Except.ok.inj h)
      refine ⟨((userTransferFrom_moves hpull).trans (hookApprove_moves hhook happrove)).weaken (fun r' hr' => ?_)
        fun r' _ => by simp, fun _ => rfl⟩
      have hne : r' ≠ r := fun he => Bool.false_ne_true (hr'.symm.trans (he ▸ hsyn))
      simpa [credit, hsyn, Pi.single_eq_of_ne hne] using inflow_nonneg (c := c) _ _ _ r'
    next hsyn =>
      obtain ⟨charge1, hcharge, h⟩ := Outcome.bind_eq_ok.1 h
      obtain ⟨w1, happrove, h⟩ := Outcome.bind_eq_ok.1 h
      obtain ⟨rfl, rfl⟩ := Prod.mk.inj (Except.ok.inj h)
      obtain rfl := checked_ok hcharge
      refine ⟨(hookApprove_moves hhook happrove).weaken (fun r' _ => ?_) fun r' _ => le_rfl, fun hcase => ?_⟩
      · simp [credit, hsyn, Pi.single_neg]
      · exact (hcase.elim (absurd · hsyn) (absurd · hnative))

/-- the amount arrives, or is burned, and the rest of the value is left -/
theorem calculateFeesAndCharge_moves {sender : U} {amount value remaining : ℕ} {v : Views R U E C}
    (h : calculateFeesAndCharge c r sender amount value v w = .ok (w', remaining)) :
    Moves c w w' (credit c r (amount + carried c r (remaining - value))) (issue c r (-amount)) := by
  obtain ⟨⟨recipient, fee⟩, -, h⟩ := Outcome.bind_eq_ok.1 h
  obtain ⟨charge, hcharge, h⟩ := Outcome.bind_eq_ok.1 h
  obtain ⟨⟨w1, charge1⟩, hhook, h⟩ := Outcome.bind_eq_ok.1 h
  obtain ⟨w2, hpull, h⟩ := Outcome.bind_eq_ok.1 h
  obtain ⟨w3, hfee, h⟩ := Outcome.bind_eq_ok.1 h
  obtain ⟨remaining1, hremaining, h⟩ := Outcome.bind_eq_ok.1 h
  obtain ⟨rfl, rfl⟩ := Prod.mk.inj (Except.ok.inj h)
  have hcharge := checked_ok hcharge
  obtain ⟨hhook, hsame⟩ := chargeHook_moves hhook
  have hmoves := (hhook.trans (transferFromSender_moves hpull)).trans (transferFee_moves hfee)
  rw [credit_add, credit_add, zero_add, issue_add] at hmoves
  refine hmoves.weaken (fun r' _ => credit_mono ?_ r') fun r' _ => ?_
  · -- native value that is not charged is left for the dispatch
    by_cases hk : c.kind r = .HypNative
    · have hrest : remaining1 + charge1 = value := by
        simp only [remainingValue, hk] at hremaining
        exact checkedSub_ok hremaining
      have hcharge1 := hsame (Or.inr hk)
      simp only [carried, hk, if_true]
      omega
    · simp only [carried, hk, if_false]
      omega
  · by_cases hsyn : c.isSynthetic r = true
    · have hcharge1 := hsame (Or.inl hsyn)
      exact issue_mono (by omega) r'
    · simp [issue, hsyn]

theorem dispatch_moves {sender : U} {value : ℕ} {taken : Taken U} (h : dispatch c r sender value taken w = .ok w') :
    Moves c w w' (credit c r (-carried c r value)) 0 := by
  obtain ⟨refund, hrefund, h⟩ := Outcome.bind_eq_ok.1 h
  obtain ⟨w1, htake, h⟩ := Outcome.bind_eq_ok.1 h
  obtain ⟨w2, hreturn, h⟩ := Outcome.bind_eq_ok.1 h
  have hpull : Moves c w2 w' 0 0 := by
    split at h
    · obtain rfl := Except.ok.inj h
      exact Moves.refl w2
    · exact (transferFrom_moves h).weaken (fun r' _ => inflow_nonneg _ _ _ r') fun r' _ => le_rfl
  refine (((transfer_moves htake).trans (transfer_moves hreturn)).trans hpull).weaken (fun r' _ => ?_) fun r' _ => by simp
  have hsum := congrFun (credit_add (c := c) (r := r) (carried c r taken.native) (carried c r refund)) r'
  have hneg : credit c r (-carried c r value) r' = -credit c r (carried c r value) r' := by
    unfold credit
    split <;> simp [Pi.single_neg]
  have hcarried : carried c r taken.native + carried c r refund = carried c r value := by
    rw [← valueLeft_ok hrefund]
    unfold carried
    split
    · push_cast
      ring
    · simp
  simp only [Pi.add_apply, Pi.sub_apply, inflow_user, inflow_currency, Pi.zero_apply]
  rw [hneg, ← hcarried, ← hsum, Pi.add_apply]
  linarith

theorem transferRemote_moves {s s' : Route R U E C} {sender : U} {value amount : ℕ} {destination : R}
    {recipient : Account R U} {v : Views R U E C} {taken : Taken U}
    (h : transferRemote c r sender value destination recipient amount v taken s = .ok s') :
    Moves c s.world s'.world (credit c r amount) (issue c r (-amount)) ∧ s'.lpAssets = s.lpAssets ∧
      ∃ scaledAmount, outboundAmount c r amount = .ok scaledAmount ∧
        s'.messages = s.messages ++ [⟨destination, recipient, scaledAmount⟩] := by
  obtain ⟨w1, hpay, h⟩ := Outcome.bind_eq_ok.1 h
  obtain ⟨⟨w2, remaining⟩, hcharge, h⟩ := Outcome.bind_eq_ok.1 h
  obtain ⟨scaledAmount, hscaled, h⟩ := Outcome.bind_eq_ok.1 h
  obtain ⟨w3, hdispatch, h⟩ := Outcome.bind_eq_ok.1 h
  obtain rfl := Except.ok.inj h
  have hmoves := ((payValue_moves hpay).trans (calculateFeesAndCharge_moves hcharge)).trans (dispatch_moves hdispatch)
  rw [credit_add, credit_add, zero_add, add_zero] at hmoves
  refine ⟨hmoves.weaken (fun r' _ => credit_mono ?_ r') fun r' _ => le_rfl, rfl, scaledAmount, hscaled, rfl⟩
  unfold carried
  split <;> linarith

/-! ## Runs -/

variable [Fintype R]

theorem transferRemote_inv {s s' : Route R U E C} {sender : U} {value amount : ℕ} {destination : R}
    {recipient : Account R U} {v : Views R U E C} {taken : Taken U} (hinv : Inv c s)
    (h : transferRemote c r sender value destination recipient amount v taken s = .ok s') : Inv c s' := by
  obtain ⟨hmoves, hlp, scaledAmount, hscaled, hmessages⟩ := transferRemote_moves h
  have hle := outboundAmount_le hscaled
  refine hinv.moves (z := 0) (μ := scaledAmount) hmoves (fun r' => by simp [hlp]) (by simp [hmessages]) (fun _ => ?_)
    fun _ => ?_
  · push_cast
    linarith
  · push_cast
    linarith

theorem handle_inv {s s' : Route R U E C} {i : ℕ} (hinv : Inv c s) (h : handle c i s = .ok s') : Inv c s' := by
  unfold handle at h
  split at h
  · exact nomatch h
  next m hm =>
    obtain ⟨amount, hamount, h⟩ := Outcome.bind_eq_ok.1 h
    obtain ⟨w1, htransfer, h⟩ := Outcome.bind_eq_ok.1 h
    obtain rfl := Except.ok.inj h
    obtain ⟨hi, hget⟩ := List.getElem?_eq_some_iff.1 hm
    have hle := inboundAmount_le hamount
    have hsum : (s.messages.map fun m => (m.amount : ℚ)).sum =
        m.amount + ((s.messages.eraseIdx i).map fun m => (m.amount : ℚ)).sum := by
      have hperm := (List.getElem_cons_eraseIdx_perm hi).map fun m => (m.amount : ℚ)
      rw [hget] at hperm
      exact hperm.sum_eq.symm.trans List.sum_cons
    refine hinv.moves (z := 0) (μ := -m.amount) (transferTo_moves htransfer) (fun r' => by simp) (by rw [hsum]; ring)
      (fun _ => ?_) fun _ => ?_
    · push_cast
      linarith
    · push_cast
      linarith

theorem deposit_inv {s s' : Route R U E C} {sender : U} {value assets shares : ℕ} {receiver : Account R U} (hinv : Inv c s)
    (h : deposit c r sender value receiver assets shares s = .ok s') : Inv c s' := by
  obtain ⟨_, hsyn, h⟩ := Outcome.bind_eq_ok.1 h
  obtain ⟨w1, hpay, h⟩ := Outcome.bind_eq_ok.1 h
  obtain ⟨w2, hpull, h⟩ := Outcome.bind_eq_ok.1 h
  obtain ⟨lpAssets, hlp, h⟩ := Outcome.bind_eq_ok.1 h
  obtain ⟨w3, hmint, h⟩ := Outcome.bind_eq_ok.1 h
  obtain rfl := Except.ok.inj h
  have hmoves := (payIn_moves hpay hpull (onlyCollateral_ok hsyn)).trans (lpMint_moves hmint)
  rw [add_zero, add_zero] at hmoves
  exact hinv.payIn hmoves hlp (onlyCollateral_ok hsyn)

theorem donate_inv {s s' : Route R U E C} {sender : U} {value amount : ℕ} (hinv : Inv c s)
    (h : donate c r sender value amount s = .ok s') : Inv c s' := by
  obtain ⟨_, hsyn, h⟩ := Outcome.bind_eq_ok.1 h
  obtain ⟨w1, hpay, h⟩ := Outcome.bind_eq_ok.1 h
  obtain ⟨w2, hpull, h⟩ := Outcome.bind_eq_ok.1 h
  obtain ⟨lpAssets, hlp, h⟩ := Outcome.bind_eq_ok.1 h
  obtain rfl := Except.ok.inj h
  exact hinv.payIn (payIn_moves hpay hpull (onlyCollateral_ok hsyn)) hlp (onlyCollateral_ok hsyn)

theorem withdraw_inv {s s' : Route R U E C} {caller : U} {receiver owner : Account R U} {assets shares : ℕ} (hinv : Inv c s)
    (h : withdraw c r caller receiver owner assets shares s = .ok s') : Inv c s' := by
  obtain ⟨_, hsyn, h⟩ := Outcome.bind_eq_ok.1 h
  obtain ⟨w1, hspend, h⟩ := Outcome.bind_eq_ok.1 h
  obtain ⟨w2, hburn, h⟩ := Outcome.bind_eq_ok.1 h
  obtain ⟨lpAssets, hlp, h⟩ := Outcome.bind_eq_ok.1 h
  obtain ⟨w3, htransfer, h⟩ := Outcome.bind_eq_ok.1 h
  obtain rfl := Except.ok.inj h
  have hsyn := onlyCollateral_ok hsyn
  have hmoves := (lpBurn_moves hspend hburn).trans (transferTo_moves htransfer)
  rw [zero_add, zero_add] at hmoves
  refine hinv.moves (z := -assets) (μ := 0) hmoves (fun r' => ?_) (by simp)
    (fun hs => absurd (hsyn.symm.trans hs) Bool.false_ne_true) fun _ => by simp
  have hlp := checkedSub_ok hlp
  by_cases hr : r' = r
  · subst hr
    simp only [Function.update_self, Pi.single_eq_same]
    omega
  · simp [hr]

theorem step_inv {s : Route R U E C} (op : Op R U E C) (hinv : Inv c s) : Inv c (step c s op) := by
  unfold step
  cases hrun : op.run c s with
  | error e => exact hinv
  | ok s' =>
    cases op with
    | transferRemote r sender value destination recipient amount v taken => exact transferRemote_inv hinv hrun
    | deliver i => exact handle_inv hinv hrun
    | deposit r sender value receiver assets shares => exact deposit_inv hinv hrun
    | withdraw r caller receiver owner assets shares => exact withdraw_inv hinv hrun
    | donate r sender value amount => exact donate_inv hinv hrun
    | transfer t sender dst x =>
      obtain ⟨w, hw, h⟩ := Outcome.bind_eq_ok.1 hrun
      obtain rfl := Except.ok.inj h
      refine hinv.quiet ((transfer_moves hw).weaken (fun r _ => ?_) fun r _ => le_rfl)
      rw [Pi.sub_apply, inflow_user, sub_zero]
      exact inflow_nonneg _ _ _ r
    | transferFrom t spender src dst x =>
      obtain ⟨w, hw, h⟩ := Outcome.bind_eq_ok.1 hrun
      obtain rfl := Except.ok.inj h
      exact hinv.quiet ((transferFrom_moves hw).weaken (fun r _ => inflow_nonneg _ _ _ r) fun r _ => le_rfl)
    | approve t owner spender x =>
      obtain ⟨w, hw, h⟩ := Outcome.bind_eq_ok.1 hrun
      obtain rfl := Except.ok.inj h
      exact hinv.quiet (userApprove_moves hw)

theorem run_inv {s : Route R U E C} (ops : List (Op R U E C)) (hinv : Inv c s) : Inv c (run c s ops) := by
  induction ops generalizing s with
  | nil => exact hinv
  | cons op ops ih => exact ih (step_inv op hinv)

/-- **A route is solvent.** After any operations on a route that started without synthetic supply and without liquidity,
the collateral that liquidity providers do not own is worth at least the synthetic supply and the messages on their
way. -/
theorem route_solvent (c : Config R U E C) (foreign : World R U E C) (ops : List (Op R U E C)) :
    liabilities c (run c (Route.start foreign) ops) ≤ collateral c (run c (Route.start foreign) ops) := by
  refine (run_inv ops (start_inv c foreign)).covered.trans (Finset.sum_le_sum fun r _ => ?_)
  have hle : (freeBalance c (run c (Route.start foreign) ops).world r : ℚ) ≤
      ((run c (Route.start foreign) ops).world (c.token r)).balance (.router r) := by
    simp [freeBalance]
  exact mul_le_mul_of_nonneg_right (sub_le_sub_right hle _) (rate_pos r).le

end Hyperlane.Warp
