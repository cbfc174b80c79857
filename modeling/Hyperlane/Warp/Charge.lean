/-
How a transfer charges its sender and pays its hooks.

Every stage of a call is described by what it moves (`Moved`) and by when it can fail: never for lack of value or allowance,
if the sender brings what the quotes add up to (`Budget`), and only for lack of balance where a router keeps tokens
(`Excused`). The base router, the bridges and the cross-collateral router hold the quoted gas payment when the message is
made; the vault router holds none of it for a fee hook.

- `quote_ok`, `Quoted.budget`: what the quotes say.
- `collect_base`, `collect_forRouter`, `collect_vault`: the sender is charged.
- `dispatch_ends`: the hooks are paid.
- `transfer_eq`, `charged_ends`: a call until its message is made.
-/
import Hyperlane.Core.Funds
import Hyperlane.Warp.Quotes

namespace Hyperlane.Warp.Quoting

open Hyperlane.Tokens Hyperlane.Outcome

variable {R U E C : Type}

/-! ## Who is paid -/

section Payments

variable (c : Routers R U E C) (r : R) (a : Answers R U E C) (x : Call R U)

/-- the fee that is quoted in the router's token -/
def feeAmount : ℕ :=
  match c.feeRecipient r, a.feeQuotes with
  | some _, [q] => q.amount
  | _, _ => 0

def feePayment : List (Token R E C × Account R U × ℕ) :=
  match c.feeRecipient r with
  | none => []
  | some recipient => [(c.token r, recipient, feeAmount c r a)]

/-- where the amount goes; a synthetic router burns it -/
def principal : List (Token R E C × Account R U × ℕ) :=
  match c.flow r with
  | .transferRemote | .crossCollateral => if c.isSynthetic r then [] else [(c.token r, .router r, x.amount)]
  | .bridge _ taker => [(c.token r, .user taker, x.amount + externalFeeAmount c r a)]
  | .vault vault => [(c.token r, .user vault, x.amount)]

end Payments

def received {T A : Type} [DecidableEq T] [DecidableEq A] (ps : List (T × A × ℕ)) : T → A → ℤ :=
  (ps.map fun p => gets p.1 p.2.1 p.2.2).sum

/-- not for lack of value or allowance -/
def NotForLack (e : Reason) : Prop := e ≠ .value ∧ e ≠ .allowance

variable {c : Routers R U E C} {r : R} {a : Answers R U E C} {x : Call R U}
variable [DecidableEq R] [DecidableEq U] [DecidableEq E] [DecidableEq C]

/-! ## Quotes -/

/-- the sum of the amounts in a token, if it has 256 bits -/
theorem extract_ok {T : Type} [DecidableEq T] {quotes : List (Quote T)} {t : T} {n : ℕ} (h : extract quotes t = .ok n) :
    n = ((quotes.filter fun q => q.token = t).map Quote.amount).sum ∧ n < 2 ^ 256 := by
  have hfold : ∀ (qs : List (Quote T)) (sum n : ℕ), sum < 2 ^ 256 →
      qs.foldlM (fun sum q => if q.token = t then checked (sum + q.amount) else .ok sum) sum = .ok n →
      n = sum + ((qs.filter fun q => q.token = t).map Quote.amount).sum ∧ n < 2 ^ 256 := by
    intro qs
    induction qs with
    | nil =>
      intro sum n hsum hn
      obtain rfl := Except.ok.inj hn
      exact ⟨by simp, hsum⟩
    | cons q qs ih =>
      intro sum n hsum hn
      rw [List.foldlM_cons] at hn
      obtain ⟨sum', hsum', hn⟩ := Outcome.bind_eq_ok.1 hn
      by_cases hq : q.token = t
      · rw [if_pos hq] at hsum'
        have hlt : sum' < 2 ^ 256 := by
          unfold checked at hsum'
          split at hsum'
          · obtain rfl := Except.ok.inj hsum'
            assumption
          · exact nomatch hsum'
        obtain ⟨hval, hn⟩ := ih sum' n hlt hn
        refine ⟨?_, hn⟩
        rw [hval, checked_ok hsum']
        simp [hq, add_assoc]
      · rw [if_neg hq] at hsum'
        obtain rfl := Except.ok.inj hsum'
        simpa [hq] using ih sum n hsum hn
  simpa using hfold quotes 0 n (by positivity) h

omit [DecidableEq U] in
theorem feeRecipientAndAmount_ok {mismatch : String} {p : Option (Account R U) × ℕ}
    (h : feeRecipientAndAmount (c.token r) mismatch (views c r a x) = .ok p) : p = (c.feeRecipient r, feeAmount c r a) := by
  unfold feeRecipientAndAmount at h
  unfold feeAmount
  dsimp only [views] at h
  cases hrec : c.feeRecipient r with
  | none =>
    rw [hrec] at h
    exact (Except.ok.inj h).symm
  | some recipient =>
    rw [hrec] at h
    match hq : a.feeQuotes with
    | [] =>
      rw [hq] at h
      exact (Except.ok.inj h).symm
    | [q] =>
      rw [hq] at h
      dsimp only at h
      split at h
      · exact (Except.ok.inj h).symm
      · exact nomatch h
    | q :: q' :: qs =>
      rw [hq] at h
      exact nomatch h

/-- the gas payment of the quotes -/
def quotedGas (c : Routers R U E C) (r : R) (a : Answers R U E C) (x : Call R U) : ℕ :=
  match c.flow r with
  | .crossCollateral => if isLocal c r x.target then 0 else (views c r a x).gasPayment (c.feeToken r)
  | _ => (views c r a x).gasPayment (c.feeToken r)

/-- the fee lookup of a router -/
def mismatch (c : Routers R U E C) (r : R) : String :=
  match c.flow r with
  | .crossCollateral => "CCR: fee must match token"
  | _ => "FungibleTokenRouter: fee must match token"

/-- amount, fee and external fee -/
def fullCharge (c : Routers R U E C) (r : R) (a : Answers R U E C) (x : Call R U) : ℕ :=
  x.amount + feeAmount c r a + externalFeeAmount c r a

omit [DecidableEq R] [DecidableEq U] [DecidableEq E] [DecidableEq C] in
theorem gasPayment_eq {t : Token R E C} {gas : ℕ} (h : quoteGasPayment c r a x t = .ok gas) :
    (views c r a x).gasPayment t = gas := by
  unfold views
  dsimp only
  rw [h]
  rfl

/-- what the quotes of a transfer say -/
structure Quoted (c : Routers R U E C) (r : R) (a : Answers R U E C) (x : Call R U)
    (quotes : List (Quote (Token R E C))) : Prop where
  quotes : quotes = [⟨c.feeToken r, quotedGas c r a x⟩, ⟨c.token r, x.amount + feeAmount c r a⟩,
    ⟨c.token r, externalFeeAmount c r a⟩]
  fee : feeRecipientAndAmount (c.token r) (mismatch c r) (views c r a x) = .ok (c.feeRecipient r, feeAmount c r a)
  authorized : c.flow r = .crossCollateral → requireAuthorizedRouter c r x.target = .ok ()
  message : c.flow r ≠ .crossCollateral → ∃ q, quotedMessage c r x = .ok q

variable {quotes : List (Quote (Token R E C))}

omit [DecidableEq U] in
/-- the end that both quote functions have -/
theorem quoteFees_ok {gas : ℕ} {text : String} (h : (do
      let (_, feeAmount) ← feeRecipientAndAmount (c.token r) text (views c r a x)
      let charge ← checked (x.amount + feeAmount)
      pure [⟨c.feeToken r, gas⟩, ⟨c.token r, charge⟩, ⟨c.token r, externalFeeAmount c r a⟩]) = Except.ok quotes) :
    quotes = [⟨c.feeToken r, gas⟩, ⟨c.token r, x.amount + feeAmount c r a⟩, ⟨c.token r, externalFeeAmount c r a⟩] ∧
      feeRecipientAndAmount (c.token r) text (views c r a x) = .ok (c.feeRecipient r, feeAmount c r a) := by
  obtain ⟨p, hp, h⟩ := Outcome.bind_eq_ok.1 h
  obtain rfl := feeRecipientAndAmount_ok hp
  obtain ⟨charge, hcharge, h⟩ := Outcome.bind_eq_ok.1 h
  obtain rfl := checked_ok hcharge
  exact ⟨(Except.ok.inj h).symm, hp⟩

omit [DecidableEq U] in
theorem quoteTransferRemote_ok (hflow : c.flow r ≠ .crossCollateral) (h : quoteTransferRemote c r a x = .ok quotes) :
    Quoted c r a x quotes := by
  obtain ⟨gas, hquote, h⟩ := Outcome.bind_eq_ok.1 h
  obtain ⟨hquotes, hfee⟩ := quoteFees_ok h
  have hgas : quotedGas c r a x = gas := by
    rw [← gasPayment_eq hquote]
    unfold quotedGas
    split
    next hcc => exact absurd hcc hflow
    next => rfl
  have htext : mismatch c r = "FungibleTokenRouter: fee must match token" := by
    unfold mismatch
    split
    next hcc => exact absurd hcc hflow
    next => rfl
  obtain ⟨q, hq, -⟩ := Outcome.bind_eq_ok.1 hquote
  exact ⟨hgas ▸ hquotes, htext ▸ hfee, fun hcc => absurd hcc hflow, fun _ => ⟨q, hq⟩⟩

omit [DecidableEq U] in
theorem quoteTransferRemoteTo_ok (hflow : c.flow r = .crossCollateral) (h : quoteTransferRemoteTo c r a x = .ok quotes) :
    Quoted c r a x quotes := by
  obtain ⟨u, hauth, h⟩ := Outcome.bind_eq_ok.1 h
  obtain ⟨gas, hquote, h⟩ := Outcome.bind_eq_ok.1 h
  obtain ⟨hquotes, hfee⟩ := quoteFees_ok h
  have hgas : quotedGas c r a x = gas := by
    unfold quotedGas
    unfold gasQuoteTo at hquote
    rw [hflow]
    dsimp only
    split at hquote
    next hlocal =>
      rw [if_pos hlocal]
      exact Except.ok.inj hquote
    next hlocal =>
      rw [if_neg hlocal]
      exact gasPayment_eq hquote
  have htext : mismatch c r = "CCR: fee must match token" := by rw [mismatch, hflow]
  exact ⟨hgas ▸ hquotes, htext ▸ hfee, fun _ => hauth, fun hne => absurd hflow hne⟩

omit [DecidableEq U] in
theorem quote_ok (h : quote c r a x = .ok quotes) : Quoted c r a x quotes := by
  unfold quote at h
  split at h
  next hflow => exact quoteTransferRemoteTo_ok hflow h
  next hflow => exact quoteTransferRemote_ok hflow h

/-- what a sender brings along, by the kind of the router -/
structure Budget (c : Routers R U E C) (r : R) (a : Answers R U E C) (x : Call R U) (paid : Token R E C → ℕ) : Prop where
  sum : ∀ t, paid t = (if c.feeToken r = t then quotedGas c r a x else 0) + if c.token r = t then fullCharge c r a x else 0
  bound : ∀ t, paid t < 2 ^ 256

omit [DecidableEq U] in
theorem Quoted.budget {paid : Token R E C → ℕ} (h : Quoted c r a x quotes)
    (hpaid : ∀ t, extract quotes t = .ok (paid t)) : Budget c r a x paid := by
  refine ⟨fun t => ?_, fun t => (extract_ok (hpaid t)).2⟩
  rw [(extract_ok (hpaid t)).1, h.quotes]
  unfold fullCharge
  by_cases hfee : c.feeToken r = t
  · by_cases htoken : c.token r = t
    · simp [hfee, htoken, add_assoc]
    · simp [hfee, htoken]
  · by_cases htoken : c.token r = t
    · simp [hfee, htoken]
    · simp [hfee, htoken]

/-! ## Stages of a call -/

/-- an error that is not for lack of value or allowance, and that `S` and enough riches rule out -/
def Excused (S : Prop) (n : ℕ) (w : World R U E C) (e : Reason) : Prop := NotForLack e ∧ (S → ¬ Rich n w)

variable {S : Prop} {K : Set (Account R U)} {n n' N : ℕ} {δ δ' : Token R E C → Account R U → ℤ}
  {w w1 w' : World R U E C}

omit [DecidableEq R] [DecidableEq U] [DecidableEq E] [DecidableEq C] in
theorem Excused.of_short {e : Reason} (h : Short n w e) : Excused S n w e := by
  obtain ⟨rfl, hpoor⟩ := h
  exact ⟨⟨by decide, by decide⟩, fun _ => hpoor⟩

omit [DecidableEq R] [DecidableEq U] [DecidableEq E] [DecidableEq C] in
/-- the next stage of a call -/
theorem stage {α : Type} {Q : α → Prop} {f : Except Reason α} (h : Moved K n δ w w1) (hf : Ends (Excused S n' w1) Q f)
    (hN : n + n' ≤ N) : Ends (Excused S N w) Q f := by
  refine hf.imp (fun e he => ⟨he.1, fun hS hrich => ?_⟩) fun _ hq => hq
  exact he.2 hS (h.rich n' (hrich.mono (by omega)))

/-- what stays in a router; a synthetic router keeps nothing -/
def held (c : Routers R U E C) (r : R) (n : ℕ) : Token R E C → Account R U → ℤ :=
  if c.isSynthetic r then 0 else gets (c.token r) (.router r) n

theorem held_add (m n : ℕ) : held c r (m + n) = held c r m + held c r n := by
  unfold held
  split
  · simp
  · exact gets_add _ _ _ _

omit [DecidableEq R] [DecidableEq U] [DecidableEq E] [DecidableEq C] in
/-- the kinds of a router -/
theorem kind_cases (c : Routers R U E C) (r : R) :
    (c.kind r = .HypNative ∧ c.token r = c.currency r ∧ c.isSynthetic r = false) ∨
    (∃ t, c.kind r = .HypERC20Collateral t ∧ c.token r = .erc20 t ∧ c.isSynthetic r = false) ∨
    (c.kind r = .HypERC20 ∧ c.token r = .erc20 (.synthetic r) ∧ c.isSynthetic r = true) := by
  cases hkind : c.kind r with
  | HypNative => exact Or.inl ⟨rfl, by rw [Config.token, hkind]; rfl, by rw [Config.isSynthetic, hkind]⟩
  | HypERC20Collateral t =>
    exact Or.inr (Or.inl ⟨t, rfl, by rw [Config.token, hkind], by rw [Config.isSynthetic, hkind]⟩)
  | HypERC20 => exact Or.inr (Or.inr ⟨rfl, by rw [Config.token, hkind], by rw [Config.isSynthetic, hkind]⟩)

/-- tokens leave the router, or are minted -/
theorem transferTo_moved (hS : S → c.isSynthetic r = false) (K : Set (Account R U)) (recipient : Account R U) (n : ℕ)
    (w : World R U E C) :
    Ends (Excused S n w) (Moved K n (gets (c.token r) recipient n - held c r n) w)
      (transferTo c.toConfig r recipient n w) := by
  unfold transferTo held
  rcases kind_cases c r with ⟨hkind, htoken, hsyn⟩ | ⟨t, hkind, htoken, hsyn⟩ | ⟨hkind, htoken, hsyn⟩
  · rw [hkind, htoken, hsyn]
    exact (on_transfer K w _ _ _ _).imp (fun _ => Excused.of_short) fun _ h => h
  · rw [hkind, htoken, hsyn]
    exact (on_transfer K w _ _ _ _).imp (fun _ => Excused.of_short) fun _ h => h
  · rw [hkind, htoken, hsyn]
    refine (on_mint K w _ _ _).imp (fun e he => ?_) fun _ h => h.mono subset_rfl (Nat.zero_le _) (sub_zero _).symm
    subst he
    exact ⟨⟨by decide, by decide⟩, fun h => absurd ((hS h).symm.trans hsyn) (by decide)⟩

/-- the fee is paid, if there is any -/
theorem transferFee_moved (hS : S → c.isSynthetic r = false) (K : Set (Account R U)) (w : World R U E C) :
    Ends (Excused S (feeAmount c r a) w)
      (Moved K (feeAmount c r a) (received (feePayment c r a) - held c r (feeAmount c r a)) w)
      (transferFee c.toConfig r (c.feeRecipient r) (feeAmount c r a) w) := by
  have hnone : feeAmount c r a = 0 →
      Moved K (feeAmount c r a) (received (feePayment c r a) - held c r (feeAmount c r a)) w w := by
    intro hzero
    refine (Moved.refl K w).mono subset_rfl (Nat.zero_le _) ?_
    unfold received feePayment held
    cases c.feeRecipient r <;> simp [hzero]
  unfold transferFee
  cases hrec : c.feeRecipient r with
  | none => exact hnone (by rw [feeAmount, hrec])
  | some recipient =>
    dsimp only
    split
    next hpos =>
      refine (transferTo_moved hS K recipient _ w).mono fun _ h => h.mono subset_rfl le_rfl ?_
      simp [received, feePayment, hrec]
    next hzero => exact hnone (by omega)

/-- what a charge draws from the sender; native value has arrived before -/
def drawn (c : Routers R U E C) (r : R) (sender : U) (charge : ℕ) : Token R E C → Account R U → ℤ :=
  match c.kind r with
  | .HypNative => 0
  | _ => held c r charge - gets (c.token r) (.user sender) charge

theorem transferFromSender_moved {sender : U} {value charge : ℕ} (hS : S → c.isSynthetic r = false)
    (hnative : c.kind r = .HypNative → charge ≤ value)
    (hallow : ∀ t, c.kind r = .HypERC20Collateral t → charge ≤ (w (.erc20 t)).allowance (.user sender) (.router r)) :
    Ends (Excused S charge w) (Moved {.router r} charge (drawn c r sender charge) w)
      (transferFromSender c.toConfig r sender value charge w) := by
  unfold transferFromSender drawn held
  rcases kind_cases c r with ⟨hkind, htoken, hsyn⟩ | ⟨t, hkind, htoken, hsyn⟩ | ⟨hkind, htoken, hsyn⟩
  · rw [hkind]
    dsimp only
    rw [if_pos (hnative hkind)]
    exact (Moved.refl _ w).mono subset_rfl (Nat.zero_le _) rfl
  · rw [hkind, htoken, hsyn]
    exact (on_transferFrom _ (by simp) (hallow t hkind)).imp (fun _ => Excused.of_short) fun _ h => h
  · rw [hkind, htoken, hsyn]
    refine (on_burn _ w _ _ _).imp (fun e he => ⟨?_, fun h => ?_⟩) fun _ h => h.mono subset_rfl le_rfl (zero_sub _).symm
    · rcases he with rfl | rfl
      · exact ⟨by decide, by decide⟩
      · exact ⟨by decide, by decide⟩
    · exact absurd ((hS h).symm.trans hsyn) (by decide)

/-- the end that both charge functions have -/
theorem collect_rest {sender : U} {value charge : ℕ} (hS : S → c.isSynthetic r = false)
    (hnative : c.kind r = .HypNative → charge ≤ value)
    (hallow : ∀ t, c.kind r = .HypERC20Collateral t → charge ≤ (w (.erc20 t)).allowance (.user sender) (.router r)) :
    Ends (Excused S (charge + feeAmount c r a) w)
      (fun p => Moved {.router r} (charge + feeAmount c r a)
          (drawn c r sender charge + (received (feePayment c r a) - held c r (feeAmount c r a))) w p.1 ∧
        p.2 = if c.kind r = .HypNative then value - charge else value)
      (do
        let w ← transferFromSender c.toConfig r sender value charge w
        let w ← transferFee c.toConfig r (c.feeRecipient r) (feeAmount c r a) w
        let remaining ← remainingValue c.toConfig r value charge
        pure (w, remaining)) := by
  refine (stage (Moved.refl {.router r} w) (transferFromSender_moved hS hnative hallow) (by omega)).bind fun w1 h1 => ?_
  refine (stage h1 (transferFee_moved hS {.router r} w1) le_rfl).bind fun w2 h2 => ?_
  have hremaining : remainingValue c.toConfig r value charge =
      .ok (if c.kind r = .HypNative then value - charge else value) := by
    unfold remainingValue
    split
    next hkind => rw [if_pos hkind, checkedSub, if_pos (hnative hkind)]
    next hkind => rw [if_neg hkind]
  exact Ends.bind_ok hremaining ⟨h1.trans h2, rfl⟩

/-- a router that keeps tokens adds the payment of a fee hook to the charge -/
theorem chargeHook_locked {charge hookFee : ℕ} (hsyn : c.isSynthetic r = false)
    (hlt : (c.feeHook r).isSome → charge + hookFee < 2 ^ 256) (sender : U) (w : World R U E C) :
    ∃ w', chargeHook c.toConfig r sender charge hookFee w =
        .ok (w', if (c.feeHook r).isSome then charge + hookFee else charge) ∧
      Moved {.user sender} 0 0 w w' ∧
      ∀ hook beneficiary, c.feeHook r = some (hook, beneficiary) →
        (w' (c.token r)).allowance (.router r) (.user hook) = hookFee := by
  unfold chargeHook
  cases hhook : c.feeHook r with
  | none => exact ⟨w, rfl, Moved.refl _ w, fun _ _ h => nomatch h⟩
  | some p =>
    obtain ⟨w', hw', hmoved, hallow⟩ :=
      on_approve (K := {.user sender}) w (c.token r) (.router r) (.user p.1) hookFee (by simp)
    refine ⟨w', ?_, hmoved, fun hook beneficiary h => ?_⟩
    · rw [hsyn]
      dsimp only
      rw [checked, if_pos (hlt (by rw [hhook]; rfl))]
      exact Outcome.bind_eq_ok.2 ⟨_, rfl, Outcome.bind_eq_ok.2 ⟨w', hw', rfl⟩⟩
    · rw [Option.some.inj h] at hallow
      exact hallow

/-- a synthetic router pulls the payment of a fee hook -/
theorem chargeHook_synthetic {charge hookFee g : ℕ} {sender : U} (hsyn : c.isSynthetic r = true)
    (hg : (c.feeHook r).isSome → hookFee = g ∧ g ≤ (w (c.token r)).allowance (.user sender) (.router r)) :
    Ends (Excused S g w)
      (fun p => p.2 = charge ∧
        Moved ∅ g (if (c.feeHook r).isSome then
          gets (c.token r) (.router r) g - gets (c.token r) (.user sender) g else 0) w p.1 ∧
        ∀ hook beneficiary, c.feeHook r = some (hook, beneficiary) →
          (p.1 (c.token r)).allowance (.router r) (.user hook) = g)
      (chargeHook c.toConfig r sender charge hookFee w) := by
  unfold chargeHook
  cases hhook : c.feeHook r with
  | none => exact ⟨rfl, (Moved.refl ∅ w).mono subset_rfl (Nat.zero_le _) rfl, fun _ _ h => nomatch h⟩
  | some p =>
    obtain ⟨rfl, hallow⟩ := hg (by rw [hhook]; rfl)
    dsimp only
    rw [if_pos hsyn]
    have hpull := on_transferFrom (K := ∅) (.router r) (by simp) hallow
    refine (hpull.imp (fun _ => Excused.of_short) fun _ h => h).bind fun w1 h1 => ?_
    obtain ⟨w2, hw2, h2, happroved⟩ := on_approve (K := ∅) w1 (c.token r) (.router r) (.user p.1) hookFee (by simp)
    refine Ends.bind_ok hw2 ⟨rfl, ?_, fun hook beneficiary h => ?_⟩
    · exact (h1.trans h2).mono subset_rfl le_rfl (add_zero _)
    · rw [Option.some.inj h] at happroved
      exact happroved

/-! ## The sender is charged -/

/-- the charge and the gas payment come from the sender, and the fee is paid -/
def collected (c : Routers R U E C) (r : R) (a : Answers R U E C) (x : Call R U) (sender : U) (g : ℕ) :
    Token R E C → Account R U → ℤ :=
  held c r (fullCharge c r a x) - gets (c.token r) (.user sender : Account R U) (fullCharge c r a x) +
    (gets (c.feeToken r) (.router r : Account R U) g - gets (c.feeToken r) (.user sender : Account R U) g) +
    (received (feePayment c r a) - held c r (feeAmount c r a))

/-- enough for everything that is moved while the sender is charged -/
def collectedBound (c : Routers R U E C) (r : R) (a : Answers R U E C) (x : Call R U) (g value : ℕ) : ℕ :=
  value + 2 * g + fullCharge c r a x + feeAmount c r a

/-- after the charge: the gas payment is there as value, or as tokens that the fee hook may pull as `A` says -/
structure Collected (c : Routers R U E C) (r : R) (a : Answers R U E C) (x : Call R U) (sender : U) (g value : ℕ)
    (A : ℕ → Prop) (w : World R U E C) (p : World R U E C × ℕ) : Prop where
  moved : Moved ∅ (collectedBound c r a x g value) (collected c r a x sender g) w p.1
  value : p.2 = if (c.feeHook r).isSome then 0 else g
  approval : ∀ hook beneficiary, c.feeHook r = some (hook, beneficiary) →
    A ((p.1 (c.token r)).allowance (.router r) (.user hook))

/-- the value that a call with a gas payment needs -/
def neededValue (c : Routers R U E C) (r : R) (a : Answers R U E C) (x : Call R U) (g : ℕ) : ℕ :=
  if c.kind r = .HypNative then g + fullCharge c r a x else if (c.feeHook r).isSome then 0 else g

/-- what is drawn in the router's token -/
def neededCharge (c : Routers R U E C) (r : R) (a : Answers R U E C) (x : Call R U) (g : ℕ) : ℕ :=
  if (c.feeHook r).isSome then fullCharge c r a x + g else fullCharge c r a x

variable {sender : U} {g value : ℕ} {A : ℕ → Prop} {w2 : World R U E C} {paid : Token R E C → ℕ}

omit [DecidableEq R] [DecidableEq U] [DecidableEq E] [DecidableEq C] in
theorem feeToken_of_none (h : c.feeHook r = none) : c.feeToken r = c.currency r := by rw [Config.feeToken, h]

omit [DecidableEq R] [DecidableEq U] [DecidableEq E] [DecidableEq C] in
theorem feeToken_of_some {p : U × U} (h : c.feeHook r = some p) : c.feeToken r = c.token r := by rw [Config.feeToken, h]

theorem held_locked (hsyn : c.isSynthetic r = false) (n : ℕ) : held c r n = gets (c.token r) (.router r) n := by
  unfold held
  rw [hsyn]
  rfl

/-- value and draw together are the charge and the gas payment -/
theorem locked_collected (hsyn : c.isSynthetic r = false) :
    gets (c.currency r) (.router r : Account R U) (neededValue c r a x g) -
        gets (c.currency r) (.user sender : Account R U) (neededValue c r a x g) +
        drawn c r sender (neededCharge c r a x g) =
      held c r (fullCharge c r a x) - gets (c.token r) (.user sender : Account R U) (fullCharge c r a x) +
        (gets (c.feeToken r) (.router r : Account R U) g - gets (c.feeToken r) (.user sender : Account R U) g) := by
  unfold neededValue neededCharge drawn
  simp only [held_locked hsyn]
  rcases kind_cases c r with ⟨hkind, htoken, -⟩ | ⟨t, hkind, htoken, -⟩ | ⟨-, -, hsyn'⟩
  · have hhook : c.feeHook r = none := c.feeHook_erc20 r hkind
    simp only [hkind, hhook, feeToken_of_none hhook, htoken, if_true, gets_add]
    abel
  · cases hhook : c.feeHook r with
    | none =>
      simp only [hkind, feeToken_of_none hhook, reduceCtorEq, if_false, Option.isSome_none, Bool.false_eq_true]
      abel
    | some p =>
      simp only [hkind, feeToken_of_some hhook, reduceCtorEq, if_false, if_true, Option.isSome_some, gets_add, gets_zero]
      abel
  · exact absurd (hsyn.symm.trans hsyn') (by decide)

omit [DecidableEq U] [DecidableEq C] in
theorem neededValue_remaining :
    (if c.kind r = .HypNative then neededValue c r a x g - neededCharge c r a x g else neededValue c r a x g) =
      if (c.feeHook r).isSome then 0 else g := by
  unfold neededValue neededCharge
  split
  next hkind =>
    have hhook : c.feeHook r = none := c.feeHook_erc20 r hkind
    simp [hhook]
  next => rfl

/-- a router that keeps tokens -/
theorem collect_locked (hsyn : c.isSynthetic r = false) (hvalue : value = neededValue c r a x g)
    (hallow : ∀ t, c.kind r = .HypERC20Collateral t →
      neededCharge c r a x g ≤ (w (.erc20 t)).allowance (.user sender) (.router r))
    (h1 : Moved {.user sender} value (gets (c.currency r) (.router r) value - gets (c.currency r) (.user sender) value)
      w w1) (h2 : Moved {.user sender} 0 0 w1 w2)
    (hA : ∀ hook beneficiary, c.feeHook r = some (hook, beneficiary) →
      A ((w2 (c.token r)).allowance (.router r) (.user hook))) :
    Ends (Excused S (collectedBound c r a x g value) w) (Collected c r a x sender g value A w)
      (do
        let w ← transferFromSender c.toConfig r sender value (neededCharge c r a x g) w2
        let w ← transferFee c.toConfig r (c.feeRecipient r) (feeAmount c r a) w
        let remaining ← remainingValue c.toConfig r value (neededCharge c r a x g)
        pure (w, remaining)) := by
  have h12 := h1.trans h2
  have hneeded : neededCharge c r a x g ≤ fullCharge c r a x + g := by
    unfold neededCharge
    split <;> omega
  have hnative : c.kind r = .HypNative → c.feeHook r = none := c.feeHook_erc20 r
  have hcharge : c.kind r = .HypNative → neededCharge c r a x g ≤ value := by
    intro hkind
    rw [hvalue, neededValue, if_pos hkind, neededCharge, hnative hkind]
    exact Nat.le_add_left _ _
  have hallow2 : ∀ t, c.kind r = .HypERC20Collateral t →
      neededCharge c r a x g ≤ (w2 (.erc20 t)).allowance (.user sender) (.router r) := by
    intro t hkind
    rw [h12.allowance _ _ rfl]
    exact hallow t hkind
  refine (stage h12 (collect_rest (fun _ => hsyn) hcharge hallow2) ?_).mono fun p hp => ?_
  · unfold collectedBound
    omega
  obtain ⟨hrest, hremaining⟩ := hp
  refine ⟨?_, ?_, fun hook beneficiary h => ?_⟩
  · have hmoved := h12.forget.trans hrest.forget
    refine hmoved.mono subset_rfl ?_ ?_
    · unfold collectedBound
      omega
    · unfold collected
      rw [add_zero, ← add_assoc, hvalue, locked_collected hsyn]
  · rw [hremaining, hvalue]
    exact neededValue_remaining
  · rw [hrest.allowance _ _ rfl]
    exact hA hook beneficiary h

theorem synthetic_collected (hsyn : c.isSynthetic r = true) :
    gets (c.currency r) (.router r : Account R U) (neededValue c r a x g) -
        gets (c.currency r) (.user sender : Account R U) (neededValue c r a x g) +
        (if (c.feeHook r).isSome then
          gets (c.token r) (.router r : Account R U) g - gets (c.token r) (.user sender : Account R U) g else 0) +
        drawn c r sender (fullCharge c r a x) =
      held c r (fullCharge c r a x) - gets (c.token r) (.user sender : Account R U) (fullCharge c r a x) +
        (gets (c.feeToken r) (.router r : Account R U) g - gets (c.feeToken r) (.user sender : Account R U) g) := by
  unfold neededValue drawn
  rcases kind_cases c r with ⟨-, -, hsyn'⟩ | ⟨t, -, -, hsyn'⟩ | ⟨hkind, htoken, -⟩
  · exact absurd (hsyn.symm.trans hsyn') (by decide)
  · exact absurd (hsyn.symm.trans hsyn') (by decide)
  · cases hhook : c.feeHook r with
    | none =>
      simp only [hkind, feeToken_of_none hhook, reduceCtorEq, if_false, Option.isSome_none, Bool.false_eq_true]
      abel
    | some p =>
      simp only [hkind, feeToken_of_some hhook, reduceCtorEq, if_false, if_true, Option.isSome_some, gets_zero]
      abel

/-- a synthetic router -/
theorem collect_synthetic {hookFee : ℕ} (hsyn : c.isSynthetic r = true) (hvalue : value = neededValue c r a x g)
    (hg : (c.feeHook r).isSome → hookFee = g ∧ g ≤ (w (c.token r)).allowance (.user sender) (.router r))
    (h1 : Moved {.user sender} value (gets (c.currency r) (.router r) value - gets (c.currency r) (.user sender) value)
      w w1) (hS : ¬ S) :
    Ends (Excused S (collectedBound c r a x g value) w) (Collected c r a x sender g value (· = g) w)
      (do
        let (w, charge) ← chargeHook c.toConfig r sender (fullCharge c r a x) hookFee w1
        let w ← transferFromSender c.toConfig r sender value charge w
        let w ← transferFee c.toConfig r (c.feeRecipient r) (feeAmount c r a) w
        let remaining ← remainingValue c.toConfig r value charge
        pure (w, remaining)) := by
  have hkind : c.kind r = .HypERC20 := by
    rcases kind_cases c r with ⟨-, -, hsyn'⟩ | ⟨t, -, -, hsyn'⟩ | ⟨hkind, -, -⟩
    · exact absurd (hsyn.symm.trans hsyn') (by decide)
    · exact absurd (hsyn.symm.trans hsyn') (by decide)
    · exact hkind
  have hallow : (w1 (c.token r)).allowance (.user sender) (.router r) =
      (w (c.token r)).allowance (.user sender) (.router r) := h1.allowance _ _ rfl _
  refine (stage h1 (chargeHook_synthetic hsyn (hallow ▸ hg)) ?_).bind fun p hp => ?_
  · unfold collectedBound
    omega
  obtain ⟨w2, charge⟩ := p
  obtain ⟨rfl, h2, happroved⟩ := hp
  have h12 := h1.forget.trans h2
  refine (stage h12 (collect_rest (fun h => absurd h hS) (by simp [hkind]) (by simp [hkind])) ?_).mono fun p hp => ?_
  · unfold collectedBound
    omega
  obtain ⟨hrest, hremaining⟩ := hp
  refine ⟨?_, ?_, fun hook beneficiary h => ?_⟩
  · refine (h12.trans hrest.forget).mono subset_rfl ?_ ?_
    · unfold collectedBound
      omega
    · unfold collected
      rw [← add_assoc, hvalue, synthetic_collected hsyn]
  · rw [hremaining, hvalue]
    simp [neededValue, hkind]
  · rw [hrest.allowance _ _ rfl]
    exact happroved hook beneficiary h

omit [DecidableEq U] in
theorem Budget.value_eq (hb : Budget c r a x paid) : paid (c.currency r) = neededValue c r a x (quotedGas c r a x) := by
  rw [hb.sum]
  unfold neededValue
  rcases kind_cases c r with ⟨hkind, htoken, -⟩ | ⟨t, hkind, htoken, -⟩ | ⟨hkind, htoken, -⟩
  · have hhook : c.feeHook r = none := c.feeHook_erc20 r hkind
    simp [hkind, feeToken_of_none hhook, htoken]
  all_goals
    cases hhook : c.feeHook r with
    | none => simp [hkind, feeToken_of_none hhook, htoken, Config.currency]
    | some p => simp [hkind, feeToken_of_some hhook, htoken, Config.currency]

omit [DecidableEq U] in
theorem Budget.charge_eq (hb : Budget c r a x paid) {t : Erc20 R E} (htoken : c.token r = .erc20 t) :
    paid (.erc20 t) = neededCharge c r a x (quotedGas c r a x) := by
  rw [hb.sum]
  unfold neededCharge
  cases hhook : c.feeHook r with
  | none => simp [feeToken_of_none hhook, htoken, Config.currency]
  | some p => simp [feeToken_of_some hhook, htoken, add_comm]

omit [DecidableEq U] in
theorem Budget.charge_lt (hb : Budget c r a x paid) :
    ((c.feeHook r).isSome → fullCharge c r a x + quotedGas c r a x < 2 ^ 256) ∧ fullCharge c r a x < 2 ^ 256 := by
  have hlt := hb.bound (c.token r)
  rw [hb.sum, if_pos rfl] at hlt
  refine ⟨fun hsome => ?_, by omega⟩
  obtain ⟨p, hp⟩ := Option.isSome_iff_exists.1 hsome
  rw [if_pos (feeToken_of_some hp)] at hlt
  omega

/-- the sender of a call has given the router exactly the allowances of the quotes -/
def Allowed (r : R) (paid : Token R E C → ℕ) (sender : U) (w : World R U E C) : Prop :=
  ∀ t, (w (.erc20 t)).allowance (.user sender) (.router r) = paid (.erc20 t)

omit [DecidableEq R] [DecidableEq U] [DecidableEq E] in
theorem gasPayment_of_hook (hflow : c.flow r ≠ .crossCollateral) (hsome : (c.feeHook r).isSome) :
    (views c r a x).gasPayment (c.token r) = quotedGas c r a x := by
  obtain ⟨p, hp⟩ := Option.isSome_iff_exists.1 hsome
  unfold quotedGas
  split
  next hcc => exact absurd hcc hflow
  next => rw [feeToken_of_some hp]

/-- the value of the call arrives -/
theorem payValue_moved (g value : ℕ) :
    Ends (Excused S (collectedBound c r a x g value) w)
      (Moved Set.univ value (gets (c.currency r) (.router r) value - gets (c.currency r) (.user sender) value) w)
      (payValue c.toConfig r sender value w) := by
  have hpay := on_transfer Set.univ w (c.currency r) (.user sender) (.router r) value
  refine hpay.imp (fun e he => ?_) fun _ h => h
  obtain ⟨hlack, hpoor⟩ := Excused.of_short (S := S) he
  refine ⟨hlack, fun h hrich => hpoor h (hrich.mono ?_)⟩
  unfold collectedBound
  omega

theorem collect_base (hq : Quoted c r a x quotes) (hb : Budget c r a x paid) (hflow : c.flow r ≠ .crossCollateral)
    (hallow : Allowed r paid sender w) (hS : S → c.isSynthetic r = false) :
    Ends (Excused S (collectedBound c r a x (quotedGas c r a x) (paid (c.currency r))) w)
      (Collected c r a x sender (quotedGas c r a x) (paid (c.currency r)) (· = quotedGas c r a x) w)
      (payValue c.toConfig r sender (paid (c.currency r)) w >>= fun w =>
        calculateFeesAndCharge c.toConfig r sender x.amount (paid (c.currency r)) (views c r a x) w) := by
  refine (payValue_moved _ _).bind fun w1 h1 => ?_
  replace h1 := h1.only {.user sender}
  have htext : mismatch c r = "FungibleTokenRouter: fee must match token" := by
    unfold mismatch
    split
    next hcc => exact absurd hcc hflow
    next => rfl
  refine Ends.bind_ok (htext ▸ hq.fee) ?_
  have hchecked : checked (x.amount + feeAmount c r a + (views c r a x).externalFee) = .ok (fullCharge c r a x) :=
    if_pos hb.charge_lt.2
  refine Ends.bind_ok hchecked ?_
  have hgas := fun hsome => gasPayment_of_hook (a := a) (x := x) hflow hsome
  rcases Bool.eq_false_or_eq_true (c.isSynthetic r) with hsyn | hsyn
  · refine collect_synthetic hsyn hb.value_eq (fun hsome => ⟨hgas hsome, ?_⟩) h1 fun h => ?_
    · have htoken : c.token r = .erc20 (.synthetic r) := by
        rcases kind_cases c r with ⟨-, -, hsyn'⟩ | ⟨t, -, -, hsyn'⟩ | ⟨-, htoken, -⟩
        · exact absurd (hsyn.symm.trans hsyn') (by decide)
        · exact absurd (hsyn.symm.trans hsyn') (by decide)
        · exact htoken
      rw [htoken, hallow, hb.charge_eq htoken, neededCharge, if_pos hsome]
      exact Nat.le_add_left _ _
    · exact absurd ((hS h).symm.trans hsyn) (by decide)
  · obtain ⟨w2, hw2, h2, happroved⟩ := chargeHook_locked hsyn
      (fun hsome => (hgas hsome).symm ▸ hb.charge_lt.1 hsome) sender w1
    refine Ends.bind_ok hw2 ?_
    have hcharge : (if (c.feeHook r).isSome then fullCharge c r a x + (views c r a x).gasPayment (c.token r)
        else fullCharge c r a x) = neededCharge c r a x (quotedGas c r a x) := by
      unfold neededCharge
      split
      next hsome => rw [hgas hsome]
      next => rfl
    rw [hcharge]
    refine collect_locked hsyn hb.value_eq (fun t hkind => ?_) h1 h2 fun hook beneficiary h => ?_
    · rw [hallow, hb.charge_eq (by rw [Config.token, hkind])]
    · rw [happroved hook beneficiary h, hgas (by rw [h]; rfl)]

omit [DecidableEq R] [DecidableEq U] [DecidableEq E] [DecidableEq C] in
/-- the cross-collateral and the vault router -/
theorem collateral_cases {t : Erc20 R E} (hkind : c.kind r = .HypERC20Collateral t) :
    c.token r = .erc20 t ∧ c.isSynthetic r = false := by
  rw [Config.token, Config.isSynthetic, hkind]
  exact ⟨rfl, rfl⟩

omit [DecidableEq R] [DecidableEq U] [DecidableEq E] [DecidableEq C] in
theorem crossCollateral_kind (hflow : c.flow r = .crossCollateral) : ∃ t, c.kind r = .HypERC20Collateral t := by
  have hfits := c.flow_fits r
  rw [hflow] at hfits
  exact hfits

omit [DecidableEq R] [DecidableEq U] [DecidableEq E] [DecidableEq C] in
theorem vault_kind {vault : U} (hflow : c.flow r = .vault vault) : ∃ t, c.kind r = .HypERC20Collateral t := by
  have hfits := c.flow_fits r
  rw [hflow] at hfits
  exact hfits

omit [DecidableEq R] [DecidableEq U] [DecidableEq E] [DecidableEq C] in
theorem bridge_locked {kind : Bridge} {taker : U} (hflow : c.flow r = .bridge kind taker) : c.isSynthetic r = false := by
  have hfits := c.flow_fits r
  rw [hflow] at hfits
  rcases kind_cases c r with ⟨-, -, hsyn⟩ | ⟨t, -, -, hsyn⟩ | ⟨hkind, -, -⟩
  · exact hsyn
  · exact hsyn
  · exact absurd hkind hfits

/-- the payment of a fee hook that is charged for a transfer to a router -/
theorem chargeHookForRouter_locked (hb : Budget c r a x paid) (hflow : c.flow r = .crossCollateral)
    (hsyn : c.isSynthetic r = false) (w : World R U E C) :
    ∃ w', chargeHookForRouter c r x sender (fullCharge c r a x) ((views c r a x).gasPayment (c.token r)) w =
        .ok (w', neededCharge c r a x (quotedGas c r a x)) ∧
      Moved {.user sender} 0 0 w w' ∧
      ∀ hook beneficiary, c.feeHook r = some (hook, beneficiary) →
        quotedGas c r a x ≤ (w' (c.token r)).allowance (.router r) (.user hook) := by
  have hgas : (c.feeHook r).isSome → quotedGas c r a x =
      if isLocal c r x.target then 0 else (views c r a x).gasPayment (c.token r) := by
    intro hsome
    obtain ⟨p, hp⟩ := Option.isSome_iff_exists.1 hsome
    rw [quotedGas, hflow, feeToken_of_some hp]
  unfold chargeHookForRouter
  split
  next hskip =>
    have hzero : (c.feeHook r).isSome → quotedGas c r a x = 0 := by
      intro hsome
      rw [hgas hsome]
      rcases hskip with hlocal | hfee
      · rw [if_pos hlocal]
      · rw [hfee, ite_self]
    refine ⟨w, ?_, Moved.refl _ w, fun hook beneficiary h => ?_⟩
    · unfold neededCharge
      split
      next hsome => rw [hzero hsome, add_zero]
      next => rfl
    · rw [hzero (by rw [h]; rfl)]
      exact Nat.zero_le _
  next hdue =>
    have hfee : (c.feeHook r).isSome → (views c r a x).gasPayment (c.token r) = quotedGas c r a x := by
      intro hsome
      rw [hgas hsome, if_neg fun hlocal => hdue (Or.inl hlocal)]
    obtain ⟨w', hw', h, happroved⟩ := chargeHook_locked hsyn
      (fun hsome => (hfee hsome).symm ▸ hb.charge_lt.1 hsome) sender w
    refine ⟨w', hw'.trans ?_, h, fun hook beneficiary hhook => ?_⟩
    · unfold neededCharge
      split
      next hsome => rw [hfee hsome]
      next => rfl
    · rw [happroved hook beneficiary hhook, hfee (by rw [hhook]; rfl)]

theorem collect_forRouter (hq : Quoted c r a x quotes) (hb : Budget c r a x paid) (hflow : c.flow r = .crossCollateral)
    (hallow : Allowed r paid sender w) :
    Ends (Excused S (collectedBound c r a x (quotedGas c r a x) (paid (c.currency r))) w)
      (Collected c r a x sender (quotedGas c r a x) (paid (c.currency r)) (quotedGas c r a x ≤ ·) w)
      (payValue c.toConfig r sender (paid (c.currency r)) w >>= fun w => do
        requireAuthorizedRouter c r x.target
        requireNoValue c r x.target (paid (c.currency r))
        calculateFeesAndChargeForRouter c r a x sender (paid (c.currency r)) w) := by
  obtain ⟨t, hkind⟩ := crossCollateral_kind hflow
  obtain ⟨htoken, hsyn⟩ := collateral_cases hkind
  refine (payValue_moved _ _).bind fun w1 h1 => ?_
  replace h1 := h1.only {.user sender}
  refine Ends.bind_ok (hq.authorized hflow) ?_
  have hvalue : requireNoValue c r x.target (paid (c.currency r)) = .ok () := by
    refine if_neg fun h => h.2 ?_
    rw [hb.value_eq, neededValue, hkind, quotedGas, hflow, if_pos h.1]
    simp
  refine Ends.bind_ok hvalue ?_
  have htext : mismatch c r = "CCR: fee must match token" := by rw [mismatch, hflow]
  refine Ends.bind_ok (htext ▸ hq.fee) ?_
  have hchecked : checked (x.amount + feeAmount c r a + externalFeeAmount c r a) = .ok (fullCharge c r a x) :=
    if_pos hb.charge_lt.2
  refine Ends.bind_ok hchecked ?_
  obtain ⟨w2, hw2, h2, happroved⟩ := chargeHookForRouter_locked hb hflow hsyn w1
  refine Ends.bind_ok hw2 ?_
  refine collect_locked hsyn hb.value_eq (fun t' hkind' => ?_) h1 h2 happroved
  rw [hallow, hb.charge_eq (collateral_cases hkind').1]

/-- what a vault router takes for gas: nothing, if a fee hook is to be paid -/
def vaultGas (c : Routers R U E C) (r : R) (a : Answers R U E C) (x : Call R U) : ℕ :=
  if (c.feeHook r).isSome then 0 else quotedGas c r a x

theorem collect_vault {vault : U} (hq : Quoted c r a x quotes) (hb : Budget c r a x paid) (hflow : c.flow r = .vault vault)
    (hallow : Allowed r paid sender w) :
    Ends (Excused S (collectedBound c r a x (vaultGas c r a x) (paid (c.currency r))) w)
      (fun w' => Collected c r a x sender (vaultGas c r a x) (paid (c.currency r))
        (fun n => ∀ hook beneficiary, c.feeHook r = some (hook, beneficiary) →
          n = (w (c.token r)).allowance (.router r) (.user hook)) w (w', paid (c.currency r)))
      (payValue c.toConfig r sender (paid (c.currency r)) w >>= fun w => do
        let (recipient, feeAmount) ←
          feeRecipientAndAmount (c.token r) "FungibleTokenRouter: fee must match token" (views c r a x)
        let charge ← checked (x.amount + feeAmount)
        let w ← transferFromSender c.toConfig r sender (paid (c.currency r)) charge w
        transferFee c.toConfig r recipient feeAmount w) := by
  obtain ⟨t, hkind⟩ := vault_kind hflow
  obtain ⟨htoken, hsyn⟩ := collateral_cases hkind
  refine (payValue_moved _ _).bind fun w1 h1 => ?_
  have htext : mismatch c r = "FungibleTokenRouter: fee must match token" := by rw [mismatch, hflow]
  refine Ends.bind_ok (htext ▸ hq.fee) ?_
  have hexternal : externalFeeAmount c r a = 0 := by rw [externalFeeAmount, hflow]
  have hfull : x.amount + feeAmount c r a = neededCharge c r a x (vaultGas c r a x) := by
    unfold neededCharge vaultGas fullCharge
    split
    · rw [hexternal, add_zero, add_zero]
    · rw [hexternal, add_zero]
  have hlt : x.amount + feeAmount c r a < 2 ^ 256 := by
    have hlt := hb.charge_lt.2
    rw [fullCharge, hexternal] at hlt
    exact hlt
  refine Ends.bind_ok (if_pos hlt) ?_
  have hvalue : paid (c.currency r) = neededValue c r a x (vaultGas c r a x) := by
    rw [hb.value_eq]
    unfold neededValue vaultGas
    rw [hkind]
    cases c.feeHook r <;> simp
  have hcollect := collect_locked (S := S) hsyn hvalue (fun t' hkind' => ?_)
    (h1.only {.user sender}) (Moved.refl _ w1)
    (A := fun n => ∀ hook beneficiary, c.feeHook r = some (hook, beneficiary) →
      n = (w (c.token r)).allowance (.router r) (.user hook)) fun hook beneficiary h hook' beneficiary' h' => ?_
  · have hremaining : ∀ charge, remainingValue c.toConfig r (paid (c.currency r)) charge = .ok (paid (c.currency r)) := by
      intro charge
      rw [remainingValue, hkind]
    rw [hfull]
    simp only [hremaining] at hcollect
    refine Ends.of_map (f := fun w' => (w', paid (c.currency r))) ?_
    rw [bind_assoc]
    exact hcollect
  · rw [hallow, hb.charge_eq (collateral_cases hkind').1]
    unfold neededCharge vaultGas
    split <;> omega
  · obtain ⟨rfl, rfl⟩ := Prod.mk.inj (Option.some.inj (h.symm.trans h'))
    exact h1.allowance _ _ (Set.mem_univ _) _

/-! ## The hooks are paid -/

/-- what a dispatch moves: the value goes to the hooks and back to the sender, and a fee hook pulls -/
def dispatched (c : Routers R U E C) (r : R) (sender : U) (value : ℕ) (k : Taken U) : Token R E C → Account R U → ℤ :=
  gets (c.currency r) (.user k.hooks : Account R U) k.native - gets (c.currency r) (.router r : Account R U) k.native +
    (gets (c.currency r) (.user sender : Account R U) (value - k.native) -
      gets (c.currency r) (.router r : Account R U) (value - k.native)) +
    match c.feeHook r with
    | none => 0
    | some (_, beneficiary) =>
      gets (c.token r) (.user beneficiary : Account R U) k.token - gets (c.token r) (.router r : Account R U) k.token

/-- the fee hook may pull what it takes -/
def HookAllowed (c : Routers R U E C) (r : R) (k : Taken U) (w : World R U E C) : Prop :=
  ∀ hook beneficiary, c.feeHook r = some (hook, beneficiary) →
    k.token ≤ (w (c.token r)).allowance (.router r) (.user hook)

/-- **A dispatch fails if and only if the hooks take more than they are given**, or for lack of balance -/
theorem dispatch_ends (sender : U) (value : ℕ) (k : Taken U) (w : World R U E C) :
    Ends (fun e => (e = .value ∧ value < k.native) ∨ (e = .allowance ∧ ¬ HookAllowed c r k w) ∨
        Short (value + k.token) w e)
      (fun w' => (k.native ≤ value ∧ HookAllowed c r k w) ∧
        Moved ∅ (value + k.token) (dispatched c r sender value k) w w')
      (dispatch c.toConfig r sender value k w) := by
  unfold dispatch
  by_cases hvalue : k.native ≤ value
  · have hleft : valueLeft value k.native = .ok (value - k.native) := if_pos hvalue
    refine Ends.bind_ok hleft ?_
    have hlift : ∀ {n n' : ℕ} {δ : Token R E C → Account R U → ℤ} {w1 : World R U E C} {e : Reason},
        Moved Set.univ n δ w w1 → n + n' ≤ value + k.token → Short n' w1 e →
          (e = .value ∧ value < k.native) ∨ (e = .allowance ∧ ¬ HookAllowed c r k w) ∨ Short (value + k.token) w e := by
      intro n n' δ w1 e hm hle hshort
      exact Or.inr (Or.inr ⟨hshort.1, fun hrich => hshort.2 (hm.rich n' (hrich.mono (by omega)))⟩)
    have hpay := on_transfer Set.univ w (c.currency r) (.router r) (.user k.hooks) k.native
    refine (hpay.imp (fun e he => hlift (Moved.refl _ w) (by omega) he) fun _ h => h).bind fun w1 h1 => ?_
    have hrefund := on_transfer Set.univ w1 (c.currency r) (.router r) (.user sender) (value - k.native)
    refine (hrefund.imp (fun e he => hlift h1 (by omega) he) fun _ h => h).bind fun w2 h2 => ?_
    have h12 := h1.trans h2
    cases hhook : c.feeHook r with
    | none =>
      refine ⟨⟨hvalue, fun _ _ h => nomatch hhook.symm.trans h⟩, h12.mono (Set.empty_subset _) (by omega) ?_⟩
      unfold dispatched
      rw [hhook, add_zero]
    | some p =>
      obtain ⟨hook, beneficiary⟩ := p
      have hallow : (w2 (c.token r)).allowance (.router r) (.user hook) =
          (w (c.token r)).allowance (.router r) (.user hook) := h12.allowance _ _ (Set.mem_univ _) _
      by_cases hle : k.token ≤ (w2 (c.token r)).allowance (.router r) (.user hook)
      · have hpull := on_transferFrom (K := ∅) (.user beneficiary) (by simp) hle
        refine hpull.imp (fun e he => hlift h12 (by omega) he) fun w' h3 => ⟨⟨hvalue, fun hook' b' h => ?_⟩, ?_⟩
        · obtain ⟨rfl, rfl⟩ := Prod.mk.inj (Option.some.inj (hhook.symm.trans h))
          exact hallow ▸ hle
        · refine (h12.forget.trans h3).mono subset_rfl (by omega) ?_
          unfold dispatched
          rw [hhook]
      · rw [not_le] at hle
        dsimp only
        rw [on_transferFrom_allowance hle]
        exact Or.inr (Or.inl ⟨rfl, fun h => hle.not_ge (hallow ▸ h hook beneficiary hhook)⟩)
  · have hleft : valueLeft value k.native = .error .value := if_neg hvalue
    rw [hleft]
    exact Or.inl ⟨rfl, not_le.1 hvalue⟩

/-! ## Before the dispatch -/

/-- a call until its message is made -/
def charged (c : Routers R U E C) (r : R) (a : Answers R U E C) (x : Call R U) (sender : U) (value : ℕ)
    (w : World R U E C) : Except Reason (World R U E C × ℕ) :=
  payValue c.toConfig r sender value w >>= fun w =>
    match c.flow r with
    | .transferRemote => calculateFeesAndCharge c.toConfig r sender x.amount value (views c r a x) w
    | .bridge _ taker => do
      let (w, remaining) ← calculateFeesAndCharge c.toConfig r sender x.amount value (views c r a x) w
      let w ← w.on (c.token r) fun l => l.transfer (.router r) (.user taker) (x.amount + externalFeeAmount c r a)
      pure (w, remaining)
    | .crossCollateral => do
      requireAuthorizedRouter c r x.target
      requireNoValue c r x.target value
      calculateFeesAndChargeForRouter c r a x sender value w
    | .vault vault => do
      let (recipient, feeAmount) ←
        feeRecipientAndAmount (c.token r) "FungibleTokenRouter: fee must match token" (views c r a x)
      let charge ← checked (x.amount + feeAmount)
      let w ← transferFromSender c.toConfig r sender value charge w
      let w ← transferFee c.toConfig r recipient feeAmount w
      let w ← w.on (c.token r) fun l => l.transfer (.router r) (.user vault) x.amount
      pure (w, value)

/-- a call after its message is made -/
def finish (c : Routers R U E C) (r : R) (a : Answers R U E C) (x : Call R U) (sender : U) (m : TokenMessage R U)
    (p : World R U E C × ℕ) : Except Reason (World R U E C) :=
  match c.flow r, isLocal c r x.target with
  | .crossCollateral, true => handle c r x m p.1
  | _, _ => dispatch c.toConfig r sender p.2 (taken c r a x m) p.1

theorem transfer_eq (sender : U) (value : ℕ) (w : World R U E C) :
    transfer c r a x sender value w = charged c r a x sender value w >>= fun p =>
      message c r a x >>= fun m => finish c r a x sender m p := by
  unfold transfer charged finish
  cases hflow : c.flow r with
  | transferRemote =>
    rw [bind_assoc]
    rfl
  | bridge kind taker =>
    rw [bind_assoc]
    refine bind_congr fun w1 => ?_
    rw [bind_assoc]
    refine bind_congr fun p => ?_
    rw [bind_assoc]
    rfl
  | crossCollateral =>
    simp only [transferRemoteTo, bind_assoc]
    refine bind_congr fun w1 => bind_congr fun _ => bind_congr fun _ => bind_congr fun p => bind_congr fun m => ?_
    cases isLocal c r x.target <;> rfl
  | vault vault =>
    simp only [vaultTransferRemote, bind_assoc, pure_bind]

/-- the gas payment that a router holds when it makes the message -/
def gasHeld (c : Routers R U E C) (r : R) (a : Answers R U E C) (x : Call R U) : ℕ :=
  match c.flow r with
  | .vault _ => vaultGas c r a x
  | _ => quotedGas c r a x

/-- what a fee hook is approved for -/
def Approved (c : Routers R U E C) (r : R) (a : Answers R U E C) (x : Call R U) (w : World R U E C) (n : ℕ) : Prop :=
  match c.flow r with
  | .transferRemote | .bridge _ _ => n = quotedGas c r a x
  | .crossCollateral => quotedGas c r a x ≤ n
  | .vault _ => ∀ hook beneficiary, c.feeHook r = some (hook, beneficiary) →
    n = (w (c.token r)).allowance (.router r) (.user hook)

/-- enough for everything that is moved before the dispatch -/
def chargedBound (c : Routers R U E C) (r : R) (a : Answers R U E C) (x : Call R U) (value : ℕ) : ℕ :=
  collectedBound c r a x (gasHeld c r a x) value + fullCharge c r a x

structure Charged (c : Routers R U E C) (r : R) (a : Answers R U E C) (x : Call R U) (sender : U) (value : ℕ)
    (w : World R U E C) (p : World R U E C × ℕ) : Prop where
  moved : Moved ∅ (chargedBound c r a x value)
    (received (feePayment c r a) + received (principal c r a x) +
      gets (c.feeToken r) (.router r : Account R U) (gasHeld c r a x) -
      (gets (c.feeToken r) (.user sender : Account R U) (gasHeld c r a x) +
        gets (c.token r) (.user sender : Account R U) (fullCharge c r a x)))
    w p.1
  value : p.2 = if (c.feeHook r).isSome then 0 else gasHeld c r a x
  approval : ∀ hook beneficiary, c.feeHook r = some (hook, beneficiary) →
    Approved c r a x w ((p.1 (c.token r)).allowance (.router r) (.user hook))

theorem Collected.congr {A' : ℕ → Prop} {g' : ℕ} {p : World R U E C × ℕ} (h : Collected c r a x sender g value A w p)
    (hg : g' = g) (hA : ∀ n, A n → A' n) : Collected c r a x sender g' value A' w p := by
  subst hg
  exact ⟨h.moved, h.value, fun hook beneficiary hhook => hA _ (h.approval hook beneficiary hhook)⟩

/-- what is collected stays in the router, or is passed on -/
theorem Collected.charged {n : ℕ} {p : World R U E C × ℕ} {δ : Token R E C → Account R U → ℤ}
    (h : Collected c r a x sender (gasHeld c r a x) value (Approved c r a x w) w p)
    (hpass : Moved Set.univ n δ p.1 w1) (hn : n ≤ fullCharge c r a x)
    (hδ : held c r (x.amount + externalFeeAmount c r a) + δ = received (principal c r a x)) :
    Charged c r a x sender value w (w1, p.2) := by
  refine ⟨?_, h.value, fun hook beneficiary hhook => ?_⟩
  · refine (h.moved.trans hpass.forget).mono subset_rfl ?_ ?_
    · unfold chargedBound
      omega
    · have hfull : held c r (fullCharge c r a x) =
          held c r (x.amount + externalFeeAmount c r a) + held c r (feeAmount c r a) := by
        rw [← held_add, fullCharge]
        congr 1
        omega
      rw [← hδ, collected, hfull]
      abel
  · have hallow : (w1 (c.token r)).allowance (.router r) (.user hook) =
        (p.1 (c.token r)).allowance (.router r) (.user hook) := hpass.allowance _ _ (Set.mem_univ _) _
    rw [hallow]
    exact h.approval hook beneficiary hhook

omit [DecidableEq R] [DecidableEq U] [DecidableEq E] [DecidableEq C] in
theorem Excused.mono {e : Reason} (h : Excused S n w e) (hn : n ≤ N) : Excused S N w e :=
  ⟨h.1, fun hS hrich => h.2 hS (hrich.mono hn)⟩

/-- tokens of the router are passed on -/
theorem passOn_charged {p : World R U E C × ℕ} {taker : U} {n : ℕ} (hsyn : c.isSynthetic r = false)
    (h : Collected c r a x sender (gasHeld c r a x) value (Approved c r a x w) w p)
    (hn : n = x.amount + externalFeeAmount c r a) (hprincipal : principal c r a x = [(c.token r, .user taker, n)]) :
    Ends (Excused S (chargedBound c r a x value) w) (fun w' => Charged c r a x sender value w (w', p.2))
      (p.1.on (c.token r) fun l => l.transfer (.router r) (.user taker) n) := by
  have hle : n ≤ fullCharge c r a x := by
    rw [hn, fullCharge]
    omega
  have hpass := on_transfer Set.univ p.1 (c.token r) (.router r) (.user taker) n
  refine (stage (N := chargedBound c r a x value) h.moved (hpass.imp (fun _ => Excused.of_short) fun _ h => h)
    ?_).mono fun w' h' => h.charged h' hle ?_
  · unfold chargedBound
    omega
  · rw [hprincipal, held_locked hsyn, ← hn]
    simp [received]

theorem charged_ends (hq : Quoted c r a x quotes) (hb : Budget c r a x paid) (hallow : Allowed r paid sender w)
    (hS : S → c.isSynthetic r = false) :
    Ends (Excused S (chargedBound c r a x (paid (c.currency r))) w) (Charged c r a x sender (paid (c.currency r)) w)
      (charged c r a x sender (paid (c.currency r)) w) := by
  have hbound : collectedBound c r a x (gasHeld c r a x) (paid (c.currency r)) ≤
      chargedBound c r a x (paid (c.currency r)) := Nat.le_add_right _ _
  -- a router that passes nothing on
  have hstay : externalFeeAmount c r a = 0 →
      principal c r a x = (if c.isSynthetic r then [] else [(c.token r, .router r, x.amount)]) → ∀ p,
      Collected c r a x sender (gasHeld c r a x) (paid (c.currency r)) (Approved c r a x w) w p →
        Charged c r a x sender (paid (c.currency r)) w p := by
    intro hexternal hprincipal p hp
    refine hp.charged (Moved.refl _ _) (Nat.zero_le _) ?_
    rw [hprincipal, hexternal, add_zero, add_zero, held]
    split <;> simp [received]
  unfold charged
  cases hflow : c.flow r with
  | transferRemote =>
    have hcollect := collect_base (S := S) hq hb (by simp [hflow]) hallow hS
    refine hcollect.imp (fun e he => Excused.mono he ?_) fun p hp => hstay ?_ ?_ p ?_
    · simpa only [gasHeld, hflow] using hbound
    · rw [externalFeeAmount, hflow]
    · rw [principal, hflow]
    · exact hp.congr (by rw [gasHeld, hflow]) fun n hn => by simpa only [Approved, hflow] using hn
  | bridge kind taker =>
    have hsyn := bridge_locked hflow
    have hcollect := collect_base (S := S) hq hb (by simp [hflow]) hallow hS
    refine Ends.bind_assoc (hcollect.imp (fun e he => Excused.mono he ?_) fun _ hp => hp) fun p hp => ?_
    · simpa only [gasHeld, hflow] using hbound
    · refine (passOn_charged hsyn ?_ rfl ?_).bind fun w' hw' => hw'
      · exact hp.congr (by rw [gasHeld, hflow]) fun n hn => by simpa only [Approved, hflow] using hn
      · rw [principal, hflow]
  | crossCollateral =>
    have hcollect := collect_forRouter (S := S) hq hb hflow hallow
    refine hcollect.imp (fun e he => Excused.mono he ?_) fun p hp => hstay ?_ ?_ p ?_
    · simpa only [gasHeld, hflow] using hbound
    · rw [externalFeeAmount, hflow]
    · rw [principal, hflow]
    · exact hp.congr (by rw [gasHeld, hflow]) fun n hn => by simpa only [Approved, hflow] using hn
  | vault vault =>
    obtain ⟨t, hkind⟩ := vault_kind hflow
    have hsyn := (collateral_cases hkind).2
    have hexternal : externalFeeAmount c r a = 0 := by rw [externalFeeAmount, hflow]
    have hcollect := collect_vault (S := S) hq hb hflow hallow
    have hends : Ends (Excused S (chargedBound c r a x (paid (c.currency r))) w) (fun w' =>
        Collected c r a x sender (gasHeld c r a x) (paid (c.currency r)) (Approved c r a x w) w
          (w', paid (c.currency r))) _ :=
      hcollect.imp (fun e he => Excused.mono he (by simpa only [gasHeld, hflow] using hbound))
        fun w' hp => hp.congr (by rw [gasHeld, hflow]) fun n hn => by simpa only [Approved, hflow] using hn
    have hpass : ∀ w1, Collected c r a x sender (gasHeld c r a x) (paid (c.currency r)) (Approved c r a x w) w
        (w1, paid (c.currency r)) →
        Ends (Excused S (chargedBound c r a x (paid (c.currency r))) w) (Charged c r a x sender (paid (c.currency r)) w)
          ((w1.on (c.token r) fun l => l.transfer (.router r) (.user vault) x.amount) >>= fun w' =>
            pure (w', paid (c.currency r))) := by
      intro w1 hp
      refine (passOn_charged hsyn hp (by rw [hexternal, add_zero]) ?_).bind fun w' hw' => hw'
      rw [principal, hflow]
    simpa only [bind_assoc] using hends.bind hpass
end Hyperlane.Warp.Quoting
