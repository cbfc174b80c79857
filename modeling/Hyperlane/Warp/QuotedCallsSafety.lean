/-
Users leave standing allowances to the command router. What they can lose.

- `Holds`: what a step of somebody else leaves to a user and to the router.
- `Flow`: what a command of an execution does, by the user or by another caller.
- `approvals_safe`: over every run, a user loses at most what the user's own finished executions name, whatever the others
  call and wherever they call again; and every quote and account salt that the router uses belongs to the caller.
- `nothing_left_behind`: in an execution that ends with a sweep, what is missing was taken by spenders that the router had
  approved; nobody can step in and sweep it.
-/
import Hyperlane.Core.Outcome
import Hyperlane.Warp.QuotedCallsSteps

namespace Hyperlane.QuotedCalls

open Hyperlane.ForeignCode Hyperlane.ForeignCode.Code Hyperlane.Tokens Hyperlane.Outcome
open Hyperlane.Mailbox (Address Bytes32)

variable {P α : Type}

/-! ## Assumptions on the environment -/

/-- a user, who is not the router or Permit2, and for whom `G` says that in Permit2 only the router may spend -/
structure User (c : Config P) (u : Address) (G : P → Prop) : Prop where
  ne_self : u ≠ c.self
  ne_permit2 : u ≠ c.PERMIT2
  /-- the user signs permits for the router only -/
  permit : ∀ {now p owner permitSingle signature p'}, G p →
    c.permit2.permit now p owner permitSingle signature = some p' → G p'
  spend : ∀ {now p owner spender token amount p'}, G p →
    c.permit2.spend now p owner spender token amount = some p' → G p'
  approve : ∀ {p owner token spender amount expiration}, owner ≠ u → G p →
    G (c.permit2.approve p owner token spender amount expiration)
  only : ∀ {now p spender token amount p'}, G p → c.permit2.spend now p u spender token amount = some p' →
    spender = c.self ∨ amount = 0

/-- who calls is not the router or Permit2, and the user only calls the router -/
def Allowed (c : Config P) (u : Address) (op : Op) : Prop :=
  op.sender ≠ c.self ∧ op.sender ≠ c.PERMIT2 ∧ (op.sender = u → op.isCall = true)

abbrev AllowedOp (c : Config P) (u : Address) := { op : Op // Allowed c u op }

/-- the user lets nobody but the router and Permit2 spend its tokens -/
structure Guarded (c : Config P) (u : Address) (G : P → Prop) (s : World P) : Prop where
  allowance : ∀ t, c.isToken t = true → ∀ spender, spender ≠ c.self → spender ≠ c.PERMIT2 →
    (s.tokens t).allowance u spender = 0
  permit2 : G s.permit2

/-! ## Steps -/

section Shifts

variable {c : Config P} {token spender src dst : Address} {amount k : ℕ} {s s' : World P}

/-- an amount moves; `k` of it is noted as taken -/
structure Shift (token src dst : Address) (amount k : ℕ) (s s' : World P) : Prop where
  balance : ∀ a, ((s'.tokens token).balance a : ℤ) =
    (s.tokens token).balance a - Ledger.part (a = src) amount + Ledger.part (a = dst) amount
  allowance : ∀ o sp, (s.tokens token).allowance o sp = 0 → (s'.tokens token).allowance o sp = 0
  others : ∀ t, t ≠ token → s'.tokens t = s.tokens t
  permit2 : s'.permit2 = s.permit2
  entered : s'.entered = s.entered
  executed : s'.executed = s.executed
  taken : ∀ t, s'.taken t = s.taken t + if t = token then k else 0

theorem onToken_ok {f : Ledger Address → Except Reason (Ledger Address)} (h : onToken token f s = .ok s') :
    ∃ l, f (s.tokens token) = .ok l ∧ s' = { s with tokens := Function.update s.tokens token l } := by
  unfold onToken at h
  split at h
  next tokens hon =>
    obtain ⟨l, hl, htokens⟩ := bind_eq_ok.1 hon
    obtain rfl := Except.ok.inj htokens
    exact ⟨l, hl, (Except.ok.inj h).symm⟩
  next => cases h

theorem shift_transfer (h : onToken token (Ledger.transfer src dst amount) s = .ok s') :
    Shift token src dst amount 0 s s' := by
  obtain ⟨l, hl, rfl⟩ := onToken_ok h
  obtain ⟨-, hallowance, -, hbalance⟩ := Ledger.transfer_ok hl
  constructor <;> simp_all

theorem transferFromLedger_ok {l l' : Ledger Address} (h : transferFromLedger spender src dst amount l = .ok l') :
    (l.allowance src spender = 0 → amount = 0) ∧ (∀ o sp, l.allowance o sp = 0 → l'.allowance o sp = 0) ∧
      ∀ a, (l'.balance a : ℤ) = l.balance a - Ledger.part (a = src) amount + Ledger.part (a = dst) amount := by
  unfold transferFromLedger at h
  split_ifs at h with hmax
  · obtain ⟨-, hallowance, -, hbalance⟩ := Ledger.transfer_ok h
    refine ⟨fun hzero => ?_, fun o sp hzero => ?_, hbalance⟩
    · omega
    · rw [hallowance, hzero]
  · obtain ⟨hle, -, hallowance, hbalance⟩ := Ledger.transferFrom_ok h
    refine ⟨fun hzero => by omega, fun o sp hzero => ?_, hbalance⟩
    rw [hallowance]
    simp only [Ledger.approve]
    split_ifs with hsame
    · rw [← hsame.1, ← hsame.2, hzero, Nat.zero_sub]
    · exact hzero

/-- what is taken from the router is noted -/
theorem shift_transferFrom (h : tokenTransferFrom c token spender src dst amount s = .ok s') :
    Shift token src dst amount (if src = c.self then amount else 0) s s' ∧
      ((s.tokens token).allowance src spender = 0 → amount = 0) := by
  obtain ⟨s₁, hon, hs'⟩ := bind_eq_ok.1 h
  obtain ⟨l, hl, rfl⟩ := onToken_ok hon
  obtain rfl := Except.ok.inj hs'
  obtain ⟨hzero, hallowance, hbalance⟩ := transferFromLedger_ok hl
  refine ⟨⟨?_, ?_, ?_, rfl, rfl, rfl, fun t => ?_⟩, hzero⟩
  · simpa using hbalance
  · simpa using hallowance
  · intro t ht
    simp [ht]
  · by_cases ht : t = token
    · simp [ht]
    · simp [ht]

end Shifts

section Steps

variable (c : Config P) (u : Address) (G : P → Prop)

/-- what a step of somebody else leaves to the user and to the router -/
structure Held (s s' : World P) : Prop where
  guarded : Guarded c u G s'
  entered : s'.entered = s.entered
  executed : s'.executed = s.executed
  user : ∀ t, c.isToken t = true → (s.tokens t).balance u ≤ (s'.tokens t).balance u
  router : ∀ t, c.isToken t = true → (s.tokens t).balance c.self + s.taken t ≤ (s'.tokens t).balance c.self + s'.taken t
  taken : ∀ t, s.taken t ≤ s'.taken t

def Holds (s s' : World P) : Prop := Guarded c u G s → Held c u G s s'

/-- the amount of a token that a command names -/
def namedIn (t : Address) (command : UInt8) : Input → ℕ
  | .transfer token amount => if (command = PERMIT2_TRANSFER_FROM ∨ command = TRANSFER_FROM) ∧ token = t then amount else 0
  | _ => 0

def namedInAll (t : Address) (commands : List (UInt8 × Input)) : ℕ := (commands.map fun x => namedIn t x.1 x.2).sum

/-- the amount of a token that the finished executions of a user name -/
def named (t : Address) (executed : List (Address × List (UInt8 × Input))) : ℕ :=
  (executed.map fun e => if e.1 = u then namedInAll t e.2 else 0).sum

/-- what happens between two executions -/
structure After (s s' : World P) : Prop where
  guarded : Guarded c u G s'
  entered : s'.entered = false
  user : ∀ t, c.isToken t = true →
    (s.tokens t).balance u + named u t s.executed ≤ (s'.tokens t).balance u + named u t s'.executed

/-- what foreign code does, inside an execution and outside -/
def Keeps (s s' : World P) : Prop :=
  Guarded c u G s → (s.entered = true → Held c u G s s') ∧ (s.entered = false → After c u G s s')

/-- what a command of `sender` does; `n` is what it may cost the user, if the user is the sender -/
structure Sent (sender : Address) (n : Address → ℕ) (s s' : World P) : Prop where
  guarded : Guarded c u G s'
  entered : s'.entered = true
  executed : s'.executed = s.executed
  user : ∀ t, c.isToken t = true → (s.tokens t).balance u ≤ (s'.tokens t).balance u + if sender = u then n t else 0
  both : sender = u → ∀ t, c.isToken t = true → (s.tokens t).balance u + (s.tokens t).balance c.self + s.taken t ≤
    (s'.tokens t).balance u + (s'.tokens t).balance c.self + s'.taken t

def Flow (sender : Address) (n : Address → ℕ) (s s' : World P) : Prop :=
  Guarded c u G s → s.entered = true → Sent c u G sender n s s'

variable {c u G} {s s' s'' : World P} {sender : Address} {n n' : Address → ℕ}

theorem Held.refl (h : Guarded c u G s) : Held c u G s s :=
  ⟨h, rfl, rfl, fun _ _ => le_rfl, fun _ _ => le_rfl, fun _ => le_rfl⟩

theorem Held.trans (h : Held c u G s s') (h' : Held c u G s' s'') : Held c u G s s'' where
  guarded := h'.guarded
  entered := h'.entered.trans h.entered
  executed := h'.executed.trans h.executed
  user t ht := (h.user t ht).trans (h'.user t ht)
  router t ht := (h.router t ht).trans (h'.router t ht)
  taken t := (h.taken t).trans (h'.taken t)

theorem holds_refl (s : World P) : Holds c u G s s := Held.refl

theorem Holds.keeps (h : Holds c u G s s') : Keeps c u G s s' := by
  intro hs
  refine ⟨fun _ => h hs, fun hentered => ?_⟩
  have hheld := h hs
  refine ⟨hheld.guarded, hheld.entered.trans hentered, fun t ht => ?_⟩
  rw [hheld.executed]
  exact Nat.add_le_add_right (hheld.user t ht) _

theorem keeps_refl (s : World P) : Keeps c u G s s := (holds_refl s).keeps

theorem Keeps.trans (h : Keeps c u G s s') (h' : Keeps c u G s' s'') : Keeps c u G s s'' := by
  intro hs
  constructor
  · intro hentered
    have hfirst := (h hs).1 hentered
    exact hfirst.trans ((h' hfirst.guarded).1 (hfirst.entered.trans hentered))
  · intro hentered
    have hfirst := (h hs).2 hentered
    have hsecond := (h' hfirst.guarded).2 hfirst.entered
    exact ⟨hsecond.guarded, hsecond.entered, fun t ht => (hfirst.user t ht).trans (hsecond.user t ht)⟩

theorem Held.sent (h : Held c u G s s') (hentered : s.entered = true) : Sent c u G sender (fun _ => 0) s s' where
  guarded := h.guarded
  entered := h.entered.trans hentered
  executed := h.executed
  user t ht := (h.user t ht).trans (Nat.le_add_right _ _)
  both _ t ht := by
    have huser := h.user t ht
    have hrouter := h.router t ht
    omega

theorem Holds.flow (h : Holds c u G s s') : Flow c u G sender (fun _ => 0) s s' := fun hs hentered => (h hs).sent hentered

theorem Keeps.flow (h : Keeps c u G s s') : Flow c u G sender (fun _ => 0) s s' :=
  fun hs hentered => ((h hs).1 hentered).sent hentered

theorem Flow.trans (h : Flow c u G sender n s s') (h' : Flow c u G sender n' s' s'') :
    Flow c u G sender (fun t => n t + n' t) s s'' := by
  intro hs hentered
  have hfirst := h hs hentered
  have hsecond := h' hfirst.guarded hfirst.entered
  refine ⟨hsecond.guarded, hsecond.entered, hsecond.executed.trans hfirst.executed, fun t ht => ?_, fun hu t ht => ?_⟩
  · have h₁ := hfirst.user t ht
    have h₂ := hsecond.user t ht
    split_ifs at h₁ h₂ ⊢
    · omega
    · omega
  · exact (hfirst.both hu t ht).trans (hsecond.both hu t ht)

theorem Flow.mono (h : Flow c u G sender n s s') (hn : ∀ t, n t ≤ n' t) : Flow c u G sender n' s s' := by
  intro hs hentered
  have hsent := h hs hentered
  refine ⟨hsent.guarded, hsent.entered, hsent.executed, fun t ht => (hsent.user t ht).trans ?_, hsent.both⟩
  split_ifs
  · exact Nat.add_le_add_left (hn t) _
  · exact le_rfl

theorem Flow.trans_zero {a b d : World P} (h : Flow c u G sender (fun _ => 0) a b)
    (h' : Flow c u G sender (fun _ => 0) b d) : Flow c u G sender (fun _ => 0) a d := h.trans h'

/-! ## What the accesses do -/

section Accesses

variable {token src dst : Address} {amount k : ℕ}

theorem Shift.guarded (h : Shift token src dst amount k s s') (hs : Guarded c u G s) : Guarded c u G s' where
  allowance t ht spender hself hpermit2 := by
    have hzero := hs.allowance t ht spender hself hpermit2
    by_cases hsame : t = token
    · subst hsame
      exact h.allowance u spender hzero
    · rw [h.others t hsame]
      exact hzero
  permit2 := by
    rw [h.permit2]
    exact hs.permit2

/-- tokens move that are not the user's, and those of the router are noted -/
theorem Shift.held (h : Shift token src dst amount k s s') (hs : Guarded c u G s)
    (huser : c.isToken token = true → src = u → amount = 0) (hrouter : src = c.self → amount ≤ k) :
    Held c u G s s' where
  guarded := h.guarded hs
  entered := h.entered
  executed := h.executed
  user t ht := by
    by_cases hsame : t = token
    · subst hsame
      have hbalance := h.balance u
      by_cases hsrc : src = u
      · simp only [huser ht hsrc, Ledger.part] at hbalance
        omega
      · simp only [Ledger.part, if_neg (Ne.symm hsrc)] at hbalance
        split_ifs at hbalance
        · omega
        · omega
    · rw [h.others t hsame]
  router t ht := by
    by_cases hsame : t = token
    · subst hsame
      have hbalance := h.balance c.self
      rw [h.taken, if_pos rfl]
      by_cases hsrc : src = c.self
      · have hk := hrouter hsrc
        simp only [Ledger.part, if_pos hsrc.symm] at hbalance
        split_ifs at hbalance
        · omega
        · omega
      · simp only [Ledger.part, if_neg (Ne.symm hsrc)] at hbalance
        split_ifs at hbalance
        · omega
        · omega
    · rw [h.others t hsame, h.taken, if_neg hsame]
      exact le_rfl
  taken t := by
    rw [h.taken]
    exact Nat.le_add_right _ _

/-- the sender's tokens go to the router, or the router's to the sender -/
theorem Shift.sent (h : Shift token src dst amount k s s') (hs : Guarded c u G s) (hentered : s.entered = true)
    (hne : u ≠ c.self) (hends : (src = sender ∧ dst = c.self ∧ sender ≠ c.self) ∨ (src = c.self ∧ dst = sender)) :
    Sent c u G sender (fun t => if t = token ∧ src = sender then amount else 0) s s' where
  guarded := h.guarded hs
  entered := h.entered.trans hentered
  executed := h.executed
  user t ht := by
    by_cases hsame : t = token
    · subst hsame
      have hbalance := h.balance u
      simp only [Ledger.part] at hbalance
      rcases hends with ⟨rfl, rfl, -⟩ | ⟨rfl, rfl⟩
      · rw [if_neg hne] at hbalance
        by_cases hu : src = u
        · subst hu
          simp only [if_true, and_self] at hbalance ⊢
          omega
        · simp only [if_neg (Ne.symm hu), if_neg hu] at hbalance ⊢
          omega
      · rw [if_neg hne] at hbalance
        split_ifs at hbalance
        · omega
        · omega
    · rw [h.others t hsame]
      exact Nat.le_add_right _ _
  both hu t ht := by
    subst hu
    by_cases hsame : t = token
    · subst hsame
      have huser := h.balance sender
      have hrouter := h.balance c.self
      have htaken := h.taken t
      simp only [Ledger.part] at huser hrouter
      rcases hends with ⟨rfl, rfl, -⟩ | ⟨rfl, rfl⟩
      · simp only [if_neg hne, if_neg (Ne.symm hne), if_true] at huser hrouter
        omega
      · simp only [if_neg hne, if_neg (Ne.symm hne), if_true] at huser hrouter
        omega
    · rw [h.others t hsame, h.taken, if_neg hsame]
      exact le_rfl

end Accesses

/-- nothing that counts is changed -/
theorem holds_of_same (htokens : s'.tokens = s.tokens) (hpermit2 : s'.permit2 = s.permit2)
    (hentered : s'.entered = s.entered) (hexecuted : s'.executed = s.executed) (htaken : s'.taken = s.taken) :
    Holds c u G s s' := by
  intro hs
  refine ⟨⟨?_, ?_⟩, hentered, hexecuted, ?_, ?_, ?_⟩
  · rw [htokens]
    exact hs.allowance
  · rw [hpermit2]
    exact hs.permit2
  · rw [htokens]
    exact fun _ _ => le_rfl
  · rw [htokens, htaken]
    exact fun _ _ => le_rfl
  · rw [htaken]
    exact fun _ => le_rfl

theorem holds_pay {src dst : Address} {amount : ℕ} (h : pay src dst amount s = .ok s') : Holds c u G s s' := by
  unfold pay at h
  split_ifs at h
  cases h
  exact holds_of_same rfl rfl rfl rfl rfl

theorem holds_approve {token owner spender : Address} {amount : ℕ} (hne : owner ≠ u)
    (h : onToken token (fun l => .ok (l.approve owner spender amount)) s = .ok s') : Holds c u G s s' := by
  intro hs
  obtain ⟨l, hl, rfl⟩ := onToken_ok h
  obtain rfl := Except.ok.inj hl
  have hbalance : ∀ t a, (Function.update s.tokens token ((s.tokens token).approve owner spender amount) t).balance a =
      (s.tokens t).balance a := by
    intro t a
    by_cases ht : t = token
    · subst ht
      simp [Ledger.approve]
    · simp [ht]
  refine ⟨⟨fun t ht sp hself hpermit2 => ?_, hs.permit2⟩, rfl, rfl, ?_, ?_, fun _ => le_rfl⟩
  · have hzero := hs.allowance t ht sp hself hpermit2
    by_cases hsame : t = token
    · subst hsame
      simpa [Ledger.approve, Ne.symm hne] using hzero
    · simpa [hsame] using hzero
  · exact fun t _ => le_of_eq (hbalance t u).symm
  · exact fun t _ => Nat.add_le_add_right (le_of_eq (hbalance t c.self).symm) _

theorem holds_permit2 {p : P} (h : Guarded c u G s → G p) : Holds c u G s { s with permit2 := p } := fun hs =>
  ⟨⟨hs.allowance, h hs⟩, rfl, rfl, fun _ _ => le_rfl, fun _ _ => le_rfl, fun _ => le_rfl⟩

/-! ## Programs of such steps -/

section Programs

variable (hu : User c u G)

include hu

theorem holds_permit (now : ℕ) (owner : Address) (permitSingle : PermitSingle) (signature : List UInt8) (s : World P) :
    Holds c u G s (permit c now owner permitSingle signature s) := by
  unfold permit
  split
  next p hp => exact holds_permit2 fun hs => hu.permit hs.permit2 hp
  next => exact holds_refl s

/-- a relation that holds for what others do -/
theorem includes_of_holds {J : World P → World P → Prop} (hJ : ∀ {s s'}, Holds c u G s s' → J s s') : Includes c J where
  refl s := hJ (holds_refl s)
  pay h := hJ (holds_pay h)
  approve h := hJ (holds_approve (Ne.symm hu.ne_self) h)
  outgoing _ := hJ (holds_of_same rfl rfl rfl rfl rfl)
  permit now owner permitSingle signature s := hJ (holds_permit hu now owner permitSingle signature s)

theorem includes_keeps : Includes c (Keeps c u G) := includes_of_holds hu Holds.keeps

theorem includes_flow : Includes c (Flow c u G sender fun _ => 0) := includes_of_holds hu Holds.flow

end Programs

/-- a program of steps of others, within an execution -/
theorem ensures_flow (sender : Address) {p : Program P α} (h : p.Steps (Flow c u G sender fun _ => 0)) (s : World P) :
    p.Ensures (Keeps c u G) (fun _ => Flow c u G sender (fun _ => 0) s) s :=
  h.ensures (fun s => (holds_refl s).flow) Flow.trans_zero Keeps.flow

/-! ## Commands -/

theorem named_append {t : Address} (executed : List (Address × List (UInt8 × Input))) (commands : List (UInt8 × Input)) :
    named u t (executed ++ [(sender, commands)]) =
      named u t executed + if sender = u then namedInAll t commands else 0 := by
  simp [named]

theorem asTransfer_ok {bits : ℕ} {input : Input} {x : Address × ℕ} (h : input.asTransfer bits = .ok x) :
    input = .transfer x.1 x.2 := by
  unfold Input.asTransfer at h
  split at h
  · split_ifs at h
    cases h
    rfl
  · cases h

section Commands

variable (hu : User c u G) (hself : sender ≠ c.self)

include hu hself

/-- a transfer from the sender to the router -/
theorem flow_pull {token spender : Address} {amount : ℕ}
    (h : tokenTransferFrom c token spender sender c.self amount s = .ok s') :
    Flow c u G sender (fun t => if token = t then amount else 0) s s' := by
  intro hs hentered
  have hsent := (shift_transferFrom h).1.sent hs hentered hu.ne_self (Or.inl ⟨rfl, rfl, hself⟩)
  have hflow : Flow c u G sender (fun t => if token = t then amount else 0) s s' := by
    refine Flow.mono (fun _ _ => hsent) fun t => ?_
    by_cases ht : t = token
    · simp [ht]
    · simp [ht]
  exact hflow hs hentered

theorem ensures_permit2TransferFrom (now : ℕ) (token : Address) (amount : ℕ) :
    (permit2TransferFrom c now c.self sender c.self amount token).Ensures (Keeps c u G)
      (fun _ => Flow c u G sender (fun t => if token = t then amount else 0) s) s := by
  refine ensures_update_bind fun s₁ hspend => ?_
  have hfirst : Holds c u G s s₁ := by
    split at hspend
    next p hp =>
      cases hspend
      exact holds_permit2 fun hs => hu.spend hs.permit2 hp
    next => cases hspend
  refine ensures_ite (fun _ => ?_) fun _ => ?_
  · refine ensures_update fun s₂ hpull => ?_
    exact (hfirst.flow.trans (flow_pull hu hself hpull)).mono fun t => by simp
  · refine (ensures_flow sender (steps_safeCall (includes_flow hu)) s₁).mono fun _ s₂ h => ?_
    exact (hfirst.flow.trans_zero h).mono fun t => Nat.zero_le _

theorem ensures_safeTransferFrom (token : Address) (amount : ℕ) :
    (safeTransferFrom c token sender amount).Ensures (Keeps c u G)
      (fun _ => Flow c u G sender (fun t => if token = t then amount else 0) s) s := by
  refine ensures_ite (fun _ => ?_) fun _ => ?_
  · exact ensures_update fun s₁ hpull => flow_pull hu hself hpull
  · exact (ensures_flow sender (steps_safeCall (includes_flow hu)) s).mono fun _ s₁ h => h.mono fun t => Nat.zero_le _

theorem ensures_sweepToken (token : Address) :
    (sweepToken c sender token).Ensures (Keeps c u G) (fun _ => Flow c u G sender (fun _ => 0) s) s := by
  have hbalance : (balanceOf c token).Ensures (Keeps c u G) (fun _ => Flow c u G sender (fun _ => 0) s) s :=
    ensures_flow sender (steps_balanceOf (includes_flow hu) token) s
  refine hbalance.bind fun balance s₁ h => ?_
  refine ensures_ite (fun _ => ?_) fun _ => ensures_pure h
  refine ensures_ite (fun _ => ?_) fun _ => ?_
  · refine ensures_update fun s₂ htransfer => h.trans_zero ?_
    intro hs hentered
    have hsent := (shift_transfer htransfer).sent hs hentered hu.ne_self (Or.inr ⟨rfl, rfl⟩)
    have hflow : Flow c u G sender (fun _ => 0) s₁ s₂ := Flow.mono (fun _ _ => hsent) fun t => by simp [Ne.symm hself]
    exact hflow hs hentered
  · exact (ensures_flow sender (steps_safeCall (includes_flow hu)) s₁).mono fun _ s₂ h' => h.trans_zero h'

theorem ensures_sweep (input : Input) :
    (sweep c sender input).Ensures (Keeps c u G) (fun _ => Flow c u G sender (fun _ => 0) s) s := by
  refine ensures_lift_bind fun token _ => ?_
  dsimp only
  refine ensures_ite (fun _ => ?_) fun _ => ensures_flow sender (steps_sweepEth (includes_flow hu) sender) s
  refine (ensures_sweepToken hu hself token).bind fun _ s₁ h => ?_
  exact (ensures_flow sender (steps_sweepEth (includes_flow hu) sender) s₁).mono fun _ s₂ h' => h.trans_zero h'

/-- **A command costs its sender at most what it names**, and nobody else. -/
theorem ensures_dispatch (now : ℕ) (command : UInt8) (input : Input) :
    (dispatch c now sender command input).Ensures (Keeps c u G)
      (fun _ => Flow c u G sender (fun t => namedIn t command input) s) s := by
  have hfree : ∀ {p : Program P Unit}, p.Ensures (Keeps c u G) (fun _ => Flow c u G sender (fun _ => 0) s) s →
      p.Ensures (Keeps c u G) (fun _ => Flow c u G sender (fun t => namedIn t command input) s) s :=
    fun h => h.mono fun _ _ h => h.mono fun _ => Nat.zero_le _
  have hsteps : ∀ {p : Program P Unit}, p.Steps (Flow c u G sender fun _ => 0) →
      p.Ensures (Keeps c u G) (fun _ => Flow c u G sender (fun t => namedIn t command input) s) s :=
    fun h => hfree (ensures_flow sender h s)
  unfold dispatch
  refine ensures_ite (fun _ => ?_) fun _ => ensures_ite (fun _ => ?_) fun _ => ensures_ite (fun hcommand => ?_) fun _ =>
    ensures_ite (fun hcommand => ?_) fun _ => ensures_ite (fun _ => ?_) fun _ => ensures_ite (fun _ => ?_) fun _ =>
    ensures_ite (fun _ => ?_) fun _ => ensures_ite (fun _ => ?_) fun _ => ensures_ite (fun _ => ?_) fun _ => trivial
  · exact hsteps (steps_submitQuote (includes_flow hu) sender input)
  · refine hsteps (steps_lift.bind ?_)
    rintro ⟨permitSingle, signature⟩
    exact steps_permit (includes_flow hu) now sender permitSingle signature
  · refine ensures_lift_bind fun x hx => ?_
    obtain rfl := asTransfer_ok hx
    refine (ensures_permit2TransferFrom hu hself now x.1 x.2).mono fun _ s₁ h => h.mono fun t => ?_
    simp [namedIn, hcommand]
  · refine ensures_lift_bind fun x hx => ?_
    obtain rfl := asTransfer_ok hx
    refine (ensures_safeTransferFrom hu hself x.1 x.2).mono fun _ s₁ h => h.mono fun t => ?_
    simp [namedIn, hcommand]
  · exact hsteps (steps_dispatchTransferRemote (includes_flow hu) sender input)
  · exact hsteps (steps_dispatchTransferRemoteTo (includes_flow hu) sender input)
  · exact hsteps (steps_dispatchCallRemoteWithOverrides (includes_flow hu) sender input)
  · exact hsteps (steps_dispatchCallRemoteCommitReveal (includes_flow hu) sender input)
  · exact hfree (ensures_sweep hu hself input)

theorem ensures_dispatchAll (now : ℕ) (commands : List (UInt8 × Input)) :
    (dispatchAll c now sender commands).Ensures (Keeps c u G)
      (fun _ => Flow c u G sender (fun t => namedInAll t commands) s) s := by
  induction commands generalizing s with
  | nil => exact ensures_pure ((holds_refl s).flow)
  | cons x rest ih =>
    refine Ensures.bind (ensures_dispatch hu hself now x.1 x.2) fun _ s₁ h => ?_
    refine ih.mono fun _ s₂ h' => (h.trans h').mono fun t => ?_
    simp [namedInAll]

theorem ensures_execute (now value : ℕ) (commands : List UInt8) (inputs : List Input) :
    (execute c now sender value commands inputs).Ensures (Keeps c u G) (fun _ => Keeps c u G s) s := by
  refine ensures_update_bind fun s₁ hpay => ?_
  refine ensures_read_bind (ensures_require_bind fun hfree => ?_)
  refine ensures_write_bind (ensures_require_bind fun _ => ?_)
  refine (ensures_dispatchAll hu hself now _).bind fun _ s₂ h => ensures_write ?_
  intro hs
  have hpaid := holds_pay hpay hs
  have hentered : s.entered = false := hpaid.entered.symm.trans hfree
  have hsent := h ⟨hpaid.guarded.allowance, hpaid.guarded.permit2⟩ rfl
  refine ⟨fun htrue => ?_, fun _ => ⟨⟨hsent.guarded.allowance, hsent.guarded.permit2⟩, rfl, fun t ht => ?_⟩⟩
  · rw [hentered] at htrue
    cases htrue
  · have hexecuted : s₂.executed = s.executed := hsent.executed.trans hpaid.executed
    dsimp only
    rw [named_append, hexecuted]
    have hfirst : (s.tokens t).balance u ≤ (s₁.tokens t).balance u := hpaid.user t ht
    have hsecond : (s₁.tokens t).balance u ≤ (s₂.tokens t).balance u + if sender = u then namedInAll t _ else 0 :=
      hsent.user t ht
    omega

end Commands

/-! ## Runs -/

section Runs

variable (hu : User c u G)

include hu

/-- **Whatever others call**, a user who only calls the router is left with everything its executions do not name. -/
theorem ensures_body (now : ℕ) (op : AllowedOp c u) (s : World P) :
    (body c now op.1).Ensures (Keeps c u G) (fun _ => Keeps c u G s) s := by
  obtain ⟨op, hself, hpermit2, hcall⟩ := op
  have hsteps : ∀ {p : Program P Unit}, p.Steps (Keeps c u G) → p.Ensures (Keeps c u G) (fun _ => Keeps c u G s) s :=
    fun h => h.ensures keeps_refl Keeps.trans id
  have hother : op.isCall = false → op.sender ≠ u := by
    rintro hno heq
    rw [hcall heq] at hno
    cases hno
  cases op with
  | execute sender value commands inputs => exact ensures_execute hu hself now value commands inputs
  | quoteExecute sender commands inputs =>
    refine hsteps (Steps.bind ?_ fun _ => steps_pure)
    exact steps_require.bind fun _ => steps_quoteAll (includes_keeps hu) sender _
  | transfer sender token dst amount =>
    refine hsteps (steps_update keeps_refl fun s s' h => Holds.keeps fun hs => ?_)
    refine (shift_transfer h).held hs (fun _ heq => absurd heq (hother rfl)) fun heq => absurd heq hself
  | approve sender token spender amount =>
    exact hsteps (steps_update keeps_refl fun s s' h => (holds_approve (hother rfl) h).keeps)
  | transferFrom sender token src dst amount =>
    refine hsteps (steps_update keeps_refl fun s s' h => Holds.keeps fun hs => ?_)
    obtain ⟨hshift, hzero⟩ := shift_transferFrom h
    refine hshift.held hs (fun htoken heq => hzero ?_) fun heq => ?_
    · rw [heq]
      exact hs.allowance token htoken sender hself hpermit2
    · rw [if_pos heq]
  | permit sender owner permitSingle signature =>
    exact hsteps (steps_permit (includes_keeps hu) now owner permitSingle signature)
  | permit2Approve sender token spender amount expiration =>
    refine hsteps (steps_write fun s => Holds.keeps (holds_permit2 fun hs => ?_))
    exact hu.approve (hother rfl) hs.permit2
  | permit2TransferFrom sender owner dst amount token =>
    refine ensures_update_bind fun s₁ hspend => ?_
    split at hspend
    next p hp =>
      cases hspend
      have hfirst : Holds c u G s { s with permit2 := p } := holds_permit2 fun hs => hu.spend hs.permit2 hp
      refine ensures_ite (fun _ => ?_) fun _ => ?_
      · refine ensures_update fun s₂ h hs => hfirst.keeps.trans (Holds.keeps fun hs₁ => ?_) hs
        refine (shift_transferFrom h).1.held hs₁ (fun _ heq => ?_) fun heq => ?_
        · -- the user's allowances in Permit2 are for the router
          rw [heq] at hp
          exact (hu.only hs.permit2 hp).resolve_left hself
        · rw [if_pos heq]
      · refine (Steps.ensures keeps_refl Keeps.trans id (steps_safeCall (includes_keeps hu))).mono fun _ s₂ h => ?_
        exact hfirst.keeps.trans h
    next => cases hspend
  | pay sender dst amount => exact hsteps (steps_update keeps_refl fun s s' h => (holds_pay h).keeps)

/-- **Standing approvals are safe.** Over every run in which the user only calls the router, whatever the others call and
wherever they call again: of every standard token the user has lost at most what its own finished executions name. And
every salt that the router passes on is the hash of its caller and a salt of the caller's, so two callers that share one
have found two packed inputs with that hash. -/
theorem approvals_safe (txs : List (ℕ × Frame (AllowedOp c u) Answer Error)) (hs : Guarded c u G s)
    (hfree : s.entered = false) (hnone : s.outgoing = []) :
    let s' := run (fun now (op : AllowedOp c u) => body c now op.1) s txs
    (∀ t, c.isToken t = true →
      (s.tokens t).balance u + named u t s.executed ≤ (s'.tokens t).balance u + named u t s'.executed) ∧
    (∀ x ∈ s'.outgoing, ∀ salt, x.2.salt = some salt → ∃ clientSalt, salt = scopeSalt c x.1 clientSalt) ∧
    ∀ x ∈ s'.outgoing, ∀ y ∈ s'.outgoing, ∀ salt, x.2.salt = some salt → y.2.salt = some salt → x.1 ≠ y.1 →
      ∃ clientSalt clientSalt' : Bytes32, x.1.1 ++ clientSalt.1 ≠ y.1.1 ++ clientSalt'.1 ∧
        c.keccak (x.1.1 ++ clientSalt.1) = salt ∧ c.keccak (y.1.1 ++ clientSalt'.1) = salt := by
  intro s'
  have hkeeps : Keeps c u G s s' :=
    run_guarantee keeps_refl Keeps.trans txs (fun tx _ op s => ensures_body hu tx.1 op s) s
  have hscoped : ∀ x ∈ s'.outgoing, Scoped c x := by
    refine salts_scoped Subtype.val txs ?_
    rw [hnone]
    exact fun _ hx => nomatch hx
  refine ⟨((hkeeps hs).2 hfree).user, hscoped, ?_⟩
  intro x hx y hy salt hsalt hsalt' hne
  exact (hscoped x hx).collision (hscoped y hy) hsalt hsalt' hne

end Runs

/-! ## A sweep at the end -/

/-- what a step of others leaves, inside an execution -/
def Inside (c : Config P) (u : Address) (G : P → Prop) (s s' : World P) : Prop :=
  Guarded c u G s → s.entered = true → Held c u G s s'

theorem Inside.trans (h : Inside c u G s s') (h' : Inside c u G s' s'') : Inside c u G s s'' := by
  intro hs hentered
  have hfirst := h hs hentered
  exact hfirst.trans (h' hfirst.guarded (hfirst.entered.trans hentered))

theorem Keeps.inside (h : Keeps c u G s s') : Inside c u G s s' := fun hs hentered => (h hs).1 hentered

/-- the user has what both had, but for what was taken -/
def Cleared (c : Config P) (u : Address) (G : P → Prop) (t : Address) (s s' : World P) : Prop :=
  Guarded c u G s → s.entered = true → Sent c u G u (fun _ => 0) s s' ∧
    (s.tokens t).balance u + (s.tokens t).balance c.self + s.taken t ≤ (s'.tokens t).balance u + s'.taken t

theorem Cleared.inside {t : Address} (ht : c.isToken t = true) (h : Cleared c u G t s s') (h' : Inside c u G s' s'') :
    Cleared c u G t s s'' := by
  intro hs hentered
  obtain ⟨hsent, hcleared⟩ := h hs hentered
  have hheld := h' hsent.guarded hsent.entered
  refine ⟨?_, hcleared.trans (Nat.add_le_add (hheld.user t ht) (hheld.taken t))⟩
  have hflow : Flow c u G u (fun _ => 0) s s'' := Flow.trans_zero (fun _ _ => hsent) fun _ _ => hheld.sent hsent.entered
  exact hflow hs hentered

section Clearing

variable (hu : User c u G) {t : Address} (ht : c.isToken t = true)

include hu ht

theorem ensures_sweepToken_cleared :
    (sweepToken c u t).Ensures (Keeps c u G) (fun _ => Cleared c u G t s) s := by
  unfold sweepToken balanceOf safeTransfer
  rw [if_pos ht]
  refine ensures_read_bind (ensures_ite (fun _ => ?_) fun hempty => ?_)
  · rw [if_pos ht]
    refine ensures_update fun s₁ htransfer hs hentered => ?_
    have hshift := shift_transfer htransfer
    have hsent := hshift.sent hs hentered hu.ne_self (Or.inr ⟨rfl, rfl⟩)
    have huser := hshift.balance u
    have htaken := hshift.taken t
    simp only [Ledger.part, if_neg hu.ne_self, if_true, ite_self] at huser htaken
    refine ⟨(Flow.mono (fun _ _ => hsent) fun t' => ?_) hs hentered, by omega⟩
    simp [Ne.symm hu.ne_self]
  · intro hs hentered
    refine ⟨(Held.refl hs).sent hentered, ?_⟩
    have hzero : (s.tokens t).balance c.self = 0 := by omega
    rw [hzero]
    exact le_rfl

/-- **A sweep leaves nothing behind**, also if the receiver of the ether calls again. -/
theorem ensures_sweep_cleared (hzero : c.isToken zeroAddress = false) :
    (sweep c u (.sweep t)).Ensures (Keeps c u G) (fun _ => Cleared c u G t s) s := by
  have hne : t ≠ zeroAddress := by
    rintro rfl
    rw [hzero] at ht
    cases ht
  refine ensures_lift_bind fun token htoken => ?_
  obtain rfl := Except.ok.inj htoken
  dsimp only
  rw [if_pos hne]
  refine (ensures_sweepToken_cleared hu ht).bind fun _ s₁ h => ?_
  have hrest : (sweepEth c u).Ensures (Keeps c u G) (fun _ => Inside c u G s₁) s₁ :=
    (steps_sweepEth (includes_of_holds hu fun h hs _ => h hs) u).ensures (fun _ hs _ => Held.refl hs) Inside.trans
      Keeps.inside
  exact hrest.mono fun _ s₂ h' => h.inside ht h'

theorem ensures_dispatchAll_cleared (hzero : c.isToken zeroAddress = false) (now : ℕ) (commands : List (UInt8 × Input)) :
    (dispatchAll c now u (commands ++ [(SWEEP, .sweep t)])).Ensures (Keeps c u G) (fun _ => fun s' =>
      Guarded c u G s → s.entered = true → Guarded c u G s' ∧
        (s.tokens t).balance u + (s.tokens t).balance c.self + s.taken t ≤ (s'.tokens t).balance u + s'.taken t) s := by
  induction commands generalizing s with
  | nil =>
    refine (ensures_sweep_cleared hu ht hzero).bind fun _ s₁ h => ensures_pure fun hs hentered => ?_
    obtain ⟨hsent, hcleared⟩ := h hs hentered
    exact ⟨hsent.guarded, hcleared⟩
  | cons x rest ih =>
    refine Ensures.bind (ensures_dispatch hu hu.ne_self now x.1 x.2) fun _ s₁ h => ?_
    refine ih.mono fun _ s₂ h' hs hentered => ?_
    have hsent := h hs hentered
    obtain ⟨hguarded, hcleared⟩ := h' hsent.guarded hsent.entered
    exact ⟨hguarded, (hsent.both rfl t ht).trans hcleared⟩

/-- **Nothing is left behind, and nobody steps in.** A user has approved nobody but the router and Permit2, and only calls
the router. In an execution of the user that ends with a sweep of a token, whatever code it calls and whatever that code
calls, the user gets everything that it and the router had, but for what spenders took that the router had approved. -/
theorem nothing_left_behind (hzero : c.isToken zeroAddress = false) (now value : ℕ) {commands : List UInt8}
    {inputs : List Input} {before : List (UInt8 × Input)} (hend : commands.zip inputs = before ++ [(SWEEP, .sweep t)])
    (inner : List (Frame (AllowedOp c u) Answer Error)) (hs : Guarded c u G s)
    (hrun : runCode (fun op : AllowedOp c u => body c now op.1) inner (execute c now u value commands inputs) s =
      .ok ((), s')) :
    (s.tokens t).balance u + (s.tokens t).balance c.self + s.taken t ≤ (s'.tokens t).balance u + s'.taken t := by
  have hexecute : (execute c now u value commands inputs).Ensures (Keeps c u G) (fun _ s' =>
      (s.tokens t).balance u + (s.tokens t).balance c.self + s.taken t ≤ (s'.tokens t).balance u + s'.taken t) s := by
    refine ensures_update_bind fun s₁ hpay => ?_
    refine ensures_read_bind (ensures_require_bind fun _ => ?_)
    refine ensures_write_bind (ensures_require_bind fun _ => ?_)
    rw [hend]
    refine (ensures_dispatchAll_cleared hu ht hzero now before).bind fun _ s₂ h => ensures_write ?_
    have hpaid := holds_pay hpay hs
    have hfirst := hpaid.user t ht
    have hrouter := hpaid.router t ht
    have hsecond := (h ⟨hpaid.guarded.allowance, hpaid.guarded.permit2⟩ rfl).2
    dsimp only at hsecond ⊢
    omega
  exact runCode_guarantee keeps_refl Keeps.trans (fun op s => ensures_body hu now op s) inner hexecute hrun

end Clearing

end Steps

/-! ## A chain -/

section Chain

def account (n : UInt8) : Address := .filled 20 n

def user : Address := account 5
def coin : Address := account 7
def route : Address := account 9

/-- amount, expiration and nonce for an owner, a token and a spender -/
abbrev Allowances := Address → Address → Address → ℕ × ℕ × ℕ

def Allowances.set (p : Allowances) (owner token spender : Address) (x : ℕ × ℕ × ℕ) : Allowances :=
  fun o t sp => if o = owner ∧ t = token ∧ sp = spender then x else p o t sp

/-- what the user has signed: the router may spend 60 until 1000 -/
def signedPermit : PermitSingle := ⟨⟨coin, 60, 1000, 0⟩, account 1, 1000⟩

def toyPermit2 : Permit2 Allowances where
  permit now p owner permitSingle signature :=
    if now ≤ permitSingle.sigDeadline ∧ owner = user ∧ permitSingle = signedPermit ∧ signature = [1] ∧
        (p owner permitSingle.details.token permitSingle.spender).2.2 = permitSingle.details.nonce then
      some (p.set owner permitSingle.details.token permitSingle.spender
        (permitSingle.details.amount, permitSingle.details.expiration, permitSingle.details.nonce + 1))
    else none
  spend now p owner spender token amount :=
    let allowed := p owner token spender
    if now ≤ allowed.2.1 ∧ amount ≤ allowed.1 then
      some (p.set owner token spender (allowed.1 - amount, allowed.2.1, allowed.2.2))
    else none
  approve p owner token spender amount expiration :=
    p.set owner token spender (amount, expiration, (p owner token spender).2.2)

def toyConfig : Config Allowances where
  self := account 1
  PERMIT2 := account 2
  permit2 := toyPermit2
  isToken a := a = coin
  keccak bs := .filled 32 (bs.foldl UInt8.add 0)

/-- in Permit2 the user lets only the router spend -/
def OnlyRouter (p : Allowances) : Prop := ∀ token spender, spender ≠ account 1 → (p user token spender).1 = 0

theorem toyUser : User toyConfig user OnlyRouter where
  ne_self := by decide
  ne_permit2 := by decide
  permit := by
    intro now p owner permitSingle signature p' hp h token spender hne
    simp only [toyConfig, toyPermit2] at h
    split_ifs at h with hsigned
    obtain ⟨-, -, rfl, -⟩ := hsigned
    obtain rfl := Option.some.inj h
    simp only [Allowances.set]
    rw [if_neg fun heq => hne heq.2.2]
    exact hp token spender hne
  spend := by
    intro now p owner spender token amount p' hp h token' spender' hne
    simp only [toyConfig, toyPermit2] at h
    split_ifs at h
    obtain rfl := Option.some.inj h
    simp only [Allowances.set]
    split_ifs with heq
    · rw [← heq.1, ← heq.2.1, ← heq.2.2, hp token' spender' hne]
      exact Nat.zero_sub amount
    · exact hp token' spender' hne
  approve := by
    intro p owner token spender amount expiration howner hp token' spender' hne
    simp only [toyConfig, toyPermit2, Allowances.set]
    rw [if_neg fun heq => howner heq.1.symm]
    exact hp token' spender' hne
  only := by
    intro now p spender token amount p' hp h
    simp only [toyConfig, toyPermit2] at h
    by_cases hself : spender = account 1
    · exact Or.inl hself
    · rw [hp token spender hself] at h
      split_ifs at h with hallowed
      exact Or.inr (Nat.le_zero.1 hallowed.2)

/-- the user has 100 coins, and a standing allowance for the router and for Permit2 -/
def start : World Allowances where
  tokens _ := ⟨fun a => if a = user then 100 else 0,
    fun o sp => if o = user ∧ (sp = account 1 ∨ sp = account 2) then 2 ^ 256 - 1 else 0, 100⟩
  eth _ := 0
  permit2 _ _ _ := (0, 0, 0)
  entered := false
  outgoing := []
  executed := []
  taken _ := 0

theorem start_guarded : Guarded toyConfig user OnlyRouter start where
  allowance := by
    intro t _ spender hself hpermit2
    simp only [start]
    rw [if_neg fun h => h.2.elim hself hpermit2]
  permit2 _ _ _ := rfl

/-- 60 are pulled, the route may take 50, and the rest comes back -/
def commands : List UInt8 := [PERMIT2_PERMIT, PERMIT2_TRANSFER_FROM, TRANSFER_REMOTE, SWEEP]

def inputs : List Input :=
  [.permit signedPermit [1], .transfer coin 60,
    .transferRemote ⟨route, 11, .filled 32 5, 50, 0, coin, 50⟩, .sweep coin]

/-- somebody else tries to sweep in the meantime -/
def attack : AllowedOp toyConfig user := ⟨.execute (account 6) 0 [SWEEP] [.sweep coin], by decide, by decide, by decide⟩

/-- the route takes its part, and lets the other one in -/
def takes : Frame (AllowedOp toyConfig user) Answer Error :=
  .call ⟨.transferFrom route coin (account 1) route 50, by decide, by decide, by decide⟩ []
    (.call attack [] (.ret .none))

/-- the user's transaction; then others reach for its tokens -/
def chain : List (ℕ × Frame (AllowedOp toyConfig user) Answer Error) :=
  [(10, .call ⟨.execute user 0 commands inputs, by decide, by decide, by decide⟩ [takes] (.ret .none)),
    (20, .call ⟨.transferFrom (account 6) coin user (account 6) 1, by decide, by decide, by decide⟩ [] (.ret .none)),
    (30, .call ⟨.execute (account 6) 0 [TRANSFER_FROM] [.transfer coin 1], by decide, by decide, by decide⟩ [] (.ret .none))]

theorem approvals_safe_chain :
    100 ≤ ((run (fun now (op : AllowedOp toyConfig user) => body toyConfig now op.1) start chain).tokens coin).balance user +
      named user coin (run (fun now (op : AllowedOp toyConfig user) => body toyConfig now op.1) start chain).executed :=
  (approvals_safe toyUser chain start_guarded rfl rfl).1 coin rfl

theorem nothing_left_behind_taken :
    ∃ s', runCode (fun op : AllowedOp toyConfig user => body toyConfig 10 op.1) [takes]
        (execute toyConfig 10 user 0 commands inputs) start = .ok ((), s') ∧
      100 ≤ (s'.tokens coin).balance user + s'.taken coin := by
  cases hrun : runCode (fun op : AllowedOp toyConfig user => body toyConfig 10 op.1) [takes]
      (execute toyConfig 10 user 0 commands inputs) start with
  | ok r =>
    obtain ⟨⟨⟩, s'⟩ := r
    refine ⟨s', rfl, ?_⟩
    have hend : commands.zip inputs = (commands.zip inputs).take 3 ++ [(SWEEP, .sweep coin)] := rfl
    exact nothing_left_behind toyUser rfl (by decide) 10 0 hend [takes] start_guarded hrun
  | error e =>
    have hok : (runCode (fun op : AllowedOp toyConfig user => body toyConfig 10 op.1) [takes]
        (execute toyConfig 10 user 0 commands inputs) start).toOption.isSome = true := by decide +kernel
    rw [hrun] at hok
    cases hok

end Chain

end Hyperlane.QuotedCalls
