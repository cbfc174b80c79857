/-
What is quoted is what is charged.

A sender who gives exactly the value and the allowances that the quotes add up to pays exactly that, and of it the router
keeps nothing but the amount (`Settled`). This holds of the base router, of the cross-collateral router and of the bridges,
as far as the hooks ask for the dispatched message what they quote for the plain one; and of the vault router without a fee
hook. The vault router quotes for a fee hook, but neither pulls nor approves its payment.

- `Settled`, `QuotedIsCharged`: the claim on one call, in every state.
- `charged_of_agrees`, `agrees_of_charged`: `Agrees` is enough, and necessary.
- `quoted_is_charged_iff`: the exact condition.
-/
import Hyperlane.Warp.Charge

namespace Hyperlane.Warp.Quoting

open Hyperlane.Tokens Hyperlane.Outcome

variable {R U E C : Type}

/-! ## The claim on one call -/

section Statement

variable (c : Routers R U E C) (r : R) (a : Answers R U E C) (x : Call R U)

/-- who is paid for the dispatch -/
def payee : Account R U :=
  match c.feeHook r with
  | none => .user a.hooks
  | some (_, beneficiary) => .user beneficiary

variable [DecidableEq C]

/-- what the hooks take; a local transfer has no hooks -/
def gasTaken (m : TokenMessage R U) : ℕ :=
  match c.flow r with
  | .crossCollateral => if isLocal c r x.target then 0 else a.quoteDispatch x.target m (c.feeToken r)
  | _ => a.quoteDispatch x.target m (c.feeToken r)

/-- everybody who is paid by a transfer -/
def payments (m : TokenMessage R U) : List (Token R E C × Account R U × ℕ) :=
  feePayment c r a ++ (c.feeToken r, payee c r a, gasTaken c r a x m) :: principal c r a x

variable [DecidableEq R] [DecidableEq U] [DecidableEq E]

/-- a local transfer is paid out by its target -/
def delivery (m : TokenMessage R U) : Token R E C → Account R U → ℤ :=
  match c.flow r, isLocal c r x.target, inboundAmount c.toConfig x.target m.amount with
  | .crossCollateral, true, .ok amount =>
    gets (c.token x.target) m.recipient amount - gets (c.token x.target) (.router x.target) amount
  | _, _, _ => 0

/-- the sender pays the sums of the quotes, and the router keeps at most the amount of it -/
structure Settled (paid : Token R E C → ℕ) (sender : U) (m : TokenMessage R U) (w w' : World R U E C) : Prop where
  account : ∀ t b, ((w' t).balance b : ℤ) =
    (w t).balance b - (if b = .user sender then (paid t : ℤ) else 0) + received (payments c r a x m) t b +
      delivery c r x m t b
  kept : ∀ t, received (payments c r a x m) t (.router r) ≤ if t = c.token r then (x.amount : ℤ) else 0

/-- with exactly the quoted value and allowances, in every state -/
def QuotedIsCharged (paid : Token R E C → ℕ) : Prop :=
  ∀ (w : World R U E C) (sender : U),
    (∀ t, (w (.erc20 t)).allowance (.user sender) (.router r) = paid (.erc20 t)) →
      Ends NotForLack (fun w' => ∃ m, message c r a x = .ok m ∧ Settled c r a x paid sender m w w')
        (transfer c r a x sender (paid (c.currency r)) w)

omit [DecidableEq R] [DecidableEq U] [DecidableEq E] [DecidableEq C] in
/-- the hooks ask for the dispatched message what they quote; a vault router with a fee hook must not owe it anything -/
def Agrees : Prop :=
  ∀ q m, quotedMessage c r x = .ok q → message c r a x = .ok m →
    match c.flow r, c.feeHook r with
    | .transferRemote, _ | .crossCollateral, _ => True
    | .bridge _ _, _ | .vault _, none =>
      a.quoteDispatch x.target m (c.feeToken r) = a.quoteDispatch x.target q (c.feeToken r)
    | .vault _, some _ =>
      a.quoteDispatch x.target q (c.feeToken r) = 0 ∧ a.quoteDispatch x.target m (c.feeToken r) = 0

end Statement

variable {c : Routers R U E C} {r : R} {a : Answers R U E C} {x : Call R U} {quotes : List (Quote (Token R E C))}
  {S : Prop} {K : Set (Account R U)} {n : ℕ} {w w' : World R U E C} {sender : U} {g : ℕ} {paid : Token R E C → ℕ}
variable [DecidableEq R] [DecidableEq U] [DecidableEq E] [DecidableEq C]

/-! ## Quote and charge agree -/

variable {m q : TokenMessage R U}

/-- a transfer that does not leave the domain -/
def Local (c : Routers R U E C) (r : R) (x : Call R U) : Prop := c.flow r = .crossCollateral ∧ isLocal c r x.target = true

omit [DecidableEq R] [DecidableEq U] [DecidableEq E] in
theorem quotedGas_eq (hq : quotedMessage c r x = .ok q) (hlocal : ¬ Local c r x) :
    quotedGas c r a x = a.quoteDispatch x.target q (c.feeToken r) := by
  have hgas : (views c r a x).gasPayment (c.feeToken r) = a.quoteDispatch x.target q (c.feeToken r) :=
    gasPayment_eq (Outcome.bind_eq_ok.2 ⟨q, hq, rfl⟩)
  unfold quotedGas
  split
  next hflow => rw [if_neg fun h => hlocal ⟨hflow, h⟩, hgas]
  next => exact hgas

omit [DecidableEq R] [DecidableEq U] [DecidableEq E] in
theorem gasTaken_eq (hlocal : ¬ Local c r x) : gasTaken c r a x m = a.quoteDispatch x.target m (c.feeToken r) := by
  unfold gasTaken
  split
  next hflow => rw [if_neg fun h => hlocal ⟨hflow, h⟩]
  next => rfl

omit [DecidableEq U] in
/-- if the hooks agree, what they take was quoted, and is held -/
theorem Agrees.gas (hagrees : Agrees c r a x) (hq : Quoted c r a x quotes) (hm : message c r a x = .ok m)
    (hlocal : ¬ Local c r x) : gasTaken c r a x m = quotedGas c r a x ∧ gasHeld c r a x = quotedGas c r a x := by
  rw [gasTaken_eq hlocal]
  cases hflow : c.flow r with
  | transferRemote =>
    have hquoted : quotedMessage c r x = .ok m := by rwa [message, hflow] at hm
    exact ⟨(quotedGas_eq hquoted hlocal).symm, by rw [gasHeld, hflow]⟩
  | crossCollateral =>
    have hquoted : quotedMessage c r x = .ok m := by rwa [message, hflow] at hm
    exact ⟨(quotedGas_eq hquoted hlocal).symm, by rw [gasHeld, hflow]⟩
  | bridge kind taker =>
    obtain ⟨q, hquoted⟩ := hq.message (by simp [hflow])
    have hsame := hagrees q m hquoted hm
    rw [hflow] at hsame
    exact ⟨hsame.trans (quotedGas_eq hquoted hlocal).symm, by rw [gasHeld, hflow]⟩
  | vault vault =>
    obtain ⟨q, hquoted⟩ := hq.message (by simp [hflow])
    have hsame := hagrees q m hquoted hm
    rw [quotedGas_eq hquoted hlocal]
    unfold gasHeld vaultGas
    rw [hflow] at hsame ⊢
    cases hhook : c.feeHook r with
    | none =>
      rw [hhook] at hsame
      exact ⟨hsame, quotedGas_eq hquoted hlocal⟩
    | some p =>
      rw [hhook] at hsame
      exact ⟨hsame.2.trans hsame.1.symm, hsame.1.symm⟩

theorem received_cons {T B : Type} [DecidableEq T] [DecidableEq B] (p : T × B × ℕ) (ps : List (T × B × ℕ)) :
    received (p :: ps) = gets p.1 p.2.1 p.2.2 + received ps := List.sum_cons

theorem received_append {T B : Type} [DecidableEq T] [DecidableEq B] (ps ps' : List (T × B × ℕ)) :
    received (ps ++ ps') = received ps + received ps' := by
  unfold received
  rw [List.map_append, List.sum_append]

theorem received_payments : received (payments c r a x m) = received (feePayment c r a) +
    (gets (c.feeToken r) (payee c r a) (gasTaken c r a x m) + received (principal c r a x)) := by
  rw [payments, received_append, received_cons]

/-- what a sender pays, account by account -/
theorem Budget.paid_eq (hb : Budget c r a x paid) (sender : U) (t : Token R E C) (b : Account R U) :
    (if b = .user sender then (paid t : ℤ) else 0) =
      gets (c.feeToken r) (.user sender) (quotedGas c r a x) t b +
        gets (c.token r) (.user sender) (fullCharge c r a x) t b := by
  rw [hb.sum]
  unfold gets
  by_cases hb : b = .user sender
  · simp [hb, eq_comm]
  · simp [hb]

/-- the router keeps at most the amount -/
theorem payments_kept (t : Token R E C) :
    received (payments c r a x m) t (.router r) ≤ if t = c.token r then (x.amount : ℤ) else 0 := by
  have hnonneg : (0 : ℤ) ≤ if t = c.token r then (x.amount : ℤ) else 0 := by
    split
    · exact Int.natCast_nonneg _
    · exact le_rfl
  have hfee : received (feePayment c r a) t (.router r) = 0 := by
    unfold feePayment
    cases hrec : c.feeRecipient r with
    | none => rfl
    | some recipient =>
      have hne : Account.router r ≠ recipient := fun h => c.feeRecipient_ne_self r (h ▸ hrec)
      simp [received, gets, hne]
  have hgas : gets (c.feeToken r) (payee c r a) (gasTaken c r a x m) t (.router r) = 0 := by
    unfold payee gets
    cases c.feeHook r <;> simp
  have hprincipal : received (principal c r a x) t (.router r) ≤ if t = c.token r then (x.amount : ℤ) else 0 := by
    have huser : ∀ (u : U) (n : ℕ), received [(c.token r, Account.user u, n)] t (.router r) = 0 := by
      intro u n
      simp [received, gets]
    have hstay : received (if c.isSynthetic r then [] else [(c.token r, (.router r : Account R U), x.amount)]) t
        (.router r) ≤ if t = c.token r then (x.amount : ℤ) else 0 := by
      split
      · exact hnonneg
      · simp [received, gets]
    unfold principal
    split
    · exact hstay
    · exact hstay
    · exact (huser _ _).trans_le hnonneg
    · exact (huser _ _).trans_le hnonneg
  rw [received_payments]
  simp only [Pi.add_apply, hfee, hgas, zero_add]
  exact hprincipal

/-- **A call is settled if the gas payment that was quoted is held and taken.** -/
theorem settled_of {δ : Token R E C → Account R U → ℤ} (hb : Budget c r a x paid)
    (hmoved : Moved K n δ w w')
    (hδ : δ = received (payments c r a x m) + delivery c r x m -
      (gets (c.feeToken r) (.user sender : Account R U) (quotedGas c r a x) +
        gets (c.token r) (.user sender : Account R U) (fullCharge c r a x))) :
    Settled c r a x paid sender m w w' := by
  refine ⟨fun t b => ?_, payments_kept⟩
  rw [hmoved.funds, hδ, hb.paid_eq]
  simp only [Pi.add_apply, Pi.sub_apply]
  ring

omit [DecidableEq R] [DecidableEq U] [DecidableEq E] [DecidableEq C] in
theorem taken_none (hhook : c.feeHook r = none) :
    taken c r a x m = ⟨a.quoteDispatch x.target m (c.feeToken r), a.hooks, 0⟩ := by
  rw [taken, hhook, feeToken_of_none hhook]

omit [DecidableEq R] [DecidableEq U] [DecidableEq E] [DecidableEq C] in
theorem taken_some {p : U × U} (hhook : c.feeHook r = some p) :
    taken c r a x m = ⟨0, a.hooks, a.quoteDispatch x.target m (c.feeToken r)⟩ := by
  rw [taken, hhook, feeToken_of_some hhook]

/-- what a dispatch moves if it is given `g` -/
theorem dispatched_eq (hle : c.feeHook r = none → a.quoteDispatch x.target m (c.feeToken r) ≤ g) :
    dispatched c r sender (if (c.feeHook r).isSome then 0 else g) (taken c r a x m) =
      gets (c.feeToken r) (payee c r a) (a.quoteDispatch x.target m (c.feeToken r)) -
        gets (c.feeToken r) (.router r) (if (c.feeHook r).isSome then a.quoteDispatch x.target m (c.feeToken r) else g) +
        gets (c.feeToken r) (.user sender)
          (if (c.feeHook r).isSome then 0 else g - a.quoteDispatch x.target m (c.feeToken r)) := by
  unfold dispatched payee
  cases hhook : c.feeHook r with
  | none =>
    have hsplit : gets (c.feeToken r) (.router r : Account R U) g =
        gets (c.feeToken r) (.router r) (a.quoteDispatch x.target m (c.feeToken r)) +
          gets (c.feeToken r) (.router r) (g - a.quoteDispatch x.target m (c.feeToken r)) := by
      rw [← gets_add, Nat.add_sub_cancel' (hle hhook)]
    rw [taken_none hhook]
    simp only [Option.isSome_none, Bool.false_eq_true, if_false, hsplit, ← feeToken_of_none hhook]
    abel
  | some p =>
    rw [taken_some hhook]
    simp only [Option.isSome_some, if_true, feeToken_of_some hhook, gets_zero, Nat.sub_zero]
    abel

/-! ### Enough -/

omit [DecidableEq R] [DecidableEq U] [DecidableEq E] [DecidableEq C] in
/-- a message can only fail to be made for lack of bits -/
theorem message_ends : Ends NotForLack (fun _ => True) (message c r a x) := by
  have hlack : NotForLack .overflow := ⟨by decide, by decide⟩
  have hchecked : ∀ n, Ends NotForLack (fun _ => True) (checked n) := by
    intro n
    unfold checked
    split
    · trivial
    · exact hlack
  have hnonce : Ends NotForLack (fun _ => True) (Yield.nextNonce a.rateUpdateNonce) := by
    unfold Yield.nextNonce
    split
    · trivial
    · exact hlack
  unfold message
  split
  · exact (hchecked _).bind fun _ _ => trivial
  · exact (hchecked _).bind fun _ _ => trivial
  · trivial
  · exact (hchecked _).bind fun _ _ => trivial
  · exact hnonce.bind fun _ _ => (hchecked _).bind fun _ _ => trivial

variable {p : World R U E C × ℕ}

/-- a local transfer is paid out by its target -/
theorem finish_local (hb : Budget c r a x paid)
    (hp : Charged c r a x sender (paid (c.currency r)) w p) (hlocal : Local c r x) :
    Ends NotForLack (Settled c r a x paid sender m w) (finish c r a x sender m p) := by
  obtain ⟨hflow, hlocal⟩ := hlocal
  have hquoted : quotedGas c r a x = 0 := by rw [quotedGas, hflow, if_pos hlocal]
  have htaken : gasTaken c r a x m = 0 := by rw [gasTaken, hflow, if_pos hlocal]
  have hheld : gasHeld c r a x = 0 := by rw [gasHeld, hflow, hquoted]
  unfold finish handle
  rw [hflow, hlocal]
  dsimp only
  cases htarget : c.flow x.target with
  | transferRemote => exact ⟨by decide, by decide⟩
  | bridge kind taker => exact ⟨by decide, by decide⟩
  | vault vault => exact ⟨by decide, by decide⟩
  | crossCollateral =>
    dsimp only
    split
    next =>
      cases hamount : inboundAmount c.toConfig x.target m.amount with
      | error e =>
        have hoverflow : e = .overflow := by
          unfold inboundAmount mulDiv checked at hamount
          split at hamount
          · cases hamount
          · exact (Except.error.inj hamount).symm
        rw [hoverflow]
        exact ⟨by decide, by decide⟩
      | ok amount =>
        obtain ⟨t, hkind⟩ := crossCollateral_kind htarget
        have hpayout := transferTo_moved (c := c) (r := x.target) (S := False) (fun h => h.elim) ∅ m.recipient amount p.1
        refine hpayout.imp (fun e he => he.1) fun w' h' => settled_of hb (hp.moved.trans h') ?_
        rw [received_payments, htaken, hquoted, hheld, held_locked (collateral_cases hkind).2, delivery, hflow, hlocal,
          hamount]
        simp only [gets_zero]
        abel
    next => exact ⟨by decide, by decide⟩

/-- a dispatch with what was quoted -/
theorem finish_dispatched (hb : Budget c r a x paid) (hp : Charged c r a x sender (paid (c.currency r)) w p)
    (hlocal : ¬ Local c r x) (htaken : gasTaken c r a x m = quotedGas c r a x)
    (hheld : gasHeld c r a x = quotedGas c r a x) :
    Ends NotForLack (Settled c r a x paid sender m w) (finish c r a x sender m p) := by
  have hgas : a.quoteDispatch x.target m (c.feeToken r) = quotedGas c r a x := (gasTaken_eq hlocal).symm.trans htaken
  have hfinish : finish c r a x sender m p = dispatch c.toConfig r sender p.2 (taken c r a x m) p.1 := by
    unfold finish
    split
    next hflow h => exact absurd ⟨hflow, h⟩ hlocal
    next => rfl
  have hnative : (taken c r a x m).native ≤ p.2 := by
    rw [hp.value, hheld]
    cases hhook : c.feeHook r with
    | none => exact (by rw [taken_none hhook] : (taken c r a x m).native = _).trans_le hgas.le
    | some q => exact (by rw [taken_some hhook] : (taken c r a x m).native = 0).le
  have hallowed : HookAllowed c r (taken c r a x m) p.1 := by
    intro hook beneficiary hhook
    have happroved := hp.approval hook beneficiary hhook
    have hle : quotedGas c r a x ≤ (p.1 (c.token r)).allowance (.router r) (.user hook) := by
      unfold Approved at happroved
      split at happroved
      · exact happroved.ge
      · exact happroved.ge
      · exact happroved
      next vault hflow =>
        have hzero : gasHeld c r a x = 0 := by rw [gasHeld, hflow, vaultGas, hhook]; rfl
        exact (hheld.symm.trans hzero).trans_le (Nat.zero_le _)
    rw [taken_some hhook]
    exact hgas.trans_le hle
  have hzero : delivery c r x m = 0 := by
    unfold delivery
    split
    next hflow h _ => exact absurd ⟨hflow, h⟩ hlocal
    next => rfl
  rw [hfinish]
  refine (dispatch_ends sender p.2 _ p.1).imp (fun e he => ?_) fun w' h' => settled_of hb (hp.moved.trans h'.2) ?_
  · rcases he with ⟨-, hlt⟩ | ⟨-, hnot⟩ | ⟨rfl, -⟩
    · exact absurd hnative hlt.not_ge
    · exact absurd hallowed hnot
    · exact ⟨by decide, by decide⟩
  · rw [received_payments, htaken, hzero, hp.value, dispatched_eq fun _ => (hgas.trans hheld.symm).le, hheld, hgas,
      Nat.sub_self, ite_self, ite_self, gets_zero]
    abel

theorem charged_of_agrees (hq : Quoted c r a x quotes) (hb : Budget c r a x paid) (hagrees : Agrees c r a x) :
    QuotedIsCharged c r a x paid := by
  intro w sender hallow
  rw [transfer_eq]
  have hcharged := charged_ends (S := False) hq hb hallow fun h => h.elim
  refine (hcharged.imp (fun e he => he.1) fun _ hp => hp).bind fun p hp => ?_
  cases hm : message c r a x with
  | error e => exact message_ends.of_error hm
  | ok m =>
    have hsettled : Ends NotForLack (Settled c r a x paid sender m w) (finish c r a x sender m p) := by
      by_cases hlocal : Local c r x
      · exact finish_local hb hp hlocal
      · obtain ⟨htaken, hheld⟩ := hagrees.gas hq hm hlocal
        exact finish_dispatched hb hp hlocal htaken hheld
    exact hsettled.mono fun w' h => ⟨m, rfl, h⟩

/-! ### Necessary -/

/-- everybody has `n` of everything, and the sender has given the allowances of the quotes -/
def richWorld (r : R) (paid : Token R E C → ℕ) (sender : U) (n : ℕ) : World R U E C :=
  fun t => ⟨fun _ => n, fun owner spender => if owner = .user sender ∧ spender = .router r then paid t else 0, 0⟩

/-- the accounts of a settled call tell what the hooks took -/
theorem gas_of_settled {n' : ℕ} (hlocal : ¬ Local c r x) (hb : Budget c r a x paid)
    (hp : Charged c r a x sender (paid (c.currency r)) w p) (hnative : (taken c r a x m).native ≤ p.2)
    (hmoved : Moved ∅ n' (dispatched c r sender p.2 (taken c r a x m)) p.1 w')
    (hsettled : Settled c r a x paid sender m w w') :
    gasHeld c r a x = quotedGas c r a x ∧ a.quoteDispatch x.target m (c.feeToken r) = quotedGas c r a x := by
  have hle : c.feeHook r = none → a.quoteDispatch x.target m (c.feeToken r) ≤ gasHeld c r a x := by
    intro hhook
    rw [taken_none hhook, hp.value, hhook] at hnative
    exact hnative
  have hzero : delivery c r x m = 0 := by
    unfold delivery
    split
    next hflow h _ => exact absurd ⟨hflow, h⟩ hlocal
    next => rfl
  rw [hp.value, dispatched_eq hle] at hmoved
  -- the same balances, reckoned from the steps of the call and from its account
  have hbalance := fun b =>
    ((hp.moved.trans hmoved).funds (c.feeToken r) b).symm.trans (hsettled.account (c.feeToken r) b)
  have hrouter := hbalance (.router r)
  have hsender := hbalance (.user sender)
  have hself : ∀ (b : Account R U) (n : ℕ), gets (c.feeToken r) b n (c.feeToken r) b = n := fun b n => gets_self _ b n
  have huser : ∀ (t : Token R E C) (n : ℕ), gets t (.user sender) n (c.feeToken r) (Account.router r) = 0 :=
    fun t n => by simp [gets]
  have hother : ∀ (t : Token R E C) (n : ℕ), gets t (.router r) n (c.feeToken r) (Account.user sender) = 0 :=
    fun t n => by simp [gets]
  rw [hb.paid_eq, received_payments, hzero, gasTaken_eq hlocal] at hrouter hsender
  simp only [Pi.add_apply, Pi.sub_apply, Pi.zero_apply, hself, huser, hother] at hrouter hsender
  cases hhook : c.feeHook r with
  | none =>
    have hle := hle hhook
    have hheld : gasHeld c r a x = quotedGas c r a x := by
      unfold gasHeld vaultGas
      split
      · simp [hhook]
      · rfl
    simp only [hhook, Option.isSome_none, Bool.false_eq_true, if_false] at hsender
    refine ⟨hheld, ?_⟩
    push_cast [hle] at hsender
    omega
  | some k =>
    simp only [hhook, Option.isSome_some, if_true] at hrouter hsender
    constructor <;> omega

/-- with enough riches, a call of a bridge or of a vault router that is settled in every state is paid as quoted -/
theorem gas_of_charged (hq : Quoted c r a x quotes) (hb : Budget c r a x paid) (hcharged : QuotedIsCharged c r a x paid)
    (hsyn : c.isSynthetic r = false) (hlocal : ¬ Local c r x) (hm : message c r a x = .ok m) :
    gasHeld c r a x = quotedGas c r a x ∧ a.quoteDispatch x.target m (c.feeToken r) = quotedGas c r a x := by
  obtain ⟨sender⟩ : Nonempty U := ⟨a.hooks⟩
  let n := gasHeld c r a x + (taken c r a x m).token
  let w := richWorld (E := E) (C := C) r paid sender (n + chargedBound c r a x (paid (c.currency r)))
  have hallow : Allowed r paid sender w := fun t => if_pos ⟨rfl, rfl⟩
  have hrich : Rich (n + chargedBound c r a x (paid (c.currency r))) w := fun _ _ => le_rfl
  have hfirst := charged_ends (S := True) hq hb hallow fun _ => hsyn
  have hcall := hcharged w sender hallow
  rw [transfer_eq] at hcall
  cases hresult : charged c r a x sender (paid (c.currency r)) w with
  | error e => exact absurd (hrich.mono (Nat.le_add_left _ _)) ((hfirst.of_error hresult).2 trivial)
  | ok p =>
    have hp := hfirst.of_ok hresult
    have hfinish : finish c r a x sender m p = dispatch c.toConfig r sender p.2 (taken c r a x m) p.1 := by
      unfold finish
      split
      next hflow h => exact absurd ⟨hflow, h⟩ hlocal
      next => rfl
    have hends := dispatch_ends (c := c) (r := r) sender p.2 (taken c r a x m) p.1
    have hrun : (charged c r a x sender (paid (c.currency r)) w >>= fun p =>
        message c r a x >>= fun m => finish c r a x sender m p) =
        dispatch c.toConfig r sender p.2 (taken c r a x m) p.1 := by
      rw [hresult, hm, ← hfinish]
      rfl
    rw [hrun] at hcall
    cases hout : dispatch c.toConfig r sender p.2 (taken c r a x m) p.1 with
    | error e =>
      obtain ⟨hvalue, hallowance⟩ := hcall.of_error hout
      rcases hends.of_error hout with ⟨rfl, -⟩ | ⟨rfl, -⟩ | ⟨-, hpoor⟩
      · exact absurd rfl hvalue
      · exact absurd rfl hallowance
      · refine absurd ((hp.moved.rich n hrich).mono ?_) hpoor
        rw [hp.value]
        split <;> omega
    | ok w' =>
      obtain ⟨⟨hnative, -⟩, hmoved⟩ := hends.of_ok hout
      obtain ⟨m', hm', hsettled⟩ := hcall.of_ok hout
      obtain rfl := Except.ok.inj (hm.symm.trans hm')
      exact gas_of_settled hlocal hb hp hnative hmoved hsettled

theorem agrees_of_charged (hq : Quoted c r a x quotes) (hb : Budget c r a x paid)
    (hcharged : QuotedIsCharged c r a x paid) : Agrees c r a x := by
  intro q m hquoted hm
  have hgas : c.isSynthetic r = false → c.flow r ≠ .crossCollateral →
      gasHeld c r a x = a.quoteDispatch x.target q (c.feeToken r) ∧
      a.quoteDispatch x.target m (c.feeToken r) = a.quoteDispatch x.target q (c.feeToken r) := by
    intro hsyn hflow
    have hlocal : ¬ Local c r x := fun h => hflow h.1
    rw [← quotedGas_eq hquoted hlocal]
    exact gas_of_charged hq hb hcharged hsyn hlocal hm
  cases hflow : c.flow r with
  | transferRemote => trivial
  | crossCollateral => trivial
  | bridge kind taker => exact (hgas (bridge_locked hflow) (by simp [hflow])).2
  | vault vault =>
    obtain ⟨t, hkind⟩ := vault_kind hflow
    obtain ⟨hheld, hsame⟩ := hgas (collateral_cases hkind).2 (by simp [hflow])
    cases hhook : c.feeHook r with
    | none => exact hsame
    | some k =>
      have hzero : gasHeld c r a x = 0 := by rw [gasHeld, hflow, vaultGas, hhook]; rfl
      exact ⟨hheld.symm.trans hzero, hsame.trans (hheld.symm.trans hzero)⟩

/-- **What is quoted is charged, in every state, exactly if the hooks ask for the dispatched message what they quote, and
nothing is owed to a fee hook of a vault router.** -/
theorem quoted_is_charged_iff (c : Routers R U E C) (r : R) (a : Answers R U E C) (x : Call R U)
    (quotes : List (Quote (Token R E C))) (hquote : quote c r a x = .ok quotes) (paid : Token R E C → ℕ)
    (hpaid : ∀ t, extract quotes t = .ok (paid t)) : QuotedIsCharged c r a x paid ↔ Agrees c r a x := by
  have hq := quote_ok hquote
  exact ⟨agrees_of_charged hq (hq.budget hpaid), charged_of_agrees hq (hq.budget hpaid)⟩

/-! ## A collateral router and a vault router with a fee hook that asks for 5 -/

namespace Example

/-- two routers of one token, on two chains; the hook 7 sends its payment to 8 -/
def routers (isVault : Bool) : Routers Bool ℕ Unit Bool where
  chain := id
  kind := fun _ => .HypERC20Collateral (.external ())
  scaleNumerator := fun _ => 1
  scaleDenominator := fun _ => 1
  feeHook := fun _ => some (7, 8)
  numerator_pos := fun _ => Nat.one_pos
  denominator_pos := fun _ => Nat.one_pos
  feeHook_erc20 := fun _ h => nomatch h
  flow := fun _ => if isVault then .vault 9 else .transferRemote
  feeRecipient := fun _ => none
  isRemoteRouter := fun _ _ => true
  crossCollateralRouters := fun _ _ => false
  flow_fits := fun _ => by cases isVault <;> first | trivial | exact ⟨_, rfl⟩
  feeRecipient_ne_self := fun _ h => nomatch h

def answers : Answers Bool ℕ Unit Bool := ⟨[], 0, fun _ _ _ => 5, 6, 100, 10 ^ 10, 0, []⟩

/-- 100 tokens for user 1 -/
def call : Call Bool ℕ := ⟨true, .user 1, 100⟩

def token : Token Bool Unit Bool := .erc20 (.external ())

def hookQuotes : List (Quote (Token Bool Unit Bool)) := [⟨token, 5⟩, ⟨token, 100⟩, ⟨token, 0⟩]

def hookPaid (t : Token Bool Unit Bool) : ℕ := if t = token then 105 else 0

theorem extract_quotes (t : Token Bool Unit Bool) : extract hookQuotes t = .ok (hookPaid t) := by
  by_cases h : t = token
  · subst h
    decide
  · have hne : ¬ token = t := fun h' => h h'.symm
    simp [extract, hookQuotes, hookPaid, h, hne]
    rfl

/-- user 0 has what is quoted, and has allowed the router to take it -/
def world : World Bool ℕ Unit Bool := fun t =>
  ⟨fun b => if b = .user 0 then hookPaid t else 0,
    fun o s => if o = .user 0 ∧ s = .router false then hookPaid t else 0, hookPaid t⟩

end Example

open Example

theorem quoted_is_charged_hook :
    quote (routers false) false answers call = .ok hookQuotes ∧
      QuotedIsCharged (routers false) false answers call hookPaid := by
  have hquote : quote (routers false) false answers call = .ok hookQuotes := by decide +kernel
  exact ⟨hquote, (quoted_is_charged_iff _ _ _ _ _ hquote _ extract_quotes).2 fun _ _ _ _ => trivial⟩

/-- **A vault router quotes for its fee hook, and the hook then finds no allowance.** -/
theorem vault_hook_unpaid :
    ¬ ∀ (c : Routers Bool ℕ Unit Bool) (r : Bool) (a : Answers Bool ℕ Unit Bool) (x : Call Bool ℕ)
      (quotes : List (Quote (Token Bool Unit Bool))) (paid : Token Bool Unit Bool → ℕ), quote c r a x = .ok quotes →
      (∀ t, extract quotes t = .ok (paid t)) → QuotedIsCharged c r a x paid := by
  intro h
  have hquote : quote (routers true) false answers call = .ok hookQuotes := by decide +kernel
  have hcall := h (routers true) false answers call hookQuotes hookPaid hquote extract_quotes world 0
    fun t => by simp [world]
  have hrun : (match transfer (routers true) false answers call 0 (hookPaid (.native false)) world with
      | .error e => decide (e = .allowance)
      | .ok _ => false) = true := by decide +kernel
  cases hout : transfer (routers true) false answers call 0 (hookPaid (.native false)) world with
  | error e =>
    rw [hout] at hrun
    exact (hcall.of_error hout).2 (of_decide_eq_true hrun)
  | ok w' =>
    rw [hout] at hrun
    exact absurd hrun Bool.false_ne_true
end Hyperlane.Warp.Quoting
