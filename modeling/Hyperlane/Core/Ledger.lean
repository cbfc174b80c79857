/-
Token ledgers: balances, allowances and a total supply, with transfers of exact amounts.

An operation returns the new ledger or the reason for which it reverts. Amounts are natural numbers, and a supply that
would leave 256 bits reverts.

- `transfer_ok`, `transferFrom_ok`, `mint_ok`, `burn_ok`: what a successful operation does to every balance, allowance and
  the supply.
- `Bank.on_ok`, `Bank.on_bind`: operations on one of several ledgers.
-/
import Mathlib.Tactic
import Hyperlane.Core.Outcome

namespace Hyperlane.Tokens

inductive Reason where
  | balance
  | allowance
  | value
  | overflow
  | other (text : String)
deriving DecidableEq

/-- a 256-bit result, or a revert -/
def checked (x : ℕ) : Except Reason ℕ := if x < 2 ^ 256 then .ok x else .error .overflow

def checkedSub (x y : ℕ) : Except Reason ℕ := if y ≤ x then .ok (x - y) else .error .overflow

theorem checkedSub_ok {x y z : ℕ} (h : checkedSub x y = .ok z) : z + y = x := by
  unfold checkedSub at h
  split at h
  next hle =>
    obtain rfl := Except.ok.inj h
    exact Nat.sub_add_cancel hle
  next => exact nomatch h

theorem checked_ok {x y : ℕ} (h : checked x = .ok y) : y = x := by
  unfold checked at h
  split at h
  · exact (Except.ok.inj h).symm
  · exact nomatch h

structure Ledger (A : Type) where
  balance : A → ℕ
  /-- what an owner lets a spender transfer -/
  allowance : A → A → ℕ
  totalSupply : ℕ

variable {A T : Type} [DecidableEq A] [DecidableEq T]

namespace Ledger

def empty : Ledger A := ⟨fun _ => 0, fun _ _ => 0, 0⟩

def transfer (src dst : A) (x : ℕ) (l : Ledger A) : Except Reason (Ledger A) :=
  if x ≤ l.balance src then
    .ok { l with balance := fun a => (l.balance a - if a = src then x else 0) + if a = dst then x else 0 }
  else .error .balance

def approve (owner spender : A) (x : ℕ) (l : Ledger A) : Ledger A :=
  { l with allowance := fun o s => if o = owner ∧ s = spender then x else l.allowance o s }

def spendAllowance (owner spender : A) (x : ℕ) (l : Ledger A) : Except Reason (Ledger A) :=
  if x ≤ l.allowance owner spender then .ok (l.approve owner spender (l.allowance owner spender - x))
  else .error .allowance

def transferFrom (spender src dst : A) (x : ℕ) (l : Ledger A) : Except Reason (Ledger A) := do
  (← l.spendAllowance src spender x).transfer src dst x

def mint (dst : A) (x : ℕ) (l : Ledger A) : Except Reason (Ledger A) :=
  if l.totalSupply + x < 2 ^ 256 then
    .ok { l with balance := fun a => l.balance a + if a = dst then x else 0, totalSupply := l.totalSupply + x }
  else .error .overflow

/-- the supply covers every balance, so that its subtraction does not revert -/
def burn (src : A) (x : ℕ) (l : Ledger A) : Except Reason (Ledger A) :=
  if x ≤ l.balance src then do
    let totalSupply ← checkedSub l.totalSupply x
    pure { l with balance := fun a => l.balance a - if a = src then x else 0, totalSupply := totalSupply }
  else .error .balance

variable {l l' : Ledger A}

/-- `x` if the condition holds -/
def part (p : Prop) [Decidable p] (x : ℕ) : ℤ := if p then x else 0

theorem transfer_ok {src dst : A} {x : ℕ} (h : l.transfer src dst x = .ok l') :
    x ≤ l.balance src ∧ l'.allowance = l.allowance ∧ l'.totalSupply = l.totalSupply ∧
      ∀ a, (l'.balance a : ℤ) = l.balance a - part (a = src) x + part (a = dst) x := by
  unfold transfer at h
  split at h
  next hx =>
    obtain rfl := Except.ok.inj h
    refine ⟨hx, rfl, rfl, fun a => ?_⟩
    by_cases ha : a = src
    · subst ha
      simp [part, Nat.cast_sub hx]
    · simp [part, ha]
  next => exact nomatch h

theorem spendAllowance_ok {owner spender : A} {x : ℕ} (h : l.spendAllowance owner spender x = .ok l') :
    x ≤ l.allowance owner spender ∧ l' = l.approve owner spender (l.allowance owner spender - x) := by
  unfold spendAllowance at h
  split at h
  next hx => exact ⟨hx, (Except.ok.inj h).symm⟩
  next => exact nomatch h

theorem transferFrom_ok {spender src dst : A} {x : ℕ} (h : l.transferFrom spender src dst x = .ok l') :
    x ≤ l.allowance src spender ∧ l'.totalSupply = l.totalSupply ∧
      l'.allowance = (l.approve src spender (l.allowance src spender - x)).allowance ∧
      ∀ a, (l'.balance a : ℤ) = l.balance a - part (a = src) x + part (a = dst) x := by
  obtain ⟨l1, hspend, htransfer⟩ := Outcome.bind_eq_ok.1 h
  obtain ⟨hx, rfl⟩ := spendAllowance_ok hspend
  obtain ⟨-, hallow, hsupply, hbalance⟩ := transfer_ok htransfer
  exact ⟨hx, hsupply, hallow, hbalance⟩

theorem mint_ok {dst : A} {x : ℕ} (h : l.mint dst x = .ok l') :
    l'.allowance = l.allowance ∧ l'.totalSupply = l.totalSupply + x ∧
      ∀ a, (l'.balance a : ℤ) = l.balance a + part (a = dst) x := by
  unfold mint at h
  split at h
  next =>
    obtain rfl := Except.ok.inj h
    exact ⟨rfl, rfl, fun a => by simp [part]⟩
  next => exact nomatch h

theorem burn_ok {src : A} {x : ℕ} (h : l.burn src x = .ok l') :
    x ≤ l.balance src ∧ l'.allowance = l.allowance ∧ l'.totalSupply + x = l.totalSupply ∧
      ∀ a, (l'.balance a : ℤ) = l.balance a - part (a = src) x := by
  unfold burn at h
  split at h
  next hx =>
    obtain ⟨supply, hsupply, h⟩ := Outcome.bind_eq_ok.1 h
    obtain rfl := Except.ok.inj h
    refine ⟨hx, rfl, checkedSub_ok hsupply, fun a => ?_⟩
    by_cases ha : a = src
    · subst ha
      simp [part, Nat.cast_sub hx]
    · simp [part, ha]
  next => exact nomatch h

end Ledger

/-! ## Several ledgers -/

/-- one ledger for each token -/
abbrev Bank (T A : Type) := T → Ledger A

namespace Bank

/-- an operation on one ledger -/
def on (t : T) (f : Ledger A → Except Reason (Ledger A)) (b : Bank T A) : Except Reason (Bank T A) := do
  let l ← f (b t)
  pure (Function.update b t l)

omit [DecidableEq A] in
theorem on_ok {t : T} {f : Ledger A → Except Reason (Ledger A)} {b b' : Bank T A} (h : b.on t f = .ok b') :
    f (b t) = .ok (b' t) ∧ ∀ t', t' ≠ t → b' t' = b t' := by
  obtain ⟨l, hl, hb⟩ := Outcome.bind_eq_ok.1 h
  obtain rfl := Except.ok.inj hb
  exact ⟨hl.trans (congrArg _ (Function.update_self t l b).symm), fun t' ht => Function.update_of_ne ht l b⟩

omit [DecidableEq A] in
/-- two operations on one ledger -/
theorem on_bind (t : T) (f g : Ledger A → Except Reason (Ledger A)) (b : Bank T A) :
    (b.on t fun l => f l >>= g) = b.on t f >>= fun b' => b'.on t g := by
  unfold on
  beta_reduce
  cases f (b t) with
  | error e => rfl
  | ok l =>
    change (g l >>= fun l' => pure (Function.update b t l')) =
      (g (Function.update b t l t) >>= fun l' => pure (Function.update (Function.update b t l) t l'))
    rw [Function.update_self]
    simp only [Function.update_idem]

end Bank

end Hyperlane.Tokens
