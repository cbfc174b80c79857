/-
Programs that ask a remote party, which moves on between the questions.

A program asks one question after another; each may fail, and then the program fails. The k-th question of an execution
is answered in the k-th state of the remote party.

- `yields_bind`, `yields_ask`: what a successful execution has gone through.
- `search_yields`: a binary search over answers that differ from state to state finds the index that splits them, when
  one index splits all of them.
- `fixedAnswer`: the answer of a remote party that does not move; `fixedAnswer_search`: a search asks it only within bounds.
-/
import Hyperlane.Core.Interleaving

namespace Hyperlane.RemoteReads

open Interleaving

variable {S E α β : Type}

/-- questions that may fail -/
abbrev Reads (S E α : Type) := ExceptT E (Prog S) α

/-- one question -/
def ask (q : S → Except E α) : Reads S E α := ExceptT.mk (.read q)

/-- the result of an execution from the k-th question on, and the number of the question after it -/
def exec (seen : ℕ → S) : ℕ → Prog S α → α × ℕ
  | k, .pure a => (a, k)
  | k, .access _ next => exec seen (k + 1) (next (seen k))
  | k, .acquire next => exec seen k next
  | k, .release next => exec seen k next

/-- the execution from the k-th question on ends with `a` before the k'-th one -/
def Yields (seen : ℕ → S) (k : ℕ) (p : Reads S E α) (a : α) (k' : ℕ) : Prop := exec seen k p.run = (.ok a, k')

variable {seen : ℕ → S} {k k' : ℕ}

theorem exec_bind {γ : Type} (p : Prog S γ) (f : γ → Prog S β) :
    exec seen k (p >>= f) = exec seen (exec seen k p).2 (f (exec seen k p).1) := by
  induction p generalizing k with
  | pure a => rfl
  | access change next ih => exact ih (seen k)
  | acquire next ih => exact ih
  | release next ih => exact ih

theorem yields_bind {p : Reads S E α} {f : α → Reads S E β} {b : β} :
    Yields seen k (p >>= f) b k' ↔ ∃ a j, Yields seen k p a j ∧ Yields seen j (f a) b k' := by
  have hrun : exec seen k (p >>= f).run = exec seen (exec seen k p.run).2 (ExceptT.bindCont f (exec seen k p.run).1) :=
    exec_bind _ _
  unfold Yields
  rw [hrun]
  cases hp : exec seen k p.run with
  | mk result j =>
    cases result with
    | ok a =>
      constructor
      · intro h
        exact ⟨a, j, rfl, h⟩
      · rintro ⟨a', j', heq, h⟩
        cases heq
        exact h
    | error e =>
      constructor
      · intro h
        cases h
      · rintro ⟨a', j', heq, -⟩
        cases heq

theorem yields_ask {q : S → Except E α} {a : α} : Yields seen k (ask q) a k' ↔ q (seen k) = .ok a ∧ k' = k + 1 := by
  change ((q (seen k), k + 1) : Except E α × ℕ) = (.ok a, k') ↔ _
  rw [Prod.mk.injEq]
  exact and_congr Iff.rfl eq_comm

theorem yields_pure {a b : α} : Yields seen k (pure a : Reads S E α) b k' ↔ a = b ∧ k = k' := by
  change ((.ok a, k) : Except E α × ℕ) = (.ok b, k') ↔ _
  rw [Prod.mk.injEq, Except.ok.injEq]

theorem not_yields_throw {e : E} {a : α} : ¬ Yields seen k (throw e : Reads S E α) a k' := by
  intro h
  cases h

/-- an execution does not go back -/
theorem Yields.le {p : Reads S E α} {a : α} (h : Yields seen k p a k') : k ≤ k' := by
  have hle : ∀ {γ : Type} (p : Prog S γ) (k : ℕ), k ≤ (exec seen k p).2 := by
    intro γ p
    induction p with
    | pure a => exact fun k => le_rfl
    | access change next ih => exact fun k => (Nat.le_succ k).trans (ih (seen k) (k + 1))
    | acquire next ih => exact ih
    | release next ih => exact ih
  have hk := hle p.run k
  rwa [h] at hk

/-! ## Binary search -/

/-- one turn of the search narrows the window `[low, high)` by a probe of its middle -/
def searchLoop (below : ℕ → S → Except E Bool) : ℕ → ℕ → ℕ → Reads S E ℕ
  | 0, low, _ => pure low
  | n + 1, low, high =>
    if low < high then do
      let middle := low + (high - low) / 2
      if ← ask (below middle) then searchLoop below n (middle + 1) high else searchLoop below n low middle
    else pure low

/-- the first index of `[0, count)` that is not below; the window shrinks in each turn, so `count` turns are enough -/
def search (below : ℕ → S → Except E Bool) (count : ℕ) : Reads S E ℕ := searchLoop below count 0 count

/-- `n` splits what every state from the k-th on answers -/
structure Splits (seen : ℕ → S) (below : ℕ → S → Except E Bool) (k n : ℕ) : Prop where
  low : ∀ j ≥ k, ∀ i < n, ∀ b, below i (seen j) = .ok b → b = true
  high : ∀ j ≥ k, ∀ i ≥ n, ∀ b, below i (seen j) = .ok b → b = false

variable {below : ℕ → S → Except E Bool} {n r : ℕ}

theorem searchLoop_yields (hsplit : Splits seen below k n) (turns : ℕ) {j low high m : ℕ} (hj : k ≤ j)
    (hm : m = min n high) (hlow : low ≤ m) (hturns : high - low ≤ turns)
    (h : Yields seen j (searchLoop below turns low high) r k') : r = m := by
  induction turns generalizing j low high m with
  | zero =>
    obtain ⟨rfl, -⟩ := yields_pure.1 h
    omega
  | succ turns ih =>
    rw [searchLoop] at h
    split at h
    · obtain ⟨b, j', hask, h⟩ := yields_bind.1 h
      obtain ⟨hanswer, rfl⟩ := yields_ask.1 hask
      by_cases hn : low + (high - low) / 2 < n
      · obtain rfl := hsplit.low j hj _ hn b hanswer
        exact ih (by omega) hm (by omega) (by omega) h
      · obtain rfl := hsplit.high j hj _ (not_lt.1 hn) b hanswer
        have hsame := ih (m := min n (low + (high - low) / 2)) (by omega) rfl (by omega) (by omega) h
        omega
    · obtain ⟨rfl, -⟩ := yields_pure.1 h
      omega

/-- **A search over moving answers finds the index that splits them**, up to its bound. -/
theorem search_yields {count : ℕ} (hsplit : Splits seen below k n) (h : Yields seen k (search below count) r k') :
    r = min n count :=
  searchLoop_yields hsplit count le_rfl rfl (Nat.zero_le _) (Nat.sub_le _ _) h

/-! ## A party that does not move -/

section Fixed

variable {s : S}

/-- what an execution ends with when every question is answered in one state -/
def fixedAnswer (s : S) (p : Reads S E α) : Except E α := (exec (fun _ => s) 0 p.run).1

theorem exec_fixed (p : Prog S α) (k : ℕ) : (exec (fun _ => s) k p).1 = (exec (fun _ => s) 0 p).1 := by
  induction p generalizing k with
  | pure a => rfl
  | access change next ih => exact (ih s (k + 1)).trans (ih s (0 + 1)).symm
  | acquire next ih => exact ih k
  | release next ih => exact ih k

theorem fixedAnswer_bind (p : Reads S E α) (f : α → Reads S E β) :
    fixedAnswer s (p >>= f) = fixedAnswer s p >>= fun a => fixedAnswer s (f a) := by
  have hrun : exec (fun _ => s) 0 (p >>= f).run = exec (fun _ => s) (exec (fun _ => s) 0 p.run).2
      (ExceptT.bindCont f (exec (fun _ => s) 0 p.run).1) := exec_bind _ _
  rw [fixedAnswer, hrun, exec_fixed, fixedAnswer]
  cases (exec (fun _ => s) 0 p.run).1 with
  | ok a => rfl
  | error e => rfl

theorem fixedAnswer_ask (q : S → Except E α) : fixedAnswer s (ask q) = q s := rfl

theorem fixedAnswer_pure (a : α) : fixedAnswer s (pure a : Reads S E α) = .ok a := rfl

theorem fixedAnswer_searchLoop {turns low high : ℕ} (h : ∀ i < high, below i s = .ok (decide (i < n)))
    (hlow : low ≤ min n high) (hturns : high - low ≤ turns) :
    fixedAnswer s (searchLoop below turns low high) = .ok (min n high) := by
  induction turns generalizing low high with
  | zero =>
    rw [searchLoop, fixedAnswer_pure]
    exact congrArg _ (by omega)
  | succ turns ih =>
    rw [searchLoop]
    split
    next hlt =>
      rw [fixedAnswer_bind, fixedAnswer_ask, h _ (by omega)]
      by_cases hn : low + (high - low) / 2 < n
      · exact (congrArg (fixedAnswer s) (if_pos (decide_eq_true hn))).trans (ih h (by omega) (by omega))
      · have hsame : min n (low + (high - low) / 2) = min n high := by omega
        refine (congrArg (fixedAnswer s) (if_neg (by simpa using hn))).trans ?_
        rw [← hsame]
        exact ih (fun i hi => h i (by omega)) (by omega) (by omega)
    next hge =>
      rw [fixedAnswer_pure]
      exact congrArg _ (by omega)

/-- **A search finds the index that splits the answers**, and asks for none beyond its bound. -/
theorem fixedAnswer_search {count : ℕ} (h : ∀ i < count, below i s = .ok (decide (i < n))) :
    fixedAnswer s (search below count) = .ok (min n count) :=
  fixedAnswer_searchLoop h (Nat.zero_le _) (Nat.sub_le _ _)

end Fixed

end Hyperlane.RemoteReads
