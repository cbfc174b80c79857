/-
A reorder buffer: items arrive with sequence numbers, in any order, and leave in the order of their numbers. An item that
arrives early waits for those before it.

Counters saturate at a limit.

- `Settled`: what has left is the longest run of numbers that have arrived, and the rest of what has arrived waits.
- `arrive_settled`: an arrival keeps this. `Settled.left_eq`: what has left, from what has arrived.
-/
import Std.Data.ExtTreeMap
import Mathlib.Tactic

namespace Hyperlane.ReorderBuffer

open Std (ExtTreeMap)

variable {α β : Type} {limit : ℕ}

structure Buffer (α : Type) where
  /-- the number that leaves next -/
  next : ℕ
  waiting : ExtTreeMap ℕ α

def Buffer.empty : Buffer α := ⟨0, ∅⟩

def saturatingSucc (limit n : ℕ) : ℕ := min (n + 1) limit

/-- lets items leave for as long as the next one is there -/
def drain (limit : ℕ) (b : Buffer α) : List α × Buffer α :=
  match _h : b.waiting[b.next]? with
  | none => ([], b)
  | some a =>
    let rest := drain limit ⟨saturatingSucc limit b.next, b.waiting.erase b.next⟩
    (a :: rest.1, rest.2)
termination_by b.waiting.size
decreasing_by
  have hmem : b.waiting.contains b.next = true := by rw [ExtTreeMap.contains_eq_isSome_getElem?, _h, Option.isSome_some]
  have hpos : b.waiting.size ≠ 0 := by
    intro hzero
    rw [ExtTreeMap.eq_empty_iff_size_eq_zero.2 hzero, ExtTreeMap.contains_iff_mem] at hmem
    exact ExtTreeMap.not_mem_empty hmem
  rw [ExtTreeMap.size_erase, if_pos hmem]
  omega

/-- an item arrives -/
def arrive (limit : ℕ) (b : Buffer α) (sequence : ℕ) (a : α) : List α × Buffer α :=
  drain limit ⟨b.next, b.waiting.insert sequence a⟩

/-- the items that have left are the first of those that have arrived, and the others wait -/
structure Tracks (arrived : ℕ → Option α) (b : Buffer α) (left : List α) : Prop where
  next : b.next = left.length
  gone : ∀ i < left.length, arrived i = left[i]? ∧ b.waiting[i]? = none
  waiting : ∀ i, left.length ≤ i → b.waiting[i]? = arrived i

/-- nothing that could leave waits -/
structure Settled (arrived : ℕ → Option α) (b : Buffer α) (left : List α) : Prop extends Tracks arrived b left where
  stuck : arrived left.length = none

variable {arrived : ℕ → Option α} {b : Buffer α} {left : List α}

theorem settled_empty : Settled (fun _ => none) (Buffer.empty : Buffer α) [] :=
  { next := rfl
    gone := fun i hi => absurd hi (Nat.not_lt_zero i)
    waiting := fun _ _ => ExtTreeMap.getElem?_empty
    stuck := rfl }

/-- an item leaves -/
theorem Tracks.leave (h : Tracks arrived b left) {a : α} (ha : b.waiting[b.next]? = some a) (hlimit : b.next < limit) :
    Tracks arrived ⟨saturatingSucc limit b.next, b.waiting.erase b.next⟩ (left ++ [a]) := by
  have harrived : arrived left.length = some a := by rw [← h.waiting _ le_rfl, ← h.next, ha]
  constructor
  · rw [saturatingSucc, Nat.min_eq_left hlimit, h.next, List.length_append, List.length_singleton]
  · intro i hi
    rw [List.length_append, List.length_singleton] at hi
    rcases Nat.lt_succ_iff_lt_or_eq.1 hi with hi | rfl
    · obtain ⟨hleft, hnone⟩ := h.gone i hi
      refine ⟨by rw [hleft, List.getElem?_append_left hi], ?_⟩
      rw [ExtTreeMap.getElem?_erase, hnone, ite_self]
    · refine ⟨by rw [harrived, List.getElem?_concat_length], ?_⟩
      rw [ExtTreeMap.getElem?_erase, if_pos (by rw [h.next]; exact Nat.compare_eq_eq.2 rfl)]
  · intro i hi
    rw [List.length_append, List.length_singleton] at hi
    have hne : ¬compare b.next i = .eq := fun heq => by
      rw [Nat.compare_eq_eq, h.next] at heq
      omega
    rw [ExtTreeMap.getElem?_erase, if_neg hne, h.waiting i (by omega)]

theorem drain_none (h : b.waiting[b.next]? = none) : drain limit b = ([], b) := by
  rw [drain]
  split
  · rfl
  next a ha => cases h.symm.trans ha

theorem drain_some {a : α} (h : b.waiting[b.next]? = some a) :
    drain limit b = (a :: (drain limit ⟨saturatingSucc limit b.next, b.waiting.erase b.next⟩).1,
      (drain limit ⟨saturatingSucc limit b.next, b.waiting.erase b.next⟩).2) := by
  rw [drain]
  split
  next hnone => exact nomatch h.symm.trans hnone
  next a' ha' =>
    obtain rfl := Option.some.inj (h.symm.trans ha')
    rfl

/-- after draining, nothing that could leave waits -/
theorem drain_settled (h : Tracks arrived b left) (hlimit : ∀ i, arrived i ≠ none → i < limit) :
    Settled arrived (drain limit b).2 (left ++ (drain limit b).1) := by
  induction b using drain.induct limit generalizing left with
  | case1 b hnone =>
    rw [drain_none hnone, List.append_nil]
    exact { h with stuck := by rw [← h.waiting _ le_rfl, ← h.next, hnone] }
  | case2 b a ha ih =>
    have hnext : b.next < limit := hlimit b.next (by rw [h.next, ← h.waiting _ le_rfl, ← h.next, ha]; exact Option.some_ne_none a)
    have hrest := ih (h.leave ha hnext)
    rw [List.append_assoc] at hrest
    rw [drain_some ha]
    exact hrest

/-- an item that had not arrived before arrives -/
theorem arrive_settled (h : Settled arrived b left) {sequence : ℕ} (a : α) (hnew : arrived sequence = none)
    (hlimit : ∀ i, arrived i ≠ none → i < limit) (hsequence : sequence < limit) :
    Settled (Function.update arrived sequence (some a)) (arrive limit b sequence a).2
      (left ++ (arrive limit b sequence a).1) := by
  have hlater : ∀ i < left.length, i ≠ sequence := by
    rintro i hi rfl
    rw [(h.gone i hi).1, List.getElem?_eq_getElem hi] at hnew
    exact nomatch hnew
  refine drain_settled ⟨h.next, ?_, ?_⟩ ?_
  · intro i hi
    obtain ⟨hleft, hnone⟩ := h.gone i hi
    refine ⟨by rw [Function.update_of_ne (hlater i hi), hleft], ?_⟩
    rw [ExtTreeMap.getElem?_insert, if_neg fun heq => hlater i hi (Nat.compare_eq_eq.1 heq).symm, hnone]
  · intro i hi
    rw [ExtTreeMap.getElem?_insert]
    by_cases heq : sequence = i
    · subst heq
      rw [if_pos (Nat.compare_eq_eq.2 rfl), Function.update_self]
    · rw [if_neg fun hcmp => heq (Nat.compare_eq_eq.1 hcmp), Function.update_of_ne (Ne.symm heq), h.waiting i hi]
  · intro i hi
    by_cases heq : i = sequence
    · exact heq ▸ hsequence
    · rw [Function.update_of_ne heq] at hi
      exact hlimit i hi

/-- where the items of a list arrive under their positions, those that have left are the longest run from its front -/
theorem Settled.left_eq {items : List β} {p : β → Bool} {f : β → α}
    (h : Settled (fun i => (items[i]?.filter p).map f) b left) : left = (items.takeWhile p).map f := by
  have hlength : ∀ i < left.length, ∃ x, items[i]? = some x ∧ p x = true ∧ left[i]? = some (f x) := by
    intro i hi
    have hgone := (h.gone i hi).1
    rw [List.getElem?_eq_getElem hi] at hgone
    obtain ⟨x, hx, hfx⟩ := Option.map_eq_some_iff.1 hgone
    rw [Option.filter_eq_some_iff] at hx
    exact ⟨x, hx.1, hx.2, by rw [List.getElem?_eq_getElem hi, hfx]⟩
  have htake : (items.take left.length).map f = left := by
    refine List.ext_getElem? fun i => ?_
    rw [List.getElem?_map, List.getElem?_take]
    by_cases hi : i < left.length
    · obtain ⟨x, hx, _, hleft⟩ := hlength i hi
      rw [if_pos hi, hx, hleft]
      rfl
    · rw [if_neg hi, List.getElem?_eq_none (Nat.not_lt.1 hi)]
      rfl
  have hall : ∀ x ∈ items.take left.length, p x = true := by
    intro x hx
    obtain ⟨i, hi⟩ := List.mem_iff_getElem?.1 hx
    rw [List.getElem?_take] at hi
    split at hi
    next hlt =>
      obtain ⟨y, hy, hp, _⟩ := hlength i hlt
      rwa [Option.some.inj (hi.symm.trans hy)]
    next => cases hi
  have hend : (items.drop left.length).takeWhile p = [] := by
    cases hdrop : items.drop left.length with
    | nil => rfl
    | cons y ys =>
      have hy : items[left.length]? = some y := by
        rw [← Nat.add_zero left.length, ← List.getElem?_drop, hdrop, List.getElem?_cons_zero]
      have hstuck := h.stuck
      rw [hy] at hstuck
      refine List.takeWhile_cons_of_neg fun hp => ?_
      rw [Option.filter_some_pos hp] at hstuck
      cases hstuck
  rw [← List.take_append_drop left.length items, List.takeWhile_append_of_pos hall, hend, List.append_nil, htake]

end Hyperlane.ReorderBuffer
