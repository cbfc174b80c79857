/-
Matching a sequence of items against a list by one scan: each item takes the first position that holds it after the
position of the item before. Items and entries may repeat.

- `matching_of_greedy`: the scan is sound; its positions increase strictly, so none is taken twice.
- `greedy_le`: the scan is complete; where the items can be matched at increasing positions, the scan matches them, each
  no later.
- `exists_greedy_iff`: the two together.
-/
import Mathlib.Tactic

namespace Hyperlane.GreedyMatch

variable {α : Type} [DecidableEq α]

/-- the first position from `start` on that holds the item, or the end -/
def seek (xs : List α) (a : α) (start : ℕ) : ℕ := start + (xs.drop start).findIdx fun x => x = a

/-- the positions that a scan from `start` on takes for the items, in turn -/
def greedy (xs : List α) : ℕ → List α → Option (List ℕ)
  | _, [] => some []
  | start, a :: items =>
    if seek xs a start < xs.length then (greedy xs (seek xs a start + 1) items).map (seek xs a start :: ·) else none

/-- the items stand at strictly increasing positions from `start` on -/
structure Matching (xs : List α) (start : ℕ) (items : List α) (positions : List ℕ) : Prop where
  increasing : positions.Pairwise (· < ·)
  from_start : ∀ p ∈ positions, start ≤ p
  holds : List.Forall₂ (fun p a => xs[p]? = some a) positions items

variable {xs items : List α} {a : α} {start p : ℕ} {positions : List ℕ}

theorem le_seek : start ≤ seek xs a start := Nat.le_add_right _ _

theorem seek_le (hle : start ≤ p) (hp : xs[p]? = some a) : seek xs a start ≤ p := by
  obtain ⟨hlt, hget⟩ := List.getElem?_eq_some_iff.1 hp
  have hfind : (xs.drop start).findIdx (fun x => x = a) ≤ p - start := by
    by_contra hgt
    have hnot := List.not_of_lt_findIdx (not_le.1 hgt)
    simp only [List.getElem_drop, decide_eq_false_iff_not] at hnot
    apply hnot
    simp only [Nat.add_sub_cancel' hle, hget]
  calc seek xs a start = start + (xs.drop start).findIdx (fun x => x = a) := rfl
    _ ≤ start + (p - start) := Nat.add_le_add_left hfind start
    _ = p := Nat.add_sub_cancel' hle

theorem getElem?_seek (h : seek xs a start < xs.length) : xs[seek xs a start]? = some a := by
  have hin : (xs.drop start).findIdx (fun x => x = a) < (xs.drop start).length := by
    rw [List.length_drop]
    unfold seek at h
    omega
  have hfound := List.findIdx_getElem (w := hin)
  rw [List.getElem_drop, decide_eq_true_eq] at hfound
  rw [List.getElem?_eq_getElem h, Option.some_inj]
  exact hfound

/-- the scan of a first item -/
theorem greedy_cons : greedy xs start (a :: items) = some positions ↔ seek xs a start < xs.length ∧
    ∃ rest, greedy xs (seek xs a start + 1) items = some rest ∧ positions = seek xs a start :: rest := by
  rw [greedy]
  split
  · rename_i hlt
    rw [Option.map_eq_some_iff]
    constructor
    · rintro ⟨rest, hrest, rfl⟩
      exact ⟨hlt, rest, hrest, rfl⟩
    · rintro ⟨-, rest, hrest, rfl⟩
      exact ⟨rest, hrest, rfl⟩
  · rename_i hlt
    exact ⟨fun h => (nomatch h), fun h => absurd h.1 hlt⟩

omit [DecidableEq α] in
/-- a matching, one item more in front -/
theorem Matching.cons (h : Matching xs (p + 1) items positions) (hle : start ≤ p) (hp : xs[p]? = some a) :
    Matching xs start (a :: items) (p :: positions) := by
  refine ⟨List.pairwise_cons.2 ⟨fun q hq => h.from_start q hq, h.increasing⟩, ?_, h.holds.cons hp⟩
  intro q hq
  rcases List.mem_cons.1 hq with rfl | hq
  · exact hle
  · exact hle.trans (Nat.le_of_succ_le (h.from_start q hq))

omit [DecidableEq α] in
/-- the rest of a matching starts right after its first position, hence after any earlier one -/
theorem Matching.tail {q : ℕ} (h : Matching xs start (a :: items) (p :: positions)) (hq : q ≤ p) :
    Matching xs (q + 1) items positions := by
  obtain ⟨hfirst, hincreasing⟩ := List.pairwise_cons.1 h.increasing
  refine ⟨hincreasing, ?_, (List.forall₂_cons.1 h.holds).2⟩
  intro r hr
  exact Nat.succ_le_of_lt (hq.trans_lt (hfirst r hr))

/-- the scan is sound -/
theorem matching_of_greedy (h : greedy xs start items = some positions) : Matching xs start items positions := by
  induction items generalizing start positions with
  | nil =>
    simp only [greedy, Option.some.injEq] at h
    subst h
    exact ⟨List.Pairwise.nil, by simp, List.Forall₂.nil⟩
  | cons a items ih =>
    obtain ⟨hlt, rest, hrest, rfl⟩ := greedy_cons.1 h
    exact (ih hrest).cons le_seek (getElem?_seek hlt)

/-- the scan is complete, and takes each item no later than any other matching does -/
theorem greedy_le (h : Matching xs start items positions) :
    ∃ taken, greedy xs start items = some taken ∧ List.Forall₂ (· ≤ ·) taken positions := by
  induction items generalizing start positions with
  | nil =>
    obtain rfl : positions = [] := List.forall₂_nil_right_iff.1 h.holds
    exact ⟨[], rfl, List.Forall₂.nil⟩
  | cons a items ih =>
    obtain ⟨p, rest, hp, -, rfl⟩ := List.forall₂_cons_right_iff.1 h.holds
    have hseek := seek_le (h.from_start p List.mem_cons_self) hp
    have hlt : seek xs a start < xs.length := hseek.trans_lt (List.getElem?_eq_some_iff.1 hp).1
    obtain ⟨taken, htaken, hle⟩ := ih (h.tail hseek)
    exact ⟨seek xs a start :: taken, greedy_cons.2 ⟨hlt, taken, htaken, rfl⟩, hle.cons hseek⟩

/-- the scan matches the items if and only if they can be matched -/
theorem exists_greedy_iff : (∃ positions, greedy xs start items = some positions) ↔
    ∃ positions, Matching xs start items positions := by
  constructor
  · rintro ⟨positions, h⟩
    exact ⟨positions, matching_of_greedy h⟩
  · rintro ⟨positions, h⟩
    obtain ⟨taken, htaken, -⟩ := greedy_le h
    exact ⟨taken, htaken⟩

end Hyperlane.GreedyMatch
