/-
Loops over batches of keyed entries, where each entry reads and changes a state at its own key only, and fails by what it
finds there.

The state is seen through a view, one record for each key. A batch then falls apart into one loop for each key:
- `ActsBy.foldlM_ok`: after a batch that goes through, the record of a key is what the key's own entries make of it;
- `ActsBy.foldlM_error`: a batch that fails does so at a key whose own entries fail.
-/
import Mathlib.Tactic

namespace Hyperlane.KeyedBatch

variable {ι α β S ε : Type} [DecidableEq ι]

/-- what a batch has for one key, in its order -/
def entriesAt (i : ι) (l : List (ι × α)) : List α := (l.filter fun e => e.1 = i).map Prod.snd

@[simp] theorem entriesAt_nil (i : ι) : entriesAt i ([] : List (ι × α)) = [] := rfl

@[simp] theorem entriesAt_cons_self (i : ι) (a : α) (l : List (ι × α)) : entriesAt i ((i, a) :: l) = a :: entriesAt i l := by
  simp [entriesAt]

theorem entriesAt_cons_of_ne {i j : ι} (h : j ≠ i) (a : α) (l : List (ι × α)) :
    entriesAt i ((j, a) :: l) = entriesAt i l := by
  simp [entriesAt, h]

@[simp] theorem mem_entriesAt {i : ι} {a : α} {l : List (ι × α)} : a ∈ entriesAt i l ↔ (i, a) ∈ l := by
  simp [entriesAt]

theorem entriesAt_map {γ : Type} (f : α → γ) (i : ι) (l : List (ι × α)) :
    entriesAt i (l.map fun e => (e.1, f e.2)) = (entriesAt i l).map f := by
  induction l with
  | nil => rfl
  | cons e l ih =>
    obtain ⟨j, a⟩ := e
    by_cases h : j = i
    · subst h
      rw [List.map_cons, entriesAt_cons_self, ih, entriesAt_cons_self, List.map_cons]
    · rw [List.map_cons, entriesAt_cons_of_ne h, ih, entriesAt_cons_of_ne h]

/-- the entries of a batch in which every key stands with the same value -/
theorem entriesAt_const (i : ι) (a : α) (l : List ι) :
    entriesAt i (l.map fun j => (j, a)) = List.replicate (l.count i) a := by
  induction l with
  | nil => rfl
  | cons j l ih =>
    by_cases h : j = i
    · subst h
      rw [List.map_cons, entriesAt_cons_self, ih, List.count_cons_self, List.replicate_succ]
    · rw [List.map_cons, entriesAt_cons_of_ne h, ih, List.count_cons_of_ne h]

/-- each entry acts at its own key, by what it finds there -/
structure ActsBy (view : S → ι → β) (step : S → ι × α → Except ε S) (act : β → α → Option β) : Prop where
  done : ∀ {s s' i a}, step s (i, a) = .ok s' → act (view s i) a = some (view s' i)
  frame : ∀ {s s' i a j}, step s (i, a) = .ok s' → j ≠ i → view s' j = view s j
  failed : ∀ {s i a e}, step s (i, a) = .error e → act (view s i) a = none

namespace ActsBy

variable {view : S → ι → β} {step : S → ι × α → Except ε S} {act : β → α → Option β}

/-- **A batch that goes through** makes of each record what the entries of its key make of it. -/
theorem foldlM_ok (h : ActsBy view step act) {l : List (ι × α)} {s s' : S} (hs : l.foldlM step s = .ok s') (i : ι) :
    (entriesAt i l).foldlM act (view s i) = some (view s' i) := by
  induction l generalizing s with
  | nil =>
    cases hs
    rfl
  | cons e l ih =>
    obtain ⟨j, a⟩ := e
    rw [List.foldlM_cons] at hs
    cases hstep : step s (j, a) with
    | error e =>
      rw [hstep] at hs
      cases hs
    | ok t =>
      rw [hstep] at hs
      have hrest := ih hs
      by_cases hj : j = i
      · subst hj
        rw [entriesAt_cons_self, List.foldlM_cons, h.done hstep]
        exact hrest
      · rw [entriesAt_cons_of_ne hj, ← h.frame hstep (Ne.symm hj)]
        exact hrest

/-- **A batch that fails** has a key whose own entries fail. -/
theorem foldlM_error (h : ActsBy view step act) {l : List (ι × α)} {s : S} {e : ε} (hs : l.foldlM step s = .error e) :
    ∃ i, (entriesAt i l).foldlM act (view s i) = none := by
  induction l generalizing s with
  | nil => cases hs
  | cons entry l ih =>
    obtain ⟨j, a⟩ := entry
    rw [List.foldlM_cons] at hs
    cases hstep : step s (j, a) with
    | error e' =>
      refine ⟨j, ?_⟩
      rw [entriesAt_cons_self, List.foldlM_cons, h.failed hstep]
      rfl
    | ok t =>
      rw [hstep] at hs
      obtain ⟨i, hi⟩ := ih hs
      refine ⟨i, ?_⟩
      by_cases hj : j = i
      · subst hj
        rw [entriesAt_cons_self, List.foldlM_cons, h.done hstep]
        exact hi
      · rw [entriesAt_cons_of_ne hj, ← h.frame hstep (Ne.symm hj)]
        exact hi

end ActsBy

end Hyperlane.KeyedBatch
