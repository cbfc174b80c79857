/-
A table and its reverse index.

Writing a value at a key drops the reverse row of the value that was there, and points the row of the new one to the key.
The row that is dropped may be the one another key needs.

- `Index.put_sound`: every row of the reverse index is right.
- `Index.put_complete_iff`: a value that is stored once keeps its row, unless a write leaves it the last of two.
-/
import Mathlib.Tactic

namespace Hyperlane.ReverseIndex

variable {K V : Type}

structure Index (K V : Type) where
  table : K → Option V
  reverse : V → Option K

namespace Index

def empty : Index K V := ⟨fun _ => none, fun _ => none⟩

/-- every row points to its value -/
def Sound (t : Index K V) : Prop := ∀ v k, t.reverse v = some k → t.table k = some v

/-- no other key has the value -/
def Only (t : Index K V) (k : K) : Prop := ∀ k', t.table k' = t.table k → k' = k

/-- a value that is stored once has its row -/
def Complete (t : Index K V) : Prop := ∀ k v, t.table k = some v → t.Only k → t.reverse v = some k

/-- a write at `k` that takes one of the two places of another value -/
def Strands (t : Index K V) (k : K) (v : V) : Prop :=
  ∃ old, t.table k = some old ∧ old ≠ v ∧ ∃ k', k' ≠ k ∧ t.table k' = some old ∧ ∀ l, t.table l = some old → l = k ∨ l = k'

theorem empty_sound : (empty : Index K V).Sound := by
  intro v k h
  cases h

theorem empty_complete : (empty : Index K V).Complete := by
  intro k v h
  cases h

variable [DecidableEq V]

/-- the row of the value that was there is dropped -/
def drop (t : Index K V) (k : K) (v : V) : V → Option K :=
  match t.table k with
  | some old => if old = v then t.reverse else Function.update t.reverse old none
  | none => t.reverse

theorem drop_none {t : Index K V} {k : K} (h : t.table k = none) (v : V) : t.drop k v = t.reverse := by
  simp only [drop, h]

theorem drop_some {t : Index K V} {k : K} {old : V} (h : t.table k = some old) (v : V) :
    t.drop k v = if old = v then t.reverse else Function.update t.reverse old none := by
  simp only [drop, h]

variable [DecidableEq K]

def put (t : Index K V) (k : K) (v : V) : Index K V :=
  ⟨Function.update t.table k (some v), Function.update (t.drop k v) v (some k)⟩

theorem put_table_self (t : Index K V) (k : K) (v : V) : (t.put k v).table k = some v := Function.update_self ..

theorem put_table_of_ne (t : Index K V) (v : V) {k k' : K} (h : k' ≠ k) : (t.put k v).table k' = t.table k' :=
  Function.update_of_ne h ..

theorem put_reverse_self (t : Index K V) (k : K) (v : V) : (t.put k v).reverse v = some k := Function.update_self ..

theorem put_reverse_of_ne (t : Index K V) (k : K) {v v' : V} (h : v' ≠ v) :
    (t.put k v).reverse v' = if t.table k = some v' then none else t.reverse v' := by
  change Function.update (t.drop k v) v (some k) v' = _
  rw [Function.update_of_ne h]
  cases hold : t.table k with
  | none =>
    rw [drop_none hold, if_neg]
    exact fun hc => by cases hc
  | some old =>
    rw [drop_some hold]
    by_cases heq : old = v'
    · subst heq
      rw [if_pos rfl, if_neg h, Function.update_self]
    · rw [if_neg fun hc => heq (Option.some.inj hc)]
      by_cases hv : old = v
      · rw [if_pos hv]
      · rw [if_neg hv, Function.update_of_ne (Ne.symm heq)]

theorem put_sound {t : Index K V} (h : t.Sound) (k : K) (v : V) : (t.put k v).Sound := by
  intro v' l hrow
  by_cases hv : v' = v
  · subst hv
    rw [put_reverse_self] at hrow
    obtain rfl := Option.some.inj hrow
    exact put_table_self t k v'
  · rw [put_reverse_of_ne t k hv] at hrow
    split at hrow
    · cases hrow
    next hother =>
      have hl := h v' l hrow
      have hne : l ≠ k := by
        rintro rfl
        exact hother hl
      rw [put_table_of_ne t v hne, hl]

theorem put_complete {t : Index K V} (h : t.Complete) {k : K} {v : V} (hs : ¬ t.Strands k v) : (t.put k v).Complete := by
  intro l v' hl honly
  by_cases hk : l = k
  · subst hk
    obtain rfl : v = v' := Option.some.inj ((put_table_self t l v).symm.trans hl)
    exact put_reverse_self t l v
  · -- another key with the written value has it twice
    have hv : v' ≠ v := by
      rintro rfl
      exact hk (honly k ((put_table_self t k v').trans hl.symm)).symm
    have htable : t.table l = some v' := (put_table_of_ne t v hk).symm.trans hl
    have honly' : ∀ l', l' ≠ k → t.table l' = some v' → l' = l := fun l' hl' h' =>
      honly l' (by rw [put_table_of_ne t v hl', h', hl])
    rw [put_reverse_of_ne t k hv]
    by_cases hold : t.table k = some v'
    · refine absurd ⟨v', hold, hv, l, hk, htable, fun l' h' => ?_⟩ hs
      by_cases hl' : l' = k
      · exact Or.inl hl'
      · exact Or.inr (honly' l' hl' h')
    · rw [if_neg hold]
      refine h l v' htable fun l' h' => honly' l' ?_ (h'.trans htable)
      rintro rfl
      exact hold (h'.trans htable)

/-- a value with one place left loses its row -/
theorem not_complete_of_strands {t : Index K V} {k : K} {v : V} (hs : t.Strands k v) : ¬ (t.put k v).Complete := by
  obtain ⟨old, hold, hne, k', hk', htable, htwo⟩ := hs
  intro h
  have htable' : (t.put k v).table k' = some old := (put_table_of_ne t v hk').trans htable
  have hrow := h k' old htable' fun l hl => by
    by_cases hlk : l = k
    · subst hlk
      rw [put_table_self, htable'] at hl
      exact absurd (Option.some.inj hl).symm hne
    · rw [put_table_of_ne t v hlk, htable'] at hl
      exact (htwo l hl).resolve_left hlk
  rw [put_reverse_of_ne t k hne, if_pos hold] at hrow
  cases hrow

theorem put_complete_iff {t : Index K V} (h : t.Complete) (k : K) (v : V) : (t.put k v).Complete ↔ ¬ t.Strands k v :=
  ⟨fun hput hs => not_complete_of_strands hs hput, put_complete h⟩

end Index

end Hyperlane.ReverseIndex
