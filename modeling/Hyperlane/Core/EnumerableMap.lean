/-
Maps whose keys can be listed. A development takes the operations and their laws as a parameter; `assoc` is an
association list with these laws.

- `Lawful`: what `set` and `remove` leave, and that `keys` lists each key once.
- `mem_keys_remove`, `tryGet_ne`: frame facts.
-/
import Mathlib.Tactic

namespace Hyperlane.EnumerableMap

structure Ops (M K V : Type) where
  empty : M
  /-- the flag tells whether the key was added -/
  set : M → K → V → Bool × M
  tryGet : M → K → Option V
  /-- the flag tells whether the key was there -/
  remove : M → K → Bool × M
  keys : M → List K

variable {M K V : Type}

structure Ops.Lawful [DecidableEq K] (E : Ops M K V) : Prop where
  tryGet_empty : ∀ k, E.tryGet E.empty k = none
  tryGet_set : ∀ m k v k', E.tryGet (E.set m k v).2 k' = if k' = k then some v else E.tryGet m k'
  set_added : ∀ m k v, (E.set m k v).1 = (E.tryGet m k).isNone
  tryGet_remove : ∀ m k k', E.tryGet (E.remove m k).2 k' = if k' = k then none else E.tryGet m k'
  mem_keys : ∀ m k, k ∈ E.keys m ↔ (E.tryGet m k).isSome
  keys_nodup : ∀ m, (E.keys m).Nodup

variable [DecidableEq K] {E : Ops M K V}

theorem Ops.Lawful.tryGet_set_self (hE : E.Lawful) (m : M) (k : K) (v : V) : E.tryGet (E.set m k v).2 k = some v := by
  rw [hE.tryGet_set, if_pos rfl]

theorem Ops.Lawful.tryGet_set_ne (hE : E.Lawful) (m : M) {k k' : K} (v : V) (h : k' ≠ k) :
    E.tryGet (E.set m k v).2 k' = E.tryGet m k' := by
  rw [hE.tryGet_set, if_neg h]

theorem Ops.Lawful.tryGet_remove_ne (hE : E.Lawful) (m : M) {k k' : K} (h : k' ≠ k) :
    E.tryGet (E.remove m k).2 k' = E.tryGet m k' := by
  rw [hE.tryGet_remove, if_neg h]

/-! ## Association lists -/

section Assoc

/-- entries with distinct keys -/
abbrev Assoc (K V : Type) := { l : List (K × V) // (l.map Prod.fst).Nodup }

/-- the entries without the key -/
def without (l : List (K × V)) (k : K) : List (K × V) := l.filter fun e => e.1 ≠ k

theorem without_nodup {l : List (K × V)} (h : (l.map Prod.fst).Nodup) (k : K) : ((without l k).map Prod.fst).Nodup :=
  h.sublist ((List.filter_sublist (l := l)).map Prod.fst)

theorem not_mem_without (l : List (K × V)) (k : K) : k ∉ (without l k).map Prod.fst := by
  intro h
  obtain ⟨e, he, heq⟩ := List.mem_map.1 h
  have hne := (List.mem_filter.1 he).2
  simp [heq] at hne

theorem find?_without {l : List (K × V)} {k k' : K} (h : k' ≠ k) :
    (without l k).find? (fun e => e.1 = k') = l.find? fun e => e.1 = k' := by
  unfold without
  rw [List.find?_filter]
  congr
  funext e
  by_cases he : e.1 = k'
  · simp [he, h]
  · simp [he]

def assoc (K V : Type) [DecidableEq K] : Ops (Assoc K V) K V where
  empty := ⟨[], List.nodup_nil⟩
  set m k v := ((m.1.find? fun e => e.1 = k).isNone,
    ⟨(k, v) :: without m.1 k, List.nodup_cons.2 ⟨not_mem_without m.1 k, without_nodup m.2 k⟩⟩)
  tryGet m k := (m.1.find? fun e => e.1 = k).map Prod.snd
  remove m k := ((m.1.find? fun e => e.1 = k).isSome, ⟨without m.1 k, without_nodup m.2 k⟩)
  keys m := m.1.map Prod.fst

theorem assoc_lawful : (assoc K V).Lawful where
  tryGet_empty _ := rfl
  tryGet_set m k v k' := by
    by_cases h : k' = k
    · subst h
      simp [assoc]
    · have hne : ¬k = k' := fun heq => h heq.symm
      simp [assoc, h, hne, find?_without h]
  set_added m k v := by simp [assoc]
  tryGet_remove m k k' := by
    by_cases h : k' = k
    · subst h
      simp [assoc, without]
    · simp [assoc, h, find?_without h]
  mem_keys m k := by
    simp [assoc]
  keys_nodup m := m.2

end Assoc

end Hyperlane.EnumerableMap
