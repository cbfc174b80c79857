/-
A store of records by key, in the order of their first save: saving under a key that is there replaces the record in its
place, and no key occurs twice.

- `get?_eq_some`: reading finds the record with the key.
- `mem_save`, `mem_update`: what is in the store after a write; `get?_save`, `get?_update`: what is read then.
- `sum_save`, `sum_update`, `sum_congr_off`: what a write does to a sum over the records.
-/
import Mathlib.Tactic

namespace Hyperlane

/-- records with distinct keys -/
structure KeyedStore (T : Type) (key : T → ℕ) where
  data : List T
  nodup : (data.map key).Nodup

namespace KeyedStore

variable {T : Type} {key : T → ℕ}

def empty : KeyedStore T key := ⟨[], List.nodup_nil⟩

def get? (s : KeyedStore T key) (id : ℕ) : Option T := s.data.find? fun x => key x = id

/-- replacing records by records with the same keys -/
theorem map_keys {l : List T} {f : T → T} (hf : ∀ x, key (f x) = key x) : (l.map f).map key = l.map key := by
  rw [List.map_map]
  exact List.map_congr_left fun x _ => hf x

def update (s : KeyedStore T key) (id : ℕ) (f : T → T) (hf : ∀ x, key (f x) = key x) : KeyedStore T key :=
  ⟨s.data.map fun x => if key x = id then f x else x, by
    rw [map_keys]
    · exact s.nodup
    · intro x
      split
      · exact hf x
      · rfl⟩

/-- the data after a save -/
def saved (data : List T) (key : T → ℕ) (e : T) : List T :=
  if key e ∈ data.map key then data.map fun x => if key x = key e then e else x else data ++ [e]

theorem saved_nodup {data : List T} {e : T} (h : (data.map key).Nodup) : ((saved data key e).map key).Nodup := by
  unfold saved
  split
  · rw [map_keys]
    · exact h
    · intro x
      split
      · rename_i heq
        exact heq.symm
      · rfl
  · rename_i hnew
    rw [List.map_append, List.map_singleton]
    refine List.Nodup.append h (List.nodup_singleton _) ?_
    intro k hk hk'
    rw [List.mem_singleton] at hk'
    exact hnew (hk' ▸ hk)

def save (s : KeyedStore T key) (e : T) : KeyedStore T key := ⟨saved s.data key e, saved_nodup s.nodup⟩

variable {s : KeyedStore T key} {x y e : T} {id : ℕ}

/-- two records with one key are one record -/
theorem eq_of_key (hx : x ∈ s.data) (hy : y ∈ s.data) (h : key x = key y) : x = y :=
  List.inj_on_of_nodup_map s.nodup hx hy h

theorem get?_eq_some : s.get? id = some x ↔ x ∈ s.data ∧ key x = id := by
  constructor
  · intro h
    exact ⟨List.mem_of_find?_eq_some h, by simpa using List.find?_some h⟩
  · rintro ⟨hx, rfl⟩
    cases hget : s.get? (key x) with
    | none =>
      have hnone := List.find?_eq_none.1 hget x hx
      simp at hnone
    | some y =>
      have hy : key y = key x := by simpa using List.find?_some hget
      rw [eq_of_key (List.mem_of_find?_eq_some hget) hx hy]

theorem get?_eq_none : s.get? id = none ↔ id ∉ s.data.map key := by
  simp [get?, List.find?_eq_none]

theorem mem_save (hnew : key e ∉ s.data.map key) : x ∈ (s.save e).data ↔ x ∈ s.data ∨ x = e := by
  simp only [save, saved, if_neg hnew, List.mem_append, List.mem_singleton]

/-- whether or not the key is new -/
theorem mem_of_mem_save (h : x ∈ (s.save e).data) : x ∈ s.data ∨ x = e := by
  unfold save saved at h
  dsimp only at h
  split at h
  · obtain ⟨y, hy, rfl⟩ := List.mem_map.1 h
    split
    · exact .inr rfl
    · exact .inl hy
  · rwa [List.mem_append, List.mem_singleton] at h

theorem data_save (hnew : key e ∉ s.data.map key) : (s.save e).data = s.data ++ [e] := by
  simp only [save, saved, if_neg hnew]

theorem mem_update {f : T → T} {hf : ∀ x, key (f x) = key x} :
    x ∈ (s.update id f hf).data ↔ (x ∈ s.data ∧ key x ≠ id) ∨ ∃ y ∈ s.data, key y = id ∧ x = f y := by
  simp only [update, List.mem_map]
  constructor
  · rintro ⟨y, hy, rfl⟩
    by_cases h : key y = id
    · exact .inr ⟨y, hy, h, if_pos h⟩
    · rw [if_neg h]
      exact .inl ⟨hy, h⟩
  · rintro (⟨hx, hne⟩ | ⟨y, hy, h, rfl⟩)
    · exact ⟨x, hx, if_neg hne⟩
    · exact ⟨y, hy, if_pos h⟩

theorem get?_update {f : T → T} {hf : ∀ x, key (f x) = key x} (k : ℕ) :
    (s.update id f hf).get? k = if k = id then (s.get? k).map f else s.get? k := by
  have hkey : ∀ x, key (if key x = id then f x else x) = key x := by
    intro x
    split
    · exact hf x
    · rfl
  simp only [get?, update, List.find?_map, Function.comp_def, hkey]
  cases hget : s.data.find? fun x => key x = k with
  | none => simp
  | some x =>
    have hx : key x = k := by simpa using List.find?_some hget
    rw [Option.map_some, Option.map_some, hx]
    split
    · rfl
    · rfl

theorem get?_save (hnew : key e ∉ s.data.map key) (k : ℕ) :
    (s.save e).get? k = if k = key e then some e else s.get? k := by
  simp only [get?, data_save hnew, List.find?_append]
  split
  · rename_i heq
    have hnone : s.get? k = none := get?_eq_none.2 (heq ▸ hnew)
    rw [show s.data.find? _ = none from hnone]
    simp [heq]
  · rename_i hne
    simp [Ne.symm hne]

/-! ## Sums -/

section Sums

variable {M : Type} [AddCommGroup M] {g g' : T → M}

theorem sum_save (hnew : key e ∉ s.data.map key) : ((s.save e).data.map g).sum = (s.data.map g).sum + g e := by
  rw [data_save hnew, List.map_append, List.sum_append, List.map_singleton, List.sum_singleton]

/-- two sums that differ at one record -/
theorem sum_congr_off (hx : x ∈ s.data) (h : ∀ y ∈ s.data, key y ≠ key x → g' y = g y) :
    (s.data.map g').sum = (s.data.map g).sum + (g' x - g x) := by
  obtain ⟨data, nodup⟩ := s
  simp only at hx h ⊢
  induction data with
  | nil => cases hx
  | cons y data ih =>
    rw [List.map_cons, List.nodup_cons] at nodup
    rw [List.map_cons, List.sum_cons, List.map_cons, List.sum_cons]
    rcases List.mem_cons.1 hx with rfl | hx
    · have hrest : data.map g' = data.map g := by
        refine List.map_congr_left fun z hz => h z (List.mem_cons_of_mem _ hz) fun heq => ?_
        exact nodup.1 (heq ▸ List.mem_map_of_mem hz)
      rw [hrest]
      abel
    · have hne : key y ≠ key x := fun heq => nodup.1 (heq ▸ List.mem_map_of_mem hx)
      rw [ih nodup.2 hx fun z hz => h z (List.mem_cons_of_mem _ hz), h y List.mem_cons_self hne]
      abel

theorem sum_update {f : T → T} {hf : ∀ x, key (f x) = key x} (hx : x ∈ s.data) :
    ((s.update (key x) f hf).data.map g).sum = (s.data.map g).sum + (g (f x) - g x) := by
  have hoff : (s.data.map fun y => g (if key y = key x then f y else y)).sum =
      (s.data.map g).sum + (g (if key x = key x then f x else x) - g x) :=
    sum_congr_off hx fun y _ hne => by rw [if_neg hne]
  rw [if_pos rfl] at hoff
  rw [← hoff, update, List.map_map]
  rfl

end Sums

end KeyedStore

end Hyperlane
