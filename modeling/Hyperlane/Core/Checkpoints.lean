/-
Histories of a value by block number: what is pushed in a block is the value of that block and of all later ones, until
something else is pushed. A push in the block of the last entry replaces it, so that a past block keeps its last value.

A development takes the operations and their laws as a parameter; `listed` is a list with these laws.

- `Later`: what pushes in one block do to a history; it composes.
- `Balanced.rebalance`: a total that follows the sum of its parts in every block, past or present.
-/
import Mathlib.Tactic

namespace Hyperlane.Checkpoints

/-- the operations on a history -/
structure History (H : Type) where
  empty : H
  /-- a value is pushed in a block; a value that is too large is refused -/
  push : ℕ → ℕ → H → Option H
  latest : H → ℕ
  /-- the value of a block -/
  lookup : H → ℕ → ℕ

structure History.Lawful {H : Type} (C : History H) (bound : ℕ) : Prop where
  bound_pos : 0 < bound
  latest_empty : C.latest C.empty = 0
  lookup_empty : ∀ b, C.lookup C.empty b = 0
  push_lt : ∀ {now v h h'}, C.push now v h = some h' → v < bound
  latest_push : ∀ {now v h h'}, C.push now v h = some h' → C.latest h' = v
  lookup_before : ∀ {now v h h' b}, C.push now v h = some h' → b < now → C.lookup h' b = C.lookup h b
  lookup_after : ∀ {now v h h' b}, C.push now v h = some h' → now ≤ b → C.lookup h' b = v

variable {H : Type} {C : History H} {bound now now' : ℕ} {h h' h'' : H}

/-! ## One history -/

variable (C bound now h) in
/-- nothing was pushed after block `now` -/
structure Settled : Prop where
  lookup_lt : ∀ b, C.lookup h b < bound
  lookup_eq : ∀ b, now ≤ b → C.lookup h b = C.latest h

variable (C bound now h h') in
/-- pushes in block `now` lead from `h` to `h'` -/
structure Later : Prop where
  before : ∀ b < now, C.lookup h' b = C.lookup h b
  settled : Settled C bound now h → Settled C bound now h'

theorem Settled.empty (hC : C.Lawful bound) (now : ℕ) : Settled C bound now C.empty := by
  refine ⟨?_, ?_⟩
  · intro b
    rw [hC.lookup_empty]
    exact hC.bound_pos
  · intro b _
    rw [hC.lookup_empty, hC.latest_empty]

theorem Settled.latest_lt (hs : Settled C bound now h) : C.latest h < bound := by
  rw [← hs.lookup_eq now le_rfl]
  exact hs.lookup_lt now

theorem Settled.mono (hs : Settled C bound now h) (hnow : now ≤ now') : Settled C bound now' h :=
  ⟨hs.lookup_lt, fun b hb => hs.lookup_eq b (hnow.trans hb)⟩

theorem Later.refl (h : H) : Later C bound now h h := ⟨fun _ _ => rfl, id⟩

theorem Later.trans (h₁ : Later C bound now h h') (h₂ : Later C bound now h' h'') : Later C bound now h h'' := by
  refine ⟨?_, fun hs => h₂.settled (h₁.settled hs)⟩
  intro b hb
  rw [h₂.before b hb, h₁.before b hb]

theorem Later.push (hC : C.Lawful bound) {v : ℕ} (hp : C.push now v h = some h') : Later C bound now h h' := by
  refine ⟨fun b hb => hC.lookup_before hp hb, fun hs => ⟨?_, ?_⟩⟩
  · intro b
    by_cases hb : b < now
    · rw [hC.lookup_before hp hb]
      exact hs.lookup_lt b
    · rw [hC.lookup_after hp (not_lt.1 hb)]
      exact hC.push_lt hp
  · intro b hb
    rw [hC.lookup_after hp hb, hC.latest_push hp]

/-! ## A total and its parts -/

section Balanced

variable {A : Type} [Fintype A] {parts parts' : A → H} {total total' : H}

variable (C bound now parts total) in
/-- the total is the sum of the parts, in every block -/
structure Balanced : Prop where
  parts_settled : ∀ a, Settled C bound now (parts a)
  total_settled : Settled C bound now total
  latest_eq : ∑ a, C.latest (parts a) = C.latest total
  before_eq : ∀ b < now, ∑ a, C.lookup (parts a) b = C.lookup total b

/-- the sum changes by what one part changes by -/
theorem sum_update [DecidableEq A] (parts : A → H) (a : A) (h' : H) :
    (∑ x, C.latest (Function.update parts a h' x) : ℤ) = ∑ x, (C.latest (parts x) : ℤ) +
      (C.latest h' - C.latest (parts a)) := by
  have hpart : ∀ x, (C.latest (Function.update parts a h' x) : ℤ) =
      C.latest (parts x) + if x = a then (C.latest h' : ℤ) - C.latest (parts a) else 0 := by
    intro x
    by_cases hx : x = a
    · subst hx
      simp
    · simp [hx]
  calc (∑ x, C.latest (Function.update parts a h' x) : ℤ)
      = ∑ x, (C.latest (parts x) + if x = a then (C.latest h' : ℤ) - C.latest (parts a) else 0) :=
        Finset.sum_congr rfl fun x _ => hpart x
    _ = _ := by
        rw [Finset.sum_add_distrib, Finset.sum_ite_eq' Finset.univ a, if_pos (Finset.mem_univ a)]

theorem Balanced.empty (hC : C.Lawful bound) (now : ℕ) :
    Balanced C bound now (fun _ : A => C.empty) C.empty := by
  refine ⟨fun _ => Settled.empty hC now, Settled.empty hC now, ?_, ?_⟩
  · simp [hC.latest_empty]
  · intro b _
    simp [hC.lookup_empty]

/-- the sum is right in every block -/
theorem Balanced.lookup_eq (hb : Balanced C bound now parts total) (b : ℕ) :
    ∑ a, C.lookup (parts a) b = C.lookup total b := by
  by_cases hlt : b < now
  · exact hb.before_eq b hlt
  · have hle : now ≤ b := not_lt.1 hlt
    calc ∑ a, C.lookup (parts a) b = ∑ a, C.latest (parts a) :=
          Finset.sum_congr rfl fun a _ => (hb.parts_settled a).lookup_eq b hle
      _ = C.latest total := hb.latest_eq
      _ = C.lookup total b := (hb.total_settled.lookup_eq b hle).symm

theorem Balanced.mono (hb : Balanced C bound now parts total) (hnow : now ≤ now') : Balanced C bound now' parts total :=
  ⟨fun a => (hb.parts_settled a).mono hnow, hb.total_settled.mono hnow, hb.latest_eq, fun b _ => hb.lookup_eq b⟩

/-- **Parts and total may change in the current block** as long as their latest values agree again. -/
theorem Balanced.rebalance (hb : Balanced C bound now parts total) (hparts : ∀ a, Later C bound now (parts a) (parts' a))
    (htotal : Later C bound now total total') (hlatest : ∑ a, C.latest (parts' a) = C.latest total') :
    Balanced C bound now parts' total' := by
  refine ⟨fun a => (hparts a).settled (hb.parts_settled a), htotal.settled hb.total_settled, hlatest, ?_⟩
  intro b hlt
  calc ∑ a, C.lookup (parts' a) b = ∑ a, C.lookup (parts a) b := Finset.sum_congr rfl fun a _ => (hparts a).before b hlt
    _ = C.lookup total b := hb.before_eq b hlt
    _ = C.lookup total' b := (htotal.before b hlt).symm

/-- distinct parts add up to at most the total -/
theorem Balanced.sum_le (hb : Balanced C bound now parts total) (b : ℕ) {l : List A} (hl : l.Nodup) :
    (l.map fun a => C.lookup (parts a) b).sum ≤ C.lookup total b := by
  classical
  rw [← hb.lookup_eq b, ← List.sum_toFinset _ hl]
  exact Finset.sum_le_sum_of_subset (Finset.subset_univ _)

end Balanced

/-! ## Lists -/

/-- the newest entry first; what is pushed in a block replaces what was pushed in that block -/
def listed (bound : ℕ) : History (List (ℕ × ℕ)) where
  empty := []
  push now v h :=
    if bound ≤ v then none
    else
      match h with
      | [] => some [(now, v)]
      | e :: rest => if now < e.1 then none else if e.1 = now then some ((now, v) :: rest) else some ((now, v) :: h)
  latest h := (h.head?.map Prod.snd).getD 0
  lookup h b := ((h.find? fun e => e.1 ≤ b).map Prod.snd).getD 0

theorem listed_push {bound now v : ℕ} {h h' : List (ℕ × ℕ)} (hp : (listed bound).push now v h = some h') :
    v < bound ∧ ∃ rest, h' = (now, v) :: rest ∧ (rest = h ∨ ∃ w, h = (now, w) :: rest) := by
  simp only [listed] at hp
  split at hp
  · cases hp
  · rename_i hv
    refine ⟨not_le.1 hv, ?_⟩
    split at hp
    · cases hp
      exact ⟨[], rfl, .inl rfl⟩
    · rename_i e rest
      split_ifs at hp with hlt heq
      · cases hp
        refine ⟨rest, rfl, .inr ⟨e.2, ?_⟩⟩
        rw [← heq]
      · cases hp
        exact ⟨_, rfl, .inl rfl⟩

theorem listed_lawful {bound : ℕ} (hbound : 0 < bound) : (listed bound).Lawful bound where
  bound_pos := hbound
  latest_empty := rfl
  lookup_empty _ := rfl
  push_lt hp := (listed_push hp).1
  latest_push hp := by
    obtain ⟨-, rest, rfl, -⟩ := listed_push hp
    rfl
  lookup_before {now v h h' b} hp hb := by
    obtain ⟨-, rest, rfl, rfl | ⟨w, rfl⟩⟩ := listed_push hp
    · simp [listed, hb]
    · simp [listed, hb]
  lookup_after {now v h h' b} hp hb := by
    obtain ⟨-, rest, rfl, -⟩ := listed_push hp
    simp [listed, hb]

end Hyperlane.Checkpoints
