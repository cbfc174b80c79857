/-
Shares laid end to end, and what two layouts have in common.

The sources lie end to end on a line, and so do the sinks. A source and a sink share a leg where they overlap. Legs are
listed source by source.

- `layout_sink_first`, `layout_source_first`: taking the shorter of the two front shares off both lines leaves the rest
  of the legs.
- `sum_cuts_le`, `sum_layout_le`: the legs of a source add up to at most its amount.
-/
import Mathlib.Tactic

namespace Hyperlane

variable {α β : Type}

/-- an amount, and whose it is -/
structure Share (α : Type) where
  owner : α
  amount : ℤ
deriving DecidableEq

/-- an amount that goes from a source to a sink -/
structure Leg (α β : Type) where
  source : α
  sink : β
  amount : ℤ
deriving DecidableEq

namespace Share

/-- how far `[a, a + x)` and `[b, b + y)` overlap; not positive where they are apart -/
def overlap (a x b y : ℤ) : ℤ := min (a + x) (b + y) - max a b

/-- the legs of a source of `x` at `a`, with sinks laid from `b` on -/
def cuts (o : α) (a x : ℤ) : ℤ → List (Share β) → List (Leg α β)
  | _, [] => []
  | b, d :: ds =>
    if 0 < overlap a x b d.amount then ⟨o, d.owner, overlap a x b d.amount⟩ :: cuts o a x (b + d.amount) ds
    else cuts o a x (b + d.amount) ds

/-- the legs of sources laid from `a` on with sinks laid from `b` on -/
def layout : ℤ → List (Share α) → ℤ → List (Share β) → List (Leg α β)
  | _, [], _, _ => []
  | a, s :: ss, b, ds => cuts s.owner a s.amount b ds ++ layout (a + s.amount) ss b ds

/-- no share is empty -/
def AllPositive (l : List (Share α)) : Prop := ∀ s ∈ l, 0 < s.amount

theorem AllPositive.head {s : Share α} {l : List (Share α)} (h : AllPositive (s :: l)) : 0 < s.amount :=
  h s List.mem_cons_self

theorem AllPositive.tail {s : Share α} {l : List (Share α)} (h : AllPositive (s :: l)) : AllPositive l :=
  fun x hx => h x (List.mem_cons_of_mem s hx)

variable {o : α} {a b p q x y : ℤ} {ss : List (Share α)} {s : Share α} {ds : List (Share β)} {d : Share β}

/-! ## One source -/

/-- sinks that begin where the source ends take nothing of it -/
theorem cuts_beyond (hds : AllPositive ds) (h : a + x ≤ b) : cuts o a x b ds = [] := by
  induction ds generalizing b with
  | nil => rfl
  | cons d ds ih =>
    have hd := hds.head
    have hnone : ¬ 0 < overlap a x b d.amount := by
      unfold overlap
      omega
    rw [cuts, if_neg hnone]
    exact ih hds.tail (by omega)

/-- the part of a source before the first sink does not matter -/
theorem cuts_shift (hds : AllPositive ds) (hpq : p ≤ q) (hqb : q ≤ b) :
    cuts o p x b ds = cuts o q (x - (q - p)) b ds := by
  induction ds generalizing b with
  | nil => rfl
  | cons d ds ih =>
    have hd := hds.head
    have hsame : overlap p x b d.amount = overlap q (x - (q - p)) b d.amount := by
      unfold overlap
      omega
    rw [cuts, cuts, hsame, ih hds.tail (by omega)]

/-- a sink that ends where the source begins takes nothing of it -/
theorem cuts_sink_passed (h : b + d.amount ≤ a) : cuts o a x b (d :: ds) = cuts o a x (b + d.amount) ds := by
  have hnone : ¬ 0 < overlap a x b d.amount := by
    unfold overlap
    omega
  rw [cuts, if_neg hnone]

/-- the part of a sink before the source does not matter -/
theorem cuts_sink_shift (hpq : p ≤ q) (hqa : q ≤ a) (hd : d.amount = y) :
    cuts o a x p (d :: ds) = cuts o a x q (⟨d.owner, y - (q - p)⟩ :: ds) := by
  have hsame : overlap a x p d.amount = overlap a x q (y - (q - p)) := by
    unfold overlap
    omega
  have hend : q + (y - (q - p)) = p + d.amount := by omega
  rw [cuts, cuts, hsame, hend]

/-- what a source gives to sinks laid from `b` on lies beyond `b` -/
theorem sum_cuts_le (hds : AllPositive ds) :
    ((cuts o a x b ds).map Leg.amount).sum ≤ max 0 (a + x - max a b) := by
  induction ds generalizing b with
  | nil => exact le_max_left 0 _
  | cons d ds ih =>
    have hd := hds.head
    have hrest := ih hds.tail (b := b + d.amount)
    rw [cuts]
    split
    · rename_i hpos
      simp only [List.map_cons, List.sum_cons]
      unfold overlap at hpos ⊢
      omega
    · omega

/-- legs are not empty, and come from the source -/
theorem of_mem_cuts {l : Leg α β} (hl : l ∈ cuts o a x b ds) : l.source = o ∧ 0 < l.amount := by
  induction ds generalizing b with
  | nil => cases hl
  | cons d ds ih =>
    rw [cuts] at hl
    split at hl
    · rename_i hpos
      rcases List.mem_cons.1 hl with rfl | hl
      · exact ⟨rfl, hpos⟩
      · exact ih hl
    · exact ih hl

/-! ## All sources -/

theorem pos_of_mem_layout {l : Leg α β} (hl : l ∈ layout a ss b ds) : 0 < l.amount := by
  induction ss generalizing a with
  | nil => cases hl
  | cons s ss ih =>
    rcases List.mem_append.1 hl with hl | hl
    · exact (of_mem_cuts hl).2
    · exact ih hl

theorem layout_sink_passed (hss : AllPositive ss) (h : b + d.amount ≤ a) :
    layout a ss b (d :: ds) = layout a ss (b + d.amount) ds := by
  induction ss generalizing a with
  | nil => rfl
  | cons s ss ih =>
    have hs := hss.head
    rw [layout, layout, cuts_sink_passed h, ih hss.tail (by omega)]

theorem layout_sink_shift (hss : AllPositive ss) (hpq : p ≤ q) (hqa : q ≤ a) (hd : d.amount = y) :
    layout a ss p (d :: ds) = layout a ss q (⟨d.owner, y - (q - p)⟩ :: ds) := by
  induction ss generalizing a with
  | nil => rfl
  | cons s ss ih =>
    have hs := hss.head
    rw [layout, layout, cuts_sink_shift hpq hqa hd, ih hss.tail (by omega)]

@[simp]
theorem layout_no_sinks : layout a ss b ([] : List (Share β)) = [] := by
  induction ss generalizing a with
  | nil => rfl
  | cons s ss ih => rw [layout, ih, cuts, List.nil_append]

/-- the front sink is served whole, and the front source keeps the rest -/
theorem layout_sink_first (hss : AllPositive ss) (hds : AllPositive (d :: ds)) (h : d.amount < s.amount) :
    layout p (s :: ss) p (d :: ds) = ⟨s.owner, d.owner, d.amount⟩ ::
      layout (p + d.amount) (⟨s.owner, s.amount - d.amount⟩ :: ss) (p + d.amount) ds := by
  have hd := hds.head
  have hover : overlap p s.amount p d.amount = d.amount := by
    unfold overlap
    omega
  have hcuts : cuts s.owner p s.amount p (d :: ds) = ⟨s.owner, d.owner, d.amount⟩ ::
      cuts s.owner (p + d.amount) (s.amount - d.amount) (p + d.amount) ds := by
    rw [cuts, hover, if_pos hd, cuts_shift hds.tail (by omega : p ≤ p + d.amount) le_rfl]
    congr 2
    omega
  have hend : p + d.amount + (s.amount - d.amount) = p + s.amount := by omega
  rw [layout, layout, hcuts, layout_sink_passed hss (by omega), hend, List.cons_append]

/-- the front source is used up, and the front sink wants the rest -/
theorem layout_source_first (hss : AllPositive ss) (hds : AllPositive (d :: ds)) (hs : 0 < s.amount)
    (h : s.amount ≤ d.amount) :
    layout p (s :: ss) p (d :: ds) = ⟨s.owner, d.owner, s.amount⟩ ::
      layout (p + s.amount) ss (p + s.amount) (⟨d.owner, d.amount - s.amount⟩ :: ds) := by
  have hover : overlap p s.amount p d.amount = s.amount := by
    unfold overlap
    omega
  have hcuts : cuts s.owner p s.amount p (d :: ds) = [⟨s.owner, d.owner, s.amount⟩] := by
    rw [cuts, hover, if_pos hs, cuts_beyond hds.tail (by omega)]
  have hshift : d.amount - (p + s.amount - p) = d.amount - s.amount := by omega
  rw [layout, hcuts, layout_sink_shift hss (by omega : p ≤ p + s.amount) le_rfl rfl, hshift]
  rfl

/-- an empty front sink takes nothing -/
theorem layout_sink_empty (hss : AllPositive ss) (h : d.amount = 0) :
    layout p ss p (d :: ds) = layout p ss p ds := by
  rw [layout_sink_passed hss (by omega), h, add_zero]

/-- the legs of an owner add up to at most what its shares hold -/
theorem sum_layout_le [DecidableEq α] (hds : AllPositive ds) (hss : AllPositive ss) :
    (((layout a ss b ds).filter fun l => l.source = o).map Leg.amount).sum ≤
      ((ss.filter fun s => s.owner = o).map Share.amount).sum := by
  induction ss generalizing a with
  | nil => exact le_rfl
  | cons s ss ih =>
    have hs := hss.head
    have hrest := ih hss.tail (a := a + s.amount)
    rw [layout, List.filter_append, List.map_append, List.sum_append]
    by_cases ho : s.owner = o
    · have hall : (cuts s.owner a s.amount b ds).filter (fun l => l.source = o) = cuts s.owner a s.amount b ds :=
        List.filter_eq_self.2 fun l hl => by simp [(of_mem_cuts hl).1, ho]
      have hcut := sum_cuts_le (o := s.owner) (a := a) (x := s.amount) (b := b) hds
      rw [hall, List.filter_cons_of_pos (by simpa using ho), List.map_cons, List.sum_cons]
      omega
    · have hnone : (cuts s.owner a s.amount b ds).filter (fun l => l.source = o) = [] :=
        List.filter_eq_nil_iff.2 fun l hl => by simp [(of_mem_cuts hl).1, ho]
      rw [hnone, List.filter_cons_of_neg (by simpa using ho)]
      simpa using hrest

end Share

end Hyperlane
