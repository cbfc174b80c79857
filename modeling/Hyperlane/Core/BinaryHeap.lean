/-
The binary heap of Rust's standard library (`std::collections::BinaryHeap`): a max-heap in an array, where `pop` moves the
hole to the bottom and sifts up from there, and building from a vector sifts down from the middle.

The order is any comparison; it is a total preorder on the entries (`PreorderOn`) wherever something is claimed.

- `siftUp_heap`, `siftDown_heap`, `moveDown_up`: what each loop does to the heap order.
- `push_heap`, `rebuild_heap`, `pop_heap`: the operations keep it.
- `pop_greatest`: what is popped is at least everything that stays. `popMany_sorted`: so a run of pops is sorted.
- `push_perm`, `rebuild_perm`, `pop_perm`: no entry is lost or made, whatever the comparison does.
-/
import Mathlib.Tactic
import Mathlib.Logic.Equiv.Basic

namespace Hyperlane.BinaryHeap

variable {α : Type}

/-! ## The operations -/

section Operations

variable (cmp : α → α → Ordering)

/-- `sift_up`: at most `pos` turns -/
def siftUpLoop : ℕ → Array α → ℕ → Array α
  | 0, xs, _ => xs
  | n + 1, xs, pos =>
    match xs[pos]?, xs[(pos - 1) / 2]? with
    | some x, some parent =>
      if 0 < pos ∧ ¬ (cmp x parent).isLE then siftUpLoop n (xs.swapIfInBounds pos ((pos - 1) / 2)) ((pos - 1) / 2) else xs
    | _, _ => xs

def siftUp (xs : Array α) (pos : ℕ) : Array α := siftUpLoop cmp pos xs pos

/-- the greater of two children, the second one where they are equal -/
def greaterChild (xs : Array α) (pos : ℕ) : Option ℕ :=
  match xs[2 * pos + 1]?, xs[2 * pos + 2]? with
  | some left, some right => some (if (cmp left right).isLE then 2 * pos + 2 else 2 * pos + 1)
  | some _, none => some (2 * pos + 1)
  | none, _ => none

/-- the loop of `sift_down_to_bottom`: the entry at `pos` goes to the bottom, always to the greater child -/
def moveDown : ℕ → Array α → ℕ → Array α × ℕ
  | 0, xs, pos => (xs, pos)
  | n + 1, xs, pos =>
    match greaterChild cmp xs pos with
    | none => (xs, pos)
    | some child => moveDown n (xs.swapIfInBounds pos child) child

/-- `sift_down_to_bottom` -/
def siftDownToBottom (xs : Array α) : Array α :=
  siftUp cmp (moveDown cmp xs.size xs 0).1 (moveDown cmp xs.size xs 0).2

/-- `sift_down` -/
def siftDown : ℕ → Array α → ℕ → Array α
  | 0, xs, _ => xs
  | n + 1, xs, pos =>
    match greaterChild cmp xs pos with
    | none => xs
    | some child =>
      match xs[pos]?, xs[child]? with
      | some x, some y => if (cmp x y).isGE then xs else siftDown n (xs.swapIfInBounds pos child) child
      | _, _ => xs

/-- the loop of `rebuild`: sift down from `n - 1` to `0` -/
def rebuildLoop : ℕ → Array α → Array α
  | 0, xs => xs
  | n + 1, xs => rebuildLoop n (siftDown cmp xs.size xs n)

/-- `BinaryHeap::from` -/
def rebuild (xs : Array α) : Array α := rebuildLoop cmp (xs.size / 2) xs

def push (xs : Array α) (x : α) : Array α := siftUp cmp (xs.push x) xs.size

/-- the last entry is taken off; it takes the place of the root, which is returned -/
def pop (xs : Array α) : Option (α × Array α) :=
  match xs.back?, xs.pop[0]? with
  | none, _ => none
  | some last, none => some (last, xs.pop)
  | some last, some root => some (root, siftDownToBottom cmp (xs.pop.setIfInBounds 0 last))

/-- at most `n` pops -/
def popMany : ℕ → Array α → List α × Array α
  | 0, xs => ([], xs)
  | n + 1, xs =>
    match pop cmp xs with
    | none => ([], xs)
    | some (x, rest) => (x :: (popMany n rest).1, (popMany n rest).2)

end Operations

/-! ## Entries of a swapped array -/

theorem getElem?_swap {xs : Array α} {i j : ℕ} (hi : i < xs.size) (hj : j < xs.size) (k : ℕ) :
    (xs.swapIfInBounds i j)[k]? = xs[Equiv.swap i j k]? := by
  rw [Array.swapIfInBounds_def, dif_pos hi, dif_pos hj, Array.getElem?_swap, Equiv.swap_apply_def]
  rcases eq_or_ne k i with rfl | hki
  · rw [if_pos rfl, if_pos rfl, Array.getElem?_eq_getElem hj]
    rcases eq_or_ne j k with rfl | hjk
    · rw [if_pos rfl]
    · rw [if_neg hjk]
  · rcases eq_or_ne k j with rfl | hkj
    · rw [if_pos rfl, if_neg hki, if_pos rfl, Array.getElem?_eq_getElem hi]
    · rw [if_neg hkj.symm, if_neg hki.symm, if_neg hki, if_neg hkj]

theorem swap_perm {xs : Array α} {i j : ℕ} : (xs.swapIfInBounds i j).toList.Perm xs.toList := by
  rw [← Array.perm_iff_toList_perm, Array.swapIfInBounds_def]
  split
  · split
    · exact Array.swap_perm _ _
    · exact .refl _
  · exact .refl _

variable {cmp : α → α → Ordering}

/-! ## Nothing is lost -/

theorem siftUpLoop_perm (n : ℕ) (xs : Array α) (pos : ℕ) : (siftUpLoop cmp n xs pos).toList.Perm xs.toList := by
  induction n generalizing xs pos with
  | zero => exact .refl _
  | succ n ih =>
    unfold siftUpLoop
    split
    · split
      · exact (ih _ _).trans swap_perm
      · exact .refl _
    · exact .refl _

theorem moveDown_perm (n : ℕ) (xs : Array α) (pos : ℕ) : (moveDown cmp n xs pos).1.toList.Perm xs.toList := by
  induction n generalizing xs pos with
  | zero => exact .refl _
  | succ n ih =>
    unfold moveDown
    split
    · exact .refl _
    · exact (ih _ _).trans swap_perm

theorem siftDown_perm (n : ℕ) (xs : Array α) (pos : ℕ) : (siftDown cmp n xs pos).toList.Perm xs.toList := by
  induction n generalizing xs pos with
  | zero => exact .refl _
  | succ n ih =>
    unfold siftDown
    split
    · exact .refl _
    · split
      · split
        · exact .refl _
        · exact (ih _ _).trans swap_perm
      · exact .refl _

theorem rebuildLoop_perm (n : ℕ) (xs : Array α) : (rebuildLoop cmp n xs).toList.Perm xs.toList := by
  induction n generalizing xs with
  | zero => exact .refl _
  | succ n ih => exact (ih _).trans (siftDown_perm _ _ _)

theorem rebuild_perm (xs : Array α) : (rebuild cmp xs).toList.Perm xs.toList := rebuildLoop_perm _ _

theorem push_perm (xs : Array α) (x : α) : (push cmp xs x).toList.Perm (x :: xs.toList) := by
  refine (siftUpLoop_perm _ _ _).trans ?_
  rw [Array.toList_push]
  exact List.perm_append_singleton x xs.toList

theorem siftDownToBottom_perm (xs : Array α) : (siftDownToBottom cmp xs).toList.Perm xs.toList :=
  (siftUpLoop_perm _ _ _).trans (moveDown_perm _ _ _)

/-- the array before a pop, with the last entry apart -/
theorem eq_push_of_back? {xs : Array α} {last : α} (h : xs.back? = some last) : xs = xs.pop.push last := by
  obtain ⟨ys, hys⟩ := Array.back?_eq_some_iff.1 h
  rw [hys, Array.pop_push]

theorem pop_perm {xs rest : Array α} {x : α} (h : pop cmp xs = some (x, rest)) :
    (x :: rest.toList).Perm xs.toList := by
  unfold pop at h
  cases hlast : xs.back? with
  | none => simp [hlast] at h
  | some last =>
    have hxs := eq_push_of_back? hlast
    generalize xs.pop = ys at h hxs
    subst hxs
    rw [Array.toList_push]
    refine List.Perm.trans ?_ (List.perm_append_singleton last ys.toList).symm
    cases hroot : ys[0]? with
    | none =>
      simp only [hlast, hroot, Option.some.injEq, Prod.mk.injEq] at h
      obtain ⟨rfl, rfl⟩ := h
      exact .refl _
    | some root =>
      simp only [hlast, hroot, Option.some.injEq, Prod.mk.injEq] at h
      obtain ⟨rfl, rfl⟩ := h
      refine ((siftDownToBottom_perm _).cons _).trans ?_
      obtain ⟨ys⟩ := ys
      cases ys with
      | nil => simp at hroot
      | cons y ys =>
        obtain rfl : y = root := by simpa using hroot
        simpa using List.Perm.swap last y ys

/-! ## The order -/

/-- a total preorder on the entries with a property -/
structure PreorderOn (cmp : α → α → Ordering) (S : α → Prop) : Prop where
  swap : ∀ {a b}, S a → S b → cmp a b = (cmp b a).swap
  trans : ∀ {a b c}, S a → S b → S c → (cmp a b).isLE → (cmp b c).isLE → (cmp a c).isLE

theorem PreorderOn.le_of_not_le {S : α → Prop} (h : PreorderOn cmp S) {a b : α} (ha : S a) (hb : S b)
    (hab : ¬ (cmp a b).isLE) : (cmp b a).isLE := by
  rw [h.swap ha hb] at hab
  cases hba : cmp b a <;> simp_all

theorem PreorderOn.isGE_iff {S : α → Prop} (h : PreorderOn cmp S) {a b : α} (ha : S a) (hb : S b) :
    (cmp a b).isGE ↔ (cmp b a).isLE := by
  rw [h.swap ha hb]
  cases cmp b a <;> simp

theorem PreorderOn.reverse {S : α → Prop} (h : PreorderOn cmp S) : PreorderOn (fun a b => cmp b a) S :=
  ⟨fun ha hb => h.swap hb ha, fun ha hb hc hab hbc => h.trans hc hb ha hbc hab⟩

theorem PreorderOn.mono {S T : α → Prop} (h : PreorderOn cmp S) (hT : ∀ a, T a → S a) : PreorderOn cmp T :=
  ⟨fun ha hb => h.swap (hT _ ha) (hT _ hb), fun ha hb hc => h.trans (hT _ ha) (hT _ hb) (hT _ hc)⟩

/-- the entry at `i` is at most the entry at `j` -/
def Under (cmp : α → α → Ordering) (xs : Array α) (i j : ℕ) : Prop :=
  ∀ x y, xs[i]? = some x → xs[j]? = some y → (cmp x y).isLE

/-- all entries have the property -/
def AllIn (S : α → Prop) (xs : Array α) : Prop := ∀ x ∈ xs, S x

section Order

variable {S : α → Prop} {xs : Array α} {i j k : ℕ}

theorem AllIn.entry (h : AllIn S xs) {x : α} (hx : xs[i]? = some x) : S x := h x (Array.mem_of_getElem? hx)

theorem AllIn.of_perm {ys : Array α} (h : AllIn S xs) (hp : ys.toList.Perm xs.toList) : AllIn S ys := by
  intro x hx
  exact h x (Array.mem_toList_iff.1 (hp.mem_iff.1 (Array.mem_toList_iff.2 hx)))

theorem AllIn.swap (h : AllIn S xs) : AllIn S (xs.swapIfInBounds i j) := h.of_perm swap_perm

theorem Under.trans (ho : PreorderOn cmp S) (hS : AllIn S xs) (hj : j < xs.size) (hij : Under cmp xs i j)
    (hjk : Under cmp xs j k) : Under cmp xs i k := by
  intro x z hx hz
  have hy := Array.getElem?_eq_getElem hj
  exact ho.trans (hS.entry hx) (hS.entry hy) (hS.entry hz) (hij x _ hx hy) (hjk _ z hy hz)

/-- the order between two entries after a swap -/
theorem under_swap {a b : ℕ} (ha : a < xs.size) (hb : b < xs.size) :
    Under cmp (xs.swapIfInBounds a b) i j ↔ Under cmp xs (Equiv.swap a b i) (Equiv.swap a b j) := by
  unfold Under
  rw [getElem?_swap ha hb, getElem?_swap ha hb]

/-- every entry is at most its parent -/
def IsHeap (cmp : α → α → Ordering) (xs : Array α) : Prop := ∀ i, 0 < i → Under cmp xs i ((i - 1) / 2)

/-- a heap, but the entry at `pos` may be too great -/
structure UpHeap (cmp : α → α → Ordering) (xs : Array α) (pos : ℕ) : Prop where
  except : ∀ i, 0 < i → i ≠ pos → Under cmp xs i ((i - 1) / 2)
  grand : 0 < pos → ∀ c, 0 < c → (c - 1) / 2 = pos → Under cmp xs c ((pos - 1) / 2)

/-- the part from `start` on is a heap, but the entry at `pos` may be too small -/
structure DownHeap (cmp : α → α → Ordering) (xs : Array α) (start pos : ℕ) : Prop where
  except : ∀ i, 0 < i → start ≤ (i - 1) / 2 → (i - 1) / 2 ≠ pos → Under cmp xs i ((i - 1) / 2)
  grand : 0 < pos → start ≤ (pos - 1) / 2 → ∀ c, 0 < c → (c - 1) / 2 = pos → Under cmp xs c ((pos - 1) / 2)

/-- a heap, but the entry at `pos` may be anything -/
structure HoleHeap (cmp : α → α → Ordering) (xs : Array α) (pos : ℕ) : Prop where
  except : ∀ i, 0 < i → i ≠ pos → (i - 1) / 2 ≠ pos → Under cmp xs i ((i - 1) / 2)
  grand : 0 < pos → ∀ c, 0 < c → (c - 1) / 2 = pos → Under cmp xs c ((pos - 1) / 2)

/-! ## Sifting up -/

/-- one turn of `sift_up` -/
theorem UpHeap.move (ho : PreorderOn cmp S) (hS : AllIn S xs) {pos : ℕ} (h : UpHeap cmp xs pos) (hpos : 0 < pos)
    (hlt : pos < xs.size) (hup : Under cmp xs ((pos - 1) / 2) pos) :
    UpHeap cmp (xs.swapIfInBounds pos ((pos - 1) / 2)) ((pos - 1) / 2) := by
  have hparent : (pos - 1) / 2 < pos := by omega
  have hparentLt : (pos - 1) / 2 < xs.size := hparent.trans hlt
  constructor
  · intro i hi hne
    rw [under_swap hlt hparentLt]
    rcases eq_or_ne i pos with rfl | hipos
    · rwa [Equiv.swap_apply_left, Equiv.swap_apply_right]
    · rw [Equiv.swap_apply_of_ne_of_ne hipos hne]
      rcases eq_or_ne ((i - 1) / 2) pos with hchild | hchild
      · rw [hchild, Equiv.swap_apply_left]
        exact h.grand hpos i hi hchild
      · rcases eq_or_ne ((i - 1) / 2) ((pos - 1) / 2) with hsibling | hsibling
        · rw [hsibling, Equiv.swap_apply_right]
          have hold := h.except i hi hipos
          rw [hsibling] at hold
          exact hold.trans ho hS hparentLt hup
        · rw [Equiv.swap_apply_of_ne_of_ne hchild hsibling]
          exact h.except i hi hipos
  · intro hparentPos c hc hchild
    have hparentUnder := h.except ((pos - 1) / 2) hparentPos hparent.ne
    rw [under_swap hlt hparentLt, Equiv.swap_apply_of_ne_of_ne (x := ((pos - 1) / 2 - 1) / 2) (by omega) (by omega)]
    rcases eq_or_ne c pos with rfl | hcpos
    · rwa [Equiv.swap_apply_left]
    · rw [Equiv.swap_apply_of_ne_of_ne hcpos (by omega)]
      have hold := h.except c hc hcpos
      rw [hchild] at hold
      exact hold.trans ho hS hparentLt hparentUnder

theorem siftUpLoop_heap (ho : PreorderOn cmp S) (n : ℕ) {pos : ℕ} (hn : pos ≤ n) (hS : AllIn S xs)
    (hlt : pos < xs.size) (h : UpHeap cmp xs pos) : IsHeap cmp (siftUpLoop cmp n xs pos) := by
  induction n generalizing xs pos with
  | zero =>
    obtain rfl : pos = 0 := Nat.le_zero.1 hn
    intro i hi
    exact h.except i hi hi.ne'
  | succ n ih =>
    have hparentLt : (pos - 1) / 2 < xs.size := by omega
    simp only [siftUpLoop, Array.getElem?_eq_getElem hlt, Array.getElem?_eq_getElem hparentLt]
    split
    · rename_i hswap
      obtain ⟨hpos, hgreater⟩ := hswap
      have hup : Under cmp xs ((pos - 1) / 2) pos := by
        intro x y hx hy
        obtain rfl := Option.some.inj ((Array.getElem?_eq_getElem hparentLt).symm.trans hx)
        obtain rfl := Option.some.inj ((Array.getElem?_eq_getElem hlt).symm.trans hy)
        exact ho.le_of_not_le (hS _ (Array.getElem_mem hlt)) (hS _ (Array.getElem_mem hparentLt)) hgreater
      exact ih (by omega) hS.swap (by rwa [Array.size_swapIfInBounds]) (h.move ho hS hpos hlt hup)
    · rename_i hstop
      intro i hi
      rcases eq_or_ne i pos with rfl | hne
      · intro x y hx hy
        obtain rfl := Option.some.inj ((Array.getElem?_eq_getElem hlt).symm.trans hx)
        obtain rfl := Option.some.inj ((Array.getElem?_eq_getElem hparentLt).symm.trans hy)
        exact not_not.1 fun hgreater => hstop ⟨hi, hgreater⟩
      · exact h.except i hi hne

theorem siftUp_heap (ho : PreorderOn cmp S) {pos : ℕ} (hS : AllIn S xs) (hlt : pos < xs.size) (h : UpHeap cmp xs pos) :
    IsHeap cmp (siftUp cmp xs pos) := siftUpLoop_heap ho pos le_rfl hS hlt h

/-! ## Sifting down -/

/-- no child -/
theorem greaterChild_none {pos c : ℕ} (h : greaterChild cmp xs pos = none) (hc : 0 < c) (hchild : (c - 1) / 2 = pos) :
    xs.size ≤ c := by
  unfold greaterChild at h
  have hleft : xs.size ≤ 2 * pos + 1 := by
    by_contra hlt
    rw [Array.getElem?_eq_getElem (not_le.1 hlt)] at h
    cases hright : xs[2 * pos + 2]? <;> simp [hright] at h
  omega

/-- the child taken is one, in the array, and at least any other -/
theorem greaterChild_some (ho : PreorderOn cmp S) (hS : AllIn S xs) {pos child : ℕ}
    (h : greaterChild cmp xs pos = some child) :
    child < xs.size ∧ 0 < child ∧ (child - 1) / 2 = pos ∧
      ∀ c, 0 < c → (c - 1) / 2 = pos → c ≠ child → Under cmp xs c child := by
  unfold greaterChild at h
  cases hleft : xs[2 * pos + 1]? with
  | none => simp [hleft] at h
  | some left =>
    have hleftLt := (Array.getElem?_eq_some_iff.1 hleft).1
    cases hright : xs[2 * pos + 2]? with
    | none =>
      simp only [hleft, hright, Option.some.injEq] at h
      subst h
      refine ⟨hleftLt, by omega, by omega, fun c hc hchild hne x y hx _ => ?_⟩
      obtain rfl : c = 2 * pos + 2 := by omega
      rw [hright] at hx
      cases hx
    | some right =>
      have hrightLt := (Array.getElem?_eq_some_iff.1 hright).1
      simp only [hleft, hright, Option.some.injEq] at h
      split at h
      · rename_i hle
        subst h
        refine ⟨hrightLt, by omega, by omega, fun c hc hchild hne x y hx hy => ?_⟩
        obtain rfl : c = 2 * pos + 1 := by omega
        rw [hleft, Option.some.injEq] at hx
        rw [hright, Option.some.injEq] at hy
        rwa [← hx, ← hy]
      · rename_i hgreater
        subst h
        refine ⟨hleftLt, by omega, by omega, fun c hc hchild hne x y hx hy => ?_⟩
        obtain rfl : c = 2 * pos + 2 := by omega
        rw [hright, Option.some.injEq] at hx
        rw [hleft, Option.some.injEq] at hy
        rw [← hx, ← hy]
        exact ho.le_of_not_le (hS.entry hleft) (hS.entry hright) hgreater

/-- one turn towards the bottom: only the hole's new place is out of order -/
theorem HoleHeap.move {pos child : ℕ} (h : HoleHeap cmp xs pos) (hlt : child < xs.size) (hchild : 0 < child)
    (hparent : (child - 1) / 2 = pos)
    (hgreatest : ∀ c, 0 < c → (c - 1) / 2 = pos → c ≠ child → Under cmp xs c child) :
    HoleHeap cmp (xs.swapIfInBounds pos child) child := by
  have hpos : pos < xs.size := by omega
  constructor
  · intro i hi hne hup
    rw [under_swap hpos hlt]
    rcases eq_or_ne i pos with rfl | hipos
    · rw [Equiv.swap_apply_left, Equiv.swap_apply_of_ne_of_ne (x := (i - 1) / 2) (by omega) hup]
      exact h.grand hi child hchild hparent
    · rw [Equiv.swap_apply_of_ne_of_ne hipos hne]
      rcases eq_or_ne ((i - 1) / 2) pos with hsibling | hother
      · rw [hsibling, Equiv.swap_apply_left]
        exact hgreatest i hi hsibling hne
      · rw [Equiv.swap_apply_of_ne_of_ne hother hup]
        exact h.except i hi hipos hother
  · intro _ c hc hcchild
    rw [under_swap hpos hlt, hparent, Equiv.swap_apply_left, Equiv.swap_apply_of_ne_of_ne (x := c) (by omega) (by omega)]
    have hold := h.except c hc (by omega) (by omega)
    rwa [hcchild] at hold

/-- at the bottom, everything but the hole is a heap -/
theorem moveDown_up (ho : PreorderOn cmp S) (n : ℕ) {pos : ℕ} (hn : xs.size ≤ pos + n) (hS : AllIn S xs)
    (hlt : pos < xs.size) (h : HoleHeap cmp xs pos) :
    UpHeap cmp (moveDown cmp n xs pos).1 (moveDown cmp n xs pos).2 ∧
      (moveDown cmp n xs pos).2 < (moveDown cmp n xs pos).1.size := by
  induction n generalizing xs pos with
  | zero => omega
  | succ n ih =>
    unfold moveDown
    cases hchild : greaterChild cmp xs pos with
    | none =>
      refine ⟨⟨fun i hi hne => ?_, h.grand⟩, hlt⟩
      by_cases hup : (i - 1) / 2 = pos
      · intro x y hx _
        have hge := greaterChild_none hchild hi hup
        rw [Array.getElem?_eq_none hge] at hx
        cases hx
      · exact h.except i hi hne hup
    | some child =>
      obtain ⟨hin, hpos, hparent, hgreatest⟩ := greaterChild_some ho hS hchild
      refine ih ?_ hS.swap ?_ (h.move hin hpos hparent hgreatest)
      · rw [Array.size_swapIfInBounds]
        omega
      · rwa [Array.size_swapIfInBounds]

theorem siftDownToBottom_heap (ho : PreorderOn cmp S) (hS : AllIn S xs) (hlt : 0 < xs.size) (h : HoleHeap cmp xs 0) :
    IsHeap cmp (siftDownToBottom cmp xs) := by
  obtain ⟨hup, hin⟩ := moveDown_up ho xs.size (by omega) hS hlt h
  exact siftUp_heap ho (hS.of_perm (moveDown_perm _ _ _)) hin hup

/-- one turn of `sift_down` -/
theorem DownHeap.move {start pos child : ℕ} (h : DownHeap cmp xs start pos) (hstart : start ≤ pos)
    (hlt : child < xs.size) (hchild : 0 < child) (hparent : (child - 1) / 2 = pos)
    (hgreatest : ∀ c, 0 < c → (c - 1) / 2 = pos → c ≠ child → Under cmp xs c child) (hup : Under cmp xs pos child) :
    DownHeap cmp (xs.swapIfInBounds pos child) start child := by
  have hpos : pos < xs.size := by omega
  constructor
  · intro i hi hge hne
    rw [under_swap hpos hlt]
    rcases eq_or_ne i child with rfl | hichild
    · rwa [hparent, Equiv.swap_apply_right, Equiv.swap_apply_left]
    · rcases eq_or_ne i pos with rfl | hipos
      · rw [Equiv.swap_apply_left, Equiv.swap_apply_of_ne_of_ne (x := (i - 1) / 2) (by omega) hne]
        exact h.grand hi hge child hchild hparent
      · rw [Equiv.swap_apply_of_ne_of_ne hipos hichild]
        rcases eq_or_ne ((i - 1) / 2) pos with hsibling | hother
        · rw [hsibling, Equiv.swap_apply_left]
          exact hgreatest i hi hsibling hichild
        · rw [Equiv.swap_apply_of_ne_of_ne hother hne]
          exact h.except i hi hge hother
  · intro _ _ c hc hcchild
    rw [under_swap hpos hlt, hparent, Equiv.swap_apply_left, Equiv.swap_apply_of_ne_of_ne (x := c) (by omega) (by omega)]
    have hold := h.except c hc (by omega) (by omega)
    rwa [hcchild] at hold

theorem siftDown_heap (ho : PreorderOn cmp S) (n : ℕ) {start pos : ℕ} (hn : xs.size ≤ pos + n) (hS : AllIn S xs)
    (hlt : pos < xs.size) (hstart : start ≤ pos) (h : DownHeap cmp xs start pos) :
    ∀ i, 0 < i → start ≤ (i - 1) / 2 → Under cmp (siftDown cmp n xs pos) i ((i - 1) / 2) := by
  induction n generalizing xs pos with
  | zero => omega
  | succ n ih =>
    unfold siftDown
    cases hchild : greaterChild cmp xs pos with
    | none =>
      intro i hi hge
      by_cases hup : (i - 1) / 2 = pos
      · intro x y hx _
        rw [Array.getElem?_eq_none (greaterChild_none hchild hi hup)] at hx
        cases hx
      · exact h.except i hi hge hup
    | some child =>
      obtain ⟨hin, hpos, hparent, hgreatest⟩ := greaterChild_some ho hS hchild
      have hx := Array.getElem?_eq_getElem hlt
      have hy := Array.getElem?_eq_getElem hin
      simp only [hx, hy]
      split
      · rename_i hge
        have hunder : Under cmp xs child pos := by
          intro y x hy' hx'
          obtain rfl := Option.some.inj (hy.symm.trans hy')
          obtain rfl := Option.some.inj (hx.symm.trans hx')
          exact (ho.isGE_iff (hS.entry hx) (hS.entry hy)).1 hge
        intro i hi hge
        by_cases hup : (i - 1) / 2 = pos
        · rw [hup]
          rcases eq_or_ne i child with rfl | hne
          · exact hunder
          · exact (hgreatest i hi hup hne).trans ho hS hin hunder
        · exact h.except i hi hge hup
      · rename_i hlower
        have hup : Under cmp xs pos child := by
          intro x y hx' hy'
          obtain rfl := Option.some.inj (hx.symm.trans hx')
          obtain rfl := Option.some.inj (hy.symm.trans hy')
          rw [ho.isGE_iff (hS.entry hx) (hS.entry hy)] at hlower
          exact ho.le_of_not_le (hS.entry hy) (hS.entry hx) hlower
        refine ih ?_ hS.swap ?_ (by omega) (h.move hstart hin hpos hparent hgreatest hup)
        · rw [Array.size_swapIfInBounds]
          omega
        · rwa [Array.size_swapIfInBounds]

/-! ## The operations keep the order -/

theorem rebuildLoop_heap (ho : PreorderOn cmp S) (n : ℕ) (hn : n ≤ xs.size) (hS : AllIn S xs)
    (h : ∀ i, 0 < i → n ≤ (i - 1) / 2 → Under cmp xs i ((i - 1) / 2)) : IsHeap cmp (rebuildLoop cmp n xs) := by
  induction n generalizing xs with
  | zero => exact fun i hi => h i hi (Nat.zero_le _)
  | succ n ih =>
    have hperm : (siftDown cmp xs.size xs n).toList.Perm xs.toList := siftDown_perm xs.size xs n
    have hsize := hperm.length_eq
    simp only [Array.length_toList] at hsize
    refine ih (by omega) (hS.of_perm (siftDown_perm _ _ _)) ?_
    refine siftDown_heap ho xs.size (by omega) hS (by omega) le_rfl ⟨?_, ?_⟩
    · intro i hi hge hne
      exact h i hi (by omega)
    · intro hpos hge
      omega

/-- building from a vector gives a heap -/
theorem rebuild_heap (ho : PreorderOn cmp S) (hS : AllIn S xs) : IsHeap cmp (rebuild cmp xs) := by
  refine rebuildLoop_heap ho _ (Nat.div_le_self _ _) hS ?_
  intro i hi hge x y hx _
  rw [Array.getElem?_eq_none (by omega)] at hx
  cases hx

theorem push_heap (ho : PreorderOn cmp S) (hS : AllIn S xs) {x : α} (hx : S x) (h : IsHeap cmp xs) :
    IsHeap cmp (push cmp xs x) := by
  have hall : AllIn S (xs.push x) := by
    intro y hy
    rcases Array.mem_push.1 hy with hy | rfl
    · exact hS y hy
    · exact hx
  refine siftUp_heap ho hall (by simp) ⟨?_, ?_⟩
  · intro i hi hne a b ha hb
    rw [Array.getElem?_push, if_neg hne] at ha
    have hlt := (Array.getElem?_eq_some_iff.1 ha).1
    rw [Array.getElem?_push, if_neg (by omega)] at hb
    exact h i hi a b ha hb
  · intro _ c hc hchild a b ha _
    rw [Array.getElem?_eq_none (by rw [Array.size_push]; omega)] at ha
    cases ha

/-- the root is at least every entry -/
theorem root_greatest (ho : PreorderOn cmp S) (hS : AllIn S xs) (h : IsHeap cmp xs) (i : ℕ) : Under cmp xs i 0 := by
  induction i using Nat.strong_induction_on with
  | _ i ih =>
    rcases Nat.eq_zero_or_pos i with rfl | hi
    · intro x y hx hy
      obtain rfl := Option.some.inj (hx.symm.trans hy)
      by_contra hnot
      exact hnot (ho.le_of_not_le (hS.entry hx) (hS.entry hx) hnot)
    · intro x y hx hy
      have hlt := (Array.getElem?_eq_some_iff.1 hx).1
      exact (h i hi).trans ho hS (show (i - 1) / 2 < xs.size by omega) (ih ((i - 1) / 2) (by omega)) x y hx hy

theorem isHeap_pop (h : IsHeap cmp xs) : IsHeap cmp xs.pop := by
  intro i hi x y hx hy
  rw [Array.getElem?_pop] at hx hy
  split at hx
  · split at hy
    · exact h i hi x y hx hy
    · cases hy
  · cases hx

/-- a pop keeps the order and returns an entry that is at least all others -/
theorem pop_heap (ho : PreorderOn cmp S) (hS : AllIn S xs) (h : IsHeap cmp xs) {x : α} {rest : Array α}
    (hpop : pop cmp xs = some (x, rest)) : IsHeap cmp rest ∧ xs[0]? = some x := by
  unfold pop at hpop
  cases hlast : xs.back? with
  | none => simp [hlast] at hpop
  | some last =>
    have hxs := eq_push_of_back? hlast
    have hroots : ∀ root, xs.pop[0]? = some root → xs[0]? = some root := by
      intro root hroot
      rw [Array.getElem?_pop] at hroot
      split at hroot
      · exact hroot
      · cases hroot
    cases hroot : xs.pop[0]? with
    | none =>
      simp only [hlast, hroot, Option.some.injEq, Prod.mk.injEq] at hpop
      obtain ⟨rfl, rfl⟩ := hpop
      have hempty : xs.pop.size = 0 := by
        by_contra hne
        rw [Array.getElem?_eq_getElem (Nat.pos_of_ne_zero hne)] at hroot
        cases hroot
      refine ⟨isHeap_pop h, ?_⟩
      rw [hxs, Array.getElem?_push, if_pos hempty.symm]
    | some root =>
      simp only [hlast, hroot, Option.some.injEq, Prod.mk.injEq] at hpop
      obtain ⟨rfl, rfl⟩ := hpop
      have hlt := (Array.getElem?_eq_some_iff.1 hroot).1
      refine ⟨siftDownToBottom_heap ho ?_ (by rwa [Array.size_setIfInBounds]) ⟨?_, ?_⟩, hroots _ hroot⟩
      · intro y hy
        rcases Array.mem_or_eq_of_mem_setIfInBounds hy with hy | rfl
        · have hpush := Array.mem_push_of_mem last hy
          rw [← hxs] at hpush
          exact hS y hpush
        · exact hS y (Array.mem_of_back? hlast)
      · intro i hi hne hparent a b ha hb
        rw [Array.getElem?_setIfInBounds_ne (by omega)] at ha hb
        exact isHeap_pop h i hi a b ha hb
      · intro hpos
        omega

theorem pop_greatest (ho : PreorderOn cmp S) (hS : AllIn S xs) (h : IsHeap cmp xs) {x : α} {rest : Array α}
    (hpop : pop cmp xs = some (x, rest)) {y : α} (hy : y ∈ rest) : (cmp y x).isLE := by
  have hmem : y ∈ xs := by
    rw [← Array.mem_toList_iff, ← (pop_perm hpop).mem_iff]
    exact List.mem_cons_of_mem _ (Array.mem_toList_iff.2 hy)
  obtain ⟨i, hi⟩ := Array.mem_iff_getElem?.1 hmem
  exact root_greatest ho hS h i y x hi (pop_heap ho hS h hpop).2

theorem AllIn.of_pop (hS : AllIn S xs) {x : α} {rest : Array α} (hpop : pop cmp xs = some (x, rest)) :
    S x ∧ AllIn S rest := by
  have hmem : ∀ y ∈ x :: rest.toList, S y := by
    intro y hy
    exact hS y (Array.mem_toList_iff.1 ((pop_perm hpop).mem_iff.1 hy))
  exact ⟨hmem x List.mem_cons_self, fun y hy => hmem y (List.mem_cons_of_mem _ (Array.mem_toList_iff.2 hy))⟩

theorem AllIn.push (hS : AllIn S xs) {x : α} (hx : S x) : AllIn S (push cmp xs x) := by
  intro y hy
  rw [← Array.mem_toList_iff, (push_perm xs x).mem_iff] at hy
  rcases List.mem_cons.1 hy with rfl | hy
  · exact hx
  · exact hS y (Array.mem_toList_iff.1 hy)

/-- only the empty heap has nothing to pop -/
theorem pop_of_root_none (h : xs[0]? = none) : pop cmp xs = none := by
  have hempty : xs = #[] := Array.eq_empty_of_size_eq_zero (Nat.le_zero.1 (Array.getElem?_eq_none_iff.1 h))
  subst hempty
  rfl

/-! ## Runs of pops -/

theorem popMany_perm (n : ℕ) (xs : Array α) :
    ((popMany cmp n xs).1 ++ (popMany cmp n xs).2.toList).Perm xs.toList := by
  induction n generalizing xs with
  | zero => exact .refl _
  | succ n ih =>
    unfold popMany
    cases hpop : pop cmp xs with
    | none => exact .refl _
    | some p =>
      obtain ⟨x, rest⟩ := p
      exact ((ih rest).cons x).trans (pop_perm hpop)

theorem popMany_heap (ho : PreorderOn cmp S) (n : ℕ) (hS : AllIn S xs) (h : IsHeap cmp xs) :
    IsHeap cmp (popMany cmp n xs).2 := by
  induction n generalizing xs with
  | zero => exact h
  | succ n ih =>
    unfold popMany
    cases hpop : pop cmp xs with
    | none => exact h
    | some p => exact ih (hS.of_pop hpop).2 (pop_heap ho hS h hpop).1

/-- what is popped comes in descending order -/
theorem popMany_sorted (ho : PreorderOn cmp S) (n : ℕ) (hS : AllIn S xs) (h : IsHeap cmp xs) :
    (popMany cmp n xs).1.Pairwise fun a b => (cmp b a).isLE := by
  induction n generalizing xs with
  | zero => exact .nil
  | succ n ih =>
    unfold popMany
    cases hpop : pop cmp xs with
    | none => exact .nil
    | some p =>
      obtain ⟨x, rest⟩ := p
      refine List.pairwise_cons.2 ⟨fun y hy => ?_, ih (hS.of_pop hpop).2 (pop_heap ho hS h hpop).1⟩
      have hperm : ((popMany cmp n rest).1 ++ (popMany cmp n rest).2.toList).Perm rest.toList := popMany_perm n rest
      have hrest := hperm.mem_iff.1 (List.mem_append_left _ hy)
      exact pop_greatest ho hS h hpop (Array.mem_toList_iff.1 hrest)

end Order

end Hyperlane.BinaryHeap
