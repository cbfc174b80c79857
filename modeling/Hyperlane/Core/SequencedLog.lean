/-
A log of batches whose updates are numbered consecutively, and the batches that a reader finds when it follows the
numbers.

- `first_lt`: batches are numbered in the order they are appended.
- `Follows.covers`: a reader that finds every batch where the one before it ends has seen all batches it went over.
-/
import Mathlib.Tactic

namespace Hyperlane.SequencedLog

variable {α : Type}

/-- `base` is the number of the last update before the log -/
structure Log (α : Type) where
  base : ℕ
  batches : List (List α)

namespace Log

def append (l : Log α) (b : List α) : Log α := { l with batches := l.batches ++ [b] }

/-- the number of the last update of the first `n` batches -/
def latestAt (l : Log α) (n : ℕ) : ℕ := l.base + ((l.batches.take n).map List.length).sum

def latest (l : Log α) : ℕ := l.latestAt l.batches.length

/-- the number of the first update of a batch -/
def first (l : Log α) (i : ℕ) : ℕ := l.latestAt i + 1

/-- the batch that is numbered from `q` -/
def Numbered (l : Log α) (q : ℕ) (b : List α) : Prop := ∃ i : ℕ, l.batches[i]? = some b ∧ l.first i = q

variable {l : Log α} {b : List α} {i j : ℕ}

theorem latestAt_mono (l : Log α) (h : i ≤ j) : l.latestAt i ≤ l.latestAt j := by
  have htake : (l.batches.take i).Sublist (l.batches.take j) := (List.take_prefix_take_left h).sublist
  exact Nat.add_le_add_left ((htake.map List.length).sum_le_sum fun _ _ => Nat.zero_le _) _

theorem latestAt_succ (h : l.batches[i]? = some b) : l.latestAt (i + 1) = l.latestAt i + b.length := by
  rw [latestAt, latestAt, List.take_add_one, h, Option.toList_some, List.map_append, List.sum_append]
  simp [Nat.add_assoc]

theorem latestAt_le (l : Log α) (i : ℕ) : l.latestAt i ≤ l.latest := by
  rcases le_total i l.batches.length with h | h
  · exact l.latestAt_mono h
  · rw [latest, latestAt, latestAt, List.take_of_length_le h, List.take_length]

/-- a batch that is not empty ends before the next one starts -/
theorem first_lt (h : l.batches[i]? = some b) (hij : i < j) : l.first i + b.length ≤ l.first j := by
  have hnext := l.latestAt_mono (show i + 1 ≤ j from hij)
  rw [latestAt_succ h] at hnext
  rw [first, first]
  omega

theorem first_inj {c : List α} (hb : l.batches[i]? = some b) (hc : l.batches[j]? = some c) (hb0 : b ≠ []) (hc0 : c ≠ [])
    (h : l.first i = l.first j) : i = j := by
  have hblen := List.length_pos_of_ne_nil hb0
  have hclen := List.length_pos_of_ne_nil hc0
  rcases lt_trichotomy i j with hlt | heq | hlt
  · have := first_lt hb hlt
    omega
  · exact heq
  · have := first_lt hc hlt
    omega

theorem first_le_latest (h : l.batches[i]? = some b) (hb : b ≠ []) : l.first i ≤ l.latest := by
  have hlen := List.length_pos_of_ne_nil hb
  calc l.first i ≤ l.latestAt i + b.length := Nat.add_le_add_left hlen _
    _ = l.latestAt (i + 1) := (latestAt_succ h).symm
    _ ≤ l.latest := l.latestAt_le _

theorem latestAt_append (l : Log α) (b : List α) (h : i ≤ l.batches.length) :
    (l.append b).latestAt i = l.latestAt i := by
  rw [latestAt, latestAt, append, List.take_append_of_le_length h]

theorem latest_append (l : Log α) (b : List α) : (l.append b).latest = l.latest + b.length := by
  have hget : (l.append b).batches[l.batches.length]? = some b := List.getElem?_concat_length
  calc (l.append b).latest = (l.append b).latestAt (l.batches.length + 1) := by
        rw [latest, append, List.length_append, List.length_singleton]
    _ = (l.append b).latestAt l.batches.length + b.length := latestAt_succ hget
    _ = l.latest + b.length := by rw [latestAt_append l b le_rfl, latest]

/-- the batches of a log keep their place and their number -/
theorem getElem?_append (h : l.batches[i]? = some b) (c : List α) : (l.append c).batches[i]? = some b := by
  have hlt := (List.getElem?_eq_some_iff.1 h).1
  rw [append, List.getElem?_append_left hlt, h]

theorem first_append (h : l.batches[i]? = some b) (c : List α) : (l.append c).first i = l.first i := by
  rw [first, first, latestAt_append l c (List.getElem?_eq_some_iff.1 h).1.le]

end Log

/-- the items start at `e`, each where the one before it ends, and the last one ends before `e'` -/
def Follows : ℕ → List (ℕ × List α) → ℕ → Prop
  | e, [], e' => e = e'
  | e, (q, b) :: items, e' => q = e ∧ Follows (e + b.length) items e'

/-- a batch that starts in the range that was gone over is one of the items -/
theorem Follows.covers {l : Log α} {items : List (ℕ × List α)} {e e' i : ℕ} {b : List α} (h : Follows e items e')
    (hnumbered : ∀ item ∈ items, l.Numbered item.1 item.2) (hb : l.batches[i]? = some b) (hb0 : b ≠ [])
    (hlow : e ≤ l.first i) (hhigh : l.first i < e') : (l.first i, b) ∈ items := by
  induction items generalizing e with
  | nil =>
    have heq : e = e' := h
    omega
  | cons item items ih =>
    obtain ⟨q, c⟩ := item
    obtain ⟨rfl, hrest⟩ := h
    obtain ⟨j, hc, hj⟩ := hnumbered _ List.mem_cons_self
    have hitems : ∀ item ∈ items, l.Numbered item.1 item.2 :=
      fun item hitem => hnumbered item (List.mem_cons_of_mem _ hitem)
    have hj : l.first j = q := hj
    have hc : l.batches[j]? = some c := hc
    rcases hlow.eq_or_lt with heq | hlt
    · by_cases hc0 : c = []
      · subst hc0
        exact List.mem_cons_of_mem _ (ih hrest hitems hlow)
      · have hij : i = j := Log.first_inj hb hc hb0 hc0 (heq.symm.trans hj.symm)
        subst hij
        rw [Option.some.inj (hb.symm.trans hc), ← heq]
        exact List.mem_cons_self
    · have hji : j < i := by
        by_contra hij
        have hmono := l.latestAt_mono (not_lt.1 hij)
        rw [Log.first] at hlt hj
        omega
      exact List.mem_cons_of_mem _ (ih hrest hitems (hj ▸ Log.first_lt hc hji))

end Hyperlane.SequencedLog
