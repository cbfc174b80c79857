/-
Token buckets: what can be spent in a window of time.

A bucket is touched at certain times. Between two touches it refills, up to its capacity; a touch spends from the level
or adds to it. `Metered` is that a list of touches obeys this, for any refill that gains nothing from being cut into
pieces. The level is the potential: what is spent after a touch was in the bucket, or was refilled or gained since.

- `spentIn_le_level`: from a touch on.
- `spentIn_le`: in any window.
-/
import Mathlib.Tactic

namespace Hyperlane.TokenBucket

structure Touch where
  time : ℕ
  spent : ℕ
  gained : ℕ
deriving DecidableEq

/-- the touches that follow a level at a time; each leaves at most what was there -/
inductive Metered (cap : ℕ) (refill : ℕ → ℕ) : ℕ → ℕ → List Touch → Prop where
  | nil (level since : ℕ) : Metered cap refill level since []
  | cons {level since level' : ℕ} {t : Touch} {ts : List Touch} (htime : since ≤ t.time)
      (hlevel : level' + t.spent ≤ min cap (level + refill (t.time - since)) + t.gained)
      (hrest : Metered cap refill level' t.time ts) : Metered cap refill level since (t :: ts)

/-- the touches from `s` to `e` -/
def window (s e : ℕ) (ts : List Touch) : List Touch := ts.filter fun t => s ≤ t.time ∧ t.time ≤ e

def spentIn (s e : ℕ) (ts : List Touch) : ℕ := ((window s e ts).map Touch.spent).sum

def gainedIn (s e : ℕ) (ts : List Touch) : ℕ := ((window s e ts).map Touch.gained).sum

theorem window_cons_in {s e : ℕ} {t : Touch} (ts : List Touch) (hs : s ≤ t.time) (he : t.time ≤ e) :
    window s e (t :: ts) = t :: window s e ts := by
  simp [window, hs, he]

theorem window_cons_out {s e : ℕ} {t : Touch} (ts : List Touch) (h : t.time < s ∨ e < t.time) :
    window s e (t :: ts) = window s e ts := by
  unfold window
  rw [List.filter_cons_of_neg]
  simp only [decide_eq_true_eq]
  omega

section Bound

variable {cap : ℕ} {refill : ℕ → ℕ}

/-- a window that ends before the next touch is empty -/
theorem Metered.window_eq_nil {level since s e : ℕ} {ts : List Touch} (h : Metered cap refill level since ts)
    (he : e < since) : window s e ts = [] := by
  induction h with
  | nil => rfl
  | cons htime hlevel hrest ih =>
    rw [window_cons_out _ (.inr (by omega))]
    exact ih (by omega)

variable (hadd : ∀ a b, refill a + refill b ≤ refill (a + b))
include hadd

theorem refill_mono {a b : ℕ} (h : a ≤ b) : refill a ≤ refill b :=
  calc refill a ≤ refill a + refill (b - a) := Nat.le_add_right _ _
    _ ≤ refill (a + (b - a)) := hadd a (b - a)
    _ = refill b := by rw [Nat.add_sub_cancel' h]

/-- what is spent after a touch was in the bucket, or was refilled or gained since -/
theorem Metered.spentIn_le_level {level since s e : ℕ} {ts : List Touch} (h : Metered cap refill level since ts)
    (hs : s ≤ since) (he : since ≤ e) : spentIn s e ts ≤ level + refill (e - since) + gainedIn s e ts := by
  induction h with
  | nil => simp [spentIn, window]
  | @cons level since level' t ts htime hlevel hrest ih =>
    rcases Nat.lt_or_ge e t.time with hlate | hin
    · have hempty : window s e (t :: ts) = [] := by
        rw [window_cons_out ts (.inr hlate)]
        exact hrest.window_eq_nil hlate
      simp [spentIn, hempty]
    · have hrest := ih (hs.trans htime) hin
      have hsplit : refill (t.time - since) + refill (e - t.time) ≤ refill (e - since) := by
        have := hadd (t.time - since) (e - t.time)
        rwa [show t.time - since + (e - t.time) = e - since by omega] at this
      have hmin := min_le_right cap (level + refill (t.time - since))
      unfold spentIn gainedIn at hrest ⊢
      rw [window_cons_in ts (hs.trans htime) hin, List.map_cons, List.map_cons, List.sum_cons, List.sum_cons]
      omega

/-- **The window bound**: at most the capacity, what is refilled in the window, and what is gained in it. -/
theorem Metered.spentIn_le {level since : ℕ} {ts : List Touch} (h : Metered cap refill level since ts) (s e : ℕ) :
    spentIn s e ts ≤ cap + refill (e - s) + gainedIn s e ts := by
  induction h with
  | nil => simp [spentIn, window]
  | @cons level since level' t ts htime hlevel hrest ih =>
    by_cases hin : s ≤ t.time ∧ t.time ≤ e
    · have hlater := hrest.spentIn_le_level hadd hin.1 hin.2
      have hmono : refill (e - t.time) ≤ refill (e - s) := refill_mono hadd (by omega)
      have hmin := min_le_left cap (level + refill (t.time - since))
      unfold spentIn gainedIn at hlater ⊢
      rw [window_cons_in ts hin.1 hin.2, List.map_cons, List.map_cons, List.sum_cons, List.sum_cons]
      omega
    · have hout : window s e (t :: ts) = window s e ts := window_cons_out ts (by omega)
      unfold spentIn gainedIn at ih ⊢
      rw [hout]
      exact ih

end Bound

end Hyperlane.TokenBucket
