/-
Repeated passes: each pass is given what the one before it returned, until one returns what it was given. A pass may fail.

- `passes_map`, `passes_shift`: passes seen through an injection, and from a later pass on.
- `Reached.keeps`: an invariant of the passes holds of what is reached.
- `PassesEnd`: a fixpoint is reached, or a pass fails; carried through both.
-/
import Mathlib.Data.Nat.Notation
import Mathlib.Logic.Basic

namespace Hyperlane.Passes

variable {α β : Type}

/-- what the passes return, after a first one; `none` from a pass that fails on -/
def passes (first : Option α) (pass : α → Option α) : ℕ → Option α
  | 0 => first
  | n + 1 => (passes first pass n).bind pass

/-- a fixpoint is reached -/
def Settles (first : Option α) (pass : α → Option α) : Prop := ∃ n a, passes first pass n = some a ∧ pass a = some a

/-- a pass fails -/
def Stops (first : Option α) (pass : α → Option α) : Prop := ∃ n, passes first pass n = none

/-- what a pass is given -/
def Reached (first : Option α) (pass : α → Option α) (a : α) : Prop := ∃ n, passes first pass n = some a

variable {first : Option α} {pass : α → Option α} {pass' : β → Option β} {f : α → β}

theorem Reached.start {a : α} (h : first = some a) : Reached first pass a := ⟨0, h⟩

theorem Reached.next {a b : α} (ha : Reached first pass a) (h : pass a = some b) : Reached first pass b := by
  obtain ⟨n, hn⟩ := ha
  refine ⟨n + 1, ?_⟩
  rw [passes, hn, Option.bind_some, h]

/-- an invariant of the passes -/
theorem Reached.keeps {I : α → Prop} {a : α} (h : Reached first pass a) (hfirst : ∀ a, first = some a → I a)
    (hpass : ∀ a b, I a → pass a = some b → I b) : I a := by
  obtain ⟨n, hn⟩ := h
  induction n generalizing a with
  | zero => exact hfirst a hn
  | succ n ih =>
    rw [passes] at hn
    obtain ⟨b, hb, hn⟩ := Option.bind_eq_some_iff.1 hn
    exact hpass b a (ih hb) hn

/-- passes seen through `f`, on what has an invariant that they keep -/
theorem passes_map {I : α → Prop} (hfirst : ∀ a, first = some a → I a) (hpass : ∀ a b, pass a = some b → I b)
    (h : ∀ a, I a → pass' (f a) = (pass a).map f) (n : ℕ) :
    passes (first.map f) pass' n = (passes first pass n).map f ∧ ∀ a, passes first pass n = some a → I a := by
  induction n with
  | zero => exact ⟨rfl, hfirst⟩
  | succ n ih =>
    obtain ⟨hn, hI⟩ := ih
    rw [passes, passes, hn]
    cases ha : passes first pass n with
    | none => exact ⟨rfl, fun _ h => by cases h⟩
    | some a => exact ⟨h a (hI a ha), fun b => hpass a b⟩

theorem passes_shift (first : Option α) (pass : α → Option α) (k n : ℕ) :
    passes (passes first pass k) pass n = passes first pass (k + n) := by
  induction n with
  | zero => rfl
  | succ n ih => rw [passes, ih, Nat.add_succ, passes]

theorem Settles.map {I : α → Prop} (hs : Settles first pass) (hfirst : ∀ a, first = some a → I a)
    (hpass : ∀ a b, pass a = some b → I b) (h : ∀ a, I a → pass' (f a) = (pass a).map f) :
    Settles (first.map f) pass' := by
  obtain ⟨n, a, hn, ha⟩ := hs
  obtain ⟨hmap, hI⟩ := passes_map hfirst hpass h n
  refine ⟨n, f a, ?_, ?_⟩
  · rw [hmap, hn]
    rfl
  · rw [h a (hI a hn), ha]
    rfl

theorem Stops.map {I : α → Prop} (hs : Stops first pass) (hfirst : ∀ a, first = some a → I a)
    (hpass : ∀ a b, pass a = some b → I b) (h : ∀ a, I a → pass' (f a) = (pass a).map f) :
    Stops (first.map f) pass' := by
  obtain ⟨n, hn⟩ := hs
  exact ⟨n, by rw [(passes_map hfirst hpass h n).1, hn]; rfl⟩

theorem Settles.shift {k : ℕ} (hs : Settles (passes first pass k) pass) : Settles first pass := by
  obtain ⟨n, a, hn, ha⟩ := hs
  exact ⟨k + n, a, passes_shift first pass k n ▸ hn, ha⟩

theorem Stops.shift {k : ℕ} (hs : Stops (passes first pass k) pass) : Stops first pass := by
  obtain ⟨n, hn⟩ := hs
  exact ⟨k + n, passes_shift first pass k n ▸ hn⟩

theorem stops_none (pass : α → Option α) : Stops none pass := ⟨0, rfl⟩

theorem passes_none (pass : α → Option α) (n : ℕ) : passes none pass n = none := by
  induction n with
  | zero => rfl
  | succ n ih => rw [passes, ih, Option.bind_none]

theorem not_settles_none (pass : α → Option α) : ¬Settles none pass := by
  rintro ⟨n, a, hn, -⟩
  rw [passes_none] at hn
  cases hn

/-! ## How they end -/

/-- the passes reach a fixpoint, or one fails and then `p` -/
def PassesEnd (first : Option α) (pass : α → Option α) (p : Prop) : Prop := Settles first pass ∨ Stops first pass ∧ p

variable {p q : Prop}

theorem PassesEnd.of_none (h : PassesEnd none pass p) : p := (h.resolve_left (not_settles_none pass)).2

theorem PassesEnd.imp (h : PassesEnd first pass p) (hpq : p → q) : PassesEnd first pass q :=
  Or.imp_right (And.imp_right hpq) h

/-- seen through `f`, with an invariant that the passes keep -/
theorem PassesEnd.map_of {first' : Option β} {I : α → Prop} (h : PassesEnd first pass p) (hfirst : first' = first.map f)
    (hI : ∀ a, first = some a → I a) (hkeep : ∀ a b, pass a = some b → I b) (hpass : ∀ a, I a → pass' (f a) = (pass a).map f)
    (hpq : p → q) : PassesEnd first' pass' q := by
  subst hfirst
  rcases h with hs | ⟨hs, hp⟩
  · exact .inl (hs.map hI hkeep hpass)
  · exact .inr ⟨hs.map hI hkeep hpass, hpq hp⟩

theorem PassesEnd.map {first' : Option β} (h : PassesEnd first pass p) (hfirst : first' = first.map f)
    (hpass : ∀ a, pass' (f a) = (pass a).map f) (hpq : p → q) : PassesEnd first' pass' q :=
  h.map_of (I := fun _ => True) hfirst (fun _ _ => trivial) (fun _ _ _ => trivial) (fun a _ => hpass a) hpq

theorem PassesEnd.shift {k : ℕ} (h : PassesEnd (passes first pass k) pass p) : PassesEnd first pass p :=
  Or.imp Settles.shift (And.imp_left Stops.shift) h

end Hyperlane.Passes
