/-
Machines whose calls may be rejected, and gates that let a key through once.

A rejected call leaves the state as it was. `accepted` is the record of the calls that succeed in a run, each with the
state before and after it.

- `Gate.accepted_once`: if a call with a key needs the key to be unused and uses it up, then no key is accepted twice.
-/
import Mathlib.Tactic

namespace Hyperlane.OneShot

variable {S C K ε : Type}

/-- the calls of a run that succeed, with the states before and after -/
def accepted (step : S → C → Except ε S) : S → List C → List (C × S × S)
  | _, [] => []
  | s, c :: calls =>
    match step s c with
    | .ok s' => (c, s, s') :: accepted step s' calls
    | .error _ => accepted step s calls

/-- the keys of the calls that succeed -/
def acceptedKeys (step : S → C → Except ε S) (key : C → Option K) (s : S) (calls : List C) : List K :=
  (accepted step s calls).filterMap fun entry => key entry.1

theorem acceptedKeys_error {step : S → C → Except ε S} {key : C → Option K} {s : S} {c : C} {e : ε}
    (h : step s c = .error e) (calls : List C) :
    acceptedKeys step key s (c :: calls) = acceptedKeys step key s calls := by
  simp only [acceptedKeys, accepted, h]

theorem acceptedKeys_ok {step : S → C → Except ε S} {key : C → Option K} {s s' : S} {c : C}
    (h : step s c = .ok s') (calls : List C) :
    acceptedKeys step key s (c :: calls) = (key c).toList ++ acceptedKeys step key s' calls := by
  simp only [acceptedKeys, accepted, h]
  cases hkey : key c with
  | none => exact List.filterMap_cons_none hkey
  | some k => exact List.filterMap_cons_some hkey

/-- a property of every accepted call, by what one call does -/
theorem forall_accepted {step : S → C → Except ε S} {P : C → S → S → Prop}
    (hstep : ∀ s c s', step s c = .ok s' → P c s s') (s : S) (calls : List C) :
    ∀ entry ∈ accepted step s calls, P entry.1 entry.2.1 entry.2.2 := by
  induction calls generalizing s with
  | nil => simp [accepted]
  | cons c calls ih =>
    rw [accepted]
    cases h : step s c with
    | error e => exact ih s
    | ok s' =>
      intro entry hentry
      rcases List.mem_cons.1 hentry with rfl | hentry
      · exact hstep s c s' h
      · exact ih s' entry hentry

/-- a gate: a call with a key needs the key to be unused and uses it up, and used keys stay used -/
structure Gate (step : S → C → Except ε S) (key : C → Option K) (used : S → K → Prop) : Prop where
  unused : ∀ {s c s' k}, step s c = .ok s' → key c = some k → ¬ used s k
  uses : ∀ {s c s' k}, step s c = .ok s' → key c = some k → used s' k
  keeps : ∀ {s c s' k}, step s c = .ok s' → used s k → used s' k

/-- **A key passes a gate once**, and not at all if it was used before the run. -/
theorem Gate.accepted_once {step : S → C → Except ε S} {key : C → Option K} {used : S → K → Prop}
    (h : Gate step key used) (s : S) (calls : List C) :
    (acceptedKeys step key s calls).Nodup ∧ ∀ k ∈ acceptedKeys step key s calls, ¬ used s k := by
  induction calls generalizing s with
  | nil => simp [acceptedKeys, accepted]
  | cons c calls ih =>
    cases hstep : step s c with
    | error e =>
      rw [acceptedKeys_error hstep]
      exact ih s
    | ok s' =>
      obtain ⟨hnodup, hunused⟩ := ih s'
      have hlater : ∀ k ∈ acceptedKeys step key s' calls, ¬ used s k := fun k hk hused =>
        hunused k hk (h.keeps hstep hused)
      rw [acceptedKeys_ok hstep]
      cases hkey : key c with
      | none => exact ⟨hnodup, hlater⟩
      | some k =>
        refine ⟨List.nodup_cons.2 ⟨fun hk => hunused k hk (h.uses hstep hkey), hnodup⟩, fun k' hk' => ?_⟩
        rcases List.mem_cons.1 hk' with rfl | hk'
        · exact h.unused hstep hkey
        · exact hlater k' hk'

/-- so at most one accepted call has a given key, whatever else is asked of it -/
theorem Gate.countP_le_one [DecidableEq K] {step : S → C → Except ε S} {key : C → Option K} {used : S → K → Prop}
    (h : Gate step key used) (s : S) (calls : List C) (k : K) (p : C × S × S → Bool) :
    (accepted step s calls).countP (fun entry => decide (key entry.1 = some k) && p entry) ≤ 1 := by
  have hcount : (acceptedKeys step key s calls).count k =
      (accepted step s calls).countP fun entry => decide (key entry.1 = some k) := by
    rw [acceptedKeys, List.count_filterMap]
    exact List.countP_congr fun entry _ => by simp
  calc (accepted step s calls).countP (fun entry => decide (key entry.1 = some k) && p entry)
      ≤ (accepted step s calls).countP fun entry => decide (key entry.1 = some k) :=
        List.countP_mono_left fun entry _ hp => (Bool.and_eq_true _ _ ▸ hp : _ ∧ _).1
    _ = (acceptedKeys step key s calls).count k := hcount.symm
    _ ≤ 1 := List.nodup_iff_count_le_one.1 (h.accepted_once s calls).1 k

end Hyperlane.OneShot
