/-
Postconditions for computations that may stop with an error.

`Ends E Q x` says that `x` either returns a value with `Q` or stops with an error in `E`. Panics of a program are modelled
as errors, so choosing `E` to exclude one of them states that it is unreachable. Sequencing and case splits have one
rule each, and a computation is verified by following its text.

The last section counts positions: the entries of a list with a property occupy that many distinct positions.
-/
import Mathlib.Tactic

namespace Hyperlane.Outcome

variable {ε α β : Type}

/-- returns a value with `Q` or stops with an error in `E` -/
def Ends (E : ε → Prop) (Q : α → Prop) : Except ε α → Prop
  | .ok a => Q a
  | .error e => E e

variable {E : ε → Prop} {Q : α → Prop} {R : β → Prop}

theorem Ends.ok {a : α} (h : Q a) : Ends E Q (.ok a) := h

theorem Ends.error {e : ε} (h : E e) : Ends E Q (.error e : Except ε α) := h

theorem Ends.bind {x : Except ε α} {f : α → Except ε β} (hx : Ends E Q x) (hf : ∀ a, Q a → Ends E R (f a)) :
    Ends E R (x >>= f) := by
  cases x with
  | ok a => exact hf a hx
  | error e => exact hx

/-- the rule for a first part that consists of two -/
theorem Ends.bind_assoc {γ : Type} {T : γ → Prop} {x : Except ε α} {f : α → Except ε β} {g : β → Except ε γ}
    (hx : Ends E R (x >>= f)) (hg : ∀ b, R b → Ends E T (g b)) : Ends E T (x >>= fun a => f a >>= g) := by
  cases x with
  | ok a => exact Ends.bind (x := f a) hx hg
  | error e => exact hx

theorem Ends.bind_ok {x : Except ε α} {f : α → Except ε β} {a : α} (hx : x = .ok a) (hf : Ends E R (f a)) :
    Ends E R (x >>= f) := by
  subst hx
  exact hf

theorem Ends.mono {Q' : α → Prop} {x : Except ε α} (h : Ends E Q x) (hq : ∀ a, Q a → Q' a) : Ends E Q' x := by
  cases x with
  | ok a => exact hq a h
  | error e => exact h

theorem Ends.imp {E' : ε → Prop} {Q' : α → Prop} {x : Except ε α} (h : Ends E Q x) (he : ∀ e, E e → E' e)
    (hq : ∀ a, Q a → Q' a) : Ends E' Q' x := by
  cases x with
  | ok a => exact hq a h
  | error e => exact he e h

theorem Ends.map {x : Except ε α} {f : α → β} (h : Ends E (fun a => R (f a)) x) : Ends E R (x.map f) := by
  cases x with
  | ok a => exact h
  | error e => exact h

/-- two postconditions of one computation -/
theorem Ends.and {E' : ε → Prop} {Q' : α → Prop} {x : Except ε α} (h : Ends E Q x) (h' : Ends E' Q' x) :
    Ends E (fun a => Q a ∧ Q' a) x := by
  cases x with
  | ok a => exact ⟨h, h'⟩
  | error e => exact h

/-- a postcondition of a result that is only wrapped -/
theorem Ends.of_map {x : Except ε α} {f : α → β} (h : Ends E R (x >>= fun a => .ok (f a))) : Ends E (fun a => R (f a)) x := by
  cases x with
  | ok a => exact h
  | error e => exact h

theorem Ends.of_ok {x : Except ε α} (h : Ends E Q x) {a : α} (hx : x = .ok a) : Q a := by
  subst hx
  exact h

theorem Ends.of_error {x : Except ε α} (h : Ends E Q x) {e : ε} (hx : x = .error e) : E e := by
  subst hx
  exact h

theorem ok_bind {a : α} {f : α → Except ε β} : (Except.ok a >>= f) = f a := rfl

theorem error_bind {e : ε} {f : α → Except ε β} : (Except.error e >>= f) = .error e := rfl

/-- a sequence returns if both parts do -/
theorem bind_eq_ok {x : Except ε α} {f : α → Except ε β} {b : β} : (x >>= f) = .ok b ↔ ∃ a, x = .ok a ∧ f a = .ok b := by
  cases x with
  | ok a => exact ⟨fun h => ⟨a, rfl, h⟩, fun ⟨_, ha, h⟩ => Except.ok.inj ha ▸ h⟩
  | error e => exact ⟨fun h => (nomatch h), fun ⟨_, ha, _⟩ => (nomatch ha)⟩

theorem map_eq_ok {x : Except ε α} {f : α → β} {b : β} : x.map f = .ok b ↔ ∃ a, x = .ok a ∧ f a = b := by
  cases x with
  | ok a => exact ⟨fun h => ⟨a, rfl, Except.ok.inj h⟩, fun ⟨_, ha, h⟩ => congrArg Except.ok (Except.ok.inj ha ▸ h)⟩
  | error e => exact ⟨fun h => (nomatch h), fun ⟨_, ha, _⟩ => (nomatch ha)⟩

theorem bind_eq_error {x : Except ε α} {f : α → Except ε β} {e : ε} :
    (x >>= f) = .error e ↔ x = .error e ∨ ∃ a, x = .ok a ∧ f a = .error e := by
  cases x with
  | error e' => simp [error_bind]
  | ok a => simp [ok_bind]

theorem map_eq_error {x : Except ε α} {f : α → β} {e : ε} : x.map f = .error e ↔ x = .error e := by
  cases x with
  | error e' => simp [Except.map]
  | ok a => simp [Except.map]

theorem toOption_bind (x : Except ε α) (f : α → Except ε β) :
    (x >>= f).toOption = x.toOption.bind fun a => (f a).toOption := by
  cases x with
  | ok a => rfl
  | error e => rfl

theorem toOption_map (x : Except ε α) (f : α → β) : (x.map f).toOption = x.toOption.map f := by
  cases x with
  | ok a => rfl
  | error e => rfl

theorem toOption_eq_some {x : Except ε α} {a : α} (h : x.toOption = some a) : x = .ok a := by
  cases x with
  | ok a' => exact congrArg _ (Option.some.inj h)
  | error e => cases h

theorem mapError_eq_ok {ε' : Type} {f : ε → ε'} {x : Except ε α} {a : α} (h : x.mapError f = .ok a) : x = .ok a := by
  cases x with
  | ok a' => exact congrArg _ (Except.ok.inj h)
  | error e => cases h

/-- a left fold that may stop keeps an invariant of the elements still to come -/
theorem Ends.foldlM {f : β → α → Except ε β} (I : β → Prop) (hstep : ∀ b a, I b → Ends E I (f b a)) (l : List α) (b : β)
    (hb : I b) : Ends E I (l.foldlM f b) := by
  induction l generalizing b with
  | nil => exact hb
  | cons a l ih =>
    rw [List.foldlM_cons]
    exact (hstep b a hb).bind ih

/-! ## Positions -/

/-- the entries that satisfy `p` sit at that many distinct positions -/
theorem exists_positions (p : α → Bool) (l : List α) :
    ∃ slots : Finset ℕ, slots.card = l.countP p ∧ ∀ i ∈ slots, ∃ a, l[i]? = some a ∧ p a = true := by
  induction l with
  | nil => exact ⟨∅, by simp⟩
  | cons a l ih =>
    obtain ⟨slots, hcard, hslots⟩ := ih
    have hshift : ∀ i ∈ slots.map ⟨Nat.succ, Nat.succ_injective⟩, ∃ b, (a :: l)[i]? = some b ∧ p b = true := by
      intro i hi
      obtain ⟨j, hj, rfl⟩ := Finset.mem_map.1 hi
      simpa using hslots j hj
    by_cases ha : p a = true
    · refine ⟨insert 0 (slots.map ⟨Nat.succ, Nat.succ_injective⟩), ?_, fun i hi => ?_⟩
      · rw [Finset.card_insert_of_notMem (by simp), Finset.card_map, hcard, List.countP_cons_of_pos ha]
      · rcases Finset.mem_insert.1 hi with rfl | hi
        · exact ⟨a, rfl, ha⟩
        · exact hshift i hi
    · refine ⟨slots.map ⟨Nat.succ, Nat.succ_injective⟩, ?_, hshift⟩
      rw [Finset.card_map, hcard, List.countP_cons_of_neg ha]

/-- in a list sorted by descending key, the first `k + 1` entries reach the key of entry `k` -/
theorem countP_of_sorted (key : α → ℕ) {l : List α} (hl : l.Pairwise (fun a b => key b ≤ key a)) {k : ℕ} {t : α}
    (ht : l[k]? = some t) : k + 1 ≤ l.countP (fun a => decide (key t ≤ key a)) := by
  induction l generalizing k with
  | nil => simp at ht
  | cons a l ih =>
    have hle : key t ≤ key a := by
      cases k with
      | zero => simp at ht; rw [ht]
      | succ k => exact List.rel_of_pairwise_cons hl (List.mem_of_getElem? (by simpa using ht))
    rw [List.countP_cons_of_pos (by simpa using hle)]
    cases k with
    | zero => omega
    | succ k => exact Nat.succ_le_succ (ih hl.of_cons (by simpa using ht))

/-- and an entry reaches what `k + 1` entries reach -/
theorem key_of_countP (key : α → ℕ) {l : List α} (hl : l.Pairwise (fun a b => key b ≤ key a)) {k : ℕ} {t : α}
    (ht : l[k]? = some t) {x : ℕ} (hcount : k + 1 ≤ l.countP (fun a => decide (x ≤ key a))) : x ≤ key t := by
  induction l generalizing k with
  | nil => simp at ht
  | cons a l ih =>
    by_contra hlt
    cases k with
    | zero =>
      obtain rfl : a = t := by simpa using ht
      -- nothing reaches more than the first entry
      have hnone : (a :: l).countP (fun a => decide (x ≤ key a)) = 0 := by
        rw [List.countP_eq_zero]
        intro b hb
        rcases List.mem_cons.1 hb with rfl | hb
        · simpa using hlt
        · have := List.rel_of_pairwise_cons hl hb
          simp only [decide_eq_true_eq]
          omega
      omega
    | succ k =>
      have hrest : k + 1 ≤ l.countP (fun a => decide (x ≤ key a)) := by
        have := List.countP_cons (p := fun a => decide (x ≤ key a)) (a := a) (l := l)
        split_ifs at this <;> omega
      exact hlt (ih hl.of_cons (by simpa using ht) hrest)

/-- the entry of a rank in a list that has more at every height -/
theorem kth_le {l₁ l₂ : List ℕ}
    (hcount : ∀ x, l₁.countP (fun a => decide (x ≤ a)) ≤ l₂.countP (fun a => decide (x ≤ a))) {k a b : ℕ} (ha : (l₁.insertionSort (· ≥ ·))[k]? = some a) (hb : (l₂.insertionSort (· ≥ ·))[k]? = some b) :
    a ≤ b := by
  have hreach := countP_of_sorted id (List.pairwise_insertionSort (· ≥ ·) l₁) ha
  refine key_of_countP id (List.pairwise_insertionSort (· ≥ ·) l₂) hb ?_
  rw [(List.perm_insertionSort _ l₁).countP_eq] at hreach
  rw [(List.perm_insertionSort _ l₂).countP_eq]
  exact hreach.trans (hcount a)

end Hyperlane.Outcome
