/-
Registers of dated entries, one for each key, that anyone may offer entries to, any number of times and in any order: a
register takes an entry that is newer than what it holds, and it may be emptied. An entry dies at some time and stays dead.

Emptying a register is safe when every entry that could follow, and is older than the one dropped, is dead.

- `Above.turn`, `Above.later`: what a register holds, and what can still be put in it, stays at or above a date.
- `Newest.turn`: a register holds the newest entry accepted, or all of them are dead.
- `Newest.agree`: two registers that accepted the same entries, in any order, hold the same one.
- `recordAll_newest`, `recordAll_congr`: what registers that nothing empties hold after all entries, and that the order in
  which they come does not matter.
- `find?_first`: asking the keys of a list in turn finds the first one that answers.
-/
import Mathlib.Tactic
import Mathlib.Order.CompletePartialOrder

namespace Hyperlane.DatedRegister

variable {K E D T : Type} [LinearOrder D] [Preorder T]

/-- the entries that can be offered to a register, their dates, and when one is dead -/
structure Offers (E D T : Type) [LinearOrder D] [Preorder T] where
  date : E → D
  offered : Set E
  dead : T → E → Prop
  dead_later : ∀ {t t' e}, t ≤ t' → dead t e → dead t' e

variable (O : Offers E D T)

/-- what can happen to the register of `k`, with the entry that is accepted and its key -/
inductive Turn (t : T) (k : K) : Option (K × E) → Option E → Option E → Prop
  | keep (r : Option E) : Turn t k none r r
  | other {k' : K} (hk : k' ≠ k) (e : E) (r : Option E) : Turn t k (some (k', e)) r r
  | again {x e : E} (hdate : O.date e = O.date x) : Turn t k (some (k, e)) (some x) (some x)
  | put {r : Option E} {e : E} (he : e ∈ O.offered) (hlive : ¬O.dead t e) (hnewer : ∀ x, r = some x → O.date x < O.date e) :
      Turn t k (some (k, e)) r (some e)
  | drop {x : E} (hx : O.dead t x) (holder : ∀ q ∈ O.offered, O.date q < O.date x → O.dead t q) :
      Turn t k none (some x) none

/-! ## Dates -/

/-- the register is at `b` or newer, and so is all that can be put in it -/
def Above (b : D) (t : T) : Option E → Prop
  | some x => b ≤ O.date x
  | none => ∀ q ∈ O.offered, O.date q < b → O.dead t q

variable {O} {t t' : T} {k : K} {a : Option (K × E)} {r r' : Option E}

theorem Above.later {b : D} (h : Above O b t r) (ht : t ≤ t') : Above O b t' r := by
  cases r with
  | some x => exact h
  | none => exact fun q hq hlt => O.dead_later ht (h q hq hlt)

theorem Above.turn {b : D} (h : Above O b t r) (hturn : Turn O t k a r r') : Above O b t r' := by
  cases hturn with
  | keep => exact h
  | other => exact h
  | again => exact h
  | @put _ e he hlive hnewer =>
    change b ≤ O.date e
    cases r with
    | none => exact le_of_not_gt fun hlt => hlive (h e he hlt)
    | some x => exact le_trans h (hnewer x rfl).le
  | drop _ holder => exact fun q hq hlt => holder q hq (lt_of_lt_of_le hlt h)

/-! ## The newest entry accepted -/

/-- the entries of one key in a log -/
def logged (log : List (K × E)) (k : K) : Set E := {e | (k, e) ∈ log}

theorem logged_none (log : List (K × E)) (k : K) : logged (log ++ (none : Option (K × E)).toList) k = logged log k := by
  rw [Option.toList_none, List.append_nil]

theorem logged_other {k' : K} (hk : k' ≠ k) (log : List (K × E)) (e : E) :
    logged (log ++ (some (k', e)).toList) k = logged log k := by
  ext x
  simp [logged, Ne.symm hk]

theorem logged_self (log : List (K × E)) (k : K) (e : E) :
    logged (log ++ (some (k, e)).toList) k = insert e (logged log k) := by
  ext x
  simp [logged, or_comm]

variable (O)

/-- of the entries `A` that were accepted, the register holds the newest, or all are dead and only newer ones can follow -/
structure Newest (A : Set E) (t : T) (r : Option E) : Prop where
  offered : A ⊆ O.offered
  above : ∀ a ∈ A, Above O (O.date a) t r
  held : ∀ x, r = some x → x ∈ A
  gone : r = none → ∀ a ∈ A, O.dead t a

variable {O} {A : Set E}

theorem Newest.nil : Newest O (logged ([] : List (K × E)) k) t none :=
  ⟨fun _ ha => (List.not_mem_nil ha).elim, fun _ ha => (List.not_mem_nil ha).elim, fun _ hx => (nomatch hx),
    fun _ _ ha => (List.not_mem_nil ha).elim⟩

theorem Newest.later (h : Newest O A t r) (ht : t ≤ t') : Newest O A t' r :=
  ⟨h.offered, fun a ha => (h.above a ha).later ht, h.held, fun hr a ha => O.dead_later ht (h.gone hr a ha)⟩

theorem Newest.put {e : E} (h : Newest O A t r) (hturn : Turn O t k (some (k, e)) r (some e)) (he : e ∈ O.offered) :
    Newest O (insert e A) t (some e) where
  offered a ha := by
    rcases ha with rfl | ha
    · exact he
    · exact h.offered ha
  above a ha := by
    rcases ha with rfl | ha
    · exact le_refl (O.date a)
    · exact (h.above a ha).turn hturn
  held x hx := Or.inl (Option.some.inj hx).symm
  gone hr := nomatch hr

theorem Newest.drop {x : E} (h : Newest O A t (some x)) (hdates : Set.InjOn O.date A) (hx : O.dead t x)
    (holder : ∀ q ∈ O.offered, O.date q < O.date x → O.dead t q) : Newest O A t none where
  offered := h.offered
  above a ha q hq hlt := holder q hq (lt_of_lt_of_le hlt (h.above a ha))
  held _ hr := nomatch hr
  gone _ a ha := by
    rcases (h.above a ha : O.date a ≤ O.date x).lt_or_eq with hlt | heq
    · exact holder a (h.offered ha) hlt
    · exact (hdates ha (h.held x rfl) heq) ▸ hx

/-- entries of one key that are accepted have distinct dates -/
theorem Newest.turn {log : List (K × E)} (h : Newest O (logged log k) t r) (hturn : Turn O t k a r r')
    (hdates : Set.InjOn O.date (logged (log ++ a.toList) k)) : Newest O (logged (log ++ a.toList) k) t r' := by
  cases hturn with
  | keep =>
    rw [logged_none]
    exact h
  | other hk e =>
    rw [logged_other hk]
    exact h
  | @again x e hdate =>
    rw [logged_self] at hdates ⊢
    have hx := h.held x rfl
    rw [hdates (Or.inl rfl) (Or.inr hx) hdate, Set.insert_eq_of_mem hx]
    exact h
  | put he hlive hnewer =>
    rw [logged_self]
    exact h.put (.put he hlive hnewer : Turn O t k _ _ _) he
  | drop hx holder =>
    rw [logged_none] at hdates ⊢
    exact h.drop hdates hx holder

/-- two registers that accepted the same entries hold the same one -/
theorem Newest.agree {E' T' X : Type} [Preorder T'] {O' : Offers E' D T'} {A' : Set E'} {u : T'} {f : E → X} {g : E' → X}
    {x : E} {y : E'} (h : Newest O A t (some x)) (h' : Newest O' A' u (some y)) (hsame : f '' A = g '' A')
    (hdate : ∀ a b, f a = g b → O.date a = O'.date b) (hdates : Set.InjOn O.date A) : f x = g y := by
  obtain ⟨a, ha, hay⟩ : g y ∈ f '' A := hsame ▸ ⟨y, h'.held y rfl, rfl⟩
  obtain ⟨b, hb, hbx⟩ : f x ∈ g '' A' := hsame ▸ ⟨x, h.held x rfl, rfl⟩
  have hle : O.date a ≤ O.date x := h.above a ha
  have hge : O.date x ≤ O.date a := by
    rw [hdate x b hbx.symm, hdate a y hay]
    exact h'.above b hb
  rw [← hay, hdates ha (h.held x rfl) (le_antisymm hle hge)]

/-! ## Registers that nothing empties -/

section Record

variable [DecidableEq K] (date : E → D)

/-- a register takes an entry of its key that is newer than what it holds -/
def record (reg : K → E) (e : K × E) : K → E :=
  if date (reg e.1) < date e.2 then Function.update reg e.1 e.2 else reg

def recordAll (reg : K → E) (es : List (K × E)) : K → E := es.foldl (record date) reg

variable {date} {reg reg' : K → E} {es es' : List (K × E)} {k : K}

theorem record_other {k' : K} (h : k ≠ k') (e : E) : record date reg (k', e) k = reg k := by
  unfold record
  split
  · exact Function.update_of_ne h _ _
  · rfl

theorem record_self (e : E) : record date reg (k, e) k = if date (reg k) < date e then e else reg k := by
  unfold record
  split
  · exact Function.update_self _ _ _
  · rfl

variable (date reg es k) in
/-- **After all entries** a register holds what it held, or an entry newer than that; it is as new as every entry. -/
theorem recordAll_newest : (recordAll date reg es k = reg k ∨
      (k, recordAll date reg es k) ∈ es ∧ date (reg k) < date (recordAll date reg es k)) ∧
    ∀ e, (k, e) ∈ es → date e ≤ date (recordAll date reg es k) := by
  induction es generalizing reg with
  | nil => exact ⟨.inl rfl, fun e he => (List.not_mem_nil he).elim⟩
  | cons entry es ih =>
    obtain ⟨k', e⟩ := entry
    obtain ⟨hheld, hnewest⟩ := ih (record date reg (k', e))
    change recordAll date (record date reg (k', e)) es k = _ ∨ (_ ∈ _ ∧ _) at hheld
    by_cases hk : k = k'
    · subst hk
      have hfirst : date (reg k) ≤ date (record date reg (k, e) k) ∧ date e ≤ date (record date reg (k, e) k) := by
        rw [record_self]
        split
        · rename_i hlt
          exact ⟨hlt.le, le_rfl⟩
        · rename_i hle
          exact ⟨le_rfl, not_lt.1 hle⟩
      have hrest : date (record date reg (k, e) k) ≤ date (recordAll date (record date reg (k, e)) es k) := by
        rcases hheld with hsame | ⟨-, hlt⟩
        · rw [hsame]
        · exact hlt.le
      refine ⟨?_, fun e' he' => ?_⟩
      · rcases hheld with hsame | ⟨hmem, hlt⟩
        · rw [recordAll, List.foldl_cons, ← recordAll, hsame, record_self]
          split
          · rename_i hlt
            exact .inr ⟨List.mem_cons_self, hlt⟩
          · exact .inl rfl
        · exact .inr ⟨List.mem_cons_of_mem _ hmem, hfirst.1.trans_lt hlt⟩
      · rcases List.mem_cons.1 he' with heq | he'
        · cases heq
          exact hfirst.2.trans hrest
        · exact hnewest e' he'
    · rw [record_other hk] at hheld
      refine ⟨?_, fun e' he' => ?_⟩
      · rcases hheld with hsame | ⟨hmem, hlt⟩
        · exact .inl hsame
        · exact .inr ⟨List.mem_cons_of_mem _ hmem, hlt⟩
      · rcases List.mem_cons.1 he' with heq | he'
        · cases heq
          exact absurd rfl hk
        · exact hnewest e' he'

/-- **The order does not matter**: the same entries of distinct dates leave the same in a register. -/
theorem recordAll_congr (hreg : reg k = reg' k) (hsame : ∀ e, (k, e) ∈ es ↔ (k, e) ∈ es')
    (hdates : Set.InjOn date (logged es k)) : recordAll date reg es k = recordAll date reg' es' k := by
  obtain ⟨hheld, hnewest⟩ := recordAll_newest date reg es k
  obtain ⟨hheld', hnewest'⟩ := recordAll_newest date reg' es' k
  rw [← hreg] at hheld'
  rcases hheld with hkept | ⟨hmem, hnewer⟩
  · rcases hheld' with hkept' | ⟨hmem', hnewer'⟩
    · rw [hkept, hkept']
    · have hle := hnewest _ ((hsame _).2 hmem')
      rw [hkept] at hle
      exact absurd hnewer' (not_lt.2 hle)
  · rcases hheld' with hkept' | ⟨hmem', hnewer'⟩
    · have hle := hnewest' _ ((hsame _).1 hmem)
      rw [hkept'] at hle
      exact absurd hnewer (not_lt.2 hle)
    · refine hdates hmem ((hsame _).2 hmem') (le_antisymm ?_ ?_)
      · exact hnewest' _ ((hsame _).1 hmem)
      · exact hnewest _ ((hsame _).2 hmem')

end Record

/-! ## Asking in turn -/

/-- the key that is found comes no later than any other that answers -/
theorem find?_first [DecidableEq K] {keys : List K} {answers : K → Bool} (h : keys.find? answers = some k) :
    ∀ k' ∈ keys, answers k' → keys.idxOf k ≤ keys.idxOf k' := by
  induction keys with
  | nil => cases h
  | cons a keys ih =>
    rw [List.find?_cons] at h
    intro k' hk' hanswers
    split at h
    · cases h
      rw [List.idxOf_cons_self]
      exact Nat.zero_le _
    · rename_i hno
      have hne : ∀ x, answers x = true → a ≠ x := fun x hx hax => by rw [hax, hx] at hno; cases hno
      rw [List.idxOf_cons_ne _ (hne k (List.find?_some h)), List.idxOf_cons_ne _ (hne k' hanswers)]
      exact Nat.succ_le_succ (ih h k' ((List.mem_cons.1 hk').resolve_left (Ne.symm (hne k' hanswers))) hanswers)

end Hyperlane.DatedRegister
