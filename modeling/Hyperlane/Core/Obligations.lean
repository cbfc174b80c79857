/-
What the tasks of an interleaved run owe each other.

An access of one task can leave the store with something still to be done: a debt, which nobody need pay at once. A
program settles a debt when it goes on for as long as the debt stands; it answers for its debts when every access that
raises one is followed by a program that settles it.

- `Machine.run_steps`: when every access and every interference is a step of a preorder, so is a whole run.
- `Machine.run_answered`: when every program answers for its debts, each debt of a reached store has a task under way
  that settles it.
-/
import Hyperlane.Core.Interleaving

namespace Hyperlane.Interleaving

variable {S α β K Op Env : Type}

namespace Prog

/-! ## Reads and loops -/

/-- going on after a read knows what was read -/
theorem steps_read_bind {T : S → S → Prop} (hT : ∀ s, T s s) {query : S → α} {f : α → Prog S β}
    (h : ∀ s, (f (query s)).Steps T) : Steps T (read query >>= f) := ⟨hT, h⟩

theorem Steps.forM {T : S → S → Prop} {l : List α} {f : α → Prog S PUnit} (h : ∀ a ∈ l, (f a).Steps T) :
    Prog.Steps T (l.forM f) := by
  induction l with
  | nil => trivial
  | cons a l ih =>
    exact (h a List.mem_cons_self).bind fun _ => ih fun b hb => h b (List.mem_cons_of_mem a hb)

/-! ## Programs and debts -/

/-- the program goes on for as long as the debt stands -/
def Settles (owed : S → Prop) : Prog S α → Prop
  | .pure _ => False
  | .access change next => ∀ s, owed s → owed (change s) → Settles owed (next s)
  | .acquire next => Settles owed next
  | .release next => Settles owed next

/-- every access that raises a debt is followed by a program that settles it -/
def Answers (owed : K → S → Prop) : Prog S α → Prop
  | .pure _ => True
  | .access change next => ∀ s, (∀ k, ¬ owed k s → owed k (change s) → Settles (owed k) (next s)) ∧ Answers owed (next s)
  | .acquire next => Answers owed next
  | .release next => Answers owed next

variable {owed : S → Prop} {debts : K → S → Prop} {p : Prog S α} {f : α → Prog S β}

theorem Settles.unfinished (h : p.Settles owed) : p.finished = false := by
  cases p with
  | pure a => exact h.elim
  | access change next => rfl
  | acquire next => rfl
  | release next => rfl

/-- what settles a debt may go on afterwards -/
theorem Settles.bind (h : p.Settles owed) : Settles owed (p >>= f) := by
  induction p with
  | pure a => exact h.elim
  | access change next ih => exact fun s hs hs' => ih s (h s hs hs')
  | acquire next ih => exact ih h
  | release next ih => exact ih h

/-- reading, and then settling what still stands -/
theorem settles_read {query : S → α} (h : ∀ s, owed s → Settles owed (f (query s))) :
    Settles owed (read query >>= f) := fun s hs _ => h s hs

/-- a write that pays -/
theorem settles_write {change : S → S} (h : ∀ s, owed s → ¬ owed (change s)) : Settles owed (write change) :=
  fun s hs hs' => (h s hs hs').elim

theorem Answers.bind (h : p.Answers debts) (hf : ∀ a, (f a).Answers debts) : Answers debts (p >>= f) := by
  induction p with
  | pure a => exact hf a
  | access change next ih => exact fun s => ⟨fun k hk hk' => ((h s).1 k hk hk').bind, ih s (h s).2⟩
  | acquire next ih => exact ih h
  | release next ih => exact ih h

theorem answers_read (query : S → α) : Answers debts (read query) :=
  fun _ => ⟨fun _ hk hk' => absurd hk' hk, trivial⟩

/-- going on after a read knows what was read -/
theorem answers_read_bind {query : S → α} (h : ∀ s, (f (query s)).Answers debts) : Answers debts (read query >>= f) :=
  fun s => ⟨fun _ hk hk' => absurd hk' hk, h s⟩

/-- a write that raises no debt -/
theorem answers_write {change : S → S} (h : ∀ k s, debts k (change s) → debts k s) : Answers debts (write change) :=
  fun s => ⟨fun k hk hk' => absurd (h k s hk') hk, trivial⟩

/-- a write, and what settles the debts it raises -/
theorem answers_write_bind {change : S → S} {q : Prog S β} (hq : q.Answers debts)
    (h : ∀ k s, ¬ debts k s → debts k (change s) → q.Settles (debts k)) :
    Answers debts (write change >>= fun _ => q) :=
  fun s => ⟨fun k hk hk' => h k s hk hk', hq⟩

theorem Answers.forM {l : List α} {f : α → Prog S PUnit} (h : ∀ a ∈ l, (f a).Answers debts) :
    Prog.Answers debts (l.forM f) := by
  induction l with
  | nil => trivial
  | cons a l ih =>
    exact (h a List.mem_cons_self).bind fun _ => ih fun b hb => h b (List.mem_cons_of_mem a hb)

end Prog

namespace Machine

variable {M : Machine Op Env S}

/-! ## Runs of steps -/

/-- every access of a program and every interference is a `T` step -/
structure Stepwise (M : Machine Op Env S) (T : S → S → Prop) : Prop where
  refl : ∀ s, T s s
  trans : ∀ {a b c}, T a b → T b c → T a c
  program : ∀ op, (M.program op).Steps T
  interfere : ∀ e s, T s (M.interfere e s)

variable {T : S → S → Prop} {debts : K → S → Prop}

/-- every task goes on with `T` steps -/
def TasksStep (T : S → S → Prop) (σ : System Op S) : Prop := ∀ t ∈ σ.tasks, t.program.Steps T

theorem step_steps (h : M.Stepwise T) {σ : System Op S} (htasks : TasksStep T σ) (e : Event Op Env) :
    TasksStep T (M.step σ e) ∧ T σ.store (M.step σ e).store := by
  cases e with
  | start op =>
    simp only [step]
    split
    · refine ⟨fun t ht => ?_, h.refl _⟩
      rcases List.mem_append.1 ht with ht | ht
      · exact htasks t ht
      · obtain rfl := List.mem_singleton.1 ht
        exact h.program op
    · exact ⟨htasks, h.refl _⟩
  | advance i =>
    simp only [step]
    split
    · exact ⟨htasks, h.refl _⟩
    next t ht =>
      have hsteps := htasks t (List.mem_of_getElem? ht)
      obtain ⟨op, program⟩ := t
      cases program with
      | pure a => exact ⟨htasks, h.refl _⟩
      | access change next =>
        refine ⟨fun t' ht' => ?_, hsteps.1 σ.store⟩
        rcases List.mem_or_eq_of_mem_set ht' with ht' | rfl
        · exact htasks t' ht'
        · exact hsteps.2 σ.store
      | acquire next => exact hsteps.elim
      | release next => exact hsteps.elim
  | interfere e => exact ⟨htasks, h.interfere e σ.store⟩

/-- **A run of steps is a step.** -/
theorem run_steps (h : M.Stepwise T) {σ : System Op S} (htasks : TasksStep T σ) (es : List (Event Op Env)) :
    TasksStep T (M.run σ es) ∧ T σ.store (M.run σ es).store := by
  induction es generalizing σ with
  | nil => exact ⟨htasks, h.refl _⟩
  | cons e es ih =>
    obtain ⟨hnext, hstep⟩ := step_steps h htasks e
    obtain ⟨hlast, hrest⟩ := ih hnext
    exact ⟨hlast, h.trans hstep hrest⟩

/-- from one moment of a run to a later one -/
theorem run_steps_between (h : M.Stepwise T) {σ : System Op S} (htasks : TasksStep T σ) {es es' : List (Event Op Env)}
    (hes : es <+: es') : T (M.run σ es).store (M.run σ es').store := by
  obtain ⟨rest, rfl⟩ := hes
  rw [run, run, List.foldl_append]
  exact (run_steps h (run_steps h htasks es).1 rest).2

/-! ## Runs and debts -/

/-- every program answers for its debts, and the environment raises none -/
structure Accountable (M : Machine Op Env S) (debts : K → S → Prop) : Prop where
  program : ∀ op, (M.program op).Answers debts
  interfere : ∀ e k s, debts k (M.interfere e s) → debts k s

/-- each debt has a task that settles it, and the tasks answer for what they raise -/
structure Answered (debts : K → S → Prop) (σ : System Op S) : Prop where
  settled : ∀ k, debts k σ.store → ∃ t ∈ σ.tasks, t.program.Settles (debts k)
  answers : ∀ t ∈ σ.tasks, t.program.Answers debts

/-- a task moves on, and the debts that stand then have a task that settles them -/
theorem Answered.advance {σ : System Op S} {i : ℕ} {t : Task Op S} (h : Answered debts σ) (ht : σ.tasks[i]? = some t)
    {s : S} {lock : Option ℕ} {q : Prog S Unit} (hq : q.Answers debts)
    (hdebts : ∀ k, debts k s → q.Settles (debts k) ∨ debts k σ.store ∧ ¬ t.program.Settles (debts k)) :
    Answered debts ⟨s, lock, σ.tasks.set i ⟨t.op, q⟩⟩ := by
  have hlen : i < σ.tasks.length := (List.getElem?_eq_some_iff.1 ht).1
  refine ⟨fun k hk => ?_, fun t' ht' => ?_⟩
  · rcases hdebts k hk with hq | ⟨hold, hnot⟩
    · exact ⟨_, List.mem_of_getElem? (List.getElem?_set_self hlen), hq⟩
    · -- another task settles it, and stays where it is
      obtain ⟨t', ht', hsettles⟩ := h.settled k hold
      obtain ⟨j, hj⟩ := List.mem_iff_getElem?.1 ht'
      have hne : i ≠ j := by
        rintro rfl
        obtain rfl := Option.some.inj (ht.symm.trans hj)
        exact hnot hsettles
      exact ⟨t', List.mem_of_getElem? ((List.getElem?_set_ne hne).trans hj), hsettles⟩
  · rcases List.mem_or_eq_of_mem_set ht' with ht' | rfl
    · exact h.answers t' ht'
    · exact hq

theorem step_answered (hM : M.Accountable debts) {σ : System Op S} (h : Answered debts σ) (e : Event Op Env) :
    Answered debts (M.step σ e) := by
  cases e with
  | start op =>
    simp only [step]
    split
    · refine ⟨fun k hk => ?_, fun t ht => ?_⟩
      · obtain ⟨t, ht, hsettles⟩ := h.settled k hk
        exact ⟨t, List.mem_append_left _ ht, hsettles⟩
      · rcases List.mem_append.1 ht with ht | ht
        · exact h.answers t ht
        · obtain rfl := List.mem_singleton.1 ht
          exact hM.program op
    · exact h
  | advance i =>
    simp only [step]
    split
    · exact h
    next t ht =>
      have hanswers := h.answers t (List.mem_of_getElem? ht)
      obtain ⟨op, program⟩ := t
      cases program with
      | pure a => exact h
      | access change next =>
        obtain ⟨hraise, hnext⟩ := hanswers σ.store
        refine h.advance ht hnext fun k hk => ?_
        by_cases hold : debts k σ.store
        · by_cases hsettles : Prog.Settles (debts k) (.access change next)
          · exact .inl (hsettles σ.store hold hk)
          · exact .inr ⟨hold, hsettles⟩
        · exact .inl (hraise k hold hk)
      | acquire next =>
        simp only [Machine.advance]
        split
        · exact h
        · refine h.advance ht hanswers fun k hk => ?_
          by_cases hsettles : Prog.Settles (debts k) next
          · exact .inl hsettles
          · exact .inr ⟨hk, hsettles⟩
      | release next =>
        refine h.advance ht hanswers fun k hk => ?_
        by_cases hsettles : Prog.Settles (debts k) next
        · exact .inl hsettles
        · exact .inr ⟨hk, hsettles⟩
  | interfere e =>
    exact ⟨fun k hk => h.settled k (hM.interfere e k _ hk), h.answers⟩

/-- **Each debt of a reached store has a task under way that settles it.** -/
theorem run_answered (hM : M.Accountable debts) {σ : System Op S} (h : Answered debts σ) (es : List (Event Op Env)) :
    Answered debts (M.run σ es) := by
  induction es generalizing σ with
  | nil => exact h
  | cons e es ih => exact ih (step_answered hM h e)

end Machine

end Hyperlane.Interleaving
