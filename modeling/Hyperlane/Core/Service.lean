/-
A process that starts up, serves, and crashes.

A startup is a program that nothing else of the process runs beside. When it ends well the process serves: tasks over the
shared store, interleaved at single accesses, with one lock. A crash drops the startup or the tasks, the lock with them,
and leaves of the store what was durable; then the process can start up again.

A contract says what holds at every moment (`Safe`), while the process serves (`Serving`), and while it serves and the
lock is free (`Settled`). Without the lock a task makes `U` steps, with it `T` steps; a task without the lock goes on
against the `T` steps of the others, the holder of the lock against their `U` steps.

- `Free`, `Held`, `Alone`: what a program of each kind owes, with the rules that follow its text.
- `run_inv`: a lawful contract holds in every run in which the holders of the lock find what they assume.
- `run_does`: each access of a task is one that its operation does.
-/
import Hyperlane.Core.Interleaving

namespace Hyperlane.Interleaving

variable {S α β Boot Op Env : Type}

namespace Prog

/-- each access of the program is a `K` step -/
def Does (K : S → S → Prop) : Prog S α → Prop
  | .pure _ => True
  | .access change next => (∀ s, K s (change s)) ∧ ∀ s, Does K (next s)
  | .acquire next => Does K next
  | .release next => Does K next

theorem Does.bind {K : S → S → Prop} {p : Prog S α} {k : α → Prog S β} (h : p.Does K) (hk : ∀ a, (k a).Does K) :
    Does K (p >>= k) := by
  induction p with
  | pure a => exact hk a
  | access change next ih => exact ⟨h.1, fun s => ih s (h.2 s)⟩
  | acquire next ih => exact ih h
  | release next ih => exact ih h

theorem Does.locked {K : S → S → Prop} {body : Prog S α} (h : body.Does K) : (Prog.locked body).Does K :=
  Does.bind (p := body) h fun _ => trivial

theorem Does.except_bind {E : Type} {K : S → S → Prop} {p : ExceptT E (Prog S) α} {k : α → ExceptT E (Prog S) β}
    (h : p.run.Does K) (hk : ∀ a, (k a).run.Does K) : (p >>= k).run.Does K := by
  refine Does.bind h fun r => ?_
  cases r with
  | ok a => exact hk a
  | error e => trivial

theorem does_true (p : Prog S α) : p.Does fun _ _ => True := by
  induction p with
  | pure a => trivial
  | access change next ih => exact ⟨fun _ => trivial, ih⟩
  | acquire next ih => exact ih
  | release next ih => exact ih

end Prog

/-! ## The process -/

/-- how a process starts up, what it serves, what else happens to the store, and what a crash leaves of it -/
structure Service (Boot Op Env S : Type) where
  /-- the end tells whether the process goes on to serve -/
  startup : Boot → Prog S Bool
  program : Op → Prog S Unit
  interfere : Env → S → S
  crash : S → S

inductive Process (Op S : Type) where
  | down (store : S)
  | starting (store : S) (program : Prog S Bool)
  | serving (system : System Op S)

inductive Happening (Boot Op Env : Type) where
  | boot (b : Boot)
  | call (op : Op)
  /-- the next access of the startup or of a task, or its taking or giving back the lock -/
  | advance (i : ℕ)
  | interfere (e : Env)
  | crash

namespace Process

def store : Process Op S → S
  | .down s => s
  | .starting s _ => s
  | .serving σ => σ.store

/-- the tasks a process serves -/
def tasks : Process Op S → List (Task Op S)
  | .serving σ => σ.tasks
  | _ => []

/-- the startup goes on; nobody else is there to hold the lock -/
def startNext (s : S) : Prog S Bool → Process Op S
  | .pure true => .serving ⟨s, none, []⟩
  | .pure false => .down s
  | .access change next => .starting (change s) (next s)
  | .acquire next => .starting s next
  | .release next => .starting s next

def advance (i : ℕ) : Process Op S → Process Op S
  | .down s => .down s
  | .starting s p => startNext s p
  | .serving σ => match σ.tasks[i]? with
    | none => .serving σ
    | some t => .serving (Machine.advance σ i t)

def change (f : S → S) : Process Op S → Process Op S
  | .down s => .down (f s)
  | .starting s p => .starting (f s) p
  | .serving σ => .serving { σ with store := f σ.store }

end Process

namespace Service

variable (M : Service Boot Op Env S)

def step (p : Process Op S) : Happening Boot Op Env → Process Op S
  | .boot b => match p with
    | .down s => .starting s (M.startup b)
    | p => p
  | .call op => match p with
    | .serving σ => .serving { σ with tasks := σ.tasks ++ [⟨op, M.program op⟩] }
    | p => p
  | .advance i => p.advance i
  | .interfere e => p.change (M.interfere e)
  | .crash => .down (M.crash p.store)

def run (p : Process Op S) (es : List (Happening Boot Op Env)) : Process Op S := es.foldl M.step p

/-- the operation that holds the lock, when its task is the one that moves -/
def holder : Process Op S → Happening Boot Op Env → Option Op
  | .serving σ, .advance i => if σ.lock = some i then σ.tasks[i]?.map Task.op else none
  | _, _ => none

/-- the task that holds the lock finds `A` of its operation before its next access -/
def Finds (A : Op → S → Prop) (p : Process Op S) (e : Happening Boot Op Env) : Prop := ∀ op ∈ holder p e, A op p.store

/-- every step of a run finds `A` -/
def FindsRun (A : Op → S → Prop) (p : Process Op S) : List (Happening Boot Op Env) → Prop
  | [] => True
  | e :: es => Finds A p e ∧ FindsRun A (M.step p e) es

instance (A : Op → S → Prop) [∀ op s, Decidable (A op s)] (p : Process Op S) (e : Happening Boot Op Env) :
    Decidable (Finds A p e) := inferInstanceAs (Decidable (∀ op ∈ holder p e, A op p.store))

instance decidableFindsRun (A : Op → S → Prop) [∀ op s, Decidable (A op s)] (p : Process Op S) :
    (es : List (Happening Boot Op Env)) → Decidable (M.FindsRun A p es)
  | [] => inferInstanceAs (Decidable True)
  | e :: es => @instDecidableAnd _ _ _ (decidableFindsRun A (M.step p e) es)

variable {M}

theorem FindsRun.mono {A A' : Op → S → Prop} {p : Process Op S} {es : List (Happening Boot Op Env)}
    (h : M.FindsRun A p es) (hA : ∀ op s, A op s → A' op s) : M.FindsRun A' p es := by
  induction es generalizing p with
  | nil => trivial
  | cons e es ih => exact ⟨fun op hop => hA op p.store (h.1 op hop), ih h.2⟩

/-- what holds of every operation and store is found in every run -/
theorem findsRun_of_forall (M : Service Boot Op Env S) {A : Op → S → Prop} (h : ∀ op s, A op s) (p : Process Op S)
    (es : List (Happening Boot Op Env)) : M.FindsRun A p es := by
  induction es generalizing p with
  | nil => trivial
  | cons e es ih => exact ⟨fun op _ => h op p.store, ih _⟩

/-! ## What each operation does -/

variable {G : Op → S → S → Prop}

/-- each access of a task is one that its operation does -/
def TasksDo (G : Op → S → S → Prop) (p : Process Op S) : Prop := ∀ t ∈ p.tasks, t.program.Does (G t.op)

theorem step_does (hG : ∀ op, (M.program op).Does (G op)) {p : Process Op S} (h : TasksDo G p)
    (e : Happening Boot Op Env) : TasksDo G (M.step p e) := by
  cases e with
  | boot b =>
    cases p with
    | down s => exact fun t ht => absurd ht List.not_mem_nil
    | starting s q => exact h
    | serving σ => exact h
  | call op =>
    cases p with
    | down s => exact h
    | starting s q => exact h
    | serving σ =>
      intro t ht
      rcases List.mem_append.1 ht with ht | ht
      · exact h t ht
      · obtain rfl := List.mem_singleton.1 ht
        exact hG op
  | advance i =>
    cases p with
    | down s => exact h
    | starting s q =>
      intro t ht
      cases q with
      | pure b => cases b <;> cases ht
      | access change next => cases ht
      | acquire next => cases ht
      | release next => cases ht
    | serving σ =>
      simp only [step, Process.advance]
      split
      · exact h
      next t ht =>
        have hdoes := h t (List.mem_of_getElem? ht)
        obtain ⟨op, program⟩ := t
        -- the task goes on, the others stay where they are
        have hset : ∀ (s : S) (lock : Option ℕ) (q : Prog S Unit), q.Does (G op) →
            TasksDo G (.serving ⟨s, lock, σ.tasks.set i ⟨op, q⟩⟩) := by
          intro s lock q hq t' ht'
          rcases List.mem_or_eq_of_mem_set ht' with ht' | rfl
          · exact h t' ht'
          · exact hq
        cases program with
        | pure a => exact h
        | access change next => exact hset _ _ _ (hdoes.2 σ.store)
        | acquire next =>
          simp only [Machine.advance]
          split
          · exact h
          · exact hset _ _ _ hdoes
        | release next => exact hset _ _ _ hdoes
  | interfere e =>
    cases p with
    | down s => exact h
    | starting s q => exact h
    | serving σ => exact h
  | crash => exact fun t ht => absurd ht List.not_mem_nil

/-- **Each access of a task is one that its operation does.** -/
theorem run_does (hG : ∀ op, (M.program op).Does (G op)) {p : Process Op S} (h : TasksDo G p)
    (es : List (Happening Boot Op Env)) : TasksDo G (M.run p es) := by
  induction es generalizing p with
  | nil => exact h
  | cons e es ih => exact ih (step_does hG h e)

/-- the step of a task is an access of its operation, or leaves the store -/
theorem TasksDo.advance {p : Process Op S} (h : TasksDo G p) {i : ℕ} {t : Task Op S} (ht : p.tasks[i]? = some t)
    (hrefl : ∀ s, G t.op s s) : G t.op p.store (p.advance i).store := by
  cases p with
  | down s => exact hrefl s
  | starting s q => cases ht
  | serving σ =>
    have hdoes := h t (List.mem_of_getElem? ht)
    simp only [Process.tasks] at ht
    simp only [Process.advance, ht, Process.store]
    obtain ⟨op, program⟩ := t
    cases program with
    | pure a => exact hrefl _
    | access change next => exact hdoes.1 σ.store
    | acquire next =>
      simp only [Machine.advance]
      split
      · exact hrefl _
      · exact hrefl _
    | release next => exact hrefl _

end Service

/-! ## Contracts -/

/-- what the startup, the tasks and the environment of a service agree on -/
structure Contract (M : Service Boot Op Env S) where
  /-- holds at every moment -/
  Safe : S → Prop
  /-- holds while the process serves -/
  Serving : S → Prop
  /-- holds while the process serves and the lock is free -/
  Settled : S → Prop
  /-- what an operation that holds the lock assumes before an access -/
  Assumes : Op → S → Prop
  /-- what is done without the lock -/
  U : S → S → Prop
  /-- what is done while the process serves -/
  T : S → S → Prop
  /-- what is done at all -/
  K : S → S → Prop
  U_refl : ∀ s, U s s
  U_trans : ∀ {a b c}, U a b → U b c → U a c
  T_trans : ∀ {a b c}, T a b → T b c → T a c
  U_T : ∀ {a b}, U a b → T a b
  T_K : ∀ {a b}, T a b → K a b
  K_trans : ∀ {a b c}, K a b → K b c → K a c
  serving_safe : ∀ {s}, Serving s → Safe s
  settled_serving : ∀ {s}, Settled s → Serving s
  safe_U : ∀ {a b}, Safe a → U a b → Safe b
  serving_U : ∀ {a b}, Serving a → U a b → Serving b
  settled_U : ∀ {a b}, Settled a → U a b → Settled b
  interfere_U : ∀ e s, U s (M.interfere e s)
  safe_crash : ∀ {s}, Safe s → Safe (M.crash s)
  crash_K : ∀ s, K s (M.crash s)

namespace Contract

variable {M : Service Boot Op Env S} (C : Contract M)

mutual

/-- a program without the lock: each access is a `U` step, against the `T` steps of the others -/
def Free (op : Op) (Q : α → S → Prop) : Prog S α → S → Prop
  | .pure a, s => Q a s
  | .access change next, s =>
    ∀ s', C.T s s' → C.Serving s' → C.U s' (change s') ∧ Free op Q (next s') (change s')
  | .acquire next, s => ∀ s', C.T s s' → C.Settled s' → Held op Q next s'
  | .release _, _ => False

/-- a program with the lock: each access is a `T` step, against the `U` steps of the others -/
def Held (op : Op) (Q : α → S → Prop) : Prog S α → S → Prop
  | .pure _, _ => False
  | .access change next, s => ∀ s', C.U s s' → C.Serving s' → C.Assumes op s' →
      C.T s' (change s') ∧ C.Serving (change s') ∧ Held op Q (next s') (change s')
  | .acquire _, _ => False
  | .release next, s => C.Settled s ∧ Free op Q next s

end

/-- the startup: against `U` steps, it keeps `Safe` -/
def Alone (Q : α → S → Prop) : Prog S α → S → Prop
  | .pure a, s => Q a s
  | .access change next, s => ∀ s', C.U s s' → C.Safe s' →
      C.K s' (change s') ∧ C.Safe (change s') ∧ Alone Q (next s') (change s')
  | .acquire next, s => Alone Q next s
  | .release next, s => Alone Q next s

/-- a startup that ends well leaves a settled store -/
def Started (b : Bool) (s : S) : Prop := b = true → C.Settled s

theorem T_refl (s : S) : C.T s s := C.U_T (C.U_refl s)

theorem K_refl (s : S) : C.K s s := C.T_K (C.T_refl s)

variable {C}

theorem Free.stable {op : Op} {p : Prog S Unit} {s s' : S} (h : C.Free op (fun _ _ => True) p s) (hs : C.T s s') :
    C.Free op (fun _ _ => True) p s' := by
  cases p with
  | pure a => trivial
  | access change next => exact fun s'' hs'' => h s'' (C.T_trans hs hs'')
  | acquire next => exact fun s'' hs'' => h s'' (C.T_trans hs hs'')
  | release next => exact h.elim

theorem Held.stable {op : Op} {p : Prog S Unit} {s s' : S} (h : C.Held op (fun _ _ => True) p s) (hs : C.U s s') :
    C.Held op (fun _ _ => True) p s' := by
  cases p with
  | pure a => exact h.elim
  | access change next => exact fun s'' hs'' => h s'' (C.U_trans hs hs'')
  | acquire next => exact h.elim
  | release next => exact ⟨C.settled_U h.1 hs, h.2.stable (C.U_T hs)⟩

theorem Alone.stable {p : Prog S Bool} {s s' : S} (h : C.Alone C.Started p s) (hs : C.U s s') :
    C.Alone C.Started p s' := by
  induction p with
  | pure a => exact fun ha => C.settled_U (h ha) hs
  | access change next => exact fun s'' hs'' => h s'' (C.U_trans hs hs'')
  | acquire next ih => exact ih h
  | release next ih => exact ih h

/-! ### Rules that follow a program -/

/-- what a task that does not have the lock finds -/
def OthersAct (C : Contract M) (a b : S) : Prop := C.T a b ∧ C.Serving b

/-- what a task that has the lock finds -/
def OthersWait (C : Contract M) (op : Op) (a b : S) : Prop := C.U a b ∧ C.Serving b ∧ C.Assumes op b

/-- what a task that has the lock does -/
def Acts (C : Contract M) (a b : S) : Prop := C.T a b ∧ C.Serving b

theorem Free.bind {op : Op} {Q : α → S → Prop} {Q' : β → S → Prop} {k : α → Prog S β}
    (hk : ∀ a s, Q a s → C.Free op Q' (k a) s) {p : Prog S α} :
    ∀ {s : S}, (C.Free op Q p s → C.Free op Q' (p >>= k) s) ∧ (C.Held op Q p s → C.Held op Q' (p >>= k) s) := by
  induction p with
  | pure a => exact ⟨hk a _, fun h => h.elim⟩
  | access change next ih =>
    refine ⟨fun h s' hs' hserving => ?_, fun h s' hs' hserving hassumes => ?_⟩
    · obtain ⟨hu, hnext⟩ := h s' hs' hserving
      exact ⟨hu, (ih s').1 hnext⟩
    · obtain ⟨ht, hkept, hnext⟩ := h s' hs' hserving hassumes
      exact ⟨ht, hkept, (ih s').2 hnext⟩
  | acquire next ih => exact ⟨fun h s' hs' hsettled => ih.2 (h s' hs' hsettled), fun h => h.elim⟩
  | release next ih => exact ⟨fun h => h.elim, fun h => ⟨h.1, ih.1 h.2⟩⟩

/-- what every step keeps holds at the end -/
theorem Free.frame {op : Op} {Q : α → S → Prop} {F : S → Prop} (hF : ∀ a b, C.T a b → F a → F b) {p : Prog S α} :
    ∀ {s : S}, (C.Free op Q p s → F s → C.Free op (fun a s => Q a s ∧ F s) p s) ∧
      (C.Held op Q p s → F s → C.Held op (fun a s => Q a s ∧ F s) p s) := by
  induction p with
  | pure a => exact ⟨fun h hs => ⟨h, hs⟩, fun h => h.elim⟩
  | access change next ih =>
    refine ⟨fun h hs s' hs' hserving => ?_, fun h hs s' hs' hserving hassumes => ?_⟩
    · obtain ⟨hu, hnext⟩ := h s' hs' hserving
      exact ⟨hu, (ih s').1 hnext (hF _ _ (C.U_T hu) (hF _ _ hs' hs))⟩
    · obtain ⟨ht, hkept, hnext⟩ := h s' hs' hserving hassumes
      exact ⟨ht, hkept, (ih s').2 hnext (hF _ _ ht (hF _ _ (C.U_T hs') hs))⟩
  | acquire next ih =>
    exact ⟨fun h hs s' hs' hsettled => ih.2 (h s' hs' hsettled) (hF _ _ hs' hs), fun h => h.elim⟩
  | release next ih => exact ⟨fun h => h.elim, fun h hs => ⟨h.1, ih.1 h.2 hs⟩⟩

/-- accesses without the lock -/
theorem Free.of_keeps {op : Op} {Q : α → S → Prop} {p : Prog S α} {s : S}
    (h : Keeps C.OthersAct C.U (fun _ => True) Q p s) : C.Free op Q p s := by
  induction p generalizing s with
  | pure a => exact h
  | access change next ih =>
    intro s' hs' hserving
    obtain ⟨-, hu, hnext⟩ := h s' ⟨hs', hserving⟩
    exact ⟨hu, ih s' hnext⟩
  | acquire next => exact h.elim
  | release next => exact h.elim

theorem Held.of_keeps {op : Op} {Q : α → S → Prop} {p : Prog S α} {s : S}
    (h : Keeps (C.OthersWait op) C.Acts (fun _ => True) (fun a s => C.Settled s ∧ Q a s) p s) :
    C.Held op Q (p.bind fun a => .release (.pure a)) s := by
  induction p generalizing s with
  | pure a => exact h
  | access change next ih =>
    intro s' hs' hserving hassumes
    obtain ⟨-, hacts, hnext⟩ := h s' ⟨hs', hserving, hassumes⟩
    exact ⟨hacts.1, hacts.2, ih s' hnext⟩
  | acquire next => exact h.elim
  | release next => exact h.elim

/-- a section under the lock starts and ends with a settled store -/
theorem Free.locked {op : Op} {Q : α → S → Prop} {body : Prog S α} {s : S}
    (h : ∀ s', C.T s s' → C.Settled s' →
      Keeps (C.OthersWait op) C.Acts (fun _ => True) (fun a s => C.Settled s ∧ Q a s) body s') :
    C.Free op Q (Prog.locked body) s :=
  fun s' hs' hsettled => Held.of_keeps (h s' hs' hsettled)

theorem Alone.bind {Q : α → S → Prop} {Q' : β → S → Prop} {p : Prog S α} {k : α → Prog S β} {s : S}
    (h : C.Alone Q p s) (hk : ∀ a s, Q a s → C.Alone Q' (k a) s) : C.Alone Q' (p >>= k) s := by
  induction p generalizing s with
  | pure a => exact hk a s h
  | access change next ih =>
    intro s' hs' hsafe
    obtain ⟨hK, hkept, hnext⟩ := h s' hs' hsafe
    exact ⟨hK, hkept, ih s' hnext⟩
  | acquire next ih => exact ih h
  | release next ih => exact ih h

/-- what a startup finds -/
def NobodyActs (C : Contract M) (a b : S) : Prop := C.U a b ∧ C.Safe b

/-- what a startup does -/
def Starts (C : Contract M) (a b : S) : Prop := C.K a b ∧ C.Safe b

theorem Alone.of_keeps {Q : α → S → Prop} {p : Prog S α} {s : S}
    (h : Keeps C.NobodyActs C.Starts (fun _ => True) Q p s) : C.Alone Q p s := by
  induction p generalizing s with
  | pure a => exact h
  | access change next ih =>
    intro s' hs' hsafe
    obtain ⟨-, hstarts, hnext⟩ := h s' ⟨hs', hsafe⟩
    exact ⟨hstarts.1, hstarts.2, ih s' hnext⟩
  | acquire next => exact h.elim
  | release next => exact h.elim

/-- the lock of a startup is always free -/
theorem Alone.locked {Q : α → S → Prop} {body : Prog S α} {s : S} (h : C.Alone Q body s) :
    C.Alone Q (Prog.locked body) s :=
  Alone.bind (p := body) h fun _ _ ha => ha

/-! ### Programs that fail -/

section Fallible

variable {E : Type} {R G : S → S → Prop} {P : S → Prop} {Q : Except E α → S → Prop} {Q' : Except E β → S → Prop}
  {p : ExceptT E (Prog S) α} {k : α → ExceptT E (Prog S) β} {s : S}

theorem Keeps.except_bind (h : Keeps R G P Q p.run s) (hok : ∀ a s, Q (.ok a) s → Keeps R G P Q' (k a).run s)
    (herror : ∀ e s, Q (.error e) s → Q' (.error e) s) : Keeps R G P Q' (p >>= k).run s := by
  refine Keeps.bind h fun r s hr => ?_
  cases r with
  | ok a => exact hok a s hr
  | error e => exact herror e s hr

theorem Free.except_bind {op : Op} (h : C.Free op Q p.run s) (hok : ∀ a s, Q (.ok a) s → C.Free op Q' (k a).run s)
    (herror : ∀ e s, Q (.error e) s → Q' (.error e) s) : C.Free op Q' (p >>= k).run s := by
  refine (Free.bind (fun r s hr => ?_)).1 h
  cases r with
  | ok a => exact hok a s hr
  | error e => exact herror e s hr

theorem Alone.except_bind (h : C.Alone Q p.run s) (hok : ∀ a s, Q (.ok a) s → C.Alone Q' (k a).run s)
    (herror : ∀ e s, Q (.error e) s → Q' (.error e) s) : C.Alone Q' (p >>= k).run s := by
  refine Alone.bind h fun r s hr => ?_
  cases r with
  | ok a => exact hok a s hr
  | error e => exact herror e s hr

end Fallible

/-! ### Runs -/

/-- every startup and every operation keeps the contract -/
structure Lawful (C : Contract M) : Prop where
  startup : ∀ b s, C.Safe s → C.Alone C.Started (M.startup b) s
  program : ∀ op s, C.Serving s → C.Free op (fun _ _ => True) (M.program op) s

def Inv (C : Contract M) : Process Op S → Prop
  | .down s => C.Safe s
  | .starting s p => C.Safe s ∧ C.Alone C.Started p s
  | .serving σ =>
    (σ.lock = none ∧ C.Settled σ.store ∧ ∀ t ∈ σ.tasks, C.Free t.op (fun _ _ => True) t.program σ.store) ∨
    ∃ j t, σ.lock = some j ∧ σ.tasks[j]? = some t ∧ C.Serving σ.store ∧
      C.Held t.op (fun _ _ => True) t.program σ.store ∧
      ∀ i t', i ≠ j → σ.tasks[i]? = some t' → C.Free t'.op (fun _ _ => True) t'.program σ.store

theorem Inv.serving {σ : System Op S} (h : C.Inv (.serving σ)) : C.Serving σ.store := by
  rcases h with ⟨-, hsettled, -⟩ | ⟨j, t, -, -, hserving, -⟩
  · exact C.settled_serving hsettled
  · exact hserving

/-- **Every moment of a process that keeps its contract is safe.** -/
theorem Inv.safe {p : Process Op S} (h : C.Inv p) : C.Safe p.store := by
  cases p with
  | down s => exact h
  | starting s q => exact h.1
  | serving σ => exact C.serving_safe h.serving

theorem Inv.startNext {s : S} {p : Prog S Bool} (hsafe : C.Safe s) (h : C.Alone C.Started p s) :
    C.Inv (Process.startNext s p) ∧ C.K s (Process.startNext s p : Process Op S).store := by
  cases p with
  | pure b =>
    cases b with
    | false => exact ⟨hsafe, C.K_refl s⟩
    | true => exact ⟨.inl ⟨rfl, h rfl, fun _ ht => nomatch ht⟩, C.K_refl s⟩
  | access change next =>
    obtain ⟨hK, hkept, hnext⟩ := h s (C.U_refl s) hsafe
    exact ⟨⟨hkept, hnext⟩, hK⟩
  | acquire next => exact ⟨⟨hsafe, h⟩, C.K_refl s⟩
  | release next => exact ⟨⟨hsafe, h⟩, C.K_refl s⟩

/-- the tasks beside the one that moves -/
theorem free_set {tasks : List (Task Op S)} {j : ℕ} {t : Task Op S} {s s' : S} (hT : C.T s s')
    (hothers : ∀ i t', i ≠ j → tasks[i]? = some t' → C.Free t'.op (fun _ _ => True) t'.program s) :
    ∀ i t', i ≠ j → (tasks.set j t)[i]? = some t' → C.Free t'.op (fun _ _ => True) t'.program s' := by
  intro i t' hi ht'
  rw [List.getElem?_set_ne hi.symm] at ht'
  exact (hothers i t' hi ht').stable hT

/-- the others and the one that moves -/
theorem free_all {tasks : List (Task Op S)} {j : ℕ} {t : Task Op S} {s : S} (hj : tasks[j]? = some t)
    (ht : C.Free t.op (fun _ _ => True) t.program s)
    (hothers : ∀ i t', i ≠ j → tasks[i]? = some t' → C.Free t'.op (fun _ _ => True) t'.program s) :
    ∀ t' ∈ tasks, C.Free t'.op (fun _ _ => True) t'.program s := by
  intro t' ht'
  obtain ⟨i, hi⟩ := List.mem_iff_getElem?.1 ht'
  by_cases hij : i = j
  · subst hij
    obtain rfl := Option.some.inj (hj.symm.trans hi)
    exact ht
  · exact hothers i t' hij hi

/-- a task goes on -/
theorem Inv.advance {σ : System Op S} (h : C.Inv (.serving σ)) {i : ℕ} {t : Task Op S} (ht : σ.tasks[i]? = some t)
    (hfinds : σ.lock = some i → C.Assumes t.op σ.store) :
    C.Inv (.serving (Machine.advance σ i t)) ∧ C.K σ.store (Machine.advance σ i t).store := by
  have hlen : i < σ.tasks.length := (List.getElem?_eq_some_iff.1 ht).1
  have hget : ∀ t', (σ.tasks.set i t')[i]? = some t' := fun t' => List.getElem?_set_self hlen
  rcases h with ⟨hlock, hsettled, hall⟩ | ⟨j, u, hlock, hu, hserving, hheld, hothers⟩
  · have hfree := hall t (List.mem_of_getElem? ht)
    have hrest : ∀ k t', k ≠ i → σ.tasks[k]? = some t' → C.Free t'.op (fun _ _ => True) t'.program σ.store :=
      fun k t' _ hk => hall t' (List.mem_of_getElem? hk)
    obtain ⟨op, program⟩ := t
    cases program with
    | pure a => exact ⟨.inl ⟨hlock, hsettled, hall⟩, C.K_refl _⟩
    | access change next =>
      obtain ⟨hU, hnext⟩ := hfree σ.store (C.T_refl _) (C.settled_serving hsettled)
      exact ⟨.inl ⟨hlock, C.settled_U hsettled hU, free_all (hget _) hnext (free_set (C.U_T hU) hrest)⟩,
        C.T_K (C.U_T hU)⟩
    | acquire next =>
      have hheld := hfree σ.store (C.T_refl _) hsettled
      simp only [Machine.advance, hlock, Option.isSome_none, Bool.false_eq_true, if_false]
      exact ⟨.inr ⟨i, _, rfl, hget _, C.settled_serving hsettled, hheld, free_set (C.T_refl _) hrest⟩, C.K_refl _⟩
    | release next => exact hfree.elim
  · by_cases hij : i = j
    · -- the holder of the lock
      subst hij
      obtain rfl := Option.some.inj (hu.symm.trans ht)
      obtain ⟨op, program⟩ := u
      cases program with
      | pure a => exact hheld.elim
      | access change next =>
        obtain ⟨hT, hkept, hnext⟩ := hheld σ.store (C.U_refl _) hserving (hfinds hlock)
        exact ⟨.inr ⟨i, _, hlock, hget _, hkept, hnext, free_set hT hothers⟩, C.T_K hT⟩
      | acquire next => exact hheld.elim
      | release next =>
        obtain ⟨hsettled, hnext⟩ := hheld
        exact ⟨.inl ⟨rfl, hsettled, free_all (hget _) hnext (free_set (C.T_refl _) hothers)⟩, C.K_refl _⟩
    · -- another task, without the lock
      have hfree := hothers i t hij ht
      obtain ⟨op, program⟩ := t
      have hholder : ∀ t', (σ.tasks.set i t')[j]? = some u := fun t' => (List.getElem?_set_ne hij).trans hu
      cases program with
      | pure a => exact ⟨.inr ⟨j, u, hlock, hu, hserving, hheld, hothers⟩, C.K_refl _⟩
      | access change next =>
        obtain ⟨hU, hnext⟩ := hfree σ.store (C.T_refl _) hserving
        refine ⟨.inr ⟨j, u, hlock, hholder _, C.serving_U hserving hU, hheld.stable hU, fun k t' hk ht' => ?_⟩,
          C.T_K (C.U_T hU)⟩
        by_cases hki : k = i
        · subst hki
          obtain rfl := Option.some.inj ((hget _).symm.trans ht')
          exact hnext
        · have hold : σ.tasks[k]? = some t' := (List.getElem?_set_ne (Ne.symm hki)).symm.trans ht'
          exact (hothers k t' hk hold).stable (C.U_T hU)
      | acquire next =>
        simp only [Machine.advance, hlock, Option.isSome_some, if_true]
        exact ⟨.inr ⟨j, u, hlock, hu, hserving, hheld, hothers⟩, C.K_refl _⟩
      | release next => exact hfree.elim

theorem step_inv (hlaw : C.Lawful) {p : Process Op S} {e : Happening Boot Op Env} (h : C.Inv p)
    (hfinds : Service.Finds C.Assumes p e) : C.Inv (M.step p e) ∧ C.K p.store (M.step p e).store := by
  cases e with
  | boot b =>
    cases p with
    | down s => exact ⟨⟨h, hlaw.startup b s h⟩, C.K_refl s⟩
    | starting s q => exact ⟨h, C.K_refl s⟩
    | serving σ => exact ⟨h, C.K_refl σ.store⟩
  | call op =>
    cases p with
    | down s => exact ⟨h, C.K_refl s⟩
    | starting s q => exact ⟨h, C.K_refl s⟩
    | serving σ =>
      refine ⟨?_, C.K_refl σ.store⟩
      have hnew := hlaw.program op σ.store h.serving
      rcases h with ⟨hlock, hsettled, hall⟩ | ⟨j, u, hlock, hu, hserving, hheld, hothers⟩
      · refine .inl ⟨hlock, hsettled, fun t ht => ?_⟩
        rcases List.mem_append.1 ht with ht | ht
        · exact hall t ht
        · obtain rfl := List.mem_singleton.1 ht
          exact hnew
      · have hlen : j < σ.tasks.length := (List.getElem?_eq_some_iff.1 hu).1
        refine .inr ⟨j, u, hlock, (List.getElem?_append_left hlen).trans hu, hserving, hheld, fun i t hi ht => ?_⟩
        rcases List.mem_append.1 (List.mem_of_getElem? ht) with hold | hold
        · by_cases hlt : i < σ.tasks.length
          · exact hothers i t hi ((List.getElem?_append_left hlt).symm.trans ht)
          · rw [List.getElem?_append_right (not_lt.1 hlt)] at ht
            obtain rfl := List.mem_singleton.1 (List.mem_of_getElem? ht)
            exact hnew
        · obtain rfl := List.mem_singleton.1 hold
          exact hnew
  | advance i =>
    cases p with
    | down s => exact ⟨h, C.K_refl s⟩
    | starting s q => exact Inv.startNext h.1 h.2
    | serving σ =>
      simp only [Service.step, Process.advance]
      split
      · exact ⟨h, C.K_refl σ.store⟩
      next t ht => exact h.advance ht fun hlock => hfinds t.op (by simp [Service.holder, hlock, ht])
  | interfere e =>
    have hU := C.interfere_U e p.store
    have hK : C.K p.store (M.interfere e p.store) := C.T_K (C.U_T hU)
    cases p with
    | down s => exact ⟨C.safe_U h hU, hK⟩
    | starting s q => exact ⟨⟨C.safe_U h.1 hU, h.2.stable hU⟩, hK⟩
    | serving σ =>
      refine ⟨?_, hK⟩
      rcases h with ⟨hlock, hsettled, hall⟩ | ⟨j, u, hlock, hu, hserving, hheld, hothers⟩
      · exact .inl ⟨hlock, C.settled_U hsettled hU, fun t ht => (hall t ht).stable (C.U_T hU)⟩
      · exact .inr ⟨j, u, hlock, hu, C.serving_U hserving hU, hheld.stable hU,
          fun i t hi ht => (hothers i t hi ht).stable (C.U_T hU)⟩
  | crash => exact ⟨C.safe_crash h.safe, C.crash_K p.store⟩

/-- **A lawful contract holds in every run in which the holders of the lock find what they assume.** -/
theorem run_inv (hlaw : C.Lawful) {p : Process Op S} {es : List (Happening Boot Op Env)} (h : C.Inv p)
    (hfinds : M.FindsRun C.Assumes p es) : C.Inv (M.run p es) ∧ C.K p.store (M.run p es).store := by
  induction es generalizing p with
  | nil => exact ⟨h, C.K_refl _⟩
  | cons e es ih =>
    obtain ⟨hnext, hstep⟩ := step_inv hlaw h hfinds.1
    obtain ⟨hlast, hrest⟩ := ih hnext hfinds.2
    exact ⟨hlast, C.K_trans hstep hrest⟩

/-- from one moment of a run to a later one -/
theorem run_between (hlaw : C.Lawful) {p : Process Op S} {es es' : List (Happening Boot Op Env)} (h : C.Inv p)
    (hfinds : M.FindsRun C.Assumes p es) (hes : es' <+: es) : C.K (M.run p es').store (M.run p es).store := by
  induction es' generalizing p es with
  | nil => exact (run_inv hlaw h hfinds).2
  | cons e es' ih =>
    obtain ⟨rest, rfl⟩ := hes
    exact ih (step_inv hlaw h hfinds.1).1 hfinds.2 ⟨rest, rfl⟩

end Contract

end Hyperlane.Interleaving
