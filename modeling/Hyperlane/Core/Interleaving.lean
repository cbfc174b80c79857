/-
Programs over a shared store, run by interleaved tasks with one lock.

A program is a tree of accesses to the store. A task performs one access at a time, and between two of them other tasks
and the environment may change the store. A section of a program can hold the lock; an operation marked `bare` writes
the store without it.

The invariant `J` of the store is handed over with the lock. The task that has it must keep a weaker `P` at every access
(`Owns`), against whatever the environment does, and give `J` back; a task that does not have it only reads (`Quiet`).
Then every run in which bare operations exclude the others keeps `P`, and `J` whenever nobody has the store.

Tasks that never take the lock can agree on a relation `R` instead: each access and each interference is an `R` step,
and each program keeps `P` against the `R` steps of the others (`Agreement`).

- `Keeps`: the rules for a piece of a program that has the store, by following its text.
- `Discipline.run_inv`: the invariant of a whole run.
- `Agreement.run_inv`: the same for tasks that agree on what all of them do.
-/
import Mathlib.Tactic

namespace Hyperlane.Interleaving

variable {S α β : Type}

inductive Prog (S α : Type) where
  | pure (a : α)
  /-- what the access makes of the store, and how the program goes on after what it saw -/
  | access (change : S → S) (next : S → Prog S α)
  | acquire (next : Prog S α)
  | release (next : Prog S α)

namespace Prog

def bind : Prog S α → (α → Prog S β) → Prog S β
  | .pure a, k => k a
  | .access change next, k => .access change fun s => (next s).bind k
  | .acquire next, k => .acquire (next.bind k)
  | .release next, k => .release (next.bind k)

instance : Monad (Prog S) where
  pure := .pure
  bind := .bind

def read (query : S → α) : Prog S α := .access id fun s => .pure (query s)

def write (change : S → S) : Prog S Unit := .access change fun _ => .pure ()

/-- the lock is held while the body runs -/
def locked (body : Prog S α) : Prog S α := .acquire (body.bind fun a => .release (.pure a))

theorem bind_assoc {γ : Type} (p : Prog S α) (f : α → Prog S β) (g : β → Prog S γ) :
    (p.bind f).bind g = p.bind fun a => (f a).bind g := by
  induction p with
  | pure a => rfl
  | access change next ih => exact congrArg _ (funext ih)
  | acquire next ih => exact congrArg _ ih
  | release next ih => exact congrArg _ ih

/-- the program never asks for the lock, and each of its accesses is a `K` step -/
def Steps (K : S → S → Prop) : Prog S α → Prop
  | .pure _ => True
  | .access change next => (∀ s, K s (change s)) ∧ ∀ s, Steps K (next s)
  | .acquire _ => False
  | .release _ => False

theorem Steps.bind {K : S → S → Prop} {p : Prog S α} {k : α → Prog S β} (h : p.Steps K) (hk : ∀ a, (k a).Steps K) :
    Steps K (p >>= k) := by
  induction p with
  | pure a => exact hk a
  | access change next ih => exact ⟨h.1, fun s => ih s (h.2 s)⟩
  | acquire next => exact h.elim
  | release next => exact h.elim

theorem steps_read {K : S → S → Prop} (hK : ∀ s, K s s) (query : S → α) : (read query).Steps K :=
  ⟨hK, fun _ => trivial⟩

theorem steps_write {K : S → S → Prop} {change : S → S} (h : ∀ s, K s (change s)) : (write change).Steps K :=
  ⟨h, fun _ => trivial⟩

/-- the program never writes -/
def ReadOnly (p : Prog S α) : Prop := p.Steps Eq

def finished : Prog S α → Bool
  | .pure _ => true
  | _ => false

def acquires : Prog S α → Bool
  | .acquire _ => true
  | _ => false

end Prog

/-! ## A piece of a program that has the store -/

section Keeps

variable {R G : S → S → Prop} {P : S → Prop} {Q : α → S → Prop}

/-- others change the store by `R` before each access, `P` holds there, the access is a `G` step, and the end has `Q` -/
def Keeps (R G : S → S → Prop) (P : S → Prop) (Q : α → S → Prop) : Prog S α → S → Prop
  | .pure a, s => Q a s
  | .access change next, s => ∀ s', R s s' → P s' ∧ G s' (change s') ∧ Keeps R G P Q (next s') (change s')
  | .acquire _, _ => False
  | .release _, _ => False

theorem Keeps.pure {a : α} {s : S} (h : Q a s) : Keeps R G P Q (Pure.pure a) s := h

theorem Keeps.mono {Q' : α → S → Prop} {p : Prog S α} {s : S} (h : Keeps R G P Q p s) (hq : ∀ a s, Q a s → Q' a s) :
    Keeps R G P Q' p s := by
  induction p generalizing s with
  | pure a => exact hq a s h
  | access change next ih =>
    intro s' hs'
    obtain ⟨hp, hg, hnext⟩ := h s' hs'
    exact ⟨hp, hg, ih s' hnext⟩
  | acquire next => exact h.elim
  | release next => exact h.elim

/-- what every step keeps holds at the end -/
theorem Keeps.frame {F : S → Prop} {p : Prog S α} {s : S} (h : Keeps R G P Q p s) (hR : ∀ s s', R s s' → F s → F s')
    (hG : ∀ s s', G s s' → F s → F s') (hF : F s) : Keeps R G P (fun a s => Q a s ∧ F s) p s := by
  induction p generalizing s with
  | pure a => exact ⟨h, hF⟩
  | access change next ih =>
    intro s' hs'
    obtain ⟨hp, hg, hnext⟩ := h s' hs'
    exact ⟨hp, hg, ih s' hnext (hG _ _ hg (hR _ _ hs' hF))⟩
  | acquire next => exact h.elim
  | release next => exact h.elim

theorem Keeps.bind {Q' : β → S → Prop} {p : Prog S α} {k : α → Prog S β} {s : S} (h : Keeps R G P Q p s)
    (hk : ∀ a s, Q a s → Keeps R G P Q' (k a) s) : Keeps R G P Q' (p >>= k) s := by
  induction p generalizing s with
  | pure a => exact hk a s h
  | access change next ih =>
    intro s' hs'
    obtain ⟨hp, hg, hnext⟩ := h s' hs'
    exact ⟨hp, hg, ih s' hnext⟩
  | acquire next => exact h.elim
  | release next => exact h.elim

/-- an assertion that `R` keeps and that gives `P` -/
structure Asserts (R : S → S → Prop) (A P : S → Prop) : Prop where
  stable : ∀ s s', A s → R s s' → A s'
  holds : ∀ s, A s → P s

namespace Asserts

variable {A : S → Prop}

theorem read (hA : Asserts R A P) (hG : ∀ s, G s s) (query : S → α) {s : S} (h : A s) :
    Keeps R G P (fun a s => A s ∧ a = query s) (.read query) s := by
  intro s' hs'
  have hA' := hA.stable s s' h hs'
  exact ⟨hA.holds s' hA', hG s', hA', rfl⟩

/-- a write leads from an assertion to the next one -/
theorem write {B : S → Prop} {change : S → S} (hA : Asserts R A P) (hG : ∀ s, A s → G s (change s))
    (hB : ∀ s, A s → B (change s)) {s : S} (h : A s) : Keeps R G P (fun _ s => B s) (.write change) s := by
  intro s' hs'
  have hA' := hA.stable s s' h hs'
  exact ⟨hA.holds s' hA', hG s' hA', hB s' hA'⟩

/-- a program of `K` steps keeps what they keep -/
theorem steps {K : S → S → Prop} (hA : Asserts R A P) (hK : ∀ s s', A s → K s s' → A s')
    (hG : ∀ s s', K s s' → G s s') {p : Prog S α} (hp : p.Steps K) {s : S} (h : A s) :
    Keeps R G P (fun _ s => A s) p s := by
  induction p generalizing s with
  | pure a => exact h
  | access change next ih =>
    intro s' hs'
    have hA' := hA.stable s s' h hs'
    exact ⟨hA.holds s' hA', hG _ _ (hp.1 s'), ih s' (hp.2 s') (hK _ _ hA' (hp.1 s'))⟩
  | acquire next => exact hp.elim
  | release next => exact hp.elim

end Asserts

/-- the moments of a run: after what the others do before an access, and after the access -/
def Prog.trace (others : ℕ → S → S) : ℕ → Prog S α → S → List S
  | _, .pure _, _ => []
  | k, .access change next, s =>
    let s' := others k s
    s' :: change s' :: trace others (k + 1) (next s') (change s')
  | k, .acquire next, s => trace others k next s
  | k, .release next, s => trace others k next s

/-- from each moment to the next one leads an access or what the others do -/
theorem Keeps.trace {others : ℕ → S → S} (hothers : ∀ k s, R s (others k s)) {p : Prog S α} {s : S}
    (h : Keeps R G P Q p s) (k : ℕ) : (s :: p.trace others k s).IsChain fun a b => R a b ∨ G a b := by
  induction p generalizing s k with
  | pure a => exact List.isChain_singleton s
  | access change next ih =>
    obtain ⟨-, hg, hnext⟩ := h _ (hothers k s)
    exact .cons_cons (Or.inl (hothers k s)) (.cons_cons (Or.inr hg) (ih _ hnext (k + 1)))
  | acquire next => exact h.elim
  | release next => exact h.elim

/-- `P` holds at every moment of a run -/
theorem Keeps.moments {others : ℕ → S → S} (hothers : ∀ k s, R s (others k s)) (hR : ∀ s, R s s)
    (hQ : ∀ a s, Q a s → P s) {p : Prog S α} {s : S} (h : Keeps R G P Q p s) (k : ℕ) :
    P s ∧ ∀ m ∈ p.trace others k s, P m := by
  induction p generalizing s k with
  | pure a => exact ⟨hQ a s h, fun _ hm => nomatch hm⟩
  | access change next ih =>
    obtain ⟨hp, -, hnext⟩ := h _ (hothers k s)
    obtain ⟨hchange, hrest⟩ := ih _ hnext (k + 1)
    refine ⟨(h s (hR s)).1, fun m hm => ?_⟩
    rcases List.mem_cons.1 hm with rfl | hm
    · exact hp
    rcases List.mem_cons.1 hm with rfl | hm
    · exact hchange
    · exact hrest m hm
  | acquire next => exact h.elim
  | release next => exact h.elim

/-- the last moment has `Q` -/
theorem Keeps.last {others : ℕ → S → S} (hothers : ∀ k s, R s (others k s)) {p : Prog S α} {s : S}
    (h : Keeps R G P Q p s) (k : ℕ) : ∃ a, Q a ((p.trace others k s).getLastD s) := by
  induction p generalizing s k with
  | pure a => exact ⟨a, h⟩
  | access change next ih =>
    obtain ⟨-, -, hnext⟩ := h _ (hothers k s)
    rw [Prog.trace, List.getLastD_cons, List.getLastD_cons]
    exact ih _ hnext (k + 1)
  | acquire next => exact h.elim
  | release next => exact h.elim

end Keeps

/-! ## Tasks -/

/-- the operations a system offers, what each does, and what the environment may do to the store -/
structure Machine (Op Env S : Type) where
  program : Op → Prog S Unit
  /-- whether the operation may be started -/
  ready : Op → S → Bool
  /-- the operation writes without the lock -/
  bare : Op → Bool
  interfere : Env → S → S

structure Task (Op S : Type) where
  op : Op
  program : Prog S Unit

structure System (Op S : Type) where
  store : S
  /-- the task that holds the lock -/
  lock : Option ℕ
  tasks : List (Task Op S)

inductive Event (Op Env : Type) where
  | start (op : Op)
  /-- the next access of a task, or its taking or giving back the lock -/
  | advance (i : ℕ)
  | interfere (e : Env)

variable {Op Env : Type} (M : Machine Op Env S)

namespace Machine

/-- a task takes its next step; it waits while another one holds the lock it asks for -/
def advance (σ : System Op S) (i : ℕ) (t : Task Op S) : System Op S :=
  match t.program with
  | .pure _ => σ
  | .access change next => ⟨change σ.store, σ.lock, σ.tasks.set i ⟨t.op, next σ.store⟩⟩
  | .acquire next => if σ.lock.isSome then σ else ⟨σ.store, some i, σ.tasks.set i ⟨t.op, next⟩⟩
  | .release next => ⟨σ.store, none, σ.tasks.set i ⟨t.op, next⟩⟩

def step (σ : System Op S) : Event Op Env → System Op S
  | .start op => if M.ready op σ.store then { σ with tasks := σ.tasks ++ [⟨op, M.program op⟩] } else σ
  | .advance i => match σ.tasks[i]? with
    | none => σ
    | some t => advance σ i t
  | .interfere e => { σ with store := M.interfere e σ.store }

def run (σ : System Op S) (es : List (Event Op Env)) : System Op S := es.foldl M.step σ

/-- no bare operation is on its way -/
def NoBare (σ : System Op S) : Prop := ∀ t ∈ σ.tasks, M.bare t.op = true → t.program.finished = true

/-- nobody has the store -/
def Idle (σ : System Op S) : Prop := σ.lock = none ∧ M.NoBare σ

/-- the task that has the store: it holds the lock, or it is a bare operation on its way -/
def Owner (σ : System Op S) (j : ℕ) (t : Task Op S) : Prop :=
  (σ.lock = some j ∧ M.bare t.op = false) ∨ (σ.lock = none ∧ M.bare t.op = true ∧ t.program.finished = false)

/-- a bare operation starts when nobody has the store, and the lock is not taken before it is through -/
def Serialised (σ : System Op S) : Event Op Env → Prop
  | .start op => M.bare op = true → M.Idle σ
  | .advance i => ∀ t ∈ σ.tasks[i]?, t.program.acquires = true → M.NoBare σ
  | .interfere _ => True

/-- every event of a run meets the condition in the state before it -/
def SerialRun (σ : System Op S) : List (Event Op Env) → Prop
  | [] => True
  | e :: es => M.Serialised σ e ∧ SerialRun (M.step σ e) es

instance (σ : System Op S) : Decidable (M.NoBare σ) := inferInstanceAs (Decidable (∀ t ∈ σ.tasks, _))

instance (σ : System Op S) : Decidable (M.Idle σ) := inferInstanceAs (Decidable (_ ∧ _))

instance (σ : System Op S) : (e : Event Op Env) → Decidable (M.Serialised σ e)
  | .start op => inferInstanceAs (Decidable (M.bare op = true → M.Idle σ))
  | .advance i => inferInstanceAs (Decidable (∀ t ∈ σ.tasks[i]?, t.program.acquires = true → M.NoBare σ))
  | .interfere _ => inferInstanceAs (Decidable True)

instance decidableSerialRun (σ : System Op S) : (es : List (Event Op Env)) → Decidable (M.SerialRun σ es)
  | [] => inferInstanceAs (Decidable True)
  | e :: es => @instDecidableAnd _ _ _ (decidableSerialRun (M.step σ e) es)

/-- without bare operations, the task that has the store holds the lock -/
theorem Owner.lock_of_noBare {M : Machine Op Env S} {σ : System Op S} {j : ℕ} {t : Task Op S} (h : M.Owner σ j t)
    (ht : σ.tasks[j]? = some t) (hnone : M.NoBare σ) : σ.lock = some j := by
  rcases h with ⟨hlock, -⟩ | ⟨-, hbare, hunfinished⟩
  · exact hlock
  · exact absurd (hunfinished.symm.trans (hnone t (List.mem_of_getElem? ht) hbare)) Bool.false_ne_true

end Machine

/-! ## The store changes hands with the lock -/

/-- what the tasks and the environment agree on -/
structure Discipline where
  /-- holds whenever nobody has the store -/
  J : S → Prop
  /-- holds at every moment of an operation that has the store -/
  P : Op → S → Prop
  /-- what the environment does -/
  R : S → S → Prop
  /-- what everybody does -/
  T : S → S → Prop
  R_refl : ∀ s, R s s
  R_trans : ∀ {a b c}, R a b → R b c → R a c
  R_T : ∀ {a b}, R a b → T a b
  T_trans : ∀ {a b c}, T a b → T b c → T a c
  interfere_R : ∀ e s, R s (M.interfere e s)
  J_R : ∀ {a b}, J a → R a b → J b
  J_P : ∀ {op s}, J s → P op s

namespace Discipline

variable {M} (D : Discipline M)

mutual

/-- a program that does not have the store: it reads until it takes the lock -/
def Quiet (op : Op) : Prog S Unit → S → Prop
  | .pure _, _ => True
  | .access change next, s => ∀ s', D.T s s' → change s' = s' ∧ Quiet op (next s') s'
  | .acquire next, s => ∀ s', D.T s s' → D.J s' → Owns op next s'
  | .release _, _ => False

/-- a program that has the store: it keeps `P` until it gives `J` back -/
def Owns (op : Op) : Prog S Unit → S → Prop
  | .pure _, s => D.J s
  | .access change next, s => ∀ s', D.R s s' → D.P op s' ∧ D.T s' (change s') ∧ Owns op (next s') (change s')
  | .acquire _, _ => False
  | .release next, s => M.bare op = false ∧ D.J s ∧ Quiet op next s

end

theorem Quiet.stable {op : Op} {p : Prog S Unit} {s s' : S} (h : D.Quiet op p s) (hs : D.T s s') : D.Quiet op p s' := by
  cases p with
  | pure a => trivial
  | access change next => exact fun s'' hs'' => h s'' (D.T_trans hs hs'')
  | acquire next => exact fun s'' hs'' => h s'' (D.T_trans hs hs'')
  | release next => exact h.elim

theorem Owns.stable {op : Op} {p : Prog S Unit} {s s' : S} (h : D.Owns op p s) (hs : D.R s s') : D.Owns op p s' := by
  cases p with
  | pure a => exact D.J_R h hs
  | access change next => exact fun s'' hs'' => h s'' (D.R_trans hs hs'')
  | acquire next => exact h.elim
  | release next => exact ⟨h.1, D.J_R h.2.1 hs, h.2.2.stable D (D.R_T hs)⟩

theorem Owns.holds {op : Op} {p : Prog S Unit} {s : S} (h : D.Owns op p s) : D.P op s := by
  cases p with
  | pure a => exact D.J_P h
  | access change next => exact (h s (D.R_refl s)).1
  | acquire next => exact h.elim
  | release next => exact D.J_P h.2.1

/-- a piece of a program that has the store, and what follows it -/
theorem Owns.of_keeps {op : Op} {Q : α → S → Prop} {p : Prog S α} {k : α → Prog S Unit} {s : S}
    (h : Keeps D.R D.T (D.P op) Q p s) (hk : ∀ a s, Q a s → D.Owns op (k a) s) : D.Owns op (p.bind k) s := by
  induction p generalizing s with
  | pure a => exact hk a s h
  | access change next ih =>
    intro s' hs'
    obtain ⟨hp, hg, hnext⟩ := h s' hs'
    exact ⟨hp, hg, ih s' hnext⟩
  | acquire next => exact h.elim
  | release next => exact h.elim

/-- a locked section whose body keeps the discipline may be run by everybody -/
theorem Quiet.locked {op : Op} {p : Prog S α} {k : α → Prog S Unit} {s : S} (hop : M.bare op = false)
    (h : ∀ s', D.T s s' → D.J s' → Keeps D.R D.T (D.P op) (fun a s => D.J s ∧ D.Quiet op (k a) s) p s') :
    D.Quiet op (Prog.locked p >>= k) s := by
  intro s' hs' hj
  rw [Prog.bind_assoc]
  exact Owns.of_keeps D (h s' hs' hj) fun a s hend => ⟨hop, hend⟩

/-- reading before going on -/
theorem Quiet.readOnly {op : Op} {p : Prog S α} {k : α → Prog S Unit} {s : S} (hp : p.ReadOnly)
    (h : ∀ a s', D.T s s' → D.Quiet op (k a) s') : D.Quiet op (p >>= k) s := by
  induction p generalizing s with
  | pure a => exact h a s (D.R_T (D.R_refl s))
  | access change next ih =>
    intro s' hs'
    exact ⟨(hp.1 s').symm, ih s' (hp.2 s') fun a s'' hs'' => h a s'' (D.T_trans hs' hs'')⟩
  | acquire next => exact hp.elim
  | release next => exact hp.elim

/-- what a task that does not have the store may be doing -/
def Bystander (t : Task Op S) (s : S) : Prop :=
  (M.bare t.op = true → t.program.finished = true) ∧ D.Quiet t.op t.program s

/-- nobody has the store, or one task has it -/
def Inv (σ : System Op S) : Prop :=
  (σ.lock = none ∧ D.J σ.store ∧ ∀ (i : ℕ) t, σ.tasks[i]? = some t → D.Bystander t σ.store) ∨
  ∃ (j : ℕ) (t : Task Op S), σ.tasks[j]? = some t ∧ M.Owner σ j t ∧ D.Owns t.op t.program σ.store ∧
    ∀ (i : ℕ) t', i ≠ j → σ.tasks[i]? = some t' → D.Bystander t' σ.store

theorem Bystander.stable {t : Task Op S} {s s' : S} (h : D.Bystander t s) (hs : D.T s s') : D.Bystander t s' :=
  ⟨h.1, h.2.stable D hs⟩

theorem T_refl (s : S) : D.T s s := D.R_T (D.R_refl s)

/-- a task that does not have the store moves on without it -/
theorem others_set {tasks : List (Task Op S)} {j i : ℕ} {t : Task Op S} {s s' : S}
    (h : ∀ i t', i ≠ j → tasks[i]? = some t' → D.Bystander t' s) (hs : D.T s s') (ht : i = j ∨ D.Bystander t s') :
    ∀ i' t', i' ≠ j → (tasks.set i t)[i']? = some t' → D.Bystander t' s' := by
  intro i' t' hne hget
  by_cases hi : i = i'
  · subst hi
    rw [List.getElem?_set_self'] at hget
    obtain ⟨t'', -, rfl⟩ := Option.map_eq_some_iff.1 hget
    exact ht.resolve_left hne
  · rw [List.getElem?_set_ne hi] at hget
    exact (h i' t' hne hget).stable D hs

/-- after the last access of a bare operation nobody has the store -/
theorem Inv.of_owns {σ : System Op S} {j : ℕ} {t : Task Op S} (ht : σ.tasks[j]? = some t)
    (hlock : (σ.lock = some j ∧ M.bare t.op = false) ∨ (σ.lock = none ∧ M.bare t.op = true))
    (hown : D.Owns t.op t.program σ.store)
    (hothers : ∀ i t', i ≠ j → σ.tasks[i]? = some t' → D.Bystander t' σ.store) : D.Inv σ := by
  rcases hlock with hlock | ⟨hlock, hbare⟩
  · exact Or.inr ⟨j, t, ht, Or.inl hlock, hown, hothers⟩
  · cases hfin : t.program.finished with
    | false => exact Or.inr ⟨j, t, ht, Or.inr ⟨hlock, hbare, hfin⟩, hown, hothers⟩
    | true =>
      obtain ⟨op, program⟩ := t
      cases program with
      | pure a =>
        refine Or.inl ⟨hlock, hown, fun i t' hget => ?_⟩
        by_cases hi : i = j
        · subst hi
          obtain rfl := Option.some.inj (ht.symm.trans hget)
          exact ⟨fun _ => rfl, trivial⟩
        · exact hothers i t' hi hget
      | access change next => exact nomatch hfin
      | acquire next => exact nomatch hfin
      | release next => exact nomatch hfin

theorem step_inv_advance {σ : System Op S} {i : ℕ} {t : Task Op S} (h : D.Inv σ) (ht : σ.tasks[i]? = some t)
    (hserial : t.program.acquires = true → M.NoBare σ) : D.Inv (Machine.advance σ i t) := by
  have hlen : i < σ.tasks.length := (List.getElem?_eq_some_iff.1 ht).1
  obtain ⟨op, program⟩ := t
  rcases h with ⟨hlock, hj, hall⟩ | ⟨j, t', ht', howner, hown, hothers⟩
  · -- nobody has the store: the task reads on, or takes the lock
    obtain ⟨hbare, hquiet⟩ := hall i _ ht
    cases program with
    | pure a => exact Or.inl ⟨hlock, hj, hall⟩
    | access change next =>
      obtain ⟨hsame, hnext⟩ := hquiet σ.store (D.T_refl _)
      simp only [Machine.advance]
      rw [hsame]
      refine Or.inl ⟨hlock, hj, fun i' t' hget => ?_⟩
      by_cases hi : i = i'
      · subst hi
        rw [List.getElem?_set_self hlen] at hget
        obtain rfl := Option.some.inj hget
        exact ⟨fun hb => (nomatch hbare hb), hnext⟩
      · rw [List.getElem?_set_ne hi] at hget
        exact hall i' t' hget
    | acquire next =>
      have hnb : M.bare op = false := by
        by_contra hb
        exact nomatch hbare (eq_true_of_ne_false hb)
      simp only [Machine.advance, hlock, Option.isSome_none, Bool.false_eq_true, ↓reduceIte]
      refine Or.inr ⟨i, ⟨op, next⟩, List.getElem?_set_self hlen, Or.inl ⟨rfl, hnb⟩, hquiet _ (D.T_refl _) hj, ?_⟩
      exact D.others_set (fun i' t' _ hget => hall i' t' hget) (D.T_refl _) (Or.inl rfl)
    | release next => exact hquiet.elim
  · by_cases hi : i = j
    · -- the task that has the store
      subst hi
      obtain rfl := Option.some.inj (ht.symm.trans ht')
      cases program with
      | pure a => exact Or.inr ⟨i, _, ht', howner, hown, hothers⟩
      | access change next =>
        obtain ⟨-, hT, hnext⟩ := hown σ.store (D.R_refl _)
        refine Inv.of_owns D (List.getElem?_set_self hlen) (howner.imp id fun h => ⟨h.1, h.2.1⟩) hnext ?_
        exact D.others_set hothers hT (Or.inl rfl)
      | acquire next => exact hown.elim
      | release next =>
        obtain ⟨hnb, hj, hquiet⟩ := hown
        refine Or.inl ⟨rfl, hj, fun i' t' hget => ?_⟩
        by_cases hi : i = i'
        · subst hi
          simp only [Machine.advance] at hget
          rw [List.getElem?_set_self hlen] at hget
          obtain rfl := Option.some.inj hget
          exact ⟨fun hb => absurd (hnb.symm.trans hb) Bool.false_ne_true, hquiet⟩
        · exact D.others_set hothers (D.T_refl _) (Or.inl rfl) i' t' (Ne.symm hi) hget
    · -- another one
      obtain ⟨hbare, hquiet⟩ := hothers i _ hi ht
      cases program with
      | pure a => exact Or.inr ⟨j, t', ht', howner, hown, hothers⟩
      | access change next =>
        obtain ⟨hsame, hnext⟩ := hquiet σ.store (D.T_refl _)
        simp only [Machine.advance]
        rw [hsame]
        refine Or.inr ⟨j, t', (List.getElem?_set_ne hi).trans ht', howner, hown, ?_⟩
        exact D.others_set hothers (D.T_refl _) (Or.inr ⟨fun hb => (nomatch hbare hb), hnext⟩)
      | acquire next =>
        have hlock := howner.lock_of_noBare ht' (hserial rfl)
        simp only [Machine.advance, hlock, Option.isSome_some, ↓reduceIte]
        exact Or.inr ⟨j, t', ht', howner, hown, hothers⟩
      | release next => exact hquiet.elim

/-- every operation keeps to the discipline -/
structure Lawful : Prop where
  quiet : ∀ op s, M.ready op s = true → M.bare op = false → D.Quiet op (M.program op) s
  owns : ∀ op s, M.ready op s = true → M.bare op = true → D.J s → D.Owns op (M.program op) s

variable {D}

theorem step_inv_start (hlaw : D.Lawful) {σ : System Op S} {op : Op} (h : D.Inv σ) (hready : M.ready op σ.store = true)
    (hserial : M.bare op = true → M.Idle σ) : D.Inv { σ with tasks := σ.tasks ++ [⟨op, M.program op⟩] } := by
  have hnew : (σ.tasks ++ [⟨op, M.program op⟩])[σ.tasks.length]? = some ⟨op, M.program op⟩ :=
    List.getElem?_concat_length
  have hget : ∀ {i : ℕ} {t}, i ≠ σ.tasks.length → (σ.tasks ++ [⟨op, M.program op⟩])[i]? = some t →
      σ.tasks[i]? = some t := by
    intro i t hne hget
    have hlt : i < σ.tasks.length := by
      have := (List.getElem?_eq_some_iff.1 hget).1
      rw [List.length_append, List.length_singleton] at this
      exact lt_of_le_of_ne (Nat.lt_succ_iff.1 this) hne
    rwa [List.getElem?_append_left hlt] at hget
  cases hbare : M.bare op with
  | true =>
    obtain ⟨hlock, hnone⟩ := hserial hbare
    rcases h with ⟨-, hj, hall⟩ | ⟨j, t, ht, howner, -, -⟩
    · exact Inv.of_owns D hnew (Or.inr ⟨hlock, hbare⟩) (hlaw.owns op _ hready hbare hj)
        fun i t hi ht => hall i t (hget hi ht)
    · exact nomatch hlock.symm.trans (howner.lock_of_noBare ht hnone)
  | false =>
    have hby : D.Bystander ⟨op, M.program op⟩ σ.store :=
      ⟨fun hb => absurd (hbare.symm.trans hb) Bool.false_ne_true, hlaw.quiet op _ hready hbare⟩
    rcases h with ⟨hlock, hj, hall⟩ | ⟨j, t, ht, howner, hown, hothers⟩
    · refine Or.inl ⟨hlock, hj, fun i t ht => ?_⟩
      by_cases hi : i = σ.tasks.length
      · subst hi
        obtain rfl := Option.some.inj (hnew.symm.trans ht)
        exact hby
      · exact hall i t (hget hi ht)
    · have hlt : j < σ.tasks.length := (List.getElem?_eq_some_iff.1 ht).1
      refine Or.inr ⟨j, t, (List.getElem?_append_left hlt).trans ht, howner, hown, fun i t' hne ht' => ?_⟩
      by_cases hi : i = σ.tasks.length
      · subst hi
        obtain rfl := Option.some.inj (hnew.symm.trans ht')
        exact hby
      · exact hothers i t' hne (hget hi ht')

theorem step_inv (hlaw : D.Lawful) {σ : System Op S} {e : Event Op Env} (h : D.Inv σ) (hserial : M.Serialised σ e) :
    D.Inv (M.step σ e) := by
  cases e with
  | start op =>
    simp only [Machine.step]
    split
    next hready => exact step_inv_start hlaw h hready hserial
    next => exact h
  | advance i =>
    simp only [Machine.step]
    split
    next => exact h
    next t ht => exact D.step_inv_advance h ht (hserial t ht)
  | interfere e =>
    have hR := D.interfere_R e σ.store
    rcases h with ⟨hlock, hj, hall⟩ | ⟨j, t, ht, howner, hown, hothers⟩
    · exact Or.inl ⟨hlock, D.J_R hj hR, fun i t ht => (hall i t ht).stable D (D.R_T hR)⟩
    · exact Or.inr ⟨j, t, ht, howner, hown.stable D hR, fun i t' hi ht' => (hothers i t' hi ht').stable D (D.R_T hR)⟩

/-- **Serialised runs keep the discipline.** -/
theorem run_inv (hlaw : D.Lawful) {σ : System Op S} {es : List (Event Op Env)} (h : D.Inv σ)
    (hserial : M.SerialRun σ es) : D.Inv (M.run σ es) := by
  induction es generalizing σ with
  | nil => exact h
  | cons e es ih => exact ih (step_inv hlaw h hserial.1) hserial.2

/-- a system without tasks -/
theorem Inv.initial {s : S} (h : D.J s) : D.Inv ⟨s, none, []⟩ := Or.inl ⟨rfl, h, fun _ _ ht => nomatch ht⟩

/-- `J` holds, or `P` of the operation that has the store -/
theorem Inv.holds {σ : System Op S} (h : D.Inv σ) :
    D.J σ.store ∨ ∃ (j : ℕ) (t : Task Op S), σ.tasks[j]? = some t ∧ M.Owner σ j t ∧ D.P t.op σ.store := by
  rcases h with ⟨-, hj, -⟩ | ⟨j, t, ht, howner, hown, -⟩
  · exact Or.inl hj
  · exact Or.inr ⟨j, t, ht, howner, hown.holds D⟩

end Discipline

/-! ## Tasks that never take the lock -/

/-- what the tasks and the environment of some operations and interferences agree on -/
structure Agreement where
  /-- the operations and the interferences that take part -/
  Takes : Event Op Env → Prop
  P : S → Prop
  R : S → S → Prop
  R_refl : ∀ s, R s s
  R_trans : ∀ {a b c}, R a b → R b c → R a c
  P_R : ∀ {a b}, P a → R a b → P b
  interfere_R : ∀ e s, Takes (.interfere e) → P s → R s (M.interfere e s)
  keeps : ∀ op s, Takes (.start op) → P s → Keeps R R P (fun _ _ => True) (M.program op) s

namespace Agreement

variable {M} (A : Agreement M)

/-- the store is in order, and every task goes on as agreed -/
def Inv (σ : System Op S) : Prop := A.P σ.store ∧ ∀ t ∈ σ.tasks, Keeps A.R A.R A.P (fun _ _ => True) t.program σ.store

theorem stable {p : Prog S Unit} {s s' : S} (h : Keeps A.R A.R A.P (fun _ _ => True) p s) (hs : A.R s s') :
    Keeps A.R A.R A.P (fun _ _ => True) p s' := by
  cases p with
  | pure a => trivial
  | access change next => exact fun s'' hs'' => h s'' (A.R_trans hs hs'')
  | acquire next => exact h.elim
  | release next => exact h.elim

variable {A}

theorem step_inv {σ : System Op S} {e : Event Op Env} (h : A.Inv σ) (he : A.Takes e) : A.Inv (M.step σ e) := by
  obtain ⟨hP, htasks⟩ := h
  cases e with
  | start op =>
    simp only [Machine.step]
    split
    · refine ⟨hP, fun t ht => ?_⟩
      rcases List.mem_append.1 ht with ht | ht
      · exact htasks t ht
      · obtain rfl := List.mem_singleton.1 ht
        exact A.keeps op _ he hP
    · exact ⟨hP, htasks⟩
  | advance i =>
    simp only [Machine.step]
    split
    · exact ⟨hP, htasks⟩
    next t ht =>
      have hkeeps := htasks t (List.mem_of_getElem? ht)
      obtain ⟨op, program⟩ := t
      cases program with
      | pure a => exact ⟨hP, htasks⟩
      | access change next =>
        obtain ⟨-, hR, hnext⟩ := hkeeps σ.store (A.R_refl _)
        refine ⟨A.P_R hP hR, fun t' ht' => ?_⟩
        rcases List.mem_or_eq_of_mem_set ht' with ht' | rfl
        · exact A.stable (htasks t' ht') hR
        · exact hnext
      | acquire next => exact hkeeps.elim
      | release next => exact hkeeps.elim
  | interfere e =>
    have hR := A.interfere_R e σ.store he hP
    exact ⟨A.P_R hP hR, fun t ht => A.stable (htasks t ht) hR⟩

/-- **Runs keep the agreement.** -/
theorem run_inv {σ : System Op S} {es : List (Event Op Env)} (h : A.Inv σ) (hes : ∀ e ∈ es, A.Takes e) :
    A.Inv (M.run σ es) := by
  induction es generalizing σ with
  | nil => exact h
  | cons e es ih =>
    exact ih (step_inv h (hes e List.mem_cons_self)) fun e' he' => hes e' (List.mem_cons_of_mem e he')

/-- a system without tasks -/
theorem Inv.initial {s : S} (h : A.P s) : A.Inv ⟨s, none, []⟩ := ⟨h, fun _ ht => nomatch ht⟩

end Agreement

end Hyperlane.Interleaving
