/-
Tasks without a lock, of which the bare ones run one at a time, and crashes that drop them all.

A pact says what everybody does (`R`) and what is done by those that are not bare (`F`). A task that is not bare goes on
against the `R` steps of the others, a bare one against their `F` steps only, since no other bare task is on its way.

- `Triple`: what a program that may fail does and returns, with the rules that follow its text and those for facts.
- `step_inv`: a step keeps the store in order, every task on its way, and at most one bare task unfinished.
- `run_inv`, `run_between`: the same for a run in which bare operations wait for their turn, and what is done in it.
-/
import Hyperlane.Core.Interleaving

namespace Hyperlane.Interleaving

variable {S Op Env : Type} (M : Machine Op Env S)

/-! ## Programs that may fail -/

section Triple

variable {E α β : Type} {X G : S → S → Prop} {P Φ Φ' : S → Prop} {Ψ : α → S → Prop} {Θ : β → S → Prop}

/-- from `Φ`, against `X` steps, each access is a `G` step, and what is returned has `Ψ` -/
def Triple (X G : S → S → Prop) (P Φ : S → Prop) (p : ExceptT E (Prog S) α) (Ψ : α → S → Prop) : Prop :=
  ∀ s, P s → Φ s → Keeps X G P (fun r s => P s ∧ ∀ a, r = .ok a → Ψ a s) p.run s

/-- what others do leaves a fact -/
structure Stable (X : S → S → Prop) (P Φ : S → Prop) : Prop where
  safe : ∀ s s', P s → X s s' → P s'
  fact : ∀ s s', P s → Φ s → X s s' → Φ s'

theorem Stable.and {Φ₂ : S → Prop} (h : Stable X P Φ) (h₂ : Stable X P Φ₂) : Stable X P fun s => Φ s ∧ Φ₂ s where
  safe := h.safe
  fact s s' hP hΦ hX := ⟨h.fact s s' hP hΦ.1 hX, h₂.fact s s' hP hΦ.2 hX⟩

theorem triple_pure {a : α} (h : ∀ s, P s → Φ s → Ψ a s) : Triple (E := E) X G P Φ (pure a) Ψ := by
  intro s hP hΦ
  refine ⟨hP, fun b hb => ?_⟩
  obtain rfl := Except.ok.inj hb
  exact h s hP hΦ

theorem triple_throw {e : E} : Triple X G P Φ (throw e : ExceptT E (Prog S) α) Ψ := fun _ hP _ => ⟨hP, fun _ h => nomatch h⟩

theorem triple_throw_bind {e : E} {k : α → ExceptT E (Prog S) β} : Triple X G P Φ (throw e >>= k) Θ :=
  fun _ hP _ => ⟨hP, fun _ h => nomatch h⟩

theorem Triple.bind {p : ExceptT E (Prog S) α} {k : α → ExceptT E (Prog S) β} (h : Triple X G P Φ p Ψ)
    (hk : ∀ a, Triple X G P (Ψ a) (k a) Θ) : Triple X G P Φ (p >>= k) Θ := by
  intro s hP hΦ
  refine Keeps.bind (h s hP hΦ) fun r s' hr => ?_
  cases r with
  | ok a => exact hk a s' hr.1 (hr.2 a rfl)
  | error e => exact ⟨hr.1, fun _ h => nomatch h⟩

theorem Triple.weaken {Ψ' : α → S → Prop} {p : ExceptT E (Prog S) α} (h : Triple X G P Φ p Ψ)
    (hΦ : ∀ s, P s → Φ' s → Φ s) (hΨ : ∀ a s, P s → Ψ a s → Ψ' a s) : Triple X G P Φ' p Ψ' := fun s hP h' =>
  (h s hP (hΦ s hP h')).mono fun _ s' hr => ⟨hr.1, fun a ha => hΨ a s' hr.1 (hr.2 a ha)⟩

theorem Triple.map {f : α → β} {p : ExceptT E (Prog S) α} (h : Triple X G P Φ p fun a => Θ (f a)) :
    Triple X G P Φ (f <$> p) Θ := by
  intro s hP hΦ
  refine Keeps.bind (h s hP hΦ) fun r s' hr => ?_
  cases r with
  | ok a =>
    refine ⟨hr.1, fun b hb => ?_⟩
    obtain rfl := Except.ok.inj hb
    exact hr.2 a rfl
  | error e => exact ⟨hr.1, fun _ h => nomatch h⟩

theorem Triple.of_fact {φ : Prop} {p : ExceptT E (Prog S) α} (h : φ → Triple X G P Φ p Ψ) :
    Triple X G P (fun s => φ ∧ Φ s) p Ψ := fun s hP hΦ => h hΦ.1 s hP hΦ.2

theorem Triple.of_exists {ι : Type} {Φι : ι → S → Prop} {p : ExceptT E (Prog S) α}
    (h : ∀ i, Triple X G P (Φι i) p Ψ) : Triple X G P (fun s => ∃ i, Φι i s) p Ψ := fun s hP ⟨i, hΦ⟩ => h i s hP hΦ

/-- one access -/
theorem triple_access {change : S → S} {answer : S → Except E α} (hX : Stable X P Φ)
    (hG : ∀ s, P s → Φ s → G s (change s) ∧ P (change s))
    (hΨ : ∀ s a, P s → Φ s → answer s = .ok a → Ψ a (change s)) :
    Triple X G P Φ (ExceptT.mk (.access change fun s => .pure (answer s))) Ψ := by
  intro s hP hΦ s' hs'
  have hP' := hX.safe s s' hP hs'
  have hΦ' := hX.fact s s' hP hΦ hs'
  obtain ⟨hstep, hafter⟩ := hG s' hP' hΦ'
  exact ⟨hP', hstep, hafter, fun a ha => hΨ s' a hP' hΦ' ha⟩

theorem triple_read {answer : S → Except E α} (hX : Stable X P Φ) (hG : ∀ s, G s s)
    (hΨ : ∀ s a, P s → Φ s → answer s = .ok a → Ψ a s) : Triple X G P Φ (ExceptT.mk (.read answer)) Ψ :=
  triple_access hX (fun s hP _ => ⟨hG s, hP⟩) hΨ

end Triple

/-! ## Runs -/

namespace Machine

/-- an event, or a crash -/
def stepOrCrash (σ : System Op S) : Option (Event Op Env) → System Op S
  | some e => M.step σ e
  | none => ⟨σ.store, none, []⟩

def crashRun (σ : System Op S) (es : List (Option (Event Op Env))) : System Op S := es.foldl M.stepOrCrash σ

/-- a bare operation starts when none is on its way -/
def InTurn (σ : System Op S) : Option (Event Op Env) → Prop
  | some (.start op) => M.bare op = true → M.NoBare σ
  | _ => True

def InTurnRun (σ : System Op S) : List (Option (Event Op Env)) → Prop
  | [] => True
  | e :: es => M.InTurn σ e ∧ InTurnRun (M.stepOrCrash σ e) es

instance (σ : System Op S) : (e : Option (Event Op Env)) → Decidable (M.InTurn σ e)
  | some (.start op) => inferInstanceAs (Decidable (M.bare op = true → M.NoBare σ))
  | some (.advance _) => inferInstanceAs (Decidable True)
  | some (.interfere _) => inferInstanceAs (Decidable True)
  | none => inferInstanceAs (Decidable True)

instance decidableInTurnRun (σ : System Op S) : (es : List (Option (Event Op Env))) → Decidable (M.InTurnRun σ es)
  | [] => inferInstanceAs (Decidable True)
  | e :: es => @instDecidableAnd _ _ _ (decidableInTurnRun (M.stepOrCrash σ e) es)

end Machine

/-- what the tasks and the environment agree on -/
structure Pact where
  P : S → Prop
  /-- what is done at all -/
  R : S → S → Prop
  /-- what is done by those that are not bare -/
  F : S → S → Prop
  R_refl : ∀ s, R s s
  F_refl : ∀ s, F s s
  R_trans : ∀ {a b c}, R a b → R b c → R a c
  F_trans : ∀ {a b c}, F a b → F b c → F a c
  F_R : ∀ {a b}, F a b → R a b
  P_R : ∀ {a b}, P a → R a b → P b
  interfere_F : ∀ e s, P s → F s (M.interfere e s)
  others : ∀ op s, M.bare op = false → P s → Keeps R F P (fun _ _ => True) (M.program op) s
  bare : ∀ op s, M.bare op = true → P s → Keeps F R P (fun _ _ => True) (M.program op) s

namespace Pact

variable {M} (A : Pact M)

/-- the task goes on as agreed -/
def Owes (t : Task Op S) (s : S) : Prop :=
  if M.bare t.op then Keeps A.F A.R A.P (fun _ _ => True) t.program s
  else Keeps A.R A.F A.P (fun _ _ => True) t.program s

/-- a bare task on its way -/
def Pending (t : Task Op S) : Prop := M.bare t.op = true ∧ t.program.finished = false

/-- the store is in order, every task goes on as agreed, and one bare task at most is on its way -/
structure Inv (σ : System Op S) : Prop where
  safe : A.P σ.store
  owes : ∀ t ∈ σ.tasks, A.Owes t σ.store
  one : ∀ (i j : ℕ) (t u : Task Op S), σ.tasks[i]? = some t → σ.tasks[j]? = some u → Pending (M := M) t →
    Pending (M := M) u → i = j

variable {A}

theorem owes_bare {t : Task Op S} {s : S} (hbare : M.bare t.op = true) :
    A.Owes t s ↔ Keeps A.F A.R A.P (fun _ _ => True) t.program s := by
  rw [Owes, hbare, if_pos rfl]

theorem owes_other {t : Task Op S} {s : S} (hbare : M.bare t.op = false) :
    A.Owes t s ↔ Keeps A.R A.F A.P (fun _ _ => True) t.program s := by
  rw [Owes, hbare, if_neg Bool.false_ne_true]

theorem keeps_stable {R G : S → S → Prop} {P : S → Prop} (htrans : ∀ a b c, R a b → R b c → R a c)
    {p : Prog S Unit} {s s' : S} (h : Keeps R G P (fun _ _ => True) p s) (hs : R s s') :
    Keeps R G P (fun _ _ => True) p s' := by
  cases p with
  | pure a => trivial
  | access change next => exact fun s'' hs'' => h s'' (htrans _ _ _ hs hs'')
  | acquire next => exact h.elim
  | release next => exact h.elim

theorem Owes.stable_F {t : Task Op S} {s s' : S} (h : A.Owes t s) (hs : A.F s s') : A.Owes t s' := by
  cases hbare : M.bare t.op with
  | true => exact (owes_bare hbare).2 (keeps_stable (R := A.F) (fun _ _ _ => A.F_trans) ((owes_bare hbare).1 h) hs)
  | false =>
    have hR : A.R s s' := A.F_R hs
    exact (owes_other hbare).2 (keeps_stable (R := A.R) (fun _ _ _ => A.R_trans) ((owes_other hbare).1 h) hR)

/-- a step of any kind leaves the tasks on their way, but for bare ones -/
theorem Owes.stable_R {t : Task Op S} {s s' : S} (h : A.Owes t s) (ht : ¬ Pending (M := M) t) (hs : A.R s s') :
    A.Owes t s' := by
  cases hbare : M.bare t.op with
  | true =>
    obtain ⟨op, p⟩ := t
    cases p with
    | pure a => exact (owes_bare hbare).2 trivial
    | access change next => exact (ht ⟨hbare, rfl⟩).elim
    | acquire next => exact (ht ⟨hbare, rfl⟩).elim
    | release next => exact (ht ⟨hbare, rfl⟩).elim
  | false => exact (owes_other hbare).2 (keeps_stable (R := A.R) (fun _ _ _ => A.R_trans) ((owes_other hbare).1 h) hs)

/-- one task has gone on, with its operation -/
theorem Inv.set {σ : System Op S} (h : A.Inv σ) {i : ℕ} {op : Op} {p q : Prog S Unit} {s : S} {lock : Option ℕ}
    (ht : σ.tasks[i]? = some ⟨op, p⟩) (hp : p.finished = false) (hP : A.P s) (hq : A.Owes ⟨op, q⟩ s)
    (hothers : ∀ (j : ℕ) (t : Task Op S), j ≠ i → σ.tasks[j]? = some t → A.Owes t s) :
    A.Inv ⟨s, lock, σ.tasks.set i ⟨op, q⟩⟩ where
  safe := hP
  owes t hmem := by
    obtain ⟨j, hj⟩ := List.mem_iff_getElem?.1 hmem
    by_cases hij : i = j
    · subst hij
      rw [List.getElem?_set_self (List.getElem?_eq_some_iff.1 ht).1] at hj
      obtain rfl := Option.some.inj hj
      exact hq
    · rw [List.getElem?_set_ne hij] at hj
      exact hothers j t (Ne.symm hij) hj
  one j k t u hj hk htp hup := by
    -- a bare task that is on its way now was on its way before
    have hold : ∀ (j : ℕ) (t : Task Op S), (σ.tasks.set i ⟨op, q⟩)[j]? = some t → Pending (M := M) t →
        ∃ t', σ.tasks[j]? = some t' ∧ Pending (M := M) t' := by
      intro j t hj htp
      by_cases hij : i = j
      · subst hij
        rw [List.getElem?_set_self (List.getElem?_eq_some_iff.1 ht).1] at hj
        obtain rfl := Option.some.inj hj
        exact ⟨⟨op, p⟩, ht, htp.1, hp⟩
      · rw [List.getElem?_set_ne hij] at hj
        exact ⟨t, hj, htp⟩
    obtain ⟨t', hj', htp'⟩ := hold j t hj htp
    obtain ⟨u', hk', hup'⟩ := hold k u hk hup
    exact h.one j k t' u' hj' hk' htp' hup'

theorem Inv.advance {σ : System Op S} (h : A.Inv σ) {i : ℕ} {t : Task Op S} (ht : σ.tasks[i]? = some t) :
    A.Inv (Machine.advance σ i t) ∧ A.R σ.store (Machine.advance σ i t).store := by
  have howes := h.owes t (List.mem_of_getElem? ht)
  obtain ⟨op, p⟩ := t
  cases hbare : M.bare op with
  | true =>
    rw [owes_bare hbare] at howes
    cases p with
    | pure a => exact ⟨h, A.R_refl _⟩
    | access change next =>
      obtain ⟨-, hR, hnext⟩ := howes σ.store (A.F_refl _)
      refine ⟨h.set ht rfl (A.P_R h.safe hR) ((owes_bare hbare).2 hnext) fun j u hj hu => ?_, hR⟩
      refine (h.owes u (List.mem_of_getElem? hu)).stable_R (fun hpending => hj ?_) hR
      exact h.one j i u _ hu ht hpending ⟨hbare, rfl⟩
    | acquire next => exact howes.elim
    | release next => exact howes.elim
  | false =>
    rw [owes_other hbare] at howes
    cases p with
    | pure a => exact ⟨h, A.R_refl _⟩
    | access change next =>
      obtain ⟨-, hF, hnext⟩ := howes σ.store (A.R_refl _)
      refine ⟨h.set ht rfl (A.P_R h.safe (A.F_R hF)) ((owes_other hbare).2 hnext) fun j u _ hu => ?_, A.F_R hF⟩
      exact (h.owes u (List.mem_of_getElem? hu)).stable_F hF
    | acquire next => exact howes.elim
    | release next => exact howes.elim

theorem Inv.start {σ : System Op S} (h : A.Inv σ) {op : Op} (hturn : M.bare op = true → M.NoBare σ) :
    A.Inv { σ with tasks := σ.tasks ++ [⟨op, M.program op⟩] } where
  safe := h.safe
  owes t ht := by
    rcases List.mem_append.1 ht with ht | ht
    · exact h.owes t ht
    · obtain rfl := List.mem_singleton.1 ht
      cases hbare : M.bare op with
      | true => exact (owes_bare hbare).2 (A.bare op _ hbare h.safe)
      | false => exact (owes_other hbare).2 (A.others op _ hbare h.safe)
  one i j t u hi hj htp hup := by
    -- a bare task on its way is an old one, or the new one when there is none else
    have hcases : ∀ (i : ℕ) (t : Task Op S), (σ.tasks ++ [⟨op, M.program op⟩])[i]? = some t → Pending (M := M) t →
        σ.tasks[i]? = some t ∨ (i = σ.tasks.length ∧ M.bare op = true) := by
      intro i t hi htp
      by_cases hlt : i < σ.tasks.length
      · exact .inl ((List.getElem?_append_left hlt).symm.trans hi)
      · rw [List.getElem?_append_right (not_lt.1 hlt)] at hi
        obtain rfl := List.mem_singleton.1 (List.mem_of_getElem? hi)
        have hzero := (List.getElem?_eq_some_iff.1 hi).1
        simp only [List.length_singleton] at hzero
        exact .inr ⟨by omega, htp.1⟩
    have hnone : M.bare op = true → ∀ (i : ℕ) (t : Task Op S), σ.tasks[i]? = some t → ¬ Pending (M := M) t := by
      intro hbare i t hi htp
      exact absurd ((hturn hbare t (List.mem_of_getElem? hi) htp.1).symm.trans htp.2) (by decide)
    rcases hcases i t hi htp with hi | ⟨hi, hbare⟩
    · rcases hcases j u hj hup with hj | ⟨-, hbare⟩
      · exact h.one i j t u hi hj htp hup
      · exact (hnone hbare i t hi htp).elim
    · rcases hcases j u hj hup with hj | ⟨hj, -⟩
      · exact (hnone hbare j u hj hup).elim
      · exact hi.trans hj.symm

/-- a system without tasks -/
theorem Inv.initial {s : S} (h : A.P s) : A.Inv ⟨s, none, []⟩ where
  safe := h
  owes _ ht := nomatch ht
  one _ _ _ _ hi := nomatch hi

theorem step_inv {σ : System Op S} {e : Option (Event Op Env)} (h : A.Inv σ) (hturn : M.InTurn σ e) :
    A.Inv (M.stepOrCrash σ e) ∧ A.R σ.store (M.stepOrCrash σ e).store := by
  cases e with
  | none => exact ⟨Inv.initial h.safe, A.R_refl _⟩
  | some e =>
    cases e with
    | start op =>
      simp only [Machine.stepOrCrash, Machine.step]
      split
      · exact ⟨h.start hturn, A.R_refl _⟩
      · exact ⟨h, A.R_refl _⟩
    | advance i =>
      simp only [Machine.stepOrCrash, Machine.step]
      split
      · exact ⟨h, A.R_refl _⟩
      next t ht => exact h.advance ht
    | interfere e =>
      have hF := A.interfere_F e σ.store h.safe
      exact ⟨⟨A.P_R h.safe (A.F_R hF), fun t ht => (h.owes t ht).stable_F hF, h.one⟩, A.F_R hF⟩

/-- **Runs keep the pact.** -/
theorem run_inv {σ : System Op S} {es : List (Option (Event Op Env))} (h : A.Inv σ) (hturn : M.InTurnRun σ es) :
    A.Inv (M.crashRun σ es) ∧ A.R σ.store (M.crashRun σ es).store := by
  induction es generalizing σ with
  | nil => exact ⟨h, A.R_refl _⟩
  | cons e es ih =>
    obtain ⟨hnext, hstep⟩ := step_inv h hturn.1
    obtain ⟨hlast, hrest⟩ := ih hnext hturn.2
    exact ⟨hlast, A.R_trans hstep hrest⟩

/-- from one moment of a run to a later one -/
theorem run_between {σ : System Op S} {es es' : List (Option (Event Op Env))} (h : A.Inv σ)
    (hturn : M.InTurnRun σ es) (hes : es' <+: es) :
    A.P (M.crashRun σ es').store ∧ A.R (M.crashRun σ es').store (M.crashRun σ es).store := by
  induction es' generalizing σ es with
  | nil => exact ⟨h.safe, (run_inv h hturn).2⟩
  | cons e es' ih =>
    obtain ⟨rest, rfl⟩ := hes
    exact ih (step_inv h hturn.1).1 hturn.2 ⟨rest, rfl⟩

end Pact

end Hyperlane.Interleaving
