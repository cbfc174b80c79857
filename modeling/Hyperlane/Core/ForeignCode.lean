/-
Programs of a contract that call foreign code, which may call the contract again.

A program reads and changes the state, reverts with a reason, or makes a foreign call; it sees whether the call returned
or reverted and goes on either way. A foreign frame is whatever the called code does: it calls operations of the contract
and returns or reverts. What a call did before it reverted is undone, and so is what was handed over with it.

`Core.Reentrancy` is about operations whose foreign calls are known beforehand; here the number of calls depends on the
state and on the answers. The rule is the same: if every operation is a `K` step as long as its foreign calls are, then
everything foreign code does is a `K` step.

- `Ensures.bind`, `Ensures.mono` and the lemmas after them: the rules for a piece of a program.
- `Steps.ensures`: a program of which every step does the same, and the rules for its steps.
- `Frame.exec_guarantee`, `run_guarantee`, `run_inv`: every frame, and every list of transactions.
- `advance_read`, `advance_write` and the lemmas after them: where a program stops.
-/
import Mathlib.Tactic

namespace Hyperlane.ForeignCode

variable {S R E α β Op : Type}

/-- a program over the state `S`; a foreign call answers in `R`, and reasons of reverts are in `E` -/
inductive Code (S R E α : Type) where
  | done (a : α)
  | revert (e : E)
  /-- what the access makes of the state, and how the program goes on after what it saw -/
  | access (change : S → S) (next : S → Code S R E α)
  /-- a foreign call from the state that `enter` makes -/
  | call (enter : S → S) (next : Except E R → Code S R E α)

namespace Code

def bind : Code S R E α → (α → Code S R E β) → Code S R E β
  | .done a, k => k a
  | .revert e, _ => .revert e
  | .access change next, k => .access change fun s => (next s).bind k
  | .call enter next, k => .call enter fun answer => (next answer).bind k

instance : Monad (Code S R E) where
  pure := .done
  bind := .bind

def read (query : S → α) : Code S R E α := .access id fun s => .done (query s)

def write (change : S → S) : Code S R E Unit := .access change fun _ => .done ()

def require (condition : Prop) [Decidable condition] (e : E) : Code S R E Unit :=
  if condition then .done () else .revert e

/-- a computation without state -/
def lift : Except E α → Code S R E α
  | .ok a => .done a
  | .error e => .revert e

/-- the state is changed, or the program reverts -/
def update (f : S → Except E S) : Code S R E Unit :=
  .access (fun s => (f s).toOption.getD s) fun s => lift ((f s).map fun _ => ())

/-- a low-level call -/
def tryCall (enter : S → S) : Code S R E (Except E R) := .call enter .done

/-- a call whose revert is passed on -/
def callOut (enter : S → S) : Code S R E R := .call enter lift

/-! ## What a program ensures -/

/-- `Q` holds at the end of the program if its foreign calls are `K` steps -/
def Ensures (K : S → S → Prop) (Q : α → S → Prop) : Code S R E α → S → Prop
  | .done a, s => Q a s
  | .revert _, _ => True
  | .access change next, s => Ensures K Q (next s) (change s)
  | .call enter next, s =>
    (∀ s' r, K (enter s) s' → Ensures K Q (next (.ok r)) s') ∧ ∀ e, Ensures K Q (next (.error e)) s

variable {K : S → S → Prop} {Q : α → S → Prop} {Q' : β → S → Prop} {p : Code S R E α} {f : α → Code S R E β} {s : S}

theorem Ensures.bind (h : p.Ensures K Q s) (hf : ∀ a s', Q a s' → (f a).Ensures K Q' s') : (p >>= f).Ensures K Q' s := by
  induction p generalizing s with
  | done a => exact hf a s h
  | revert e => trivial
  | access change next ih => exact ih s h
  | call enter next ih => exact ⟨fun s' r hs' => ih (.ok r) (h.1 s' r hs'), fun e => ih (.error e) (h.2 e)⟩

theorem Ensures.mono {T : α → S → Prop} (h : p.Ensures K Q s) (hq : ∀ a s', Q a s' → T a s') : p.Ensures K T s := by
  induction p generalizing s with
  | done a => exact hq a s h
  | revert e => trivial
  | access change next ih => exact ih s h
  | call enter next ih => exact ⟨fun s' r hs' => ih (.ok r) (h.1 s' r hs'), fun e => ih (.error e) (h.2 e)⟩

theorem ensures_of_forall (h : ∀ a s', Q a s') : p.Ensures K Q s := by
  induction p generalizing s with
  | done a => exact h a s
  | revert e => trivial
  | access change next ih => exact ih s
  | call enter next ih => exact ⟨fun s' r _ => ih (.ok r), fun e => ih (.error e)⟩

theorem ensures_pure {a : α} (h : Q a s) : (pure a : Code S R E α).Ensures K Q s := h

theorem ensures_read_bind {query : S → α} (h : (f (query s)).Ensures K Q' s) : (read query >>= f).Ensures K Q' s := h

theorem ensures_write {change : S → S} {T : Unit → S → Prop} (h : T () (change s)) :
    (write change : Code S R E Unit).Ensures K T s := h

theorem ensures_write_bind {change : S → S} {g : Unit → Code S R E β} (h : (g ()).Ensures K Q' (change s)) :
    (write change >>= g).Ensures K Q' s := h

theorem ensures_require_bind {condition : Prop} [Decidable condition] {e : E} {g : Unit → Code S R E β}
    (h : condition → (g ()).Ensures K Q' s) : (require condition e >>= g).Ensures K Q' s := by
  unfold require
  split_ifs with hc
  · exact h hc
  · trivial

theorem ensures_lift_bind {x : Except E α} (h : ∀ a, x = .ok a → (f a).Ensures K Q' s) :
    (lift x >>= f).Ensures K Q' s := by
  cases x with
  | ok a => exact h a rfl
  | error e => trivial

theorem ensures_ite {condition : Prop} [Decidable condition] {q : Code S R E α} (hp : condition → p.Ensures K Q s)
    (hq : ¬ condition → q.Ensures K Q s) : (if condition then p else q).Ensures K Q s := by
  split_ifs with hc
  · exact hp hc
  · exact hq hc

theorem ensures_tryCall_bind {enter : S → S} {g : Except E R → Code S R E β}
    (hok : ∀ s' r, K (enter s) s' → (g (.ok r)).Ensures K Q' s') (herror : ∀ e, (g (.error e)).Ensures K Q' s) :
    (tryCall enter >>= g).Ensures K Q' s := ⟨hok, herror⟩

theorem ensures_update_bind {change : S → Except E S} {g : Unit → Code S R E β}
    (h : ∀ s', change s = .ok s' → (g ()).Ensures K Q' s') : (update change >>= g).Ensures K Q' s := by
  change (Code.bind (lift ((change s).map fun _ => ())) g).Ensures K Q' ((change s).toOption.getD s)
  cases hchange : change s with
  | ok s' => exact h s' hchange
  | error e => trivial

theorem ensures_update {change : S → Except E S} {T : Unit → S → Prop} (h : ∀ s', change s = .ok s' → T () s') :
    (update change : Code S R E Unit).Ensures K T s := by
  change (lift ((change s).map fun _ => ()) : Code S R E Unit).Ensures K T ((change s).toOption.getD s)
  cases hchange : change s with
  | ok s' => exact h s' hchange
  | error e => trivial

/-! ## Programs of which every step does the same -/

/-- each access, and each step into a foreign call, is a `J` step -/
def Steps (J : S → S → Prop) : Code S R E α → Prop
  | .done _ => True
  | .revert _ => True
  | .access change next => (∀ s, J s (change s)) ∧ ∀ s, Steps J (next s)
  | .call enter next => (∀ s, J s (enter s)) ∧ ∀ answer, Steps J (next answer)

section Steps

variable {J : S → S → Prop}

/-- a program of `J` steps is a `J` step, if foreign calls are -/
theorem Steps.ensures (hrefl : ∀ s, J s s) (htrans : ∀ {a b c}, J a b → J b c → J a c) (hK : ∀ {a b}, K a b → J a b)
    (h : p.Steps J) : p.Ensures K (fun _ => J s) s := by
  have hfrom : ∀ s₀ s, J s₀ s → p.Ensures K (fun _ => J s₀) s := by
    intro s₀ s hs
    induction p generalizing s with
    | done a => exact hs
    | revert e => trivial
    | access change next ih => exact ih s (h.2 s) (change s) (htrans hs (h.1 s))
    | call enter next ih =>
      refine ⟨fun s' r hs' => ?_, fun e => ih (.error e) (h.2 _) s hs⟩
      exact ih (.ok r) (h.2 _) s' (htrans hs (htrans (h.1 s) (hK hs')))
  exact hfrom s s (hrefl s)

theorem Steps.bind (h : p.Steps J) (hf : ∀ a, (f a).Steps J) : (p >>= f).Steps J := by
  induction p with
  | done a => exact hf a
  | revert e => trivial
  | access change next ih => exact ⟨h.1, fun s => ih s (h.2 s)⟩
  | call enter next ih => exact ⟨h.1, fun answer => ih answer (h.2 answer)⟩

theorem steps_pure {a : α} : (pure a : Code S R E α).Steps J := trivial

theorem steps_revert {e : E} : (.revert e : Code S R E α).Steps J := trivial

theorem steps_read (hrefl : ∀ s, J s s) {query : S → α} : (read query : Code S R E α).Steps J := ⟨hrefl, fun _ => trivial⟩

theorem steps_write {change : S → S} (h : ∀ s, J s (change s)) : (write change : Code S R E Unit).Steps J :=
  ⟨h, fun _ => trivial⟩

theorem steps_lift {x : Except E α} : (lift x : Code S R E α).Steps J := by
  cases x with
  | ok a => trivial
  | error e => trivial

theorem steps_require {condition : Prop} [Decidable condition] {e : E} :
    (require condition e : Code S R E Unit).Steps J := by
  unfold require
  split_ifs
  · trivial
  · trivial

theorem steps_require_bind {condition : Prop} [Decidable condition] {e : E} {g : Unit → Code S R E β}
    (h : condition → (g ()).Steps J) : (require condition e >>= g).Steps J := by
  unfold require
  split_ifs with hc
  · exact h hc
  · trivial

theorem steps_update (hrefl : ∀ s, J s s) {change : S → Except E S} (h : ∀ s s', change s = .ok s' → J s s') :
    (update change : Code S R E Unit).Steps J := by
  refine ⟨fun s => ?_, fun s => steps_lift⟩
  dsimp only
  cases hchange : change s with
  | ok s' => exact h s s' hchange
  | error e => exact hrefl s

theorem steps_tryCall {enter : S → S} (h : ∀ s, J s (enter s)) : (tryCall enter : Code S R E _).Steps J :=
  ⟨h, fun _ => trivial⟩

theorem steps_callOut {enter : S → S} (h : ∀ s, J s (enter s)) : (callOut enter : Code S R E R).Steps J :=
  ⟨h, fun _ => steps_lift⟩

theorem steps_ite {condition : Prop} [Decidable condition] {q : Code S R E α} (hp : condition → p.Steps J)
    (hq : ¬ condition → q.Steps J) : (if condition then p else q).Steps J := by
  split_ifs with hc
  · exact hp hc
  · exact hq hc

end Steps

end Code

/-! ## Running -/

/-- what foreign code does; an operation is called with the frames of its own foreign calls -/
inductive Frame (Op R E : Type) where
  | ret (answer : R)
  | revert (e : E)
  | call (op : Op) (inner : List (Frame Op R E)) (rest : Frame Op R E)

/-- where a program is when it ends or calls -/
inductive Stop (S R E α : Type) where
  | finished (a : α) (s : S)
  | reverted (e : E)
  | calling (before entered : S) (next : Except E R → Code S R E α)

def Code.advance : Code S R E α → S → Stop S R E α
  | .done a, s => .finished a s
  | .revert e, _ => .reverted e
  | .access change next, s => (next s).advance (change s)
  | .call enter next, s => .calling s (enter s) next

theorem Code.Ensures.advance {K : S → S → Prop} {Q : α → S → Prop} {p : Code S R E α} {s : S} (h : p.Ensures K Q s) :
    match p.advance s with
    | .finished a s' => Q a s'
    | .reverted _ => True
    | .calling before entered next =>
      (∀ s' r, K entered s' → (next (.ok r)).Ensures K Q s') ∧ ∀ e, (next (.error e)).Ensures K Q before := by
  induction p generalizing s with
  | done a => exact h
  | revert e => trivial
  | access change next ih => exact ih s h
  | call enter next ih => exact h

namespace Code

variable {f : α → Code S R E β} {s : S}

theorem bind_bind {γ : Type} (p : Code S R E α) (f : α → Code S R E β) (g : β → Code S R E γ) :
    ((p >>= f) >>= g) = (p >>= fun a => f a >>= g) := by
  induction p with
  | done a => rfl
  | revert e => rfl
  | access change next ih => exact congrArg (Code.access change) (funext ih)
  | call enter next ih => exact congrArg (Code.call enter) (funext ih)

theorem advance_read (query : S → α) : (read query >>= f).advance s = (f (query s)).advance s := rfl

theorem advance_write (change : S → S) (g : Unit → Code S R E β) :
    (write change >>= g).advance s = (g ()).advance (change s) := rfl

theorem advance_require {condition : Prop} [Decidable condition] (h : condition) (e : E) (g : Unit → Code S R E β) :
    (require condition e >>= g).advance s = (g ()).advance s := by
  rw [require, if_pos h]
  rfl

theorem advance_lift {x : Except E α} {a : α} (h : x = .ok a) : (lift x >>= f).advance s = (f a).advance s := by
  rw [h]
  rfl

theorem advance_tryCall (enter : S → S) (g : Except E R → Code S R E β) :
    (tryCall enter >>= g).advance s = .calling s (enter s) g := rfl

end Code

section Exec

variable [Inhabited E]

mutual

def Frame.exec (body : Op → Code S R E α) : Frame Op R E → S → Except E (R × S)
  | .ret answer, s => .ok (answer, s)
  | .revert e, _ => .error e
  | .call op inner rest, s =>
    match runCode body inner (body op) s with
    | .ok (_, s') => rest.exec body s'
    | .error _ => rest.exec body s

/-- a program whose foreign calls do what the frames say; without a frame for a call it reverts for no reason -/
def runCode (body : Op → Code S R E α) : List (Frame Op R E) → Code S R E α → S → Except E (α × S)
  | [], p, s =>
    match p.advance s with
    | .finished a s' => .ok (a, s')
    | .reverted e => .error e
    | .calling _ _ _ => .error default
  | frame :: inner, p, s =>
    match p.advance s with
    | .finished a s' => .ok (a, s')
    | .reverted e => .error e
    | .calling before entered next =>
      match frame.exec body entered with
      | .ok (r, s') => runCode body inner (next (.ok r)) s'
      | .error e => runCode body inner (next (.error e)) before

end

variable {body : Op → Code S R E α} {K : S → S → Prop}

mutual

/-- **Foreign code keeps what every operation keeps.** -/
theorem Frame.exec_guarantee (hrefl : ∀ s, K s s) (htrans : ∀ {a b c}, K a b → K b c → K a c)
    (hop : ∀ op s, (body op).Ensures K (fun _ => K s) s) (frame : Frame Op R E) {s s' : S} {r : R}
    (h : frame.exec body s = .ok (r, s')) : K s s' := by
  cases frame with
  | ret answer =>
    obtain ⟨-, rfl⟩ := Prod.mk.inj (Except.ok.inj h)
    exact hrefl s
  | revert e => exact nomatch h
  | call op inner rest =>
    simp only [Frame.exec] at h
    split at h
    next a s1 hrun =>
      have hstep : K s s1 := runCode_guarantee hrefl htrans hop inner (hop op s) hrun
      exact htrans hstep (Frame.exec_guarantee hrefl htrans hop rest h)
    next e hrun => exact Frame.exec_guarantee hrefl htrans hop rest h

theorem runCode_guarantee (hrefl : ∀ s, K s s) (htrans : ∀ {a b c}, K a b → K b c → K a c)
    (hop : ∀ op s, (body op).Ensures K (fun _ => K s) s) (inner : List (Frame Op R E)) {p : Code S R E α}
    {Q : α → S → Prop} {s s' : S} {a : α} (hp : p.Ensures K Q s) (h : runCode body inner p s = .ok (a, s')) : Q a s' := by
  have hadvance := hp.advance
  cases inner with
  | nil =>
    simp only [runCode] at h
    split at h
    next a' s1 hstop =>
      rw [hstop] at hadvance
      obtain ⟨rfl, rfl⟩ := Prod.mk.inj (Except.ok.inj h)
      exact hadvance
    next => exact nomatch h
    next => exact nomatch h
  | cons frame inner =>
    simp only [runCode] at h
    split at h
    next a' s1 hstop =>
      rw [hstop] at hadvance
      obtain ⟨rfl, rfl⟩ := Prod.mk.inj (Except.ok.inj h)
      exact hadvance
    next => exact nomatch h
    next before entered next hstop =>
      rw [hstop] at hadvance
      split at h
      next r s1 hexec =>
        have hK : K entered s1 := Frame.exec_guarantee hrefl htrans hop frame hexec
        exact runCode_guarantee hrefl htrans hop inner (hadvance.1 s1 r hK) h
      next e hexec => exact runCode_guarantee hrefl htrans hop inner (hadvance.2 e) h

end

/-! ## Transactions -/

/-- a transaction is a frame; one that reverts changes nothing -/
def transact (body : Op → Code S R E α) (s : S) (frame : Frame Op R E) : S :=
  match frame.exec body s with
  | .ok (_, s') => s'
  | .error _ => s

/-- transactions, each in its own environment -/
def run {Env : Type} (body : Env → Op → Code S R E α) : S → List (Env × Frame Op R E) → S
  | s, [] => s
  | s, tx :: txs => run body (transact (body tx.1) s tx.2) txs

theorem run_guarantee {Env : Type} {body : Env → Op → Code S R E α} (hrefl : ∀ s, K s s)
    (htrans : ∀ {a b c}, K a b → K b c → K a c) (txs : List (Env × Frame Op R E))
    (hop : ∀ tx ∈ txs, ∀ op s, (body tx.1 op).Ensures K (fun _ => K s) s) (s : S) : K s (run body s txs) := by
  induction txs generalizing s with
  | nil => exact hrefl s
  | cons tx txs ih =>
    refine htrans ?_ (ih (fun tx' htx' => hop tx' (List.mem_cons_of_mem tx htx')) _)
    unfold transact
    split
    next r s' hexec => exact Frame.exec_guarantee hrefl htrans (hop tx List.mem_cons_self) tx.2 hexec
    next => exact hrefl s

/-- **An invariant of whole runs**, if every operation keeps it as long as its foreign calls do -/
theorem run_inv {Env : Type} {body : Env → Op → Code S R E α} {I : S → Prop} (txs : List (Env × Frame Op R E))
    (hop : ∀ tx ∈ txs, ∀ op s, I s → (body tx.1 op).Ensures (fun s s' => I s → I s') (fun _ => I) s) {s : S} (hs : I s) :
    I (run body s txs) := by
  refine run_guarantee (K := fun s s' => I s → I s') (fun _ => id) (fun h₁ h₂ h => h₂ (h₁ h)) txs ?_ s hs
  intro tx htx op s
  by_cases hI : I s
  · exact (hop tx htx op s hI).mono fun _ _ h _ => h
  · exact Code.ensures_of_forall fun _ _ h => absurd h hI

end Exec

end Hyperlane.ForeignCode
