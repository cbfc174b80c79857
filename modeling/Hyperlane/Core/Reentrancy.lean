/-
Operations that call foreign code, which may call them again.

An operation is a sequence of local steps with a foreign call after each but the last one. A foreign frame is whatever
the called code does: it calls operations, one after the other, and returns an answer or reverts. A revert undoes
everything inside the call that reverts, and passes from a foreign frame to the operation that called it; a frame may go
on after an operation that it called has reverted.

The rule is one of assumption and guarantee. Let `K` be a relation that composes. If every operation is a `K` step as long
as its foreign calls are, then everything foreign code does is a `K` step.

- `Frame.exec_guarantee`: every frame.
- `run_guarantee`: every list of transactions.
-/
import Mathlib.Tactic

namespace Hyperlane.Reentrancy

variable {S Op : Type}

/-- the local steps of an operation; a step may revert -/
inductive Body (S : Type) where
  | finish (step : S → Option S)
  /-- a local step and a foreign call; what follows depends on the state before the step and on the answer -/
  | interact (step : S → Option S) (next : S → Bool → Body S)

/-- what foreign code does; an operation is called with the frames of its own foreign calls -/
inductive Frame (Op : Type) where
  | ret (answer : Bool)
  | revert
  | call (op : Op) (inner : List (Frame Op)) (rest : Frame Op)

mutual

def Frame.exec (body : Op → Body S) : Frame Op → S → Option (Bool × S)
  | .ret answer, s => some (answer, s)
  | .revert, _ => none
  | .call op inner rest, s => rest.exec body ((runBody body inner (body op) s).getD s)

/-- an operation whose foreign calls do what the frames say; a call without a frame reverts -/
def runBody (body : Op → Body S) : List (Frame Op) → Body S → S → Option S
  | [], .finish step, s => step s
  | _ :: _, .finish step, s => step s
  | [], .interact _ _, _ => none
  | frame :: inner, .interact step next, s =>
    match step s with
    | none => none
    | some s1 =>
      match frame.exec body s1 with
      | none => none
      | some (answer, s2) => runBody body inner (next s answer) s2

end

/-- `Q` holds at the end of the body if its foreign calls are `K` steps -/
def Body.Ensures (K : S → S → Prop) (Q : S → Prop) : Body S → S → Prop
  | .finish step, s => ∀ s', step s = some s' → Q s'
  | .interact step next, s => ∀ s1, step s = some s1 → ∀ s2, K s1 s2 → ∀ answer, (next s answer).Ensures K Q s2

section Guarantee

variable {body : Op → Body S} {K : S → S → Prop}

mutual

/-- **Re-entrant code keeps what every operation keeps.** -/
theorem Frame.exec_guarantee (hrefl : ∀ s, K s s) (htrans : ∀ {a b c}, K a b → K b c → K a c)
    (hop : ∀ op s, (body op).Ensures K (K s) s) (frame : Frame Op) {s s' : S} {answer : Bool}
    (h : frame.exec body s = some (answer, s')) : K s s' := by
  cases frame with
  | ret b =>
    obtain ⟨-, rfl⟩ := Prod.mk.inj (Option.some.inj h)
    exact hrefl s
  | revert => exact nomatch h
  | call op inner rest =>
    refine htrans ?_ (Frame.exec_guarantee hrefl htrans hop rest h)
    cases hrun : runBody body inner (body op) s with
    | none => exact hrefl s
    | some s1 => exact runBody_guarantee hrefl htrans hop inner (hop op s) hrun

theorem runBody_guarantee (hrefl : ∀ s, K s s) (htrans : ∀ {a b c}, K a b → K b c → K a c)
    (hop : ∀ op s, (body op).Ensures K (K s) s) (inner : List (Frame Op)) {b : Body S} {Q : S → Prop} {s s' : S}
    (hb : b.Ensures K Q s) (h : runBody body inner b s = some s') : Q s' := by
  cases inner with
  | nil =>
    cases b with
    | finish step => exact hb s' h
    | interact step next => exact nomatch h
  | cons frame inner =>
    cases b with
    | finish step => exact hb s' h
    | interact step next =>
      simp only [runBody] at h
      split at h
      · exact nomatch h
      next s1 hs1 =>
        split at h
        · exact nomatch h
        next answer s2 hs2 =>
          have hK : K s1 s2 := Frame.exec_guarantee hrefl htrans hop frame hs2
          exact runBody_guarantee hrefl htrans hop inner (hb s1 hs1 s2 hK answer) h

end

end Guarantee

/-! ## Transactions -/

/-- a transaction is a frame; one that reverts changes nothing -/
def transact (body : Op → Body S) (s : S) (frame : Frame Op) : S :=
  match frame.exec body s with
  | none => s
  | some (_, s') => s'

/-- transactions, each in its own environment -/
def run {Env : Type} (body : Env → Op → Body S) : S → List (Env × Frame Op) → S
  | s, [] => s
  | s, tx :: txs => run body (transact (body tx.1) s tx.2) txs

theorem run_guarantee {Env : Type} {body : Env → Op → Body S} {K : S → S → Prop} (hrefl : ∀ s, K s s)
    (htrans : ∀ {a b c}, K a b → K b c → K a c) (txs : List (Env × Frame Op))
    (hop : ∀ tx ∈ txs, ∀ op s, (body tx.1 op).Ensures K (K s) s) (s : S) : K s (run body s txs) := by
  induction txs generalizing s with
  | nil => exact hrefl s
  | cons tx txs ih =>
    refine htrans ?_ (ih (fun tx' htx' => hop tx' (List.mem_cons_of_mem tx htx')) _)
    unfold transact
    split
    next => exact hrefl s
    next answer s' hexec => exact Frame.exec_guarantee hrefl htrans (hop tx List.mem_cons_self) tx.2 hexec

end Hyperlane.Reentrancy
