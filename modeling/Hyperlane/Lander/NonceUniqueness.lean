/-
No two live transactions of a signer hold the same nonce, when the operator's reset is serialised.

The reset (`overwrite_upper_nonce`) lowers the upper nonce without `boundary_update_lock`. A calculation that runs
between its accesses is given a nonce a live transaction still holds (`reset_race`). In every run in which the reset
runs as if it took the lock, two live transactions never hold the same nonce, whatever is interleaved.

- `nonces_held_once`: uniqueness and the boundaries in every run with serialised resets.
- `reset_race`: two live transactions with one nonce, every operation being through.
-/
import Hyperlane.Lander.NonceIndex

namespace Hyperlane.Lander

open Interleaving

variable {Uuid : Type} {s : NonceStore Uuid}

/-! ## The machine -/

inductive NonceOp (Uuid : Type) where
  | calculateNextNonce (txUuid : Uuid) (status : TransactionStatus) (txNonce : Option U256)
  | updateBoundaries (nextNonce : U256)
  | overwriteUpperNonce (desiredNonce : Option (Fin (2 ^ 64)))

abbrev NonceSystem (Uuid : Type) := System (NonceOp Uuid) (NonceStore Uuid)

/-- the lock is not held by an update of the boundaries -/
def NoUpdate (σ : NonceSystem Uuid) : Prop :=
  ∀ (j : ℕ) t, σ.lock = some j → σ.tasks[j]? = some t → ∀ next, t.op ≠ .updateBoundaries next

/-- what holds at every moment of an operation that has the store -/
def During : NonceOp Uuid → NonceStore Uuid → Prop
  | .calculateNextNonce _ _ _, s => Unique s ∧ Within (fun n => n < s.upper) s ∧ FinalizedBelow s
  | .updateBoundaries _, s => Unique s ∧ Within (fun n => n < s.upper) s
  | .overwriteUpperNonce _, s => Unique s

theorem Settled.during (h : Settled s) (op : NonceOp Uuid) : During op s := by
  cases op with
  | calculateNextNonce _ _ _ => exact ⟨h.indexed.unique, h.indexed.within, h.finalized⟩
  | updateBoundaries _ => exact ⟨h.indexed.unique, h.indexed.within⟩
  | overwriteUpperNonce _ => exact h.indexed.unique

variable [DecidableEq Uuid]

/-- a transaction is stored, or its status changes; a dropped one stays dropped -/
structure StatusChange (Uuid : Type) where
  txUuid : Uuid
  status : TransactionStatus

def StatusChange.apply (e : StatusChange Uuid) (s : NonceStore Uuid) : NonceStore Uuid :=
  if s.transactions e.txUuid = some .Dropped then s
  else { s with transactions := Function.update s.transactions e.txUuid (some e.status) }

def NonceOp.program : NonceOp Uuid → Db Uuid Unit
  | .calculateNextNonce txUuid status txNonce => do
    let _ ← Lander.calculateNextNonce txUuid status txNonce
    pure ()
  | .updateBoundaries nextNonce => do
    Lander.updateBoundaries nextNonce
    pure ()
  | .overwriteUpperNonce desiredNonce => do
    let _ ← Lander.overwriteUpperNonce desiredNonce
    pure ()

def nonceMachine : Machine (NonceOp Uuid) (StatusChange Uuid) (NonceStore Uuid) where
  program := NonceOp.program
  -- a transaction is stored before its nonce is calculated
  ready op s := match op with
    | .calculateNextNonce txUuid _ _ => (s.transactions txUuid).isSome
    | _ => true
  bare op := match op with
    | .overwriteUpperNonce _ => true
    | _ => false
  interfere := StatusChange.apply

def NonceSystem.initial : NonceSystem Uuid := ⟨.empty, none, []⟩

theorem statusChange_progress (e : StatusChange Uuid) (s : NonceStore Uuid) : Progress s (e.apply s) := by
  rw [StatusChange.apply]
  split
  · exact .refl s
  next hne =>
    refine ⟨rfl, fun u hu => ?_, fun u hu => ?_⟩
    · have : u ≠ e.txUuid := fun he => hne (he ▸ hu)
      simpa only [Function.update_of_ne this] using hu
    · by_cases he : u = e.txUuid
      · subst he
        simp
      · simpa only [Function.update_of_ne he] using hu

def nonceDiscipline : Discipline (nonceMachine : Machine (NonceOp Uuid) (StatusChange Uuid) (NonceStore Uuid)) where
  J := Settled
  P := During
  R := Progress
  T := Keep
  R_refl := Progress.refl
  R_trans := Progress.trans
  R_T := Progress.stored
  T_trans h h' u hu := h' u (h u hu)
  interfere_R := statusChange_progress
  J_R := Settled.stable
  J_P h := h.during _

/-! ## Whole runs -/

theorem calculateNextNonce_quiet (tx : Uuid) (status : TransactionStatus) (txNonce : Option U256)
    (htx : s.transactions tx ≠ none) :
    nonceDiscipline.Quiet (.calculateNextNonce tx status txNonce)
      (NonceOp.program (.calculateNextNonce tx status txNonce)) s := by
  change nonceDiscipline.Quiet _ (Prog.bind (Prog.bind _ _) _) s
  rw [Prog.bind_assoc]
  refine Discipline.Quiet.readOnly _ (validateAssignedNonce_readOnly tx status txNonce) fun action s1 hs1 => ?_
  cases action with
  | Assign nonce => trivial
  | AssignNext old =>
    refine Discipline.Quiet.locked _ rfl fun s2 hs2 hj => ?_
    have hP : ∀ u, (∀ g, s2.finalized = some g → g < u) →
        Allows (During (.calculateNextNonce tx status txNonce)) s2.finalized u fun m => m < u := by
      rintro u hf s hunique hwithin hfin rfl
      exact ⟨hunique, hwithin, fun g hg => hf g (hfin ▸ hg)⟩
    exact (assignNextNonceBody_keeps old hj.finalized hP ⟨hj.indexed, rfl, rfl⟩ (hs2 tx (hs1 tx htx))).mono
      fun _ _ hend => ⟨hend, trivial⟩

theorem updateBoundaries_quiet (next : U256) :
    nonceDiscipline.Quiet (.updateBoundaries next) (NonceOp.program (.updateBoundaries next)) s := by
  refine Discipline.Quiet.locked _ rfl fun s1 _ hj => ?_
  have hP : AllowsMoving (During (.updateBoundaries next : NonceOp Uuid)) := fun _ hunique hwithin => ⟨hunique, hwithin⟩
  exact (updateBoundaryNoncesBody_keeps hP (fun _ h => h.during _) (fun _ => U256.checkedPred_ne_max) hj).mono
    fun _ _ hend => ⟨hend, trivial⟩

theorem overwriteUpperNonce_owns (desired : Option (Fin (2 ^ 64))) (hj : Settled s) :
    nonceDiscipline.Owns (.overwriteUpperNonce desired) (NonceOp.program (.overwriteUpperNonce desired)) s :=
  Discipline.Owns.of_keeps _ (overwriteUpperNonce_keeps (fun _ h => h) desired hj) fun _ _ hend => hend

theorem nonceDiscipline_lawful : (nonceDiscipline : Discipline (nonceMachine :
    Machine (NonceOp Uuid) (StatusChange Uuid) (NonceStore Uuid))).Lawful where
  quiet op s hready hbare := by
    cases op with
    | calculateNextNonce tx status txNonce =>
      exact calculateNextNonce_quiet tx status txNonce (Option.isSome_iff_ne_none.1 hready)
    | updateBoundaries next => exact updateBoundaries_quiet next
    | overwriteUpperNonce desired => exact nomatch hbare
  owns op s _ hbare hj := by
    cases op with
    | calculateNextNonce tx status txNonce => exact nomatch hbare
    | updateBoundaries next => exact nomatch hbare
    | overwriteUpperNonce desired => exact overwriteUpperNonce_owns desired hj

/-- **Nonces are held once.** In every run whose resets are serialised with the other operations, two live transactions
never hold the same nonce; outside a reset the nonces held are below the upper one, and outside an update too the
finalized nonce is below it. -/
theorem nonces_held_once (es : List (Event (NonceOp Uuid) (StatusChange Uuid)))
    (h : nonceMachine.SerialRun NonceSystem.initial es) :
    let σ := nonceMachine.run NonceSystem.initial es
    Unique σ.store ∧ (nonceMachine.NoBare σ → Within (fun n => n < σ.store.upper) σ.store ∧
      (NoUpdate σ → FinalizedBelow σ.store)) := by
  intro σ
  have hinv : nonceDiscipline.Inv σ := Discipline.run_inv nonceDiscipline_lawful (.initial empty_settled) h
  rcases hinv.holds with hj | ⟨j, t, ht, howner, hp⟩
  · exact ⟨hj.indexed.unique, fun _ => ⟨hj.indexed.within, fun _ => hj.finalized⟩⟩
  · obtain ⟨op, program⟩ := t
    cases op with
    | calculateNextNonce tx status txNonce => exact ⟨hp.1, fun _ => ⟨hp.2.1, fun _ => hp.2.2⟩⟩
    | updateBoundaries next =>
      refine ⟨hp.1, fun hbare => ⟨hp.2, fun hupdate => ?_⟩⟩
      exact absurd rfl (hupdate j _ (howner.lock_of_noBare ht hbare) ht next)
    | overwriteUpperNonce desired =>
      refine ⟨hp, fun hbare => ?_⟩
      rcases howner with ⟨-, hlocked⟩ | ⟨-, -, hunfinished⟩
      · exact nomatch hlocked
      · exact absurd (hunfinished.symm.trans (hbare _ (List.mem_of_getElem? ht) rfl)) Bool.false_ne_true

section Runs

abbrev NonceEvents := List (Event (NonceOp Bool) (StatusChange Bool))

/-- both transactions are stored and the first one is given a nonce -/
def firstNonce : NonceEvents :=
  [.interfere ⟨false, .PendingInclusion⟩, .interfere ⟨true, .PendingInclusion⟩,
    .start (.calculateNextNonce false .PendingInclusion none)] ++ List.replicate 9 (.advance 0)

/-- the nonce of the second transaction is calculated by task `i` -/
def secondNonce (i : ℕ) : NonceEvents :=
  .start (.calculateNextNonce true .PendingInclusion none) :: List.replicate 9 (.advance i)

/-- a reset, and after it the nonce of the second transaction -/
def serialEvents : NonceEvents :=
  firstNonce ++ [.start (.overwriteUpperNonce none)] ++ List.replicate 7 (.advance 1) ++ secondNonce 2

/-- the calculation runs between the reset's lowering of the upper nonce and its clearing of the range, which clears the
new holder; the next calculation finds the nonce free -/
def raceEvents : NonceEvents :=
  firstNonce ++ [.start (.overwriteUpperNonce none)] ++ List.replicate 4 (.advance 1) ++ secondNonce 2 ++
    List.replicate 3 (.advance 1) ++ secondNonce 3

theorem nonces_held_once_serial :
    nonceMachine.SerialRun NonceSystem.initial serialEvents ∧
      Unique (nonceMachine.run NonceSystem.initial serialEvents).store :=
  ⟨by decide +kernel, (nonces_held_once serialEvents (by decide +kernel)).1⟩

/-- every operation is through, and both live transactions hold nonce 0, above the finalized nonce -/
theorem reset_race :
    let σ := nonceMachine.run NonceSystem.initial raceEvents
    nonceMachine.Idle σ ∧ σ.store.finalized = none ∧ Live σ.store false ∧ Live σ.store true ∧
      Holds σ.store false 0 ∧ Holds σ.store true 0 ∧ ¬ Unique σ.store := by
  have hstate : let σ := nonceMachine.run NonceSystem.initial raceEvents
      nonceMachine.Idle σ ∧ σ.store.finalized = none ∧ (∀ u, σ.store.transactions u = some .PendingInclusion) ∧
        ∀ u, σ.store.nonceByTransactionUuid u = some 0 := by decide +kernel
  obtain ⟨hidle, hfin, htx, hnonce⟩ := hstate
  have hlive : ∀ u, Live (nonceMachine.run NonceSystem.initial raceEvents).store u := fun u hd => by
    rw [htx u] at hd
    exact nomatch hd
  have hholds : ∀ u, Holds (nonceMachine.run NonceSystem.initial raceEvents).store u 0 :=
    fun u => ⟨hnonce u, by decide⟩
  refine ⟨hidle, hfin, hlive _, hlive _, hholds _, hholds _, fun hunique => ?_⟩
  exact nomatch hunique false true 0 (hlive _) (hlive _) (hholds _) (hholds _)

end Runs

end Hyperlane.Lander
