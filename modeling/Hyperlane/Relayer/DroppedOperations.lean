/-
Operations that the lander pipeline gives up: agents/relayer/src/msg/pending_message.rs, and the stages of
agents/relayer/src/msg/message_processor.rs that hold an operation between two queues.

An operation is owned by one queue or by one stage. A stage pops it, asks it something, and pushes it to a queue or lets it
go. What the chains, the database and the lander answer is arbitrary, and so is the order of the stages.

- `Answer`: what an operation can answer, and what it has counted by then.
- `stepEntry_settled`: a step that does not pass over a `Drop` keeps a dropped operation out of the queues, and a fail-fast
  operation within its attempts.
- `dropped_operations_iff`: a run does so exactly when no step of the submit stage passes over a `Drop`.
-/
import Hyperlane.Relayer.PrepareBatch
import Hyperlane.Relayer.RetryState

namespace Hyperlane.Relayer.DroppedOperations

open PrepareBatch (disposePreparedOperation)
open RetryState (saturatingSucc)

/-! ## The operation -/

def REVEAL_POLL_FAST_MAX : UInt32 := 30

def REVEAL_POLL_SLOW_COUNT : UInt32 := 36

def REVEAL_POLL_TOTAL_MAX : UInt32 := REVEAL_POLL_FAST_MAX + REVEAL_POLL_SLOW_COUNT

/-- a `PendingMessage`, as far as it decides what becomes of it -/
structure Op where
  status : PendingOperationStatus
  maxRetries : UInt32
  numRetries : UInt32
  failFast : Bool
  /-- metadata is cached -/
  metadata : Bool
  icaRevealAttempts : UInt32
  /-- `loaded_message_guard` is set -/
  guarded : Bool
  /-- the relay API allows one attempt -/
  max_pos : failFast → 0 < maxRetries

namespace Op

def incAttempts (op : Op) : Op := { op with numRetries := saturatingSucc op.numRetries }

/-- no attempts are left, and the message is not to wait -/
def exhausted (op : Op) : Prop := op.failFast ∧ op.maxRetries ≤ op.numRetries

instance (op : Op) : Decidable op.exhausted := inferInstanceAs (Decidable (_ ∧ _))

/-- `terminal_drop`, where `mark_terminal` fails `failures` times before it is stored -/
def terminalDrop : ℕ → Op → Op × PendingOperationResult
  | 0, op => (op, .Drop)
  | failures + 1, op =>
    if op.guarded then
      let op := op.incAttempts
      if op.exhausted then terminalDrop failures op else (op, .Reprepare .ErrorPersistingTerminalMessage)
    else (op, .Drop)

def reprepareOrDrop (failures : ℕ) (op : Op) (reason : ReprepareReason) : Op × PendingOperationResult :=
  if op.exhausted then op.terminalDrop failures else (op, .Reprepare reason)

def onReprepare (failures : ℕ) (op : Op) (reason : ReprepareReason) : Op × PendingOperationResult :=
  reprepareOrDrop failures op.incAttempts reason

def onMetadataWait (failures : ℕ) (op : Op) : Op × PendingOperationResult :=
  reprepareOrDrop failures op.incAttempts .AwaitingValidatorSignatures

def onReconfirm (op : Op) : Op × PendingOperationResult := (op.incAttempts, .NotReady)

/-- `requeue_ica_reveal`: no retry is counted -/
def requeueIcaReveal (op : Op) : Op × PendingOperationResult :=
  ({ op with icaRevealAttempts := saturatingSucc op.icaRevealAttempts }, .Reprepare .AwaitingIcaReveal)

/-- `reset_attempts`, where the database has stored the reset -/
def resetAttempts (op : Op) : Op := { op with numRetries := 0, status := .Retry .Manual }

def setStatus (op : Op) (status : Option PendingOperationStatus) : Op := { op with status := status.getD op.status }

end Op

/-! ## Preparation and confirmation -/

inductive MetadataBuildError where
  | FailedToBuild
  | FastPathError
  | CouldNotFetch
  | Refused
  | UnsupportedModuleType
  | MaxIsmDepthExceeded
  | MaxIsmCountReached
  | AggregationThresholdNotMet
  | MaxValidatorCountReached
  | MerkleRootMismatch
  | AwaitingValidatorSignatures

/-- how `build_metadata` ends -/
inductive MetadataBuild where
  | built
  | noIsmAddress
  | noBuilder
  | error (err : MetadataBuildError)

/-- how a simulated `process` call ends -/
inductive Estimate where
  | succeeded
  | icaInvalidReveal
  | failed

inductive GasPolicyStatus where
  | error
  | NoPaymentFound
  | PolicyNotMet
  | PolicyMet (gasLimit : ℕ)

/-- what `prepare` is told by its surroundings; a call without an answer has failed -/
structure PrepareEnv where
  isReady : Bool
  delivered : Option Bool
  isContract : Option Bool
  preflight : GasPolicyStatus
  cachedEstimate : Estimate
  metadata : MetadataBuild
  estimate : Estimate
  /-- what the application says about a failed estimate -/
  report : Option ApplicationReport
  gasPolicy : GasPolicyStatus
  transactionGasLimit : Option ℕ
  /-- how often `mark_terminal` fails -/
  failures : ℕ

section Prepare

variable (env : PrepareEnv)

/-- `meets_gas_payment_requirement`: the gas limit, or the answer -/
def meetsGasPaymentRequirement (op : Op) : GasPolicyStatus → Except (Op × PendingOperationResult) ℕ
  | .error => .error (op.onReprepare env.failures .ErrorCheckingGasRequirement)
  | .NoPaymentFound => .error (op.onReprepare env.failures .GasPaymentNotFound)
  | .PolicyNotMet => .error (op.onReprepare env.failures .GasPaymentRequirementNotMet)
  | .PolicyMet gasLimit => .ok gasLimit

/-- the last part of `prepare`: the costs are known -/
def submissionData (op : Op) : Op × PendingOperationResult :=
  match meetsGasPaymentRequirement env op env.gasPolicy with
  | .error answer => answer
  | .ok gasLimit =>
    if env.transactionGasLimit.any (· < gasLimit) then
      { op with metadata := false }.onReprepare env.failures .ExceedsMaxGasLimit
    else (op, .Success)

/-- the metadata are there, the costs are not -/
def estimateCosts (op : Op) : Op × PendingOperationResult :=
  let clarified := (env.report.map ReprepareReason.ApplicationReport).getD .ErrorEstimatingGas
  match env.estimate with
  | .succeeded => submissionData env { op with icaRevealAttempts := 0 }
  | .icaInvalidReveal =>
    if op.icaRevealAttempts < REVEAL_POLL_TOTAL_MAX then op.requeueIcaReveal
    else { op with metadata := false }.onReprepare env.failures clarified
  | .failed => { op with icaRevealAttempts := 0, metadata := false }.onReprepare env.failures clarified

def MetadataBuildError.answer (failures : ℕ) (op : Op) : MetadataBuildError → Op × PendingOperationResult
  | FailedToBuild | FastPathError => op.onReprepare failures .ErrorBuildingMetadata
  | CouldNotFetch => op.onReprepare failures .CouldNotFetchMetadata
  | Refused => op.onReprepare failures .MessageMetadataRefused
  | UnsupportedModuleType | MaxIsmDepthExceeded | MaxIsmCountReached => op.onReprepare failures .ErrorBuildingMetadata
  | AggregationThresholdNotMet => op.onReprepare failures .CouldNotFetchMetadata
  | MaxValidatorCountReached | MerkleRootMismatch => op.onReprepare failures .ErrorBuildingMetadata
  | AwaitingValidatorSignatures => op.onMetadataWait failures

/-- `build_metadata`, and what follows when it succeeds -/
def buildMetadata (op : Op) : Op × PendingOperationResult :=
  match env.metadata with
  | .built => estimateCosts env { op with metadata := true }
  | .noIsmAddress => op.onReprepare env.failures .ErrorFetchingIsmAddress
  | .noBuilder => op.onReprepare env.failures .ErrorGettingMetadataBuilder
  | .error err => err.answer env.failures op

/-- cached metadata are used again if the costs can be estimated with them -/
def estimateCached (op : Op) : Op × PendingOperationResult :=
  if op.metadata then
    match env.cachedEstimate with
    | .succeeded => submissionData env { op with icaRevealAttempts := 0 }
    | .icaInvalidReveal =>
      if op.icaRevealAttempts < REVEAL_POLL_TOTAL_MAX then op.requeueIcaReveal
      else buildMetadata env { op with metadata := false }
    | .failed => buildMetadata env { op with metadata := false }
  else buildMetadata env op

def prepare (op : Op) : Op × PendingOperationResult :=
  if !env.isReady then (op, .NotReady) else
  match env.delivered with
  | none => op.onReprepare env.failures .ErrorCheckingDeliveryStatus
  | some true => (op, .Confirm .AlreadySubmitted)
  | some false =>
    match env.isContract with
    | none => op.onReprepare env.failures .ErrorCheckingIfRecipientIsContract
    | some false => op.terminalDrop env.failures
    | some true =>
      match meetsGasPaymentRequirement env op env.preflight with
      | .error answer => answer
      | .ok _ => estimateCached env op

end Prepare

structure ConfirmEnv where
  isReady : Bool
  delivered : Option Bool
  /-- `record_message_process_success` is stored -/
  recorded : Bool
  failures : ℕ

def confirm (env : ConfirmEnv) (op : Op) : Op × PendingOperationResult :=
  if !env.isReady then (op, .NotReady) else
  match env.delivered with
  | none => op.onReconfirm
  | some true => if env.recorded then (op, .Success) else op.onReconfirm
  | some false => op.onReprepare env.failures .RevertedOrReorged

/-! ## The pipeline -/

inductive Place where
  | queue (queue : Queue)
  /-- popped by the stage of this queue -/
  | held (queue : Queue)
  | gone
deriving DecidableEq

/-- an operation and where it is; recorded beside it, how many attempts it has begun since it was last reset, and whether it
has answered `Drop` -/
structure Entry where
  op : Op
  place : Place
  attempts : ℕ
  dropped : Bool

inductive OperationDisposition where
  | PreSubmit
  | Submit
  | PostSubmitSuccess
  | PostSubmitFailure
deriving DecidableEq

/-- how far `submit_via_lander` comes -/
inductive Sending where
  | noPayload
  | noSuccessCriteria
  | notSent
  | uuidNotStored
  | sent
deriving DecidableEq

def Sending.failure : Sending → Option ReprepareReason
  | noPayload => some .ErrorCreatingPayload
  | noSuccessCriteria => some .ErrorCreatingPayloadSuccessCriteria
  | notSent => some .ErrorSubmitting
  | uuidNotStored => some .ErrorStoringPayloadUuidsByMessageId
  | sent => none

/-- `process_confirm_result`: where an operation goes after its confirmation -/
def processConfirmResult : PendingOperationResult → Option (Queue × Option PendingOperationStatus)
  | .Success => none
  | .NotReady => some (.confirm, none)
  | .Confirm reason => some (.confirm, some (.Confirm reason))
  | .Reprepare reason => some (.prepare, some (.Retry reason))
  | .Drop => none

/-- the message is started from scratch; waiting for a commitment is no new attempt -/
def startsAttempt : Queue → Option PendingOperationStatus → Bool
  | .prepare, some (.Retry reason) => reason ≠ .AwaitingIcaReveal
  | _, _ => false

namespace Entry

/-- the operation has answered -/
def answered (e : Entry) (out : Op × PendingOperationResult) : Entry :=
  { e with op := out.1, dropped := e.dropped || out.2 = .Drop }

def pushed (e : Entry) (queue : Queue) (status : Option PendingOperationStatus) : Entry :=
  { e with
    op := e.op.setStatus status
    place := .queue queue
    attempts := if startsAttempt queue status then e.attempts + 1 else e.attempts }

/-- pushed to a queue, or to none -/
def disposed (e : Entry) : Option (Queue × Option PendingOperationStatus) → Entry
  | some (queue, status) => e.pushed queue status
  | none => { e with place := .gone }

/-- `prepare_op`: what the operation answers is logged -/
def prepareOp (e : Entry) (failures : ℕ) (reason : ReprepareReason) : Entry :=
  (e.answered (e.op.onReprepare failures reason)).pushed .prepare (some (.Retry reason))

def submitViaLander (e : Entry) (sending : Sending) (failures : ℕ) : Entry :=
  match sending.failure with
  | some reason => e.prepareOp failures reason
  | none => e.pushed .submit (some .ReadyToSubmit)

/-- `filter_operations_for_preparation`, and `process_batch` for what it returns -/
def prepareStage (e : Entry) (disposition : OperationDisposition) (env : PrepareEnv) : Entry :=
  match disposition with
  | .PreSubmit | .PostSubmitFailure =>
    let out := prepare env e.op
    (e.answered out).disposed (disposePreparedOperation out.2)
  | .Submit => e.pushed .submit (some .ReadyToSubmit)
  | .PostSubmitSuccess => e.pushed .confirm (some (.Confirm .AlreadySubmitted))

/-- `filter_operations_for_submit`, and `submit_via_lander` for what it returns -/
def submitStage (e : Entry) (disposition : OperationDisposition) (sending : Sending) (failures : ℕ) : Entry :=
  match disposition with
  | .PreSubmit => e.submitViaLander sending failures
  | .Submit => e.pushed .submit (some .ReadyToSubmit)
  | .PostSubmitSuccess => e.pushed .confirm (some (.Confirm .SubmittedBySelf))
  -- the answer of `on_reprepare` is not looked at here either
  | .PostSubmitFailure => e.prepareOp failures .ErrorSubmitting

/-- `confirm_classic_task`: on a chain whose transactions are not final at once, the operation may not be asked -/
def confirmStage (e : Entry) (awaitingFinality : Bool) (env : ConfirmEnv) : Entry :=
  let out := if awaitingFinality then (e.op, .NotReady) else confirm env e.op
  (e.answered out).disposed (processConfirmResult out.2)

/-- a retry request matches an operation in a queue -/
def reset (e : Entry) : Entry := { e with op := e.op.resetAttempts, attempts := 1 }

end Entry

inductive Event where
  | receive (op : Op)
  | pop (queue : Queue)
  | prepare (disposition : OperationDisposition) (env : PrepareEnv)
  | submit (disposition : OperationDisposition) (sending : Sending) (failures : ℕ)
  | confirm (awaitingFinality : Bool) (env : ConfirmEnv)
  | retryRequest (queue : Queue)

/-- what an event makes of the operation it is about -/
def stepEntry : Option Entry → Event → Option Entry
  | none, .receive op => some ⟨op, .queue .prepare, 1, false⟩
  | none, _ => none
  | some e, .receive _ => some e
  | some e, .pop queue => some (if e.place = .queue queue then { e with place := .held queue } else e)
  | some e, .prepare disposition env => some (if e.place = .held .prepare then e.prepareStage disposition env else e)
  | some e, .submit disposition sending failures =>
    some (if e.place = .held .submit then e.submitStage disposition sending failures else e)
  | some e, .confirm awaitingFinality env =>
    some (if e.place = .held .confirm then e.confirmStage awaitingFinality env else e)
  | some e, .retryRequest queue => some (if e.place = .queue queue then e.reset else e)

/-- the operations received so far -/
abbrev State := ℕ → Option Entry

def step (s : State) (event : ℕ × Event) : State := Function.update s event.1 (stepEntry (s event.1) event.2)

def run (events : List (ℕ × Event)) : State := events.foldl step fun _ => none

/-- a dropped operation is in no queue, and a fail-fast operation is attempted at most `max_retries` times -/
def Respected (e : Entry) : Prop :=
  (e.dropped → ∀ queue, e.place ≠ .queue queue) ∧ (e.op.failFast → e.attempts ≤ e.op.maxRetries.toNat)

/-- the stages of a submission that go back to the preparation -/
def sentBack (disposition : OperationDisposition) (sending : Sending) : Prop :=
  disposition = .PostSubmitFailure ∨ disposition = .PreSubmit ∧ sending ≠ .sent

/-- an operation that the submit stage sends back has an attempt left -/
def Honoured : Option Entry → Event → Prop
  | some e, .submit disposition sending _ =>
    e.place = .held .submit → sentBack disposition sending → ¬ e.op.incAttempts.exhausted
  | _, _ => True

/-! ## What an operation answers -/

theorem toNat_saturatingSucc_ge (n : UInt32) : n.toNat ≤ (saturatingSucc n).toNat := by
  rw [saturatingSucc]
  split
  · rfl
  next h =>
    have hlt : n.toNat + 1 < 2 ^ 32 := by
      have hne : n.toNat ≠ 2 ^ 32 - 1 := fun heq => h (UInt32.toNat_inj.1 heq)
      have := n.toNat_lt
      omega
    rw [UInt32.toNat_add, UInt32.toNat_one, Nat.mod_eq_of_lt hlt]
    omega

/-- a count that has not reached a bound has not been cut off -/
theorem toNat_saturatingSucc_of_lt {n bound : UInt32} (h : saturatingSucc n < bound) :
    (saturatingSucc n).toNat = n.toNat + 1 := by
  have hbound := bound.toNat_lt
  have hlt : (saturatingSucc n).toNat < bound.toNat := UInt32.lt_iff_toNat_lt.1 h
  rw [saturatingSucc] at hlt ⊢
  split at hlt
  next heq =>
    rw [heq] at hlt
    exact absurd hlt (by change ¬ 2 ^ 32 - 1 < bound.toNat; omega)
  next hne =>
    rw [if_neg hne, UInt32.toNat_add, UInt32.toNat_one]
    have hn : n.toNat ≠ 2 ^ 32 - 1 := fun heq => hne (UInt32.toNat_inj.1 heq)
    have := n.toNat_lt
    exact Nat.mod_eq_of_lt (by omega)

/-- the limits of an operation stay, and its count does not fall -/
structure Grows (op op' : Op) : Prop where
  failFast : op'.failFast = op.failFast
  maxRetries : op'.maxRetries = op.maxRetries
  numRetries : op.numRetries.toNat ≤ op'.numRetries.toNat

theorem Grows.refl (op : Op) : Grows op op := ⟨rfl, rfl, le_rfl⟩

theorem Grows.trans {a b c : Op} (hab : Grows a b) (hbc : Grows b c) : Grows a c :=
  ⟨hbc.failFast.trans hab.failFast, hbc.maxRetries.trans hab.maxRetries, hab.numRetries.trans hbc.numRetries⟩

theorem grows_incAttempts (op : Op) : Grows op op.incAttempts := ⟨rfl, rfl, toNat_saturatingSucc_ge op.numRetries⟩

/-- what an operation can answer: that it is not to be started again, or only to wait for a commitment; that it is, which a
fail-fast operation has counted and has left; or `Drop` -/
inductive Answer (op : Op) : Op × PendingOperationResult → Prop
  | waits {op' : Op} {result : PendingOperationResult} (grows : Grows op op')
      (hwaits : ∀ reason, result = .Reprepare reason → reason = .AwaitingIcaReveal) : Answer op (op', result)
  | again {op' : Op} {reason : ReprepareReason} (grows : Grows op op')
      (counted : op.failFast → op.numRetries.toNat < op'.numRetries.toNat ∧ op'.numRetries.toNat < op'.maxRetries.toNat) :
      Answer op (op', .Reprepare reason)
  | drops {op' : Op} (grows : Grows op op') : Answer op (op', .Drop)

/-- what was cached before the answer does not matter -/
theorem Answer.of_grows {op op' : Op} {out : Op × PendingOperationResult} (h : Answer op' out) (hgrows : Grows op op') :
    Answer op out := by
  cases h with
  | waits grows hwaits => exact .waits (hgrows.trans grows) hwaits
  | again grows counted =>
    refine .again (hgrows.trans grows) fun hfast => ?_
    obtain ⟨hlt, hmax⟩ := counted (hgrows.failFast.trans hfast)
    exact ⟨hgrows.numRetries.trans_lt hlt, hmax⟩
  | drops grows => exact .drops (hgrows.trans grows)

/-- an attempt that is counted, and left to the operation -/
theorem answer_counted {op : Op} {reason : ReprepareReason} (h : ¬ op.incAttempts.exhausted) :
    Answer op (op.incAttempts, .Reprepare reason) := by
  refine .again (grows_incAttempts op) fun hfast => ?_
  have hlt : saturatingSucc op.numRetries < op.maxRetries := by
    rw [Op.exhausted, not_and] at h
    exact UInt32.not_le.1 (h hfast)
  have hsucc := toNat_saturatingSucc_of_lt hlt
  refine ⟨?_, UInt32.lt_iff_toNat_lt.1 hlt⟩
  rw [show op.incAttempts.numRetries = saturatingSucc op.numRetries from rfl, hsucc]
  exact Nat.lt_succ_self _

theorem answer_terminalDrop (failures : ℕ) (op : Op) : Answer op (op.terminalDrop failures) := by
  induction failures generalizing op with
  | zero => exact .drops (Grows.refl op)
  | succ failures ih =>
    rw [Op.terminalDrop]
    split
    · dsimp only
      split
      · exact (ih op.incAttempts).of_grows (grows_incAttempts op)
      next h => exact answer_counted h
    · exact .drops (Grows.refl op)

theorem answer_reprepareOrDrop (failures : ℕ) (op : Op) (reason : ReprepareReason) :
    Answer op (Op.reprepareOrDrop failures op.incAttempts reason) := by
  rw [Op.reprepareOrDrop]
  split
  · exact (answer_terminalDrop failures _).of_grows (grows_incAttempts op)
  next h => exact answer_counted h

theorem answer_onReprepare (failures : ℕ) (op : Op) (reason : ReprepareReason) :
    Answer op (op.onReprepare failures reason) := answer_reprepareOrDrop failures op reason

theorem answer_onReconfirm (op : Op) : Answer op op.onReconfirm := .waits (grows_incAttempts op) nofun

theorem answer_requeueIcaReveal (op : Op) : Answer op op.requeueIcaReveal := by
  refine .waits ⟨rfl, rfl, le_rfl⟩ fun reason heq => ?_
  exact (PendingOperationResult.Reprepare.inj heq).symm

theorem answer_requirement {env : PrepareEnv} {op : Op} {status : GasPolicyStatus} {out : Op × PendingOperationResult}
    (h : meetsGasPaymentRequirement env op status = .error out) : Answer op out := by
  cases status with
  | error => exact Except.error.inj h ▸ answer_onReprepare ..
  | NoPaymentFound => exact Except.error.inj h ▸ answer_onReprepare ..
  | PolicyNotMet => exact Except.error.inj h ▸ answer_onReprepare ..
  | PolicyMet gasLimit => exact nomatch h

theorem answer_submissionData (env : PrepareEnv) (op : Op) : Answer op (submissionData env op) := by
  rw [submissionData]
  split
  next out h => exact answer_requirement h
  next gasLimit h =>
    split
    · exact (answer_onReprepare ..).of_grows ⟨rfl, rfl, le_rfl⟩
    · exact .waits (Grows.refl op) nofun

theorem answer_estimateCosts (env : PrepareEnv) (op : Op) : Answer op (estimateCosts env op) := by
  rw [estimateCosts]
  split
  · exact (answer_submissionData ..).of_grows ⟨rfl, rfl, le_rfl⟩
  · split
    · exact answer_requeueIcaReveal op
    · exact (answer_onReprepare ..).of_grows ⟨rfl, rfl, le_rfl⟩
  · exact (answer_onReprepare ..).of_grows ⟨rfl, rfl, le_rfl⟩

theorem answer_buildMetadata (env : PrepareEnv) (op : Op) : Answer op (buildMetadata env op) := by
  rw [buildMetadata]
  split
  · exact (answer_estimateCosts ..).of_grows ⟨rfl, rfl, le_rfl⟩
  · exact answer_onReprepare ..
  · exact answer_onReprepare ..
  next err _ => cases err <;> exact answer_reprepareOrDrop ..

theorem answer_estimateCached (env : PrepareEnv) (op : Op) : Answer op (estimateCached env op) := by
  rw [estimateCached]
  split
  · split
    · exact (answer_submissionData ..).of_grows ⟨rfl, rfl, le_rfl⟩
    · split
      · exact answer_requeueIcaReveal op
      · exact (answer_buildMetadata ..).of_grows ⟨rfl, rfl, le_rfl⟩
    · exact (answer_buildMetadata ..).of_grows ⟨rfl, rfl, le_rfl⟩
  · exact answer_buildMetadata env op

theorem answer_prepare (env : PrepareEnv) (op : Op) : Answer op (prepare env op) := by
  rw [prepare]
  split
  · exact .waits (Grows.refl op) nofun
  split
  · exact answer_onReprepare ..
  · exact .waits (Grows.refl op) nofun
  split
  · exact answer_onReprepare ..
  · exact answer_terminalDrop ..
  split
  next out h => exact answer_requirement h
  · exact answer_estimateCached env op

theorem answer_confirm (env : ConfirmEnv) (op : Op) : Answer op (confirm env op) := by
  rw [confirm]
  split
  · exact .waits (Grows.refl op) nofun
  split
  · exact answer_onReconfirm op
  · split
    · exact .waits (Grows.refl op) nofun
    · exact answer_onReconfirm op
  · exact answer_onReprepare ..

/-- without attempts left, a fail-fast operation answers `Drop` whatever the database does -/
theorem terminalDrop_exhausted {op : Op} (failures : ℕ) (h : op.exhausted) : (op.terminalDrop failures).2 = .Drop := by
  induction failures generalizing op with
  | zero => rfl
  | succ failures ih =>
    have hnext : op.incAttempts.exhausted :=
      ⟨h.1, UInt32.le_iff_toNat_le.2 ((UInt32.le_iff_toNat_le.1 h.2).trans (toNat_saturatingSucc_ge op.numRetries))⟩
    rw [Op.terminalDrop]
    split
    · dsimp only
      rw [if_pos hnext]
      exact ih hnext
    · rfl

theorem onReprepare_exhausted {op : Op} {failures : ℕ} {reason : ReprepareReason} (h : op.incAttempts.exhausted) :
    (op.onReprepare failures reason).2 = .Drop := by
  rw [Op.onReprepare, Op.reprepareOrDrop, if_pos h]
  exact terminalDrop_exhausted failures h

theorem onReprepare_left {op : Op} {failures : ℕ} {reason : ReprepareReason} (h : ¬ op.incAttempts.exhausted) :
    (op.onReprepare failures reason).2 = .Reprepare reason := by
  rw [Op.onReprepare, Op.reprepareOrDrop, if_neg h]

/-! ## Steps -/

/-- a dropped operation is gone, and a fail-fast operation has counted every attempt but the present one -/
structure Settled (e : Entry) : Prop where
  gone : e.dropped → e.place = .gone
  counted : e.op.failFast → e.attempts ≤ e.op.numRetries.toNat + 1
  budget : e.op.failFast → e.attempts ≤ e.op.maxRetries.toNat

theorem Settled.respected {e : Entry} (h : Settled e) : Respected e := by
  refine ⟨fun hdropped queue => ?_, h.budget⟩
  rw [h.gone hdropped]
  exact nofun

theorem one_le_maxRetries {op : Op} (hfast : op.failFast) : 1 ≤ op.maxRetries.toNat :=
  UInt32.lt_iff_toNat_lt.1 (op.max_pos hfast)

theorem settled_received (op : Op) : Settled ⟨op, .queue .prepare, 1, false⟩ :=
  ⟨nofun, fun _ => Nat.le_add_left 1 _, one_le_maxRetries⟩

/-- an operation that is somewhere has not been dropped -/
theorem Settled.not_dropped {e : Entry} (h : Settled e) (hplace : e.place ≠ .gone) : e.dropped = false :=
  Bool.eq_false_iff.2 fun hdropped => hplace (h.gone hdropped)

/-- the limits and the count of an operation after an answer that begins no attempt -/
theorem Settled.bounds {e : Entry} (h : Settled e) {op : Op} (hgrows : Grows e.op op) (hfast : op.failFast) :
    e.attempts ≤ op.numRetries.toNat + 1 ∧ e.attempts ≤ op.maxRetries.toNat := by
  have hbefore : e.op.failFast := hgrows.failFast.symm.trans hfast
  exact ⟨(h.counted hbefore).trans (Nat.add_le_add_right hgrows.numRetries 1), hgrows.maxRetries ▸ h.budget hbefore⟩

theorem Answer.grows {op : Op} {out : Op × PendingOperationResult} (h : Answer op out) : Grows op out.1 := by
  cases h with
  | waits grows _ => exact grows
  | again grows _ => exact grows
  | drops grows => exact grows

/-- an operation that is let go -/
theorem settled_let_go {e : Entry} (h : Settled e) {out : Op × PendingOperationResult} (hout : Answer e.op out) :
    Settled ((e.answered out).disposed none) where
  gone _ := rfl
  counted hfast := (h.bounds hout.grows hfast).1
  budget hfast := (h.bounds hout.grows hfast).2

/-- an attempt begins only where the operation has asked for it -/
def AsAnswered (result : PendingOperationResult) (queue : Queue) (status : Option PendingOperationStatus) : Prop :=
  ∀ reason, queue = .prepare → status = some (.Retry reason) → result = .Reprepare reason

/-- an operation that is pushed to a queue after its answer -/
theorem settled_pushed {e : Entry} (h : Settled e) (hplace : e.place ≠ .gone) {out : Op × PendingOperationResult}
    (hout : Answer e.op out) (hdrop : out.2 ≠ .Drop) {queue : Queue} {status : Option PendingOperationStatus}
    (hroute : AsAnswered out.2 queue status) : Settled ((e.answered out).pushed queue status) := by
  have hbounds : out.1.failFast → ((e.answered out).pushed queue status).attempts ≤ out.1.numRetries.toNat + 1 ∧
      ((e.answered out).pushed queue status).attempts ≤ out.1.maxRetries.toNat := by
    intro hfast
    have hbefore : e.op.failFast := hout.grows.failFast.symm.trans hfast
    have hsame := h.bounds hout.grows hfast
    simp only [Entry.pushed, Entry.answered]
    split
    next hstarts =>
      unfold startsAttempt at hstarts
      split at hstarts
      next reason =>
        have hne : reason ≠ .AwaitingIcaReveal := of_decide_eq_true hstarts
        have hresult := hroute reason rfl rfl
        cases hout with
        | waits grows hwaits => exact absurd (hwaits reason hresult) hne
        | again grows counted =>
          have hcounted := h.counted hbefore
          obtain ⟨hlt, hmax⟩ := counted hbefore
          dsimp only
          exact ⟨by omega, by omega⟩
        | drops grows => exact absurd rfl hdrop
      · exact absurd hstarts Bool.false_ne_true
    · exact hsame
  refine ⟨fun hdropped => ?_, fun hfast => (hbounds hfast).1, fun hfast => (hbounds hfast).2⟩
  rw [Entry.pushed, Entry.answered, h.not_dropped hplace, Bool.false_or] at hdropped
  exact absurd (of_decide_eq_true hdropped) hdrop

/-- an operation that is passed on without a question -/
theorem settled_passed_on {e : Entry} (h : Settled e) (hplace : e.place ≠ .gone) {queue : Queue}
    {status : Option PendingOperationStatus} (hstarts : startsAttempt queue status = false) :
    Settled (e.pushed queue status) := by
  have hattempts : (e.pushed queue status).attempts = e.attempts := if_neg (Bool.eq_false_iff.1 hstarts)
  exact ⟨fun hdropped => absurd (h.gone hdropped) hplace, fun hfast => hattempts.trans_le (h.counted hfast),
    fun hfast => hattempts.trans_le (h.budget hfast)⟩

/-- a stage that pushes an operation to a queue as it has answered, or lets it go -/
theorem settled_disposed {e : Entry} (h : Settled e) (hplace : e.place ≠ .gone) {out : Op × PendingOperationResult}
    (hout : Answer e.op out) {dest : Option (Queue × Option PendingOperationStatus)}
    (hdrop : out.2 = .Drop → dest = none) (hroute : ∀ push ∈ dest, AsAnswered out.2 push.1 push.2) :
    Settled ((e.answered out).disposed dest) := by
  cases dest with
  | none => exact settled_let_go h hout
  | some push => exact settled_pushed h hplace hout (fun hdropped => nomatch hdrop hdropped) (hroute push rfl)

theorem disposePreparedOperation_as_answered (result : PendingOperationResult) :
    ∀ push ∈ disposePreparedOperation result, AsAnswered result push.1 push.2 := by
  cases result with
  | Reprepare reason =>
    rintro _ ⟨⟩ reason' _ hstatus
    exact congrArg _ (PendingOperationStatus.Retry.inj (Option.some.inj hstatus))
  | NotReady =>
    rintro _ ⟨⟩ _ _ hstatus
    exact nomatch hstatus
  | Success =>
    rintro _ ⟨⟩ _ hqueue
    exact nomatch hqueue
  | Confirm reason =>
    rintro _ ⟨⟩ _ hqueue
    exact nomatch hqueue
  | Drop => rintro _ ⟨⟩

theorem processConfirmResult_as_answered (result : PendingOperationResult) :
    ∀ push ∈ processConfirmResult result, AsAnswered result push.1 push.2 := by
  cases result with
  | Reprepare reason =>
    rintro _ ⟨⟩ reason' _ hstatus
    exact congrArg _ (PendingOperationStatus.Retry.inj (Option.some.inj hstatus))
  | NotReady =>
    rintro _ ⟨⟩ _ hqueue
    exact nomatch hqueue
  | Confirm reason =>
    rintro _ ⟨⟩ _ hqueue
    exact nomatch hqueue
  | Success => rintro _ ⟨⟩
  | Drop => rintro _ ⟨⟩

theorem settled_prepareStage {e : Entry} (h : Settled e) (hplace : e.place ≠ .gone) (disposition : OperationDisposition)
    (env : PrepareEnv) : Settled (e.prepareStage disposition env) := by
  have hprepared : Settled ((e.answered (prepare env e.op)).disposed (disposePreparedOperation (prepare env e.op).2)) :=
    settled_disposed h hplace (answer_prepare env e.op) (fun hdrop => congrArg disposePreparedOperation hdrop)
      (disposePreparedOperation_as_answered _)
  cases disposition with
  | PreSubmit => exact hprepared
  | Submit => exact settled_passed_on h hplace rfl
  | PostSubmitSuccess => exact settled_passed_on h hplace rfl
  | PostSubmitFailure => exact hprepared

theorem settled_confirmStage {e : Entry} (h : Settled e) (hplace : e.place ≠ .gone) (awaitingFinality : Bool)
    (env : ConfirmEnv) : Settled (e.confirmStage awaitingFinality env) := by
  refine settled_disposed h hplace ?_ (fun hdrop => congrArg processConfirmResult hdrop)
    (processConfirmResult_as_answered _)
  split
  · exact .waits (Grows.refl _) nofun
  · exact answer_confirm env e.op

/-- what `prepare_op` passes over is no `Drop` where an attempt is left -/
theorem settled_prepareOp {e : Entry} (h : Settled e) (hplace : e.place ≠ .gone) {failures : ℕ} {reason : ReprepareReason}
    (hleft : ¬ e.op.incAttempts.exhausted) : Settled (e.prepareOp failures reason) := by
  have hresult : (e.op.onReprepare failures reason).2 = .Reprepare reason := onReprepare_left hleft
  refine settled_pushed h hplace (answer_onReprepare ..) (fun hdrop => nomatch hresult.symm.trans hdrop) ?_
  intro reason' _ hstatus
  rw [hresult, PendingOperationStatus.Retry.inj (Option.some.inj hstatus)]

theorem not_respected_prepareOp {e : Entry} {failures : ℕ} {reason : ReprepareReason} (hnone : e.op.incAttempts.exhausted) :
    ¬ Respected (e.prepareOp failures reason) := by
  intro h
  refine h.1 ?_ .prepare rfl
  change (e.dropped || decide ((e.op.onReprepare failures reason).2 = .Drop)) = true
  rw [onReprepare_exhausted hnone]
  exact Bool.or_true _

/-- what is sent back goes through `prepare_op` -/
theorem submitStage_sentBack {e : Entry} {disposition : OperationDisposition} {sending : Sending} (failures : ℕ)
    (h : sentBack disposition sending) : ∃ reason, e.submitStage disposition sending failures = e.prepareOp failures reason := by
  obtain rfl | ⟨rfl, hsending⟩ := h
  · exact ⟨_, rfl⟩
  · cases sending with
    | sent => exact absurd rfl hsending
    | _ => exact ⟨_, rfl⟩

theorem submitStage_passed_on {e : Entry} {disposition : OperationDisposition} {sending : Sending} (failures : ℕ)
    (h : ¬ sentBack disposition sending) : ∃ queue status,
      startsAttempt queue status = false ∧ e.submitStage disposition sending failures = e.pushed queue status := by
  rw [sentBack, not_or, not_and, not_not] at h
  cases disposition with
  | PreSubmit =>
    rw [h.2 rfl]
    exact ⟨_, _, rfl, rfl⟩
  | Submit => exact ⟨_, _, rfl, rfl⟩
  | PostSubmitSuccess => exact ⟨_, _, rfl, rfl⟩
  | PostSubmitFailure => exact absurd rfl h.1

open Classical in
theorem settled_submitStage {e : Entry} (h : Settled e) (hplace : e.place ≠ .gone) {disposition : OperationDisposition}
    {sending : Sending} {failures : ℕ} (hleft : sentBack disposition sending → ¬ e.op.incAttempts.exhausted) :
    Settled (e.submitStage disposition sending failures) := by
  by_cases hback : sentBack disposition sending
  · obtain ⟨reason, heq⟩ := submitStage_sentBack failures hback
    exact heq ▸ settled_prepareOp h hplace (hleft hback)
  · obtain ⟨queue, status, hstarts, heq⟩ := submitStage_passed_on failures hback
    exact heq ▸ settled_passed_on h hplace hstarts

theorem settled_reset {e : Entry} (h : Settled e) (hplace : e.place ≠ .gone) : Settled e.reset where
  gone hdropped := absurd (h.gone hdropped) hplace
  counted _ := Nat.le_add_left 1 _
  budget hfast := @one_le_maxRetries e.op hfast

/-- one step, of an operation that the submit stage does not keep without an attempt left -/
theorem stepEntry_settled {cell : Option Entry} {event : Event} (h : ∀ e ∈ cell, Settled e) (hhonoured : Honoured cell event) :
    ∀ e ∈ stepEntry cell event, Settled e := by
  cases cell with
  | none =>
    cases event with
    | receive op =>
      rintro e ⟨⟩
      exact settled_received op
    | _ => rintro _ ⟨⟩
  | some e =>
    have he := h e rfl
    have hsomewhere : ∀ {place : Place}, e.place = place → place ≠ .gone → e.place ≠ .gone := fun heq hne => heq ▸ hne
    cases event with
    | receive op =>
      rintro _ ⟨⟩
      exact he
    | pop queue =>
      rintro _ ⟨⟩
      split
      next hplace => exact ⟨fun hdropped => absurd (he.gone hdropped) (hsomewhere hplace nofun), he.counted, he.budget⟩
      · exact he
    | prepare disposition env =>
      rintro _ ⟨⟩
      split
      next hplace => exact settled_prepareStage he (hsomewhere hplace nofun) ..
      · exact he
    | submit disposition sending failures =>
      rintro _ ⟨⟩
      split
      next hplace => exact settled_submitStage he (hsomewhere hplace nofun) (hhonoured hplace)
      · exact he
    | confirm awaitingFinality env =>
      rintro _ ⟨⟩
      split
      next hplace => exact settled_confirmStage he (hsomewhere hplace nofun) ..
      · exact he
    | retryRequest queue =>
      rintro _ ⟨⟩
      split
      next hplace => exact settled_reset he (hsomewhere hplace nofun)
      · exact he

/-- a step that is not honoured leaves a dropped operation in the prepare queue -/
theorem stepEntry_not_respected {cell : Option Entry} {event : Event} (h : ¬ Honoured cell event) :
    ∃ e ∈ stepEntry cell event, ¬ Respected e := by
  rcases cell with _ | e
  · exact absurd trivial h
  cases event with
  | submit disposition sending failures =>
    simp only [Honoured, not_forall, not_not] at h
    obtain ⟨hplace, hback, hnone⟩ := h
    obtain ⟨reason, heq⟩ := submitStage_sentBack (e := e) failures hback
    exact ⟨_, rfl, by rw [if_pos hplace, heq]; exact not_respected_prepareOp hnone⟩
  | _ => exact absurd trivial h

/-! ## Runs -/

theorem run_append (events : List (ℕ × Event)) (event : ℕ × Event) : run (events ++ [event]) = step (run events) event := by
  rw [run, List.foldl_append]
  rfl

theorem run_take_succ {events : List (ℕ × Event)} {k : ℕ} {event : ℕ × Event} (h : events[k]? = some event) :
    run (events.take (k + 1)) = step (run (events.take k)) event := by
  obtain ⟨hk, rfl⟩ := List.getElem?_eq_some_iff.1 h
  rw [← List.take_concat_get' events k hk, run_append]

/-- every state of an honoured run -/
theorem run_settled {events : List (ℕ × Event)}
    (h : ∀ k id event, events[k]? = some (id, event) → Honoured (run (events.take k) id) event) (k id : ℕ) :
    ∀ e ∈ run (events.take k) id, Settled e := by
  induction k generalizing id with
  | zero => rintro _ ⟨⟩
  | succ k ih =>
    cases hevent : events[k]? with
    | none =>
      have hlen := List.getElem?_eq_none_iff.1 hevent
      rw [List.take_of_length_le (hlen.trans (Nat.le_succ k)), ← List.take_of_length_le hlen]
      exact ih id
    | some event =>
      rw [run_take_succ hevent, step]
      by_cases hid : id = event.1
      · subst hid
        rw [Function.update_self]
        exact stepEntry_settled (ih event.1) (h k event.1 event.2 hevent)
      · rw [Function.update_of_ne hid]
        exact ih id

/-- a run keeps every dropped operation out of the queues, and every fail-fast operation within its attempts, exactly when no
operation that the submit stage sends back was out of attempts -/
theorem dropped_operations_iff (events : List (ℕ × Event)) :
    (∀ k id, ∀ e ∈ run (events.take k) id, Respected e) ↔
      ∀ k id event, events[k]? = some (id, event) → Honoured (run (events.take k) id) event := by
  refine ⟨fun h k id event hevent => ?_, fun h k id e he => (run_settled h k id e he).respected⟩
  by_contra hnot
  obtain ⟨e, he, hrespected⟩ := stepEntry_not_respected hnot
  refine hrespected (h (k + 1) id e ?_)
  rw [run_take_succ hevent, step]
  dsimp only
  rw [Function.update_self]
  exact he

/-! ## The failing run -/

/-- a message of the relay API -/
def relayed : Op := ⟨.FirstPrepareAttempt, 1, 0, true, false, 0, false, fun _ => by decide⟩

def prepares : PrepareEnv :=
  ⟨true, some false, some true, .PolicyMet 0, .succeeded, .built, .succeeded, none, .PolicyMet 0, none, 0⟩

/-- the lander refuses the payload of a prepared message: the message answers `Drop`, and is prepared again -/
def refusedPayload : List (ℕ × Event) :=
  [(0, .receive relayed), (0, .pop .prepare), (0, .prepare .PreSubmit prepares), (0, .pop .submit),
    (0, .submit .PreSubmit .notSent 0)]

/-- the entry at the end -/
def sentBackEntry : Entry :=
  ⟨{ relayed with status := .Retry .ErrorSubmitting, numRetries := 1, metadata := true }, .queue .prepare, 2, true⟩

theorem run_refusedPayload : run refusedPayload 0 = some sentBackEntry := by
  simp only [run, refusedPayload, List.foldl_cons, List.foldl_nil, step, Function.update_self, stepEntry]
  rfl

theorem dropped_operation_queued :
    ¬ ∀ (events : List (ℕ × Event)) (k id : ℕ), ∀ e ∈ run (events.take k) id, Respected e := by
  intro h
  have hrun : run (refusedPayload.take refusedPayload.length) 0 = some sentBackEntry := by
    rw [List.take_length, run_refusedPayload]
  exact (h refusedPayload _ 0 sentBackEntry hrun).1 rfl .prepare rfl

end Hyperlane.Relayer.DroppedOperations
