/-
The inclusion stage of the lander: `InclusionStage` (lander/src/dispatcher/stages/inclusion_stage.rs).

One task processes the pool. It takes a snapshot, asks the chain for the status of each transaction, and applies the
results one by one: a transaction stays in the pool, is sent to the finality stage, or is dropped. Two other tasks
insert transactions into the pool at any time, those of the building stage and those to process again after a reorg. A
program below makes one access for each time the pool is locked, a record is stored or the channel is used; the answers
of the chain, the failing writes and the state of the channel are the script of a result.

A payload belongs to one transaction.
-/
import Hyperlane.Lander.NonceState

namespace Hyperlane.Lander

open Interleaving (Prog)

/-! ## Data -/

variable {Uuid Payload D : Type} {owner : Payload → Uuid}

/-- `data` is what the adapters fill in: hashes, the call, gas prices, times of creation and submission -/
structure Transaction (D : Type) (owner : Payload → Uuid) where
  uuid : Uuid
  data : D
  payloadDetails : List Payload
  status : TransactionStatus
  submissionAttempts : ℕ
  lastStatusCheck : Option ℕ
  owned : ∀ p ∈ payloadDetails, owner p = uuid
deriving DecidableEq

/-- the reason of a drop plays no part -/
inductive PayloadStatus where
  | ReadyToSubmit
  | InTransaction (status : TransactionStatus)
  | Dropped
deriving DecidableEq

inductive LanderError where
  | ChainCommunicationError
  | ChannelSendFailure
  | ChannelClosed
  | NetworkError
  | TxSubmissionError
  | DbError
  | NonRetryableError
  | EstimationFailed
  | SimulationFailed
  | PayloadNotFound
  | TxDropped
  | TxGasCapReached
  | TxHashNotFound
  | TxAlreadyExists
  | EyreError
deriving DecidableEq

def LanderError.isInfraError : LanderError → Bool
  | .ChainCommunicationError | .ChannelSendFailure | .ChannelClosed | .NetworkError | .TxSubmissionError | .DbError =>
    true
  | _ => false

/-- what an adapter makes of a transaction: it may leave out payloads -/
structure Edit (Payload D : Type) where
  data : D
  keep : Payload → Bool

def Transaction.edit (tx : Transaction D owner) (e : Edit Payload D) : Transaction D owner :=
  { tx with
    data := e.data
    payloadDetails := tx.payloadDetails.filter e.keep
    owned := fun p hp => tx.owned p (List.mem_filter.1 hp).1 }

/-- which writes of a `store_tx` succeed: that of the transaction, and those of the payloads -/
structure Writes (Payload : Type) where
  tx : Bool
  payload : Payload → Bool

/-- everything the stage is told while it applies one result; a retried call counts with its last answer -/
structure Script (Payload D : Type) where
  checkedAt : ℕ
  status : Except LanderError TransactionStatus
  readyForResubmission : Bool
  simulation : Except LanderError (Edit Payload D × (Payload → Bool))
  estimation : Except LanderError (Edit Payload D)
  submission : Edit Payload D × Except LanderError Unit
  /-- the finality stage still receives -/
  channelOpen : Bool
  statusWrites : Writes Payload
  simulationWrites : Payload → Bool
  submissionWrites : Writes Payload
  dropWrites : Writes Payload

/-- the pool, the channel and the database. `received` are the transactions that ever entered the pool, `reentered`
those that entered other than once from the building stage, `failedDrop` those with a failed write of their drop -/
structure Stage (D : Type) (owner : Payload → Uuid) where
  pool : Uuid → Option (Transaction D owner)
  finalityStage : List (Transaction D owner)
  txDb : Uuid → Option (Transaction D owner)
  payloadDb : Payload → Option PayloadStatus
  received : Uuid → Bool
  reentered : Uuid → Bool
  failedDrop : Uuid → Bool

/-- the stage when it is started, over what the database holds -/
def Stage.start (txDb : Uuid → Option (Transaction D owner)) (payloadDb : Payload → Option PayloadStatus) :
    Stage D owner :=
  ⟨fun _ => none, [], txDb, payloadDb, fun _ => false, fun _ => false, fun _ => false⟩

variable [DecidableEq Uuid] [DecidableEq Payload] [DecidableEq D]

abbrev StageProg (D : Type) (owner : Payload → Uuid) := Prog (Stage D owner)

/-! ## The other tasks -/

inductive Arrival (D : Type) (owner : Payload → Uuid) where
  | receive (tx : Transaction D owner)
  | reprocess (tx : Transaction D owner)

def Arrival.tx : Arrival D owner → Transaction D owner
  | .receive tx => tx
  | .reprocess tx => tx

namespace Stage

def insert (s : Stage D owner) (tx : Transaction D owner) : Stage D owner :=
  { s with pool := Function.update s.pool tx.uuid (some tx) }

/-- the transaction is new to the stage and not dropped -/
def fresh (s : Stage D owner) (tx : Transaction D owner) : Bool :=
  !s.received tx.uuid && tx.status ≠ .Dropped && ((s.txDb tx.uuid).all fun t => t.status ≠ .Dropped) &&
    s.finalityStage.all fun t => t.uuid ≠ tx.uuid

/-- `receive_txs` and `receive_reprocess_txs` -/
def arrive (s : Stage D owner) (a : Arrival D owner) : Stage D owner :=
  match a with
  | .receive tx =>
    { s.insert tx with
      received := Function.update s.received tx.uuid true
      reentered := Function.update s.reentered tx.uuid (s.reentered tx.uuid || !s.fresh tx) }
  | .reprocess tx =>
    { s.insert tx with
      received := Function.update s.received tx.uuid true
      reentered := Function.update s.reentered tx.uuid true }

end Stage

/-! ## Records -/

/-- `store_transaction_by_uuid`; a failing write is logged -/
def storeTransaction (tx : Transaction D owner) (ok : Bool) : StageProg D owner Unit :=
  Prog.write fun s =>
    if ok then { s with txDb := Function.update s.txDb tx.uuid (some tx) }
    else if tx.status = .Dropped then { s with failedDrop := Function.update s.failedDrop tx.uuid true }
    else s

/-- `store_new_payload_status`; a failing write is logged -/
def storePayloadStatus (p : Payload) (status : PayloadStatus) (ok : Bool) : StageProg D owner Unit :=
  Prog.write fun s =>
    if ok then { s with payloadDb := Function.update s.payloadDb p (some status) }
    else if status = .InTransaction .Dropped then { s with failedDrop := Function.update s.failedDrop (owner p) true }
    else s

def updateStatusForPayloads (status : PayloadStatus) (ok : Payload → Bool) : List Payload → StageProg D owner Unit
  | [] => pure ()
  | p :: ps => do
    storePayloadStatus p status (ok p)
    updateStatusForPayloads status ok ps

def storeTx (tx : Transaction D owner) (w : Writes Payload) : StageProg D owner Unit := do
  storeTransaction tx w.tx
  updateStatusForPayloads (.InTransaction tx.status) w.payload tx.payloadDetails

/-- the transaction with its new status, stored -/
def updateTxStatus (tx : Transaction D owner) (status : TransactionStatus) (w : Writes Payload) :
    StageProg D owner (Transaction D owner) := do
  storeTx { tx with status := status } w
  pure { tx with status := status }

def insertIntoPool (tx : Transaction D owner) : StageProg D owner Unit := Prog.write fun s => s.insert tx

def removeFromPool (uuid : Uuid) : StageProg D owner Unit :=
  Prog.write fun s => { s with pool := Function.update s.pool uuid none }

def sendToFinalityStage (tx : Transaction D owner) : StageProg D owner Unit :=
  Prog.write fun s => { s with finalityStage := s.finalityStage ++ [tx] }

/-! ## Processing a result -/

/-- compares and replaces under one lock -/
def replaceIfUnchanged (snapshotTx checkedTx : Transaction D owner) : StageProg D owner Bool :=
  .access (fun s => if s.pool snapshotTx.uuid = some snapshotTx then s.insert checkedTx else s)
    fun s => .pure (decide (s.pool snapshotTx.uuid = some snapshotTx))

def dropTx (tx : Transaction D owner) (w : Writes Payload) : StageProg D owner Unit := do
  let _ ← updateTxStatus tx .Dropped w
  removeFromPool tx.uuid

/-- a transaction is simulated before its first submission -/
def simulateTx (tx : Transaction D owner) (script : Script Payload D) :
    StageProg D owner (Except LanderError (Transaction D owner)) :=
  if 1 < tx.submissionAttempts then pure (.ok tx)
  else match script.simulation with
    | .error _ => pure (.error .EyreError)
    | .ok (e, failed) => do
      updateStatusForPayloads .Dropped script.simulationWrites (tx.payloadDetails.filter failed)
      pure (.ok (tx.edit e))

def estimateTx (tx : Transaction D owner) (script : Script Payload D) : Except LanderError (Transaction D owner) :=
  match script.estimation with
  | .error _ => .error .NonRetryableError
  | .ok e => .ok (tx.edit e)

inductive SubmitOutcome (D : Type) (owner : Payload → Uuid) where
  | Submitted (tx : Transaction D owner)
  | GasCapReached (tx : Transaction D owner)

def submitTx (tx : Transaction D owner) (script : Script Payload D) : Except LanderError (SubmitOutcome D owner) :=
  match script.submission.2 with
  | .ok _ | .error .TxAlreadyExists => .ok (.Submitted (tx.edit script.submission.1))
  | .error .TxGasCapReached => .ok (.GasCapReached (tx.edit script.submission.1))
  | .error _ => .error .NonRetryableError

/-- estimating and submitting, after the simulation -/
def submitPendingTx (tx : Transaction D owner) (script : Script Payload D) : StageProg D owner (Except LanderError Unit) :=
  match estimateTx tx script with
  | .error e => pure (.error e)
  | .ok tx =>
    match submitTx tx script with
    | .error e => pure (.error e)
    | .ok (.GasCapReached tx) => do
      let tx ← updateTxStatus tx tx.status script.submissionWrites
      insertIntoPool tx
      pure (.ok ())
    | .ok (.Submitted tx) => do
      let tx ← updateTxStatus tx .Mempool script.submissionWrites
      insertIntoPool tx
      pure (.ok ())

def processPendingTx (tx : Transaction D owner) (script : Script Payload D) :
    StageProg D owner (Except LanderError Unit) := do
  match ← simulateTx { tx with submissionAttempts := min (tx.submissionAttempts + 1) (2 ^ 32 - 1) } script with
  | .error e => pure (.error e)
  | .ok tx => submitPendingTx tx script

def tryProcessTxWithNextStatus (tx : Transaction D owner) (status : TransactionStatus) (script : Script Payload D) :
    StageProg D owner (Except LanderError Unit) :=
  match status with
  | .PendingInclusion | .Mempool => do
    let tx ← updateTxStatus tx status script.statusWrites
    insertIntoPool tx
    if script.readyForResubmission then processPendingTx tx script else pure (.ok ())
  | .Included | .Finalized => do
    let tx ← updateTxStatus tx status script.statusWrites
    insertIntoPool tx
    if script.channelOpen then do
      sendToFinalityStage tx
      removeFromPool tx.uuid
      pure (.ok ())
    else pure (.error .ChannelSendFailure)
  | .Dropped => pure (.error .TxDropped)

/-- the body of the loop of `process_txs_step` -/
def processResult (snapshotTx : Transaction D owner) (script : Script Payload D) : StageProg D owner Unit := do
  let checkedTx := { snapshotTx with lastStatusCheck := some script.checkedAt }
  if ← replaceIfUnchanged snapshotTx checkedTx then
    match script.status with
    | .error err => if err.isInfraError then storeTx checkedTx script.statusWrites else dropTx checkedTx script.dropWrites
    | .ok status =>
      match ← tryProcessTxWithNextStatus checkedTx status script with
      | .ok _ => pure ()
      -- kept for a retry
      | .error .ChannelSendFailure => pure ()
      | .error _ => dropTx checkedTx script.dropWrites
  else pure ()

def processResults : List (Transaction D owner × Script Payload D) → StageProg D owner Unit
  | [] => pure ()
  | (tx, script) :: rest => do
    processResult tx script
    processResults rest

/-- `order` are the transactions that are due, in the order in which their results come -/
def processTxsStep (order : List (Uuid × Script Payload D)) : StageProg D owner Unit := do
  let snapshot ← Prog.read fun s => order.filterMap fun e => (s.pool e.1).map fun tx => (tx, e.2)
  processResults snapshot

end Hyperlane.Lander
