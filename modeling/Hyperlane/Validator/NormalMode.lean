/-
A validator in normal mode, across restarts (agents/validator/src/submit.rs, validator.rs and reorg_tombstone.rs, with
`CheckpointSyncer` of hyperlane-base): checkpoint storage and local disk, and at most one process.

A process starts from the tip tree and from a snapshot. Its backfill worker publishes every checkpoint from the snapshot
up to the tip, its tip worker what comes after. Both replay leaves of the database, compare the root with a checkpoint
read over RPC, and then fetch, sign and store each queued checkpoint. On a mismatch, or on a stored checkpoint of this
validator with another value, the shared halt is set and a guard is written, first to disk and then to the storage; with
either guard no process starts.

An event is one thing the environment or the scheduler does: a start, a crash, a row, one answer to one pending request.
Trees, rows, checkpoints and answers are arbitrary, but a fetch that succeeds returns what is stored, and a write that is
reported as done has landed; a write that fails may have landed as well. A request that is dropped has landed by then or
never does. An event that is not awaited changes nothing.
-/
import Hyperlane.Accumulator.Snapshot
import Hyperlane.Validator.Publication

namespace Hyperlane.NormalMode

open Hyperlane.Accumulator Hyperlane.Validator

variable {H : Type}

/-! ## Workers -/

inductive Role where
  | backfill
  | tip
deriving DecidableEq

/-- where `update_latest_index` stands -/
inductive Publication where
  | settled
  | reading (index : ℕ)
  | writing (index : ℕ)
deriving DecidableEq

inductive Phase (H : Type) where
  /-- the tip worker waits for the next checkpoint -/
  | waiting
  /-- the loop of `verified_checkpoints`, with the tree it started from -/
  | replaying (target : Checkpoint H) (verified : IncrementalMerkle H) (queue : List (QueuedCheckpoint H))
  /-- the RPC fallback after a root mismatch -/
  | recovering (target : Checkpoint H) (verified : IncrementalMerkle H)
  /-- `submit_checkpoints`: the remaining checkpoints, highest first, the current chunk and the latest index -/
  | submitting (rest : List (CheckpointWithMessageId H)) (jobs : List (Job H)) (latest : Publication)
  /-- `persist_reorg_guard`, before and after the tombstone is durable -/
  | guarding (tombstoned : Bool)
  /-- returned or panicked -/
  | ended

structure Worker (H : Type) where
  tree : IncrementalMerkle H
  phase : Phase H

structure Process (H : Type) where
  /-- the leaves of the tip tree when the process started -/
  tipCount : ℕ
  backfill : Worker H
  tip : Worker H
  /-- `reorg_halt` -/
  halted : Bool

namespace Process

def worker (p : Process H) : Role → Worker H
  | .backfill => p.backfill
  | .tip => p.tip

def setWorker (p : Process H) (role : Role) (w : Worker H) : Process H :=
  match role with
  | .backfill => { p with backfill := w }
  | .tip => { p with tip := w }

end Process

/-- a signed checkpoint in the storage; the signer is recovered when it is read -/
abbrev Stored (H : Type) : Type := Except Unit ℕ × CheckpointWithMessageId H

/-- the checkpoint storage, the local disk and the process; `signed` is what was ever passed to the signer -/
structure Node (H : Type) where
  storage : ℕ → Option (Stored H)
  latestIndex : Option ℕ
  snapshot : Option (MerkleTreeSnapshot H)
  reorgStatus : Bool
  tombstone : Bool
  process : Option (Process H)
  signed : List (CheckpointWithMessageId H)

section Machine

variable [DecidableEq H] (K : Keccak H) (C : HashCodec H) (s : ValidatorSubmitter H)

/-! ## Replaying -/

/-- the assertion at the head of `verified_checkpoints` -/
def begin (tree : IncrementalMerkle H) (target : Checkpoint H) : Phase H :=
  if treeExceedsCheckpoint target tree then .ended else .replaying target tree []

/-- the head of `submit_checkpoints`: the latest index goes with the highest checkpoint -/
def submit (target : Checkpoint H) (queue : List (QueuedCheckpoint H)) : Phase H :=
  .submitting (queue.map (·.intoCheckpoint target)).reverse []
    (match queue.getLast? with
      | none => .settled
      | some q => .reading q.index)

/-- the end of `verified_checkpoints`, with `verify_checkpoint`; the halt is set on a mismatch -/
def checkTarget (tree : IncrementalMerkle H) (target : Checkpoint H) (queue : List (QueuedCheckpoint H)) :
    Phase H × Bool :=
  match tree.index with
  | none => (.ended, false)
  | some i =>
    if target.index ≠ i then (.ended, false)
    else if s.checkpoint ((queue.getLast?.map (·.root)).getD (tree.root K)) i ≠ target then (.guarding false, true)
    else (submit target queue, false)

/-- one row of the database -/
def Worker.read (w : Worker H) (row : Except Unit (Option H)) : Worker H :=
  match w.phase with
  | .replaying target verified queue =>
    if target.index < w.tree.count % 2 ^ 32 then w
    else
      match row with
      | .error _ => { w with phase := .ended }
      | .ok none => w
      | .ok (some messageId) =>
        match ingestQueued K (w.tree, queue) messageId with
        | none => { w with phase := .ended }
        | some (tree, queue) => ⟨tree, .replaying target verified queue⟩
  | _ => w

/-- the loop is over -/
def Worker.conclude (w : Worker H) : Worker H × Bool :=
  match w.phase with
  | .replaying target verified queue =>
    if ¬ target.index < w.tree.count % 2 ^ 32 then (w, false)
    else if s.rpcRecovery ∧ queue ≠ [] ∧ (w.tree.index.map fun i => s.checkpoint (w.tree.root K) i) ≠ some target then
      ({ w with phase := .recovering target verified }, false)
    else
      let (phase, halt) := checkTarget K s w.tree target queue
      ({ w with phase }, halt)
  | _ => (w, false)

/-- the leaves of the RPC fallback; any other number of them is an error, and the worker retries -/
def Worker.fetchInsertions (w : Worker H) (leaves : List H) : Worker H × Bool :=
  match w.phase with
  | .recovering target verified =>
    if ¬ (verified.count ≤ target.index ∧ leaves.length = target.index - verified.count + 1) then (w, false)
    else
      match leaves.foldlM (ingestQueued K) (verified, []) with
      | none => ({ w with phase := .ended }, false)
      | some (tree, queue) =>
        let (phase, halt) := checkTarget K s tree target queue
        (⟨tree, phase⟩, halt)
  | _ => (w, false)

/-- the next chunk, when every submission and the latest index of this one are through -/
def Worker.nextChunk (w : Worker H) : Worker H :=
  match w.phase with
  | .submitting rest jobs .settled =>
    if jobs.all (·.stage = .done) ∧ rest ≠ [] then
      let chunk : List (Job H) := (rest.take s.maxSignConcurrency).map fun c => ⟨c, .fetching⟩
      { w with phase := .submitting (rest.drop s.maxSignConcurrency) chunk .settled }
    else w
  | .submitting rest [] latest =>
    -- the first chunk owns the latest index
    let chunk : List (Job H) := (rest.take s.maxSignConcurrency).map fun c => ⟨c, .fetching⟩
    { w with phase := .submitting (rest.drop s.maxSignConcurrency) chunk latest }
  | _ => w

/-! ## Starting -/

/-- `restored_snapshot_tree` -/
def restoredSnapshotTree (n : Node H) (targetIndex : ℕ) (readable fetched : Bool) : Option (IncrementalMerkle H) :=
  if readable = false then none
  else
    match n.snapshot with
    | none => none
    | some snapshot =>
      if targetIndex < snapshot.index.toNat then none
      else
        match snapshot.restore K C with
        | .error _ => none
        | .ok tree =>
          if fetched = false then none
          else
            match n.storage snapshot.index.toNat, tree.index with
            | some (.ok signer, existing), some i =>
              if signer = s.signer ∧ existing.checkpoint = s.checkpoint (tree.root K) i then some tree else none
            | _, _ => none

/-- a process starts unless a guard forbids it; the tip tree is not empty -/
def Node.start (n : Node H) (tip : IncrementalMerkle H) (readable fetched : Bool) : Node H :=
  if n.process.isSome ∨ n.tombstone = true ∨ n.reorgStatus = true ∨ tip.count = 0 ∨ U32_MAX < tip.count then n
  else
    let target := s.checkpoint (tip.root K) (tip.count - 1)
    let restored := (restoredSnapshotTree K C s n (tip.count - 1) readable fetched).getD (IncrementalMerkle.default K)
    { n with process := some ⟨tip.count, ⟨restored, begin restored target⟩, ⟨tip, .waiting⟩, false⟩ }

/-! ## Events -/

/-- an answer to a pending submission -/
inductive Answer where
  | fetched (ok : Bool)
  | signed (ok : Bool)
  | written (landed ok : Bool)

inductive Event (H : Type) where
  | start (tip : IncrementalMerkle H) (readable fetched : Bool)
  | crash
  /-- a new checkpoint for the tip worker -/
  | latestCheckpoint (target : Checkpoint H)
  | read (role : Role) (row : Except Unit (Option H))
  | conclude (role : Role)
  | fetchInsertions (role : Role) (leaves : List H)
  | nextChunk (role : Role)
  | answer (role : Role) (j : ℕ) (a : Answer)
  | readLatest (role : Role) (ok : Bool)
  | writeLatest (role : Role) (landed ok : Bool)
  /-- the submission is over; the backfill worker writes a snapshot -/
  | finish (role : Role) (landed : Bool)
  | persistTombstone (role : Role) (landed ok : Bool)
  | persistStatus (role : Role) (landed ok : Bool)

/-- what a storage answer comes to for a submission -/
def reply (storage : ℕ → Option (Stored H)) (c : CheckpointWithMessageId H) : Answer → Reply H
  | .fetched true => .fetched (.ok (storage c.checkpoint.index))
  | .fetched false => .fetched (.error ())
  | .signed ok => .signed ok
  | .written landed ok => .written (landed && ok)

/-- a write that lands -/
def land (storage : ℕ → Option (Stored H)) (job : Job H) : Answer → ℕ → Option (Stored H)
  | .written true _ =>
    if job.stage = .writing then
      Function.update storage job.checkpoint.checkpoint.index (some (.ok s.signer, job.checkpoint))
    else storage
  | _ => storage

/-- a step of one worker of a process -/
def Node.onWorker (n : Node H) (role : Role) (f : Process H → Worker H → Node H) : Node H :=
  match n.process with
  | none => n
  | some p => f p (p.worker role)

def Node.withWorker (n : Node H) (p : Process H) (role : Role) (w : Worker H) (halt : Bool) : Node H :=
  { n with process := some { p.setWorker role w with halted := p.halted || halt } }

def Node.answer (n : Node H) (role : Role) (j : ℕ) (a : Answer) : Node H :=
  n.onWorker role fun p w =>
    match p.halted, w.phase with
    | false, .submitting rest jobs latest =>
      match jobs[j]? with
      | none => n
      | some job =>
        let progress := job.reply s (reply n.storage job.checkpoint a)
        if progress.conflict then n.withWorker p role { w with phase := .guarding false } true
        else
          let n := { n with storage := land s n.storage job a, signed := n.signed ++ progress.signed }
          n.withWorker p role { w with phase := .submitting rest (jobs.set j progress.job) latest } false
    | _, _ => n

/-- `latest_index`, once the checkpoint itself is stored -/
def Node.readLatest (n : Node H) (role : Role) (ok : Bool) : Node H :=
  n.onWorker role fun p w =>
    match p.halted, w.phase with
    | false, .submitting rest jobs (.reading index) =>
      if ok = true ∧ jobs.any (fun job => job.checkpoint.checkpoint.index = index ∧ job.stage = .done) then
        let next : Publication := if n.latestIndex.all (· < index) then .writing index else .settled
        n.withWorker p role { w with phase := .submitting rest jobs next } false
      else n
    | _, _ => n

/-- `write_latest_index`; after an error `update_latest_index` starts again -/
def Node.writeLatest (n : Node H) (role : Role) (landed ok : Bool) : Node H :=
  n.onWorker role fun p w =>
    match p.halted, w.phase with
    | false, .submitting rest jobs (.writing index) =>
      let n := { n with latestIndex := if landed then some index else n.latestIndex }
      let next : Publication := if landed && ok then .settled else .reading index
      n.withWorker p role { w with phase := .submitting rest jobs next } false
    | _, _ => n

def Node.finish (n : Node H) (role : Role) (landed : Bool) : Node H :=
  n.onWorker role fun p w =>
    match p.halted, w.phase with
    | false, .submitting [] jobs .settled =>
      if jobs.all (·.stage = .done) then
        match role with
        | .tip => n.withWorker p role { w with phase := .waiting } false
        | .backfill =>
          match MerkleTreeSnapshot.capture K C w.tree with
          | .error _ => n.withWorker p role { w with phase := .ended } false
          | .ok snapshot =>
            let n := { n with snapshot := if landed then some snapshot else n.snapshot }
            n.withWorker p role { w with phase := .ended } false
      else n
    | _, _ => n

def Node.persistTombstone (n : Node H) (role : Role) (landed ok : Bool) : Node H :=
  n.onWorker role fun p w =>
    match w.phase with
    | .guarding false =>
      { n with tombstone := n.tombstone || landed }.withWorker p role
        { w with phase := .guarding ((n.tombstone || landed) && ok) } false
    | _ => n

/-- the second guard; the worker panics after it -/
def Node.persistStatus (n : Node H) (role : Role) (landed ok : Bool) : Node H :=
  n.onWorker role fun p w =>
    match w.phase with
    | .guarding true =>
      { n with reorgStatus := n.reorgStatus || landed }.withWorker p role
        { w with phase := if landed && ok then .ended else .guarding true } false
    | _ => n

def Node.step (n : Node H) : Event H → Node H
  | .start tip readable fetched => n.start K C s tip readable fetched
  | .crash => { n with process := none }
  | .latestCheckpoint target =>
    n.onWorker .tip fun p w =>
      match w.phase with
      | .waiting =>
        -- a checkpoint behind the tree is skipped
        if treeExceedsCheckpoint target w.tree then n
        else n.withWorker p .tip { w with phase := begin w.tree target } false
      | _ => n
  | .read role row => n.onWorker role fun p w => n.withWorker p role (w.read K row) false
  | .conclude role => n.onWorker role fun p w => n.withWorker p role (w.conclude K s).1 (w.conclude K s).2
  | .fetchInsertions role leaves =>
    n.onWorker role fun p w => n.withWorker p role (w.fetchInsertions K s leaves).1 (w.fetchInsertions K s leaves).2
  | .nextChunk role => n.onWorker role fun p w => n.withWorker p role (w.nextChunk s) false
  | .answer role j a => n.answer s role j a
  | .readLatest role ok => n.readLatest role ok
  | .writeLatest role landed ok => n.writeLatest role landed ok
  | .finish role landed => n.finish K C role landed
  | .persistTombstone role landed ok => n.persistTombstone role landed ok
  | .persistStatus role landed ok => n.persistStatus role landed ok

def Node.run (n : Node H) (events : List (Event H)) : Node H := events.foldl (Node.step K C s) n

end Machine

end Hyperlane.NormalMode
