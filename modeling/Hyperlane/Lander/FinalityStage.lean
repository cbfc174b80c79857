/-
A dropped transaction in the finality stage of the lander: `handle_dropped_transaction`
(lander/src/dispatcher/stages/finality_stage.rs) and the queue of the building stage
(lander/src/dispatcher/stages/building_stage/queue.rs).

A scan that finds a transaction dropped pushes its payloads to the front of the queue, one by one, and then takes the
transaction out of the pool. A failed read of a payload passes over it; a failed write of its link ends the attempt, with
the transaction still in the pool for the next scan. The queue holds a payload at most once. Meanwhile the building stage
pops payloads and may put those it popped back, and payloads of other transactions are pushed.
-/
import Hyperlane.Lander.InclusionStage

namespace Hyperlane.Lander.Finality

variable {Uuid Payload D : Type} {owner : Payload → Uuid} [DecidableEq Uuid] [DecidableEq Payload]

/-! ## The queue of the building stage -/

structure FullPayload (Payload : Type) where
  uuid : Payload
  status : PayloadStatus
deriving DecidableEq

structure QueueInner (Payload : Type) where
  payloads : List (FullPayload Payload)
  uuids : Finset Payload

namespace QueueInner

def pushBack (q : QueueInner Payload) (p : FullPayload Payload) : QueueInner Payload :=
  if p.uuid ∈ q.uuids then q else ⟨q.payloads ++ [p], insert p.uuid q.uuids⟩

def pushFront (q : QueueInner Payload) (p : FullPayload Payload) : QueueInner Payload :=
  if p.uuid ∈ q.uuids then q else ⟨p :: q.payloads, insert p.uuid q.uuids⟩

def extend (q : QueueInner Payload) (ps : List (FullPayload Payload)) : QueueInner Payload := ps.foldl pushBack q

/-- the queue and what is popped -/
def popN : ℕ → QueueInner Payload → QueueInner Payload × List (FullPayload Payload)
  | 0, q => (q, [])
  | count + 1, q =>
    match q.payloads with
    | [] => (q, [])
    | p :: rest =>
      let (q', popped) := popN count ⟨rest, q.uuids.erase p.uuid⟩
      (q', p :: popped)

end QueueInner

/-- what others do to the queue: the building stage pops, or puts back those of its payloads that have the given ids, and
payloads of other transactions than `u` are pushed -/
inductive QueueOp (owner : Payload → Uuid) (u : Uuid) where
  | popN (count : ℕ)
  | putBack (details : List Payload)
  | push (front : Bool) (payload : FullPayload Payload) (other : owner payload.uuid ≠ u)

/-! ## The stage -/

/-- the pool, the database, the queue, and what the building stage popped last. `pushed` are the payloads that
`handle_dropped_transaction` added to the queue -/
structure FinalityStage (D : Type) (owner : Payload → Uuid) where
  pool : Uuid → Option (Transaction D owner)
  txDb : Uuid → Option (Transaction D owner)
  payloadDb : Payload → Option PayloadStatus
  txUuidByPayload : Payload → Option Uuid
  queue : QueueInner Payload
  held : List (FullPayload Payload)
  pushed : List Payload

/-- which reads and writes of one attempt succeed, and what happens to the queue before the push of each payload -/
structure Attempt (owner : Payload → Uuid) (u : Uuid) where
  checkedAt : ℕ
  writes : Writes Payload
  /-- the links that `store_tx` writes -/
  relink : Payload → Bool
  read : Payload → Bool
  statusWrite : Payload → Bool
  linkWrite : Payload → Bool
  meanwhile : Payload → List (QueueOp owner u)

namespace FinalityStage

variable {u : Uuid}

def queueOp (s : FinalityStage D owner) : QueueOp owner u → FinalityStage D owner
  | .popN count => { s with queue := (s.queue.popN count).1, held := (s.queue.popN count).2 }
  | .putBack details => { s with queue := s.queue.extend (s.held.filter fun p => decide (p.uuid ∈ details)) }
  | .push front payload _ => { s with queue := if front then s.queue.pushFront payload else s.queue.pushBack payload }

def queueOps (s : FinalityStage D owner) (ops : List (QueueOp owner u)) : FinalityStage D owner := ops.foldl queueOp s

/-- `store_new_payload_status`; a failing write, or one of a payload that is not there, is logged -/
def storeNewPayloadStatus (s : FinalityStage D owner) (p : Payload) (status : PayloadStatus) (ok : Bool) :
    FinalityStage D owner :=
  if ok ∧ s.payloadDb p ≠ none then { s with payloadDb := Function.update s.payloadDb p (some status) } else s

/-- `store_tx_uuid_by_payload_uuid`, when it succeeds -/
def link (s : FinalityStage D owner) (p : Payload) (txUuid : Uuid) : FinalityStage D owner :=
  { s with txUuidByPayload := Function.update s.txUuidByPayload p (some txUuid) }

/-- `store_tx`; failing writes are logged -/
def storeTx (s : FinalityStage D owner) (tx : Transaction D owner) (w : Writes Payload) (relink : Payload → Bool) :
    FinalityStage D owner :=
  let s := if w.tx then { s with txDb := Function.update s.txDb tx.uuid (some tx) } else s
  let s := tx.payloadDetails.foldl (fun s p => s.storeNewPayloadStatus p (.InTransaction tx.status) (w.payload p)) s
  tx.payloadDetails.foldl (fun s p => if relink p then s.link p tx.uuid else s) s

/-- `push_front` of the handler -/
def pushFront (s : FinalityStage D owner) (p : FullPayload Payload) : FinalityStage D owner :=
  { s with
    queue := s.queue.pushFront p
    pushed := if p.uuid ∈ s.queue.uuids then s.pushed else p.uuid :: s.pushed }

variable [Inhabited Uuid]

/-- one payload of the loop, and whether the loop goes on -/
def handlePayload (a : Attempt owner u) (s : FinalityStage D owner) (p : Payload) : FinalityStage D owner × Bool :=
  let s := s.queueOps (a.meanwhile p)
  if a.read p then
    match s.payloadDb p with
    | none => (s, true)
    | some status =>
      let s := s.storeNewPayloadStatus p .ReadyToSubmit (a.statusWrite p)
      -- the null transaction id, since a record cannot be removed
      if a.linkWrite p then ((s.link p default).pushFront ⟨p, status⟩, true) else (s, false)
  -- `.ok().flatten()` drops the error
  else (s, true)

def handlePayloads (a : Attempt owner u) : List Payload → FinalityStage D owner → FinalityStage D owner × Bool
  | [], s => (s, true)
  | p :: ps, s =>
    match s.handlePayload a p with
    | (s, true) => handlePayloads a ps s
    | (s, false) => (s, false)

/-- where the loop over the payloads starts: the checked transaction is in the pool, and its new status is stored -/
def dropped (s : FinalityStage D owner) (a : Attempt owner u) (tx : Transaction D owner) : FinalityStage D owner :=
  let checkedTx : Transaction D owner := { tx with lastStatusCheck := some a.checkedAt }
  let s := { s with pool := Function.update s.pool u (some checkedTx) }
  s.storeTx { checkedTx with status := .Dropped } a.writes a.relink

/-- a scan that finds the transaction `u` dropped, with `handle_dropped_transaction` -/
def scan (s : FinalityStage D owner) (a : Attempt owner u) : FinalityStage D owner :=
  match s.pool u with
  | none => s
  | some tx =>
    match handlePayloads a tx.payloadDetails (s.dropped a tx) with
    | (s, true) => { s with pool := Function.update s.pool u none }
    | (s, false) => s

end FinalityStage

inductive Event (owner : Payload → Uuid) (u : Uuid) where
  | scan (attempt : Attempt owner u)
  | queue (op : QueueOp owner u)

namespace FinalityStage

variable {u : Uuid} [Inhabited Uuid]

def step (s : FinalityStage D owner) : Event owner u → FinalityStage D owner
  | .scan attempt => s.scan attempt
  | .queue op => s.queueOp op

def run (s : FinalityStage D owner) (events : List (Event owner u)) : FinalityStage D owner := events.foldl step s

end FinalityStage

end Hyperlane.Lander.Finality
