/-
The cursor of the validator's Merkle tree sync (agents/validator/src/merkle_tree_hook_sync.rs).

The database keeps the insertions by leaf index, and under `NEXT_SEQUENCE_KEY` a sequence below which no leaf need be read
again. Two writers move that sequence on: the RPC fallback stores logs and then looks for the next leaf that is missing
(`store_logs`), the WebSocket counts the events it accepts (`process_event`). Both share a cached copy under a lock; the
persisted copy is written every 256 leaves, and read by `refresh_cursor` before the lock is taken.

When the process starts, `next_sequence_after_snapshot` puts both copies at the count of a verified snapshot, which can be
lower than before, and looks for the first leaf that is missing from there on. Nothing else of the sync runs until then.

An access to the database can fail. A leaf is stored in one batch, under a lock of the database that all its writers take;
other parts of the validator store leaves as well (`Other.storeTreeInsertion`). The ghost fields `snapshots` and
`processed` record the counts that were put under the key, and how `process_event` ended.
-/
import Hyperlane.Core.Service
import Hyperlane.Core.Text
import Hyperlane.Db.MerkleInsertions

namespace Hyperlane.Validator.MerkleCursor

open Interleaving Text

/-- 32 bytes -/
abbrev H256 := List UInt8

abbrev MerkleTreeInsertion := Db.MerkleTreeInsertion H256

/-! ## Events (hyperlane-base/src/scraper_websocket.rs) -/

inductive SyncError where
  | unexpectedEventType (eventType : String)
  | unexpectedCursor
  | unexpectedDomain (domain : UInt32)
  | missingSequence
  | invalidSequence
  | payloadDomain
  | invalidHexadecimal
  | invalidAddressLength
  | unexpectedHook
  | invalidValue (field : String)
  | exceedsU32 (field : String)
  | leafIndexMismatch
  | messageIdLength (length : ℕ)
  | unexpectedSequence (expected received : UInt32)
  | conflictingInsertion (leafIndex : UInt32)
  | sequenceExhausted
  | database
deriving DecidableEq

def parseU32 (value : String) : Option UInt32 := (parseUnsigned UInt32.size value.toList).map UInt32.ofNat

def parseU64 (value : String) : Option UInt64 := (parseUnsigned UInt64.size value.toList).map UInt64.ofNat

/-- `parse_hex` -/
def parseHex (value : String) : Except SyncError (List UInt8) :=
  let digits := match value.toList with
    | '0' :: 'x' :: rest => rest
    | '\\' :: 'x' :: rest => rest
    | all => all
  (hexDecode digits).elim (.error .invalidHexadecimal) .ok

/-- `bytes_to_address` (hyperlane-core/src/types/conversions.rs) -/
def bytesToAddress (data : List UInt8) : Except SyncError H256 :=
  if data.length = 20 then .ok (List.replicate 12 0 ++ data)
  else if data.length = 32 then .ok data
  else .error .invalidAddressLength

def parseAddress (value : String) : Except SyncError H256 := do bytesToAddress (← parseHex value)

inductive StringOrNumber where
  | string (value : String)
  | number (value : UInt64)
deriving DecidableEq

namespace StringOrNumber

def asU64 (field : String) : StringOrNumber → Except SyncError UInt64
  | .string value => (parseU64 value).elim (.error (.invalidValue field)) .ok
  | .number value => .ok value

def asU32 (field : String) (v : StringOrNumber) : Except SyncError UInt32 := do
  let value ← v.asU64 field
  if value.toNat < UInt32.size then .ok value.toUInt32 else .error (.exceedsU32 field)

end StringOrNumber

structure MerkleEventData where
  blockNumber : StringOrNumber
  domain : UInt32
  leafIndex : StringOrNumber
  merkleTreeHook : String
  messageId : String
deriving DecidableEq

structure EventMessage where
  data : MerkleEventData
  domain : UInt32
  eventType : String
  rowId : Option String
  streamCursor : Option String
  sequence : Option String
deriving DecidableEq

/-- `MerkleEventData::decode` -/
def MerkleEventData.decode (data : MerkleEventData) (domain : UInt32) (hook : H256) (sequence : UInt32) :
    Except SyncError (MerkleTreeInsertion × UInt64) := do
  if data.domain ≠ domain then throw .payloadDomain
  if (← parseAddress data.merkleTreeHook) ≠ hook then throw .unexpectedHook
  let leafIndex ← data.leafIndex.asU32 "Merkle leaf index"
  if leafIndex ≠ sequence then throw .leafIndexMismatch
  let bytes ← parseHex data.messageId
  if bytes.length ≠ 32 then throw (.messageIdLength bytes.length)
  return (⟨leafIndex, bytes⟩, ← data.blockNumber.asU64 "Merkle block number")

def EVENT_TYPE : String := "merkle_tree_insertion"

def NEXT_SEQUENCE_PERSIST_INTERVAL : UInt32 := 256

/-- the domain and the hook of a `MerkleTreeHookWebSocketSync` -/
structure Sync where
  domain : UInt32
  merkleTreeHook : H256

/-- what `process_event` makes of an event before it looks at its cursor -/
def Sync.decodeEvent (sync : Sync) (event : EventMessage) : Except SyncError (MerkleTreeInsertion × UInt64) := do
  if event.eventType ≠ EVENT_TYPE then throw (.unexpectedEventType event.eventType)
  if event.rowId.isSome || event.streamCursor.isSome then throw .unexpectedCursor
  if event.domain ≠ sync.domain then throw (.unexpectedDomain event.domain)
  let text ← event.sequence.elim (.error .missingSequence) .ok
  let sequence ← (parseU32 text).elim (.error .invalidSequence) .ok
  event.data.decode sync.domain sync.merkleTreeHook sequence

/-! ## The database and the shared cursor -/

variable {α : Type}

/-- a call of `process_event`: its `next_sequence` before, how it ended, and its `next_sequence` after -/
structure Processed where
  before : UInt32
  result : Except SyncError Bool
  after : UInt32

structure Store where
  tables : Db.MerkleTables H256
  /-- the value under `NEXT_SEQUENCE_KEY` -/
  persisted : Option UInt32
  /-- the `MerkleTreeCursorState` -/
  cached : Option UInt32
  /-- what `next_sequence_after_snapshot` has handed to the WebSocket -/
  nextSequence : UInt32
  /-- the database answers with errors -/
  failing : Bool
  /-- the counts that were put under the key, the last one first -/
  snapshots : List UInt32
  processed : List Processed

/-- programs with the `?` operator -/
abbrev Fallible (α : Type) := ExceptT SyncError (Prog Store) α

namespace Store

/-- a read of the database -/
def query (q : Store → α) (s : Store) : Except SyncError α := if s.failing then .error .database else .ok (q s)

/-- a write to the database -/
def apply (f : Store → Store) (s : Store) : Store := if s.failing then s else f s

end Store

/-- an access to the database: what it writes, and what it answers -/
def dbAccess (f : Store → Store) (q : Store → α) : Fallible α :=
  ExceptT.mk (.access (Store.apply f) fun s => .pure (s.query q))

def retrieveNextSequence : Fallible (Option UInt32) := dbAccess id Store.persisted

def retrieveMerkleTreeInsertionByLeafIndex (leafIndex : UInt32) : Fallible (Option MerkleTreeInsertion) :=
  dbAccess id fun s => s.tables.insertion leafIndex

def storeNextSequence (sequence : UInt32) : Fallible Unit :=
  dbAccess (fun s => { s with persisted := some sequence }) fun _ => ()

def processTreeInsertion (insertion : MerkleTreeInsertion) (block : UInt64) : Fallible Bool :=
  dbAccess (fun s => { s with tables := (s.tables.processTreeInsertion insertion block).1 })
    fun s => (s.tables.processTreeInsertion insertion block).2

def storeTreeInsertionIfAbsent (insertion : MerkleTreeInsertion) (block : UInt64) :
    Fallible (Option MerkleTreeInsertion) :=
  dbAccess (fun s => { s with tables := (s.tables.storeTreeInsertionIfAbsent insertion block).1 })
    fun s => (s.tables.storeTreeInsertionIfAbsent insertion block).2

/-- while the lock of the cursor is held -/
def locked (body : Fallible α) : Fallible α := ExceptT.mk (Prog.locked body.run)

def readCursor : Fallible (Option UInt32) := ExceptT.mk (.access id fun s => .pure (.ok s.cached))

def setCursor (sequence : UInt32) : Fallible Unit :=
  ExceptT.mk (.access (fun s => { s with cached := some sequence }) fun _ => .pure (.ok ()))

def checkedAdd (sequence : UInt32) : Fallible UInt32 :=
  if sequence.toNat + 1 < UInt32.size then pure (sequence + 1) else throw .sequenceExhausted

/-- the loops over the leaves that are stored from a sequence on, up to the first one that is not -/
def scanLeaves (visit : UInt32 → Fallible Unit) : ℕ → UInt32 → Fallible UInt32
  | 0, sequence => pure sequence
  | fuel + 1, sequence => do
    match ← retrieveMerkleTreeInsertionByLeafIndex sequence with
    | none => pure sequence
    | some _ => do
      let sequence ← checkedAdd sequence
      visit sequence
      scanLeaves visit fuel sequence

/-- a sequence is exhausted before this many turns are -/
def turns (sequence : UInt32) : ℕ := UInt32.size - sequence.toNat

/-- `persist_next_sequence` under the lock -/
def improveCursor (nextSequence : UInt32) : Fallible Unit := do
  let persisted ← readCursor
  if persisted.all (· < nextSequence) then do
    storeNextSequence nextSequence
    setCursor nextSequence
  else pure ()

def persistNextSequence (nextSequence : UInt32) : Fallible Unit := locked (improveCursor nextSequence)

/-! ## The RPC fallback -/

/-- `refresh_cursor` under the lock -/
def raiseCursor : Option UInt32 → Fallible Unit
  | none => pure ()
  | some persisted => do
    let nextSequence ← readCursor
    setCursor (nextSequence.elim persisted (max · persisted))

/-- the persisted copy is read before the lock is taken -/
def refreshCursor : Fallible Unit := do
  let persisted ← retrieveNextSequence
  locked (raiseCursor persisted)

def persistAtInterval (sequence : UInt32) : Fallible Unit :=
  if sequence % NEXT_SEQUENCE_PERSIST_INTERVAL = 0 then storeNextSequence sequence else pure ()

/-- `advance_cursor` under the lock: the cached copy is written at the end, the persisted one on the way -/
def scanCursor : Fallible Unit := do
  match ← readCursor with
  | none => pure ()
  | some sequence => do
    let sequence ← scanLeaves persistAtInterval (turns sequence) sequence
    setCursor sequence

def advanceCursor : Fallible Unit := locked scanCursor

def storeLeaf (insertions : UInt32) (leaf : MerkleTreeInsertion × UInt64) : Fallible UInt32 := do
  let stored ← processTreeInsertion leaf.1 leaf.2
  advanceCursor
  -- `saturating_add`
  pure (if stored ∧ insertions.toNat + 1 < UInt32.size then insertions + 1 else insertions)

def storeLogs (leaves : List (MerkleTreeInsertion × UInt64)) : Fallible UInt32 := do
  refreshCursor
  leaves.foldlM storeLeaf 0

/-! ## The WebSocket -/

/-- the section under the lock: what the others see of it is one write -/
def resetCursor (verifiedCount : UInt32) : Fallible Unit :=
  locked (dbAccess (fun s => { s with
    persisted := some verifiedCount, cached := some verifiedCount, snapshots := verifiedCount :: s.snapshots })
    fun _ => ())

def nextSequenceFrom (sequence : UInt32) : Fallible UInt32 := do
  let sequence ← scanLeaves (fun _ => pure ()) (turns sequence) sequence
  persistNextSequence sequence
  pure sequence

def nextSequenceAfterSnapshot (verifiedCount : UInt32) : Fallible UInt32 := do
  resetCursor verifiedCount
  nextSequenceFrom verifiedCount

/-- the end of a `process_event` that has moved `next_sequence` on; the caller keeps it when this write fails -/
def persistEvent (nextSequence : UInt32) : Prog Store (Except SyncError Bool × UInt32) := do
  match ← (if nextSequence % NEXT_SEQUENCE_PERSIST_INTERVAL = 0 then persistNextSequence nextSequence
    else pure ()).run with
  | .error e => pure (.error e, nextSequence)
  | .ok () => pure (.ok true, nextSequence)

/-- `process_event` for the leaf at `next_sequence` -/
def advanceEvent (nextSequence : UInt32) : Prog Store (Except SyncError Bool × UInt32) := do
  match ← (checkedAdd nextSequence).run with
  | .error e => pure (.error e, nextSequence)
  | .ok next => persistEvent next

/-- `process_event`, with the `next_sequence` of its caller before and after -/
def processEvent (sync : Sync) (event : EventMessage) (nextSequence : UInt32) :
    Prog Store (Except SyncError Bool × UInt32) :=
  match sync.decodeEvent event with
  | .error e => pure (.error e, nextSequence)
  | .ok (insertion, block) =>
    if nextSequence < insertion.index then
      pure (.error (.unexpectedSequence nextSequence insertion.index), nextSequence)
    else do
      match ← (storeTreeInsertionIfAbsent insertion block).run with
      | .error e => pure (.error e, nextSequence)
      | .ok existing =>
        if existing.any (· ≠ insertion) then pure (.error (.conflictingInsertion insertion.index), nextSequence)
        else if insertion.index = nextSequence then advanceEvent nextSequence
        else pure (.ok false, nextSequence)

def recordEvent (p : Processed) (s : Store) : Store := { s with processed := s.processed ++ [p] }

def takeEvent (sync : Sync) (nextSequence : UInt32) (event : EventMessage) : Prog Store UInt32 := do
  let (result, next) ← processEvent sync event nextSequence
  Prog.write (recordEvent ⟨nextSequence, result, next⟩)
  pure next

/-- the events of a WebSocket; after an error it connects again, with the `next_sequence` it has -/
def webSocket (sync : Sync) (events : List EventMessage) : Prog Store Unit := do
  let nextSequence ← Prog.read Store.nextSequence
  let _ ← events.foldlM (takeEvent sync) nextSequence
  pure ()

/-! ## The validator -/

inductive Operation where
  | storeLogs (leaves : List (MerkleTreeInsertion × UInt64))
  | webSocket (events : List EventMessage)
deriving DecidableEq

inductive Other where
  | failing (failing : Bool)
  | storeTreeInsertion (insertion : MerkleTreeInsertion) (block : UInt64)
deriving DecidableEq

/-- the startup of a validator with a verified count -/
def startup (verifiedCount : UInt32) : Prog Store Bool := do
  match ← (nextSequenceAfterSnapshot verifiedCount).run with
  | .error _ => pure false
  | .ok nextSequence => do
    Prog.write fun s => { s with nextSequence := nextSequence }
    pure true

def validator (sync : Sync) : Service UInt32 Operation Other Store where
  startup := startup
  program
    | .storeLogs leaves => do
      let _ ← (storeLogs leaves).run
      pure ()
    | .webSocket events => webSocket sync events
  interfere e s := match e with
    | .failing failing => { s with failing := failing }
    | .storeTreeInsertion insertion block => { s with tables := (s.tables.storeTreeInsertion insertion block).1 }
  crash s := { s with cached := none }

/-- a validator that is started on a database for the first time -/
def fresh (tables : Db.MerkleTables H256) (persisted : Option UInt32) : Process Operation Store :=
  .down ⟨tables, persisted, none, 0, false, [], []⟩

end Hyperlane.Validator.MerkleCursor
