/-
Finalized contract events of Dusk by topic and sequence (hyperlane-dusk/src/rues.rs): `finalized_contract_event`.

The archive of the endpoint lists the events of a contract in pages. The sequence of an event counts the events of its
topic that are not reverted, so a lookup replays the pages from the start. Where it stands is kept for each contract and
topic, shared by all calls of the process; a call reads a page without the lock and then goes on only if nobody else has
moved the scan. An event whose block the endpoint confirms is stored durably under its contract, topic and sequence.

A call is a program over the store, one access for each read of the database, each section under the lock and each answer
of the endpoint, which may be anything. The event store is configured. The ghost fields record the list of events that
each contract has at the moment, and what the calls have seen and returned.
-/
import Hyperlane.Core.Bytes
import Hyperlane.Core.Service
import Hyperlane.Core.Text

namespace Hyperlane.Dusk.Events

open Interleaving Bytes Text

abbrev ContractId := Word 32

/-! ## Data -/

structure FinalizedContractEvent where
  id : ℤ
  blockHeight : UInt64
  blockHash : String
  origin : String
  topic : String
  source : String
  data : String
  reverted : Bool
deriving DecidableEq

structure FinalizedEventPage where
  events : List FinalizedContractEvent
  startCursor : Option String
  endCursor : Option String
  hasNextPage : Bool
deriving DecidableEq

structure FinalizedEventScan where
  cursor : Option String
  lastId : Option ℤ
  replayed : ℕ
deriving DecidableEq

/-- a scan before the first event -/
def FinalizedEventScan.default : FinalizedEventScan := ⟨none, none, 0⟩

structure FinalizedEventProvenance where
  blockHeight : UInt64
  blockHash : List UInt8
  transactionId : List UInt8
  eventId : ℤ
deriving DecidableEq

/-- what a check finds wrong -/
inductive CheckError where
  | topicLength
  | sequenceRange
  | transportBound
  | persistedProvenance
  | invalidHex (field : String)
  | length (field : String) (length : ℕ)
  | revertedOrWrongTopic
  | blockHeight (event expected : UInt64)
  | dataMismatch
  | cursorEncoding
  | cursorVersion
  | cursorId
  | cursorCanonical
  | cursorMismatch
  | cursorInconsistent
  | pageSize (rows : ℕ)
  | inconsistentEmptyPage
  | missingCursors
  | pageCursors
  | cursorNotAdvanced
  | eventTopic
  | nonMonotonicId (id : ℤ)
  | eventSource
  | replayOverflow
deriving DecidableEq

inductive EventError where
  | check (e : CheckError)
  /-- the endpoint does not answer, or not with what was asked for -/
  | endpoint
  | store
  | failedCheckBlock
  | notArchived
deriving DecidableEq

/-- what the crates for base64, keccak256 and JSON compute -/
structure Crates where
  base64 : String → String
  unbase64 : String → Option String
  keccak256 : List UInt8 → List UInt8
  /-- the length of an event in JSON -/
  jsonLength : FinalizedContractEvent → ℕ

def MAX_RUES_RESPONSE_BYTES : ℕ := 4 * 1024 * 1024

def FINALIZED_EVENT_PAGE_SIZE : ℕ := 16

def MAX_EVENT_TOPIC_BYTES : ℕ := 256

variable (crates : Crates)

/-! ## Checks -/

/-- `strip_hex_prefix` -/
def stripHexPrefix : List Char → List Char
  | '0' :: 'x' :: rest => rest
  | '0' :: 'X' :: rest => rest
  | all => all

/-- `hex::decode` of a field -/
def decodeField (field value : String) : Except CheckError (List UInt8) :=
  (hexDecode (stripHexPrefix value.toList)).elim (.error (.invalidHex field)) .ok

def parseH256Hex (field value : String) : Except CheckError (List UInt8) := do
  let bytes ← decodeField field value
  if bytes.length = 32 then .ok bytes else .error (.length field bytes.length)

/-- `eq_ignore_ascii_case` with the contract in hex -/
def sourceMatches (contractId : ContractId) (source : String) : Bool :=
  (stripHexPrefix source.toList).map Char.toLower = (hexEncode contractId.1).map Char.toLower

def canonicalEventCursor (id : ℤ) : String := crates.base64 ("v1:" ++ toString id)

def decodeEventCursor (cursor : String) : Except CheckError ℤ := do
  let decoded ← (crates.unbase64 cursor).elim (.error .cursorEncoding) .ok
  let digits ← match decoded.toList with
    | 'v' :: '1' :: ':' :: digits => .ok digits
    | _ => .error .cursorVersion
  let id ← (parseSigned (2 ^ 63) digits).elim (.error .cursorId) .ok
  if id < 0 ∨ canonicalEventCursor crates id ≠ cursor then .error .cursorCanonical else .ok id

/-- the rows of a page, from the last ID before it on -/
def validateRows (contractId : ContractId) : Option ℤ → List FinalizedContractEvent → Except CheckError Unit
  | _, [] => .ok ()
  | lastId, event :: events => do
    if event.topic.utf8ByteSize = 0 ∨ MAX_EVENT_TOPIC_BYTES < event.topic.utf8ByteSize then throw .eventTopic
    if event.id < 0 ∨ lastId.any (event.id ≤ ·) then throw (.nonMonotonicId event.id)
    if !sourceMatches contractId event.source then throw .eventSource
    validateRows contractId (some event.id) events

/-- the cursor that was asked for and the last ID of the scan -/
def validateRequest : Option String → Option ℤ → Except CheckError Unit
  | none, none => .ok ()
  | some cursor, some id => do
    if (← decodeEventCursor crates cursor) = id then .ok () else .error .cursorMismatch
  | _, _ => .error .cursorInconsistent

def validateFinalizedEventPage (contractId : ContractId) (requestedCursor : Option String) (previousId : Option ℤ)
    (page : FinalizedEventPage) : Except CheckError Unit := do
  validateRequest crates requestedCursor previousId
  if FINALIZED_EVENT_PAGE_SIZE < page.events.length then throw (.pageSize page.events.length)
  match page.events.head?, page.events.getLast? with
  | some first, some last => do
    let start ← page.startCursor.elim (.error .missingCursors) .ok
    let stop ← page.endCursor.elim (.error .missingCursors) .ok
    let startId ← decodeEventCursor crates start
    let endId ← decodeEventCursor crates stop
    if startId ≠ first.id ∨ endId ≠ last.id then throw .pageCursors
    if requestedCursor = some stop then throw .cursorNotAdvanced
    validateRows contractId previousId page.events
  | _, _ =>
    if page.hasNextPage ∨ page.startCursor.isSome ∨ page.endCursor.isSome then throw .inconsistentEmptyPage

def validatePersistedEvent (contractId : ContractId) (topic : String) (event : FinalizedContractEvent) :
    Except CheckError Unit := do
  if event.reverted ∨ event.topic ≠ topic ∨ !sourceMatches contractId event.source ∨ event.id < 0 then
    throw .persistedProvenance
  let _ ← parseH256Hex "block hash" event.blockHash
  let _ ← parseH256Hex "origin" event.origin
  let _ ← decodeField "data" event.data

def finalizedEventRowKey (contractId : ContractId) (topic : String) (sequence : UInt64) :
    Except CheckError (List UInt8) :=
  if topic.utf8ByteSize = 0 ∨ MAX_EVENT_TOPIC_BYTES < topic.utf8ByteSize then .error .topicLength
  else .ok ("dusk-finalized-row-v2:".toUTF8.toList ++ contractId.1 ++ crates.keccak256 topic.toUTF8.toList ++
    be 8 sequence.toNat)

/-! ## Calls -/

/-- a call of `finalized_contract_event`; it is followed for so many turns of its loop -/
structure Call where
  contractId : ContractId
  topic : String
  sequence : UInt64
  expectedBlockHeight : UInt64
  expectedData : List UInt8
  turns : ℕ
deriving DecidableEq

/-- the number of a call, and the list of events its contract had when it read a page -/
structure PageRead where
  call : ℕ
  contractId : ContractId
  cursor : Option String
  page : FinalizedEventPage
  list : List FinalizedContractEvent
deriving DecidableEq

/-- what the endpoint answered a call about a block -/
structure BlockCheck where
  call : ℕ
  height : UInt64
  hash : String
  answer : Bool

structure Returned where
  call : ℕ
  result : Except EventError FinalizedEventProvenance

structure Store where
  /-- the event store -/
  rows : List UInt8 → Option FinalizedContractEvent
  /-- `finalized_event_caches` -/
  scans : ContractId → String → Option FinalizedEventScan
  storeFailing : Bool
  /-- what the endpoint would answer at the moment -/
  page : Option FinalizedEventPage
  checkBlock : Option Bool
  /-- the events of each contract at the moment -/
  archive : ContractId → List FinalizedContractEvent
  calls : List Call
  /-- the events that calls have examined for their sequence -/
  examined : List (ℕ × FinalizedContractEvent)
  checks : List BlockCheck
  reads : List PageRead
  returned : List Returned

variable {α : Type}

/-- programs with the `?` operator -/
abbrev Rues (α : Type) := ExceptT EventError (Prog Store) α

def check (result : Except CheckError α) : Rues α := ExceptT.mk (pure (result.mapError .check))

/-- one access, and what it answers -/
def accessing (change : Store → Store) (answer : Store → Except EventError α) : Rues α :=
  ExceptT.mk (.access change fun s => .pure (answer s))

def Store.setScan (s : Store) (contractId : ContractId) (topic : String) (scan : Option FinalizedEventScan) : Store :=
  { s with scans := Function.update s.scans contractId (Function.update (s.scans contractId) topic scan) }

def Store.examine (s : Store) (call : ℕ) (event : FinalizedContractEvent) : Store :=
  { s with examined := s.examined ++ [(call, event)] }

def Store.recordCheck (s : Store) (check : BlockCheck) : Store := { s with checks := s.checks ++ [check] }

def Store.recordRead (s : Store) (read : PageRead) : Store := { s with reads := s.reads ++ [read] }

def Store.recordReturn (s : Store) (returned : Returned) : Store := { s with returned := s.returned ++ [returned] }

/-- the ID of a row is its sequence, as far as it fits -/
def sequenceId (sequence : UInt64) : Except CheckError ℤ :=
  if sequence.toNat < 2 ^ 63 then .ok sequence.toNat else .error .sequenceRange

/-- a row as it is loaded -/
def persistedRow (op : Call) (event : FinalizedContractEvent) : Except CheckError FinalizedContractEvent := do
  if MAX_RUES_RESPONSE_BYTES < crates.jsonLength event then throw .transportBound
  let id ← sequenceId op.sequence
  validatePersistedEvent op.contractId op.topic { event with id := id }
  return { event with id := id }

/-- `load_finalized_event` -/
def loadedEvent (op : Call) (s : Store) : Except EventError (Option FinalizedContractEvent) := do
  let key ← (finalizedEventRowKey crates op.contractId op.topic op.sequence).mapError .check
  if s.storeFailing then throw .store
  match s.rows key with
  | none => return none
  | some event => return some (← (persistedRow crates op event).mapError .check)

def loadFinalizedEvent (call : ℕ) (op : Call) : Rues (Option FinalizedContractEvent) :=
  accessing (fun s => match loadedEvent crates op s with
    | .ok (some event) => s.examine call event
    | _ => s) (loadedEvent crates op)

/-- what `validate_finalized_event` checks before it asks about the block -/
def matchesState (op : Call) (event : FinalizedContractEvent) : Except CheckError Unit := do
  if event.reverted ∨ event.topic ≠ op.topic then throw .revertedOrWrongTopic
  if event.blockHeight ≠ op.expectedBlockHeight then throw (.blockHeight event.blockHeight op.expectedBlockHeight)
  if (← decodeField "data" event.data) ≠ op.expectedData then throw .dataMismatch
  let _ ← parseH256Hex "block hash" event.blockHash

/-- and what it returns -/
def provenance (event : FinalizedContractEvent) : Except CheckError FinalizedEventProvenance := do
  let blockHash ← parseH256Hex "block hash" event.blockHash
  let origin ← parseH256Hex "origin" event.origin
  return ⟨event.blockHeight, blockHash, List.replicate 32 0 ++ origin, event.id⟩

def askBlock (call : ℕ) (event : FinalizedContractEvent) : Rues Bool :=
  accessing (fun s => match s.checkBlock with
    | some answer => s.recordCheck ⟨call, event.blockHeight, event.blockHash, answer⟩
    | none => s) fun s => s.checkBlock.elim (.error .endpoint) .ok

def validateFinalizedEvent (call : ℕ) (op : Call) (event : FinalizedContractEvent) : Rues FinalizedEventProvenance := do
  check (matchesState op event)
  if ← askBlock call event then check (provenance event) else throw .failedCheckBlock

/-- the scan is dropped, and the row with it unless the store fails -/
def invalidateFinalizedEvent (op : Call) : Rues Unit :=
  accessing (fun s => match finalizedEventRowKey crates op.contractId op.topic op.sequence with
    | .error _ => s.setScan op.contractId op.topic none
    | .ok key =>
      let dropped := s.setScan op.contractId op.topic none
      if s.storeFailing then dropped else { dropped with rows := Function.update s.rows key none })
    fun s => match finalizedEventRowKey crates op.contractId op.topic op.sequence with
    | .error e => .error (.check e)
    | .ok _ => if s.storeFailing then .error .store else .ok ()

/-- an event that cannot be authenticated is invalidated -/
def authenticate (call : ℕ) (op : Call) (event : FinalizedContractEvent) : Rues FinalizedEventProvenance :=
  tryCatch (validateFinalizedEvent call op event) fun e => do
    invalidateFinalizedEvent crates op
    throw e

/-- the scan a call starts from: anew when it stands behind the sequence -/
def Store.scanFor (s : Store) (op : Call) : FinalizedEventScan :=
  let scan := (s.scans op.contractId op.topic).getD .default
  if op.sequence.toNat < scan.replayed then .default else scan

def takeScan (op : Call) : Rues FinalizedEventScan :=
  accessing (fun s => s.setScan op.contractId op.topic (some (s.scanFor op))) fun s => .ok (s.scanFor op)

def finalizedEventPage (call : ℕ) (op : Call) (cursor : Option String) : Rues FinalizedEventPage :=
  accessing (fun s => match s.page with
    | some page => s.recordRead ⟨call, op.contractId, cursor, page, s.archive op.contractId⟩
    | none => s) fun s => s.page.elim (.error .endpoint) .ok

/-- the loop over a page; it stops behind the event of the sequence -/
def replayEvents (op : Call) : FinalizedEventScan → List FinalizedContractEvent →
    Except CheckError (FinalizedEventScan × Option FinalizedContractEvent)
  | scan, [] => .ok (scan, none)
  | scan, event :: events =>
    if event.reverted = false ∧ event.topic = op.topic then
      if scan.replayed = op.sequence.toNat then do
        let id ← sequenceId op.sequence
        if UInt64.size ≤ scan.replayed + 1 then throw .replayOverflow
        return (⟨scan.cursor, some event.id, scan.replayed + 1⟩, some { event with id := id })
      else if UInt64.size ≤ scan.replayed + 1 then .error .replayOverflow
      else replayEvents op ⟨scan.cursor, some event.id, scan.replayed + 1⟩ events
    else replayEvents op ⟨scan.cursor, some event.id, scan.replayed⟩ events

inductive Advance where
  /-- another call has moved the scan -/
  | raced
  | found (event : FinalizedContractEvent)
  | passed
deriving DecidableEq

/-- the scan behind the events of a page that was read for it, and the event of the sequence -/
def advancedScan (op : Call) (scan : FinalizedEventScan) (page : FinalizedEventPage) :
    Except CheckError (FinalizedEventScan × Option FinalizedContractEvent) := do
  let (scan, cached) ← replayEvents op scan page.events
  return ({ scan with cursor := scan.lastId.map (canonicalEventCursor crates) }, cached)

def advanceScan (call : ℕ) (op : Call) (scan : FinalizedEventScan) (page : FinalizedEventPage) : Rues Advance :=
  accessing (fun s =>
    if (s.scans op.contractId op.topic).getD .default ≠ scan then s
    else match advancedScan crates op scan page with
      | .error _ => s
      | .ok (scan, none) => s.setScan op.contractId op.topic (some scan)
      | .ok (scan, some event) => (s.setScan op.contractId op.topic (some scan)).examine call event)
    fun s =>
    if (s.scans op.contractId op.topic).getD .default ≠ scan then .ok .raced
    else match advancedScan crates op scan page with
      | .error e => .error (.check e)
      | .ok (_, none) => .ok .passed
      | .ok (_, some event) => .ok (.found event)

def persistFinalizedEvent (op : Call) (event : FinalizedContractEvent) : Rues Unit := do
  check (validatePersistedEvent op.contractId op.topic event)
  check (if MAX_RUES_RESPONSE_BYTES < crates.jsonLength event then .error .transportBound else .ok ())
  let key ← check (finalizedEventRowKey crates op.contractId op.topic op.sequence)
  accessing (fun s => if s.storeFailing then s else { s with rows := Function.update s.rows key (some event) })
    fun s => if s.storeFailing then .error .store else .ok ()

/-- one turn of the loop: it returns, or goes on -/
def lookupTurn (call : ℕ) (op : Call) : Rues (Option FinalizedEventProvenance) := do
  match ← loadFinalizedEvent crates call op with
  | some event => return some (← authenticate crates call op event)
  | none => do
    let scan ← takeScan op
    let page ← finalizedEventPage call op scan.cursor
    check (validateFinalizedEventPage crates op.contractId scan.cursor scan.lastId page)
    match ← advanceScan crates call op scan page with
    | .raced => return none
    | .found event => do
      let result ← authenticate crates call op event
      persistFinalizedEvent crates op event
      return some result
    | .passed => if page.hasNextPage then return none else throw .notArchived

def lookup (call : ℕ) (op : Call) : ℕ → Rues (Option FinalizedEventProvenance)
  | 0 => return none
  | turns + 1 => do
    match ← lookupTurn crates call op with
    | some result => return some result
    | none => lookup call op turns

/-- a call gets a number when it starts, and what it returns is recorded under it -/
def finalizedContractEvent (op : Call) : Prog Store Unit := do
  let call ← Prog.access (fun s => { s with calls := s.calls ++ [op] }) fun s => .pure s.calls.length
  match ← (lookup crates call op op.turns).run with
  | .ok none => pure ()
  | .ok (some result) => Prog.write (Store.recordReturn · ⟨call, .ok result⟩)
  | .error e => Prog.write (Store.recordReturn · ⟨call, .error e⟩)

/-! ## The client -/

inductive Other where
  | storeFailing (failing : Bool)
  | page (page : Option FinalizedEventPage)
  | checkBlock (answer : Option Bool)
  /-- a contract has another event, if its ID is above those before -/
  | emitted (contractId : ContractId) (event : FinalizedContractEvent)
deriving DecidableEq

def Store.emit (s : Store) (contractId : ContractId) (event : FinalizedContractEvent) : Store :=
  if 0 ≤ event.id ∧ ∀ e ∈ s.archive contractId, e.id < event.id then
    { s with archive := Function.update s.archive contractId (s.archive contractId ++ [event]) }
  else s

/-- a restart keeps the event store and drops the scans -/
def client : Service Unit Call Other Store where
  startup _ := pure true
  program := finalizedContractEvent crates
  interfere e s := match e with
    | .storeFailing failing => { s with storeFailing := failing }
    | .page page => { s with page := page }
    | .checkBlock answer => { s with checkBlock := answer }
    | .emitted contractId event => s.emit contractId event
  crash s := { s with scans := fun _ _ => none }

/-- a client with an empty event store -/
def fresh : Process Call Store :=
  .down ⟨fun _ => none, fun _ _ => none, false, none, none, fun _ => [], [], [], [], [], []⟩

end Hyperlane.Dusk.Events
