/-
The near-head scraper (agents/scraper/src/near_head): it stores the events of an EVM chain at the head, takes them back
when the chain reorganises, and publishes them up to a confirmed height.

The head row of the domain says how far the stored events go and how far they are confirmed; checkpoints keep the hashes
of some blocks above the confirmed one. `observe` finds the last checkpoint that is on the chain and drops what is stored
above it, `ingestCached` adds the events of a range, `confirmLeased` moves the confirmed height. Each of them asks the RPC
many questions, each answered by the chain of that moment, and ends in one database transaction.

A call is a program over the store, one access for each answer of the RPC, each query and each transaction. The RPC and
the database fail when they like. The writer is the only one; its lease is fresh or not at any moment. The ghost field
`history` lists the canonical chain of each moment so far.
-/
import Hyperlane.Core.ChainHistory
import Hyperlane.Core.Exclusive
import Hyperlane.Relayer.MultisigMetadata

namespace Hyperlane.Scraper

open Interleaving ChainHistory Relayer

deriving instance DecidableEq for HyperlaneMessage

/-! ## Data -/

structure Header where
  height : ℕ
  hash : H256
  parent : H256
deriving DecidableEq

inductive EventData where
  | dispatch (message : HyperlaneMessage)
  | delivery (messageId : H256)
  | insertion (messageId : H256) (index : UInt32)
  | gas (messageId : H256) (destination : UInt32) (gas payment : String)
deriving DecidableEq

/-- a log of one of the contracts, decoded -/
structure Log where
  address : H160
  txHash : H256
  txIndex : ℕ
  logIndex : ℕ
  data : EventData
deriving DecidableEq

structure Event extends Log where
  blockNumber : ℕ
  blockHash : H256
deriving DecidableEq

structure Block where
  header : Header
  logs : List Log
deriving DecidableEq

def Block.events (b : Block) : List Event := b.logs.map fun log => ⟨log, b.header.height, b.header.hash⟩

def links : Links Block H256 := ⟨fun b => b.header.height, fun b => b.header.hash, fun b => b.header.parent⟩

inductive BlockNumber where
  | number (height : ℕ)
  | latest
  | safe
  | finalized
deriving DecidableEq

/-- the `Tag` of a `ReorgPeriod`, one that `prepare` lets pass -/
inductive Tag where
  | latest
  | safe
  | finalized
deriving DecidableEq

def Tag.blockNumber : Tag → BlockNumber
  | .latest => .latest
  | .safe => .safe
  | .finalized => .finalized

inductive ReorgPeriod where
  | none
  | blocks (depth : ℕ)
  | tag (tag : Tag)
deriving DecidableEq

/-- the snapshot of the head row that the calls work with -/
structure State where
  indexed : ℕ
  hash : H256
  confirmed : ℕ
  head : ℕ
  halted : Bool
deriving DecidableEq

/-- the row of `scraper_head` -/
structure HeadRow where
  startHeight : ℕ
  indexedHeight : ℕ
  indexedHash : H256
  headHeight : ℕ
  confirmedHeight : ℕ
  healthy : Bool
  halted : Bool
deriving DecidableEq

/-- the checks of the table -/
def HeadRow.Valid (row : HeadRow) : Prop :=
  row.startHeight ≤ row.confirmedHeight ∧ row.confirmedHeight ≤ row.indexedHeight ∧ row.indexedHeight ≤ row.headHeight

instance (row : HeadRow) : Decidable row.Valid := inferInstanceAs (Decidable (_ ∧ _))

/-- the event tables -/
inductive Table where
  | rawMessageDispatch
  | deliveredMessage
  | gasPayment
  | merkleTreeInsertion
deriving DecidableEq

def EVENTS : List Table := [.rawMessageDispatch, .deliveredMessage, .gasPayment, .merkleTreeInsertion]

def EventData.table : EventData → Table
  | .dispatch _ => .rawMessageDispatch
  | .delivery _ => .deliveredMessage
  | .insertion _ _ => .merkleTreeInsertion
  | .gas _ _ _ _ => .gasPayment

structure Store where
  head : HeadRow
  /-- heights and hashes -/
  checkpoints : List (ℕ × H256)
  /-- the rows of the event tables, each in the table of its data -/
  rows : List Event
  dbFailing : Bool
  leaseFresh : Bool
  rpcFailing : Bool
  /-- what `nonce()` and `count()` answer at a block -/
  counts : H256 → Option (UInt32 × UInt32)
  /-- the heights that the tags stand for -/
  safe : ℕ
  finalized : ℕ
  history : List (List Block)

/-- programs with the `?` operator -/
abbrev NearHead (α : Type) := ExceptT String (Prog Store) α

variable {α : Type}

def ensure (condition : Prop) [Decidable condition] (text : String) : NearHead Unit :=
  if condition then pure () else throw text

/-- one access that changes nothing -/
def asking (answer : Store → Except String α) : NearHead α := ExceptT.mk (.read answer)

/-! ## The RPC -/

/-- the canonical chain of the moment -/
def Store.chain (s : Store) : List Block := s.history.getLast?.getD []

def Store.block (s : Store) : BlockNumber → Option Block
  | .number height => s.chain[height]?
  | .latest => s.chain.getLast?
  | .safe => s.chain[s.safe]?
  | .finalized => s.chain[s.finalized]?

def fromRpc (answer : Store → Except String α) : NearHead α :=
  asking fun s => if s.rpcFailing then .error "RPC failed" else answer s

def header (block : BlockNumber) : NearHead Header :=
  fromRpc fun s => (s.block block).elim (.error "Missing stream block") fun b => .ok b.header

def events (first through : ℕ) : NearHead (List Event) := do
  ensure (first ≤ through) "Invalid event range"
  fromRpc fun s => .ok (((s.chain.take (through + 1)).drop first).flatMap Block.events)

def counts (hash : H256) : NearHead (UInt32 × UInt32) :=
  fromRpc fun s => (s.counts hash).elim (.error "Invalid contract sequence count") .ok

/-! ## The database -/

def query (answer : Store → Except String α) : NearHead α :=
  asking fun s => if s.dbFailing then .error "Database failed" else answer s

/-- all of it is done or nothing -/
def Store.transact (s : Store) (change : Store → Except String Store) : Except String Store := do
  if s.dbFailing then throw "Database failed"
  let after ← change s
  if ¬ after.head.Valid then throw "Check of scraper_head violated"
  return after

def transaction (change : Store → Except String Store) : NearHead Unit :=
  ExceptT.mk (.access (fun s => (s.transact change).toOption.getD s) fun s =>
    .pure ((s.transact change).map fun _ => ()))

def HeadRow.state (row : HeadRow) : State :=
  ⟨row.indexedHeight, row.indexedHash, row.confirmedHeight, row.headHeight, row.halted⟩

/-- `Store::state`; the row is there once the domain is initialized -/
def state : NearHead State := query fun s => .ok s.head.state

/-- `Store::hash` -/
def Store.hash (s : Store) (height : ℕ) : Option H256 := (s.checkpoints.find? (·.1 = height)).map Prod.snd

def checkpointHash (height : ℕ) : NearHead (Option H256) := query fun s => .ok (s.hash height)

/-- the highest checkpoint up to a height -/
def Store.checkpoint (s : Store) (through : ℕ) : Option ℕ := ((s.checkpoints.map Prod.fst).filter (· ≤ through)).max?

def checkpoint (through : ℕ) : NearHead ℕ :=
  query fun s => (s.checkpoint through).elim (.error "Missing retained checkpoint") .ok

/-- `Store::validate_checkpoints`, on a start -/
def Store.validateCheckpoints (s : Store) : Bool :=
  (s.checkpoints.any fun c => c.1 = s.head.confirmedHeight) &&
    (s.checkpoints.any fun c => c.1 = s.head.indexedHeight ∧ c.2 = s.head.indexedHash) &&
    !(s.checkpoints.any fun c => s.head.indexedHeight < c.1)

def pause (halt : Bool) : NearHead Unit :=
  transaction fun s => .ok { s with head := { s.head with healthy := false, halted := s.head.halted || halt } }

/-- what is stored above a height is deleted -/
def Store.deleteAbove (s : Store) (height : ℕ) : Store :=
  { s with
    rows := s.rows.filter (·.blockNumber ≤ height)
    checkpoints := s.checkpoints.filter (·.1 ≤ height) }

def Store.observe (s : Store) (expected : State) (ancestor head : Header) : Except String Store := do
  if s.head.halted ∨ s.head.indexedHash ≠ expected.hash then throw "Head state changed"
  if ancestor.height < s.head.confirmedHeight then throw "Reorg crossed confirmed history"
  let kept := if ancestor.hash ≠ expected.hash then s.deleteAbove ancestor.height else s
  return { kept with head := { s.head with
    indexedHeight := ancestor.height, indexedHash := ancestor.hash, headHeight := head.height, healthy := true } }

/-- the blocks of a range follow on each other; the last one is returned -/
def checkRange (expected : State) : ℕ → H256 → List (Header × List Event) → Except String (ℕ × H256)
  | height, previous, [] => .ok (height, previous)
  | height, previous, (header, events) :: blocks => do
    if ¬ (height < header.height ∧ header.height ≤ expected.head ∧
        (header.height = height + 1 → header.parent = previous)) then throw "Invalid range checkpoint order"
    if ¬ ∀ event ∈ events, event.blockNumber = header.height ∧ event.blockHash = header.hash then
      throw "Event disagrees with block header"
    checkRange expected header.height header.hash blocks

/-- new checkpoints; a height that has one already is refused -/
def Store.insertCheckpoints (s : Store) (headers : List Header) : Except String (List (ℕ × H256)) :=
  if headers.any fun h => (s.hash h.height).isSome then .error "Duplicate checkpoint"
  else .ok (s.checkpoints ++ headers.map fun h => (h.height, h.hash))

def Store.append (s : Store) (expected : State) (blocks : List (Header × List Event)) (height : ℕ) (hash : H256) :
    Except String Store := do
  if ¬ s.head.healthy ∨ s.head.halted ∨ s.head.indexedHash ≠ expected.hash then throw "Head changed during log fetch"
  let checkpoints ← s.insertCheckpoints (blocks.map Prod.fst)
  return { s with
    checkpoints := checkpoints
    rows := s.rows ++ blocks.flatMap Prod.snd
    head := { s.head with indexedHeight := height, indexedHash := hash } }

def append (expected : State) (blocks : List (Header × List Event)) : NearHead Unit := do
  match checkRange expected expected.indexed expected.hash blocks with
  | .error e => throw e
  | .ok (height, hash) => transaction fun s => s.append expected blocks height hash

/-- the heights of the rows of a table in a range, at most 1001 of the lowest -/
def Store.candidates (s : Store) (after through : ℕ) (table : Table) : List ℕ :=
  (((s.rows.filter fun e => e.data.table = table ∧ after < e.blockNumber ∧ e.blockNumber ≤ through).map
    Event.blockNumber).insertionSort (· ≤ ·)).take 1001

def Store.confirmationBoundary (s : Store) (after through : ℕ) : ℕ :=
  let heights := ((EVENTS.flatMap (s.candidates after through)).insertionSort (· ≤ ·)).take 1001
  match heights.min?, heights.max? with
  | some least, some greatest =>
    if heights.length ≤ 1000 then through else if least = greatest then greatest else greatest - 1
  | _, _ => through

def confirmationBoundary (after through : ℕ) : NearHead ℕ := do
  ensure (after ≤ through) "Confirmation range regressed"
  query fun s => .ok (s.confirmationBoundary after through)

/-- the rows of each table in a range -/
def Store.confirmationCounts (s : Store) (after through : ℕ) : List ℕ :=
  EVENTS.map fun table =>
    s.rows.countP fun e => e.data.table = table ∧ after < e.blockNumber ∧ e.blockNumber ≤ through

/-- the boundary gets a checkpoint unless it has one, those below it are deleted -/
def Store.prune (s : Store) (boundary : Header) : List (ℕ × H256) :=
  (if (s.hash boundary.height).isSome then s.checkpoints
    else s.checkpoints ++ [(boundary.height, boundary.hash)]).filter (boundary.height ≤ ·.1)

def Store.confirm (s : Store) (expected : State) (boundary : Header) : Except String Store := do
  if ¬ (s.head.healthy ∧ ¬ s.head.halted ∧ s.leaseFresh ∧ expected.head ≤ s.head.headHeight ∧
      s.head.confirmedHeight = expected.confirmed ∧ s.head.indexedHash = expected.hash) then
    throw "Confirmation observation changed or expired"
  return { s with
    checkpoints := s.prune boundary
    head := { s.head with confirmedHeight := boundary.height } }

def confirm (expected : State) (boundary : Header) : NearHead (List ℕ) := do
  ensure (boundary.height ≤ expected.indexed) "Cannot confirm unindexed events"
  if boundary.height ≤ expected.confirmed then return [0, 0, 0, 0]
  let counts ← query fun s => .ok (s.confirmationCounts expected.confirmed boundary.height)
  transaction fun s => s.confirm expected boundary
  return counts

/-! ## The calls -/

def verify (checked : Header) : NearHead Unit := do
  ensure ((← header (.number checked.height)).hash = checked.hash) "Chain changed during RPC reads"

/-- the loop of `observe` from a checkpoint down; it makes at most so many turns -/
def commonAncestor (expected : State) (head : Header) : ℕ → ℕ → NearHead Header
  | 0, _ => throw "Missing common ancestor"
  | turns + 1, height => do
    let header ← if height = head.height then pure head else header (.number height)
    if (← checkpointHash height) = some header.hash then return header
    pause (height = expected.confirmed)
    ensure (expected.confirmed < height) "Reorg crossed published history; operator repair required"
    ensure (0 < height) "Missing common ancestor"
    commonAncestor expected head turns (← checkpoint (height - 1))

def observe : NearHead State := do
  let expected ← state
  ensure (¬ expected.halted) "Reorg crossed published history; operator repair required"
  let head ← header .latest
  if head.height < expected.indexed then
    pause false
    throw "RPC head is behind indexed history; waiting for a current observation"
  let height ← checkpoint (min expected.indexed head.height)
  -- each turn goes to a lower checkpoint
  let ancestor ← commonAncestor expected head (height + 1) height
  if ancestor.hash ≠ head.hash then verify head
  transaction fun s => s.observe expected ancestor head
  state

/-- `validate_sequences`, from the next dispatch and the next insertion on -/
def nextSequences : UInt32 × UInt32 → List Event → Except String (UInt32 × UInt32)
  | next, [] => .ok next
  | next, event :: rest => match event.data with
    | .dispatch message =>
      if message.nonce ≠ next.1 then .error "Missing or unordered event sequence"
      else if message.nonce.toNat + 1 < UInt32.size then nextSequences (message.nonce + 1, next.2) rest
      else .error "Event sequence overflow"
    | .insertion _ index =>
      if index ≠ next.2 then .error "Missing or unordered event sequence"
      else if index.toNat + 1 < UInt32.size then nextSequences (next.1, index + 1) rest
      else .error "Event sequence overflow"
    | _ => nextSequences next rest

def validateSequences (events : List Event) (next stop : UInt32 × UInt32) : Except String Unit := do
  if (← nextSequences next events) = stop then return () else throw "Incomplete event range"

/-- `entry(height).or_default()` of a map by height, changed by `f` -/
def entry (height : ℕ) (f : List Event → List Event) : List (ℕ × List Event) → List (ℕ × List Event)
  | [] => [(height, f [])]
  | (key, events) :: rest =>
    if height < key then (height, f []) :: (key, events) :: rest
    else if height = key then (key, f events) :: rest
    else (key, events) :: entry height f rest

/-- the events of a range by block, and the end of the range in any case -/
def byBlock (events : List Event) (stop : ℕ) : List (ℕ × List Event) :=
  entry stop id (events.foldl (fun blocks event => entry event.blockNumber (· ++ [event]) blocks) [])

/-- the headers of some heights, asked for in this order -/
def headers (boundary : Header) : List ℕ → NearHead (List (ℕ × Header))
  | [] => return []
  | height :: heights => do
    let header ← if height = boundary.height then pure boundary else header (.number height)
    return (height, header) :: (← headers boundary heights)

/-- the blocks of a range with the headers that were read -/
def blocksWith (found : List (ℕ × Header)) : List (ℕ × List Event) → Except String (List (Header × List Event))
  | [] => return []
  | (height, events) :: rest => do
    let header ← (found.lookup height).elim (.error "Missing header") .ok
    if ¬ ∀ event ∈ events, event.blockHash = header.hash then throw "Range contains logs from another fork"
    return (header, events) :: (← blocksWith found rest)

/-- a range is ingested for a snapshot. The headers of its blocks are asked for several at a time: `order` is the order
in which they are answered. The counts are those of given blocks, so they may be asked for after the events. It returns
whether there is more, and the counts for the next range. -/
def ingestCached (expected : State) (chunkSize : ℕ) (countCache : Option (H256 × (UInt32 × UInt32)))
    (order : List ℕ → List ℕ) : NearHead (Bool × Option (H256 × (UInt32 × UInt32))) := do
  ensure (0 < chunkSize) "Empty indexing range"
  if expected.indexed = expected.head then return (false, countCache)
  let stop := min expected.head (expected.indexed + chunkSize)
  let boundary ← header (.number stop)
  let events ← events (expected.indexed + 1) stop
  let startCounts ← match countCache.filter (·.1 = expected.hash) with
    | some (_, cached) => pure cached
    | none => counts expected.hash
  let endCounts ← counts boundary.hash
  match validateSequences events startCounts endCounts with
  | .error e => throw e
  | .ok () => pure ()
  ensure (∀ event ∈ events, expected.indexed < event.blockNumber ∧ event.blockNumber ≤ stop)
    "Event outside requested range"
  let found ← headers boundary (order ((byBlock events stop).map Prod.fst))
  let blocks ← match blocksWith found (byBlock events stop) with
    | .error e => throw e
    | .ok blocks => pure blocks
  ensure ((← header (.number expected.indexed)).hash = expected.hash) "Indexed boundary changed during range fetch"
  verify boundary
  append expected blocks
  return (stop < expected.head, some (boundary.hash, endCounts))

structure Confirmation where
  counts : List ℕ
  pageLimited : Bool

def nothingConfirmed : Confirmation := ⟨[0, 0, 0, 0], false⟩

/-- the block that a tag other than `latest` stands for -/
def taggedHeader : ReorgPeriod → NearHead (Option Header)
  | .tag .safe => some <$> header .safe
  | .tag .finalized => some <$> header .finalized
  | _ => pure none

/-- how far the observed history is final -/
def finalHeight (period : ReorgPeriod) (expected : State) (tagged : Option Header) : ℕ :=
  match period with
  | .blocks depth => expected.head - depth
  | _ => (tagged.map Header.height).getD expected.head

def confirmLeased (period : ReorgPeriod) : NearHead Confirmation := do
  let expected ← state
  ensure (¬ expected.halted) "Confirmed history requires operator repair"
  if expected.indexed = expected.confirmed then return nothingConfirmed
  let tagged ← taggedHeader period
  let through := min (finalHeight period expected tagged) expected.head
  if through ≤ expected.confirmed then return nothingConfirmed
  let target := min through expected.indexed
  let through ← confirmationBoundary expected.confirmed target
  if through ≤ expected.confirmed then return nothingConfirmed
  let boundary ← match tagged.filter (·.height = through) with
    | some header => pure header
    | none => header (.number through)
  match ← checkpointHash through with
  | some hash => ensure (hash = boundary.hash) "Confirmation boundary is on another fork"
  | none => pure ()
  -- a sparse boundary is checked against the tip of the indexed range
  let indexedHash ← if through = expected.indexed then pure boundary.hash
    else Header.hash <$> header (.number expected.indexed)
  ensure (indexedHash = expected.hash) "Indexed fork changed before confirmation"
  return ⟨← confirm expected boundary, through < target⟩

/-! ## The scraper -/

inductive Call where
  | observe
  /-- the worker pauses when an observation has failed -/
  | pause
  | ingestCached (expected : State) (chunkSize : ℕ) (countCache : Option (H256 × (UInt32 × UInt32)))
    (order : List ℕ → List ℕ)
  | confirmLeased (period : ReorgPeriod)

inductive Other where
  | dbFailing (failing : Bool)
  | leaseFresh (fresh : Bool)
  | rpcFailing (failing : Bool)
  | counts (counts : H256 → Option (UInt32 × UInt32))
  | tags (safe finalized : ℕ)
  /-- the chain is extended or reorganised -/
  | chain (chain : List Block)

def run (program : NearHead α) : Prog Store Unit := do
  let _ ← program.run
  return ()

/-- the calls run beside each other; a call of `observe` counts as bare -/
def scraper : Machine Call Other Store where
  program
    | .observe => run observe
    | .pause => run (pause false)
    | .ingestCached expected chunkSize countCache order => run (ingestCached expected chunkSize countCache order)
    | .confirmLeased period => run (confirmLeased period)
  ready _ _ := true
  bare
    | .observe => true
    | _ => false
  interfere e s := match e with
    | .dbFailing failing => { s with dbFailing := failing }
    | .leaseFresh fresh => { s with leaseFresh := fresh }
    | .rpcFailing failing => { s with rpcFailing := failing }
    | .counts counts => { s with counts := counts }
    | .tags safe finalized => { s with safe := safe, finalized := finalized }
    | .chain chain => if Admits links s.history chain then { s with history := s.history ++ [chain] } else s

/-- a domain that `initialize` has entered with no history of its own: the anchor was read from the chain of a moment -/
structure Initialized where
  history : List (List Block)
  coherent : Coherent links history
  anchor : Block
  below : List Block
  read : ∃ n, Goes history n (below ++ [anchor])

def Initialized.head (d : Initialized) : HeadRow where
  startHeight := d.anchor.header.height
  indexedHeight := d.anchor.header.height
  indexedHash := d.anchor.header.hash
  headHeight := d.anchor.header.height
  confirmedHeight := d.anchor.header.height
  healthy := false
  halted := false

def Initialized.store (d : Initialized) : Store where
  head := d.head
  checkpoints := [(d.anchor.header.height, d.anchor.header.hash)]
  rows := []
  dbFailing := false
  leaseFresh := true
  rpcFailing := false
  counts _ := none
  safe := 0
  finalized := 0
  history := d.history

/-- the scraper of a domain before its first call -/
def Initialized.start (d : Initialized) : System Call Store := ⟨d.store, none, []⟩

end Hyperlane.Scraper
