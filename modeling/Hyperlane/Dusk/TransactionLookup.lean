/-
Looking up the records of a Dusk transaction (hyperlane-dusk/src/lib.rs, mailbox_indexer.rs, interchain_gas.rs,
merkle_tree_hook.rs): `fetch_logs_by_tx_hash`, and the ranges and pages that it is made of.

The chain does not move while a lookup runs. The contracts and the node are not part of the repository; what is relied on
stands in `ChainState`: every record has emitted its event, and a finalized one is archived under its index; a transaction
is in one block; a page of payments has what was asked for.

- `rangeAtBlock_eq`: the two searches give the positions of a block.
- `blockRangeChunks_tile`: the chunks lie end to end, up to the last `u32`.
- `paymentsInRange_exact`: the pages give each finalized payment of a range once.
- `lookups_exact`: what a lookup returns, and when it fails.
-/
import Hyperlane.Core.Bytes
import Hyperlane.Core.Outcome
import Hyperlane.Dusk.FinalizedViews

namespace Hyperlane.Dusk.Lookup

open RemoteReads Bytes

/-! ## The contracts and the node -/

abbrev TxId := Word 32

abbrev H512 := Word 64

structure DuskMessage where
  version : ℕ
  nonce : ℕ
  origin : ℕ
  sender : List UInt8
  destination : ℕ
  recipient : List UInt8
  body : List UInt8
deriving DecidableEq

structure HyperlaneMessage where
  version : ℕ
  nonce : ℕ
  origin : ℕ
  sender : List UInt8
  destination : ℕ
  recipient : List UInt8
  body : List UInt8
deriving DecidableEq

structure GasPaymentRecord where
  messageId : List UInt8
  destination : ℕ
  payment : ℕ
  gasLimit : ℕ
  blockHeight : ℕ
deriving DecidableEq

structure InterchainGasPayment where
  messageId : List UInt8
  destination : ℕ
  payment : ℕ
  gasAmount : ℕ
deriving DecidableEq

structure MerkleTreeInsertion where
  leafIndex : ℕ
  messageId : List UInt8
deriving DecidableEq

/-- the events of the contracts -/
inductive EventData where
  | Dispatch (sender : List UInt8) (destination : ℕ) (recipient message : List UInt8)
  | ProcessId (messageId : List UInt8)
  | GasPayment (messageId : List UInt8) (gasLimit payment : ℕ)
  | InsertedIntoTree (messageId : List UInt8) (index : ℕ)
deriving DecidableEq

/-- a finalized event in the archive of the node -/
structure ArchivedEvent where
  blockHeight : ℕ
  blockHash : List UInt8
  transactionId : TxId
  data : List UInt8

/-- what the crates compute -/
structure Formats where
  serialize : EventData → List UInt8
  decode : List UInt8 → Option DuskMessage

/-- the records of the contracts, by index -/
structure Contracts where
  dispatchedMessage : ℕ → List UInt8
  dispatched : ℕ → DuskMessage
  processedAtIndex : ℕ → List UInt8
  gasPaymentAt : ℕ → GasPaymentRecord
  gasPayments : ℕ → ℕ → List GasPaymentRecord
  messageIdAt : ℕ → List UInt8

/-- the event of a record -/
def Contracts.emitted (c : Contracts) : RecordList → ℕ → EventData
  | .dispatches, i =>
    .Dispatch (c.dispatched i).sender (c.dispatched i).destination (c.dispatched i).recipient (c.dispatchedMessage i)
  | .deliveries, i => .ProcessId (c.processedAtIndex i)
  | .gasPayments, i => .GasPayment (c.gasPaymentAt i).messageId (c.gasPaymentAt i).gasLimit (c.gasPaymentAt i).payment
  | .insertions, i => .InsertedIntoTree (c.messageIdAt i) i

structure ChainState (formats : Formats) extends Chain, Contracts where
  /-- the transaction that made a record -/
  transactionOf : RecordList → ℕ → TxId
  blockHash : ℕ → List UInt8
  transactionBlockHeight : TxId → Option ℕ
  events : RecordList → List ArchivedEvent
  count_u32 : ∀ l, (heights l).length ≤ u32Max
  decodes : ∀ i < (heights .dispatches).length,
    formats.decode (dispatchedMessage i) = some (dispatched i) ∧ (dispatched i).nonce = i
  paymentHeight : ∀ i h, (heights .gasPayments)[i]? = some h → (gasPaymentAt i).blockHeight = h
  pages : ∀ start limit, start + limit ≤ (heights .gasPayments).length →
    gasPayments start limit = (List.range' start limit).map gasPaymentAt
  inBlock : ∀ l i h, (heights l)[i]? = some h → transactionBlockHeight (transactionOf l i) = some h
  archived : ∀ l i h, (heights l)[i]? = some h → h ≤ finalizedHeight →
    (events l)[i]? = some (ArchivedEvent.mk h (blockHash h) (transactionOf l i) (formats.serialize (toContracts.emitted l i)))

/-! ## The model -/

inductive LookupError where
  | chain (e : DuskError)
  | nonzeroPadding
  | cursorRange (height : ℕ)
  | boundaries (context : String) (first after : ℕ)
  | emptyRange (context : String) (first after : ℕ)
  | inconsistentRange (context : String) (first last : ℕ)
  | budget (context : String) (count : ℕ)
  | undecodable (nonce : ℕ)
  | nonceMismatch (found nonce : ℕ)
  | page (returned start limit : ℕ)
  | notArchived
  | eventHeight (found expected : ℕ)
  | eventData
deriving DecidableEq

def DUSK_LOG_LOOKUP_CHUNK_SIZE : ℕ := 256

def DUSK_TX_HASH_LOOKUP_MAX_RECORDS : ℕ := 4096

def GAS_PAYMENT_PAGE_SIZE : ℕ := 256

structure LogMeta where
  address : List UInt8
  blockNumber : ℕ
  blockHash : List UInt8
  transactionId : List UInt8
  transactionIndex : ℕ
  logIndex : ℕ
deriving DecidableEq

/-- an indexed value with its sequence -/
structure Log (V : Type) where
  value : V
  sequence : ℕ
  logMeta : LogMeta
deriving DecidableEq

/-- `dusk_tx_id_to_h512`, of the bytes -/
def duskTxIdToH512 (id : TxId) : H512 := ⟨List.replicate 32 0 ++ id.1, by rw [List.length_append, List.length_replicate, id.2]⟩

/-- `h512_to_dusk_tx_id`, of the bytes -/
def h512ToDuskTxId (hash : H512) : Except LookupError TxId :=
  if hash.1.take 32 ≠ List.replicate 32 0 then .error .nonzeroPadding
  else .ok ⟨hash.1.drop 32, by rw [List.length_drop, hash.2]⟩

def ensureCursorHeight (blockHeight : ℕ) : Except LookupError Unit :=
  if u32Max < blockHeight then .error (.cursorRange blockHeight) else .ok ()

/-- the bounds of an inclusive range -/
abbrev BlockRange := ℕ × ℕ

def boundedBlockRange (first after : ℕ) (context : String) : Except LookupError BlockRange :=
  if after < first then .error (.boundaries context first after)
  else if after - first = 0 then .error (.emptyRange context first after)
  else .ok (first, after - 1)

def saturatingAddU32 (a b : ℕ) : ℕ := min (a + b) u32Max

/-- the closure of `block_range_chunks`; a chunk has at least one element -/
def chunksFrom (last : ℕ) : ℕ → ℕ → List BlockRange
  | 0, _ => []
  | turns + 1, next =>
    let chunkEnd := min (saturatingAddU32 next (DUSK_LOG_LOOKUP_CHUNK_SIZE - 1)) last
    if chunkEnd = last then [(next, chunkEnd)] else (next, chunkEnd) :: chunksFrom last turns (chunkEnd + 1)

def blockRangeChunks (range : BlockRange) : List BlockRange :=
  if range.2 < range.1 then [] else chunksFrom range.2 (range.2 - range.1 + 1) range.1

def ensureTxHashLookupBudget (range : BlockRange) (context : String) : Except LookupError Unit :=
  if range.2 < range.1 then .error (.inconsistentRange context range.1 range.2)
  else if DUSK_TX_HASH_LOOKUP_MAX_RECORDS < range.2 - range.1 + 1 then .error (.budget context (range.2 - range.1 + 1))
  else .ok ()

/-- what the errors of an indexer call its records -/
def context : RecordList → String
  | .dispatches => "dispatch"
  | .deliveries => "delivery"
  | .gasPayments => "IGP payment"
  | .insertions => "merkle insertion"

section Model

variable {formats : Formats} (beyond : RecordList → ℕ → Except DuskError ℕ) (s : ChainState formats) {V : Type}

/-- a program of `FinalizedViews` on a chain that does not move -/
def answered {α : Type} (p : Reads Node DuskError α) : Except LookupError α :=
  (fixedAnswer ⟨s.toChain, true⟩ p).mapError .chain

/-- `dispatch_height`, `process_height`, the height of `payment_record`, `insertion_height` -/
def readHeight (l : RecordList) (index : ℕ) : Except LookupError ℕ := answered s (query (heightAt beyond l index))

/-- `dispatch_range_at_block` and its like -/
def rangeAtBlock (l : RecordList) (count blockHeight : ℕ) : Except LookupError (Option BlockRange) := do
  let low ← answered s (first beyond l count blockHeight)
  if low = count then return none
  let height ← readHeight beyond s l low
  if height ≠ blockHeight then return none
  let after ← answered s (first beyond l count (saturatingAdd blockHeight 1))
  let range ← boundedBlockRange low after (context l)
  return some range

/-- `finalized_contract_event`, with an archive that is up to date -/
def finalizedContractEvent (l : RecordList) (sequence expectedBlockHeight : ℕ) (expectedData : List UInt8) :
    Except LookupError ArchivedEvent :=
  match (s.events l)[sequence]? with
  | none => .error .notArchived
  | some event =>
    if event.blockHeight ≠ expectedBlockHeight then .error (.eventHeight event.blockHeight expectedBlockHeight)
    else if event.data ≠ expectedData then .error .eventData
    else .ok event

/-- a value, with the height of its record and the event that it is proved by -/
abbrev Found (V : Type) := V × ℕ × EventData

def coreMessage (m : DuskMessage) : HyperlaneMessage :=
  ⟨m.version, m.nonce, m.origin, m.sender, m.destination, m.recipient, m.body⟩

def dispatchAt (nonce : ℕ) : Except LookupError (Found HyperlaneMessage) := do
  let blockNumber ← readHeight beyond s .dispatches nonce
  ensureCursorHeight blockNumber
  let encoded := s.dispatchedMessage nonce
  match formats.decode encoded with
  | none => throw (.undecodable nonce)
  | some m =>
    if m.nonce ≠ nonce then throw (.nonceMismatch m.nonce nonce)
    else return (coreMessage m, blockNumber, .Dispatch m.sender m.destination m.recipient encoded)

def deliveryAt (index : ℕ) : Except LookupError (Found (List UInt8)) := do
  let messageId := s.processedAtIndex index
  let blockNumber ← readHeight beyond s .deliveries index
  ensureCursorHeight blockNumber
  return (messageId, blockNumber, .ProcessId messageId)

def insertionAt (index : ℕ) : Except LookupError (Found MerkleTreeInsertion) := do
  let messageId := s.messageIdAt index
  let blockNumber ← readHeight beyond s .insertions index
  ensureCursorHeight blockNumber
  return (⟨index, messageId⟩, blockNumber, .InsertedIntoTree messageId index)

def corePayment (record : GasPaymentRecord) : InterchainGasPayment :=
  ⟨record.messageId, record.destination, record.payment, record.gasLimit⟩

def paymentOf (record : GasPaymentRecord) : Except LookupError (Found InterchainGasPayment) := do
  ensureCursorHeight record.blockHeight
  return (corePayment record, record.blockHeight, .GasPayment record.messageId record.gasLimit record.payment)

/-- the log of a record, once the archive has its event -/
def provenLog (address : List UInt8) (l : RecordList) (index : ℕ) (found : Found V) : Except LookupError (Log V) := do
  let (value, blockNumber, event) := found
  let provenance ← finalizedContractEvent s l index blockNumber (formats.serialize event)
  let logMeta := ⟨address, provenance.blockHeight, provenance.blockHash, (duskTxIdToH512 provenance.transactionId).1, 0, index⟩
  return ⟨value, index, logMeta⟩

/-- the loop over a range, which ends where the records are no longer finalized -/
def recordLogs (address : List UInt8) (l : RecordList) (recordAt : ℕ → Except LookupError (Found V)) (finalizedCount : ℕ) :
    List ℕ → Except LookupError (List (Log V))
  | [] => .ok []
  | index :: rest =>
    if finalizedCount ≤ index then .ok []
    else do
      let found ← recordAt index
      let log ← provenLog s address l index found
      let logs ← recordLogs address l recordAt finalizedCount rest
      return log :: logs

/-- `fetch_logs_in_range` of the mailbox's and the hook's indexers -/
def recordsInRange (address : List UInt8) (l : RecordList) (recordAt : ℕ → Except LookupError (Found V))
    (range : BlockRange) : Except LookupError (List (Log V)) := do
  let count ← answered s (recordCount l)
  let (finalizedCount, _) ← answered s (finalizedCount beyond l count)
  recordLogs s address l recordAt finalizedCount (List.range' range.1 (range.2 + 1 - range.1))

def dispatchesInRange (address : List UInt8) : BlockRange → Except LookupError (List (Log HyperlaneMessage)) :=
  recordsInRange beyond s address .dispatches (dispatchAt beyond s)

def deliveriesInRange (address : List UInt8) : BlockRange → Except LookupError (List (Log (List UInt8))) :=
  recordsInRange beyond s address .deliveries (deliveryAt beyond s)

def insertionsInRange (address : List UInt8) : BlockRange → Except LookupError (List (Log MerkleTreeInsertion)) :=
  recordsInRange beyond s address .insertions (insertionAt beyond s)

/-- the records of a page, from the index `next` on -/
def pageLogs (address : List UInt8) : ℕ → List GasPaymentRecord → Except LookupError (List (Log InterchainGasPayment))
  | _, [] => .ok []
  | next, record :: records => do
    let found ← paymentOf record
    let log ← provenLog s address .gasPayments next found
    let logs ← pageLogs address (next + 1) records
    return log :: logs

/-- the `while` loop over the pages; a page has at least one record -/
def paymentPages (address : List UInt8) (finalizedCount requestedEnd : ℕ) :
    ℕ → ℕ → Except LookupError (List (Log InterchainGasPayment))
  | 0, _ => .ok []
  | turns + 1, next =>
    if next < finalizedCount ∧ next ≤ requestedEnd then do
      let limit := min (min (finalizedCount - next) (saturatingAddU32 (requestedEnd - next) 1)) GAS_PAYMENT_PAGE_SIZE
      let records := s.gasPayments next limit
      if records.length ≠ limit then throw (.page records.length next limit)
      let logs ← pageLogs s address next records
      let later ← paymentPages address finalizedCount requestedEnd turns (next + limit)
      return logs ++ later
    else .ok []

/-- `fetch_logs_in_range` of the gas paymaster's indexer -/
def paymentsInRange (address : List UInt8) (range : BlockRange) : Except LookupError (List (Log InterchainGasPayment)) := do
  let paymentCount ← answered s (recordCount .gasPayments)
  let (finalizedCount, _) ← answered s (finalizedCount beyond .gasPayments paymentCount)
  paymentPages s address finalizedCount range.2 (finalizedCount - range.1) range.1

/-- the logs of the chunks that belong to a transaction -/
def chunkLogs (fetchLogsInRange : BlockRange → Except LookupError (List (Log V))) (txHash : H512) :
    List BlockRange → Except LookupError (List (Log V))
  | [] => .ok []
  | chunk :: chunks => do
    let logs ← fetchLogsInRange chunk
    let later ← chunkLogs fetchLogsInRange txHash chunks
    return logs.filter (fun log => log.logMeta.transactionId = txHash.1) ++ later

/-- `fetch_logs_by_tx_hash` -/
def fetchLogsByTxHash (l : RecordList) (fetchLogsInRange : BlockRange → Except LookupError (List (Log V))) (txHash : H512) :
    Except LookupError (List (Log V)) := do
  let txId ← h512ToDuskTxId txHash
  match s.transactionBlockHeight txId with
  | none => return []
  | some blockHeight => do
    ensureCursorHeight blockHeight
    let finalizedHeight ← answered s finalizedBlockHeight
    if finalizedHeight < blockHeight then return []
    let count ← answered s (recordCount l)
    match ← rangeAtBlock beyond s l count blockHeight with
    | none => return []
    | some range => do
      ensureTxHashLookupBudget range (context l)
      chunkLogs fetchLogsInRange txHash (blockRangeChunks range)

def dispatchesByTxHash (address : List UInt8) : H512 → Except LookupError (List (Log HyperlaneMessage)) :=
  fetchLogsByTxHash beyond s .dispatches (dispatchesInRange beyond s address)

def deliveriesByTxHash (address : List UInt8) : H512 → Except LookupError (List (Log (List UInt8))) :=
  fetchLogsByTxHash beyond s .deliveries (deliveriesInRange beyond s address)

def paymentsByTxHash (address : List UInt8) : H512 → Except LookupError (List (Log InterchainGasPayment)) :=
  fetchLogsByTxHash beyond s .gasPayments (paymentsInRange beyond s address)

def insertionsByTxHash (address : List UInt8) : H512 → Except LookupError (List (Log MerkleTreeInsertion)) :=
  fetchLogsByTxHash beyond s .insertions (insertionsInRange beyond s address)

end Model

/-! ## Answers -/

section Proofs

variable {formats : Formats} {beyond : RecordList → ℕ → Except DuskError ℕ} {s : ChainState formats} {V : Type}

/-- how many records are below a height -/
def below (s : ChainState formats) (l : RecordList) (height : ℕ) : ℕ := (s.heights l).countP (· < height)

theorem below_le (l : RecordList) (height : ℕ) : below s l height ≤ (s.heights l).length := List.countP_le_length

theorem below_mono {l : RecordList} {a b : ℕ} (h : a ≤ b) : below s l a ≤ below s l b :=
  List.countP_mono_left fun x _ hx => by
    simp only [decide_eq_true_eq] at hx ⊢
    omega

theorem fixedAnswer_first (l : RecordList) (height : ℕ) :
    fixedAnswer ⟨s.toChain, true⟩ (first beyond l (s.heights l).length height) = .ok (below s l height) := by
  have hsearch : fixedAnswer ⟨s.toChain, true⟩ (firstAtOrAfter beyond l (s.heights l).length height) =
      .ok (min (below s l height) (s.heights l).length) := by
    refine fixedAnswer_search fun i hi => ?_
    have hget := List.getElem?_eq_getElem hi
    have hsplit := lt_iff_index (s.sorted l) height hget
    dsimp only
    rw [if_pos rfl, heightAt, hget]
    exact congrArg Except.ok (decide_eq_decide.2 hsplit)
  rw [first_eq, hsearch, min_eq_left (below_le l height)]

theorem answered_first (l : RecordList) (height : ℕ) :
    answered s (first beyond l (s.heights l).length height) = .ok (below s l height) := by
  rw [answered, fixedAnswer_first]
  rfl

/-- the finalized height is given out as a `u32` -/
theorem answered_finalizedCount (l : RecordList) : answered s (finalizedCount beyond l (s.heights l).length) =
    if u32Max < s.finalizedHeight then .error (.chain (.finalizedHeightExceedsU32 s.finalizedHeight))
    else .ok (below s l (s.finalizedHeight + 1), s.finalizedHeight) := by
  have hnumber : fixedAnswer ⟨s.toChain, true⟩ finalizedBlockNumber =
      if u32Max < s.finalizedHeight then .error (.finalizedHeightExceedsU32 s.finalizedHeight)
      else .ok s.finalizedHeight := by
    rw [finalizedBlockNumber, fixedAnswer_bind]
    change fixedAnswer _ (if u32Max < s.finalizedHeight then throw _ else pure s.finalizedHeight) = _
    split
    · rfl
    · rfl
  rw [answered, finalizedCount, fixedAnswer_bind, hnumber]
  split
  · rfl
  · rw [Outcome.ok_bind, fixedAnswer_bind, fixedAnswer_first]
    rfl

theorem readHeight_eq {l : RecordList} {i h : ℕ} (hi : (s.heights l)[i]? = some h) : readHeight beyond s l i = .ok h := by
  have hanswer : readHeight beyond s l i = (heightAt beyond l i s.toChain).mapError .chain := rfl
  rw [hanswer, heightAt, hi]
  rfl

/-- the positions of a block -/
theorem height_iff {l : RecordList} {i h : ℕ} :
    (s.heights l)[i]? = some h ↔ below s l h ≤ i ∧ i < below s l (h + 1) := by
  constructor
  · intro hi
    have hlow := lt_iff_index (s.sorted l) h hi
    have hhigh := lt_iff_index (s.sorted l) (h + 1) hi
    exact ⟨not_lt.1 fun hlt => lt_irrefl h (hlow.2 hlt), hhigh.1 (Nat.lt_succ_self h)⟩
  · rintro ⟨hlow, hhigh⟩
    have hlen : i < (s.heights l).length := hhigh.trans_le (below_le l (h + 1))
    have hget := List.getElem?_eq_getElem hlen
    have hnot := (lt_iff_index (s.sorted l) h hget).not.2 (not_lt.2 hlow)
    have hlt := (lt_iff_index (s.sorted l) (h + 1) hget).2 hhigh
    rw [hget]
    exact congrArg some (by omega)

theorem below_succ (l : RecordList) (h : ℕ) : below s l (h + 1) = below s l h + (s.heights l).count h := by
  unfold below
  induction s.heights l with
  | nil => rfl
  | cons x xs ih =>
    simp only [List.countP_cons, List.count_cons, ih, decide_eq_true_eq, beq_iff_eq]
    split <;> split <;> split <;> omega

theorem rangeAtBlock_eq (l : RecordList) {h : ℕ} (hh : h < u64Max) :
    rangeAtBlock beyond s l (s.heights l).length h =
      .ok (if (s.heights l).count h = 0 then none else some (below s l h, below s l (h + 1) - 1)) := by
  have hsucc := below_succ (s := s) l h
  have hadd : saturatingAdd h 1 = h + 1 := min_eq_left hh
  rw [rangeAtBlock, answered_first, Outcome.ok_bind]
  by_cases hend : below s l h = (s.heights l).length
  · have hnone : (s.heights l).count h = 0 := by
      have := below_le (s := s) l (h + 1)
      omega
    rw [if_pos hend, if_pos hnone]
    rfl
  · have hlt : below s l h < (s.heights l).length := lt_of_le_of_ne (below_le l h) hend
    have hget := List.getElem?_eq_getElem hlt
    rw [if_neg hend, readHeight_eq hget, Outcome.ok_bind]
    by_cases hx : (s.heights l)[below s l h] = h
    · rw [hx] at hget
      have hin := height_iff.1 hget
      have hsome : (s.heights l).count h ≠ 0 := by omega
      have hrange : boundedBlockRange (below s l h) (below s l (h + 1)) (context l) =
          .ok (below s l h, below s l (h + 1) - 1) := by
        rw [boundedBlockRange, if_neg (by omega), if_neg (by omega)]
      rw [if_neg (not_not.2 hx), if_neg hsome, hadd, answered_first, Outcome.ok_bind, hrange]
      rfl
    · have hnone : (s.heights l).count h = 0 := by
        by_contra hsome
        have hmem := height_iff.2 ⟨le_rfl, (by omega : below s l h < below s l (h + 1))⟩
        rw [hget] at hmem
        exact hx (Option.some.inj hmem)
      rw [if_pos hx, if_pos hnone]
      rfl

/-! ## Chunks -/

/-- the positions of a range -/
def positions (range : BlockRange) : List ℕ := List.range' range.1 (range.2 + 1 - range.1)

theorem chunksFrom_tile {last turns next : ℕ} (hlast : last ≤ u32Max) (hnext : next ≤ last) (hturns : last - next < turns) :
    (chunksFrom last turns next).flatMap positions = positions (next, last) ∧
      ∀ chunk ∈ chunksFrom last turns next, chunk.1 ≤ chunk.2 ∧ chunk.2 + 1 - chunk.1 ≤ DUSK_LOG_LOOKUP_CHUNK_SIZE := by
  induction turns generalizing next with
  | zero => exact absurd hturns (Nat.not_lt_zero _)
  | succ turns ih =>
    have hsize : DUSK_LOG_LOOKUP_CHUNK_SIZE = 256 := rfl
    have hend : min (saturatingAddU32 next (DUSK_LOG_LOOKUP_CHUNK_SIZE - 1)) last = min (next + 255) last := by
      unfold saturatingAddU32
      omega
    rw [chunksFrom, hend]
    split
    next hlt =>
      rw [hlt]
      refine ⟨List.flatMap_singleton .., fun chunk hchunk => ?_⟩
      obtain rfl := List.mem_singleton.1 hchunk
      dsimp only
      omega
    next hge =>
      have hchunk : min (next + 255) last = next + 255 := by omega
      obtain ⟨htile, hbounds⟩ := @ih (next + 255 + 1) (by omega) (by omega)
      rw [hchunk, List.flatMap_cons, htile]
      constructor
      · simp only [positions]
        rw [show last + 1 - next = (next + 255 + 1 - next) + (last + 1 - (next + 255 + 1)) by omega, ← List.range'_append_1]
        congr 2
        omega
      · refine List.forall_mem_cons.2 ⟨?_, hbounds⟩
        dsimp only
        omega

/-- **The chunks of a range lie end to end**, and none is too long -/
theorem blockRangeChunks_tile {range : BlockRange} (h : range.2 ≤ u32Max) :
    (blockRangeChunks range).flatMap positions = positions range ∧
      ∀ chunk ∈ blockRangeChunks range, chunk.1 ≤ chunk.2 ∧ chunk.2 + 1 - chunk.1 ≤ DUSK_LOG_LOOKUP_CHUNK_SIZE := by
  rw [blockRangeChunks]
  split
  next hempty =>
    have hzero : range.2 + 1 - range.1 = 0 := by omega
    rw [positions, hzero]
    exact ⟨rfl, fun _ hchunk => absurd hchunk List.not_mem_nil⟩
  next hsome => exact chunksFrom_tile h (not_lt.1 hsome) (Nat.lt_succ_self _)

/-! ## Logs -/

/-- the log that a record should have -/
def logOf (s : ChainState formats) (address : List UInt8) (l : RecordList) (value : ℕ → V) (i : ℕ) : Log V :=
  let height := ((s.heights l)[i]?).getD 0
  ⟨value i, i, ⟨address, height, s.blockHash height, (duskTxIdToH512 (s.transactionOf l i)).1, 0, i⟩⟩

theorem provenLog_eq {l : RecordList} {i h : ℕ} (hi : (s.heights l)[i]? = some h) (hfinal : h ≤ s.finalizedHeight)
    (address : List UInt8) (value : ℕ → V) :
    provenLog s address l i (value i, h, s.emitted l i) = .ok (logOf s address l value i) := by
  have hevent : finalizedContractEvent s l i h (formats.serialize (s.emitted l i)) =
      .ok ⟨h, s.blockHash h, s.transactionOf l i, formats.serialize (s.emitted l i)⟩ := by
    rw [finalizedContractEvent, s.archived l i h hi hfinal]
    dsimp only
    rw [if_neg (not_not.2 rfl), if_neg (not_not.2 rfl)]
  rw [provenLog, hevent, logOf, hi]
  rfl

/-- the reads of a record give its value and its event -/
def ReadsAs (s : ChainState formats) (l : RecordList) (recordAt : ℕ → Except LookupError (Found V)) (value : ℕ → V) : Prop :=
  ∀ i h, (s.heights l)[i]? = some h → h ≤ u32Max → recordAt i = .ok (value i, h, s.emitted l i)

theorem ensureCursorHeight_ok {h : ℕ} (hh : h ≤ u32Max) : ensureCursorHeight h = .ok () := if_neg (not_lt.2 hh)

theorem dispatchAt_reads : ReadsAs s .dispatches (dispatchAt beyond s) fun i => coreMessage (s.dispatched i) := by
  intro i h hi hh
  obtain ⟨hdecode, hnonce⟩ := s.decodes i (List.getElem?_eq_some_iff.1 hi).1
  rw [dispatchAt, readHeight_eq hi, Outcome.ok_bind, ensureCursorHeight_ok hh, Outcome.ok_bind]
  dsimp only
  rw [hdecode]
  dsimp only
  rw [if_neg (not_not.2 hnonce)]
  rfl

theorem deliveryAt_reads : ReadsAs s .deliveries (deliveryAt beyond s) s.processedAtIndex := by
  intro i h hi hh
  rw [deliveryAt, readHeight_eq hi, Outcome.ok_bind, ensureCursorHeight_ok hh]
  rfl

theorem insertionAt_reads : ReadsAs s .insertions (insertionAt beyond s) fun i => ⟨i, s.messageIdAt i⟩ := by
  intro i h hi hh
  rw [insertionAt, readHeight_eq hi, Outcome.ok_bind, ensureCursorHeight_ok hh]
  rfl

theorem paymentOf_reads : ReadsAs s .gasPayments (fun i => paymentOf (s.gasPaymentAt i)) fun i =>
    corePayment (s.gasPaymentAt i) := by
  intro i h hi hh
  have hheight := s.paymentHeight i h hi
  change paymentOf (s.gasPaymentAt i) = _
  rw [paymentOf, hheight, ensureCursorHeight_ok hh]
  rfl

/-! ## Ranges -/

/-- the number of finalized records -/
def finalized (s : ChainState formats) (l : RecordList) : ℕ := below s l (s.finalizedHeight + 1)

theorem finalized_u32 (l : RecordList) : finalized s l ≤ u32Max := (below_le l _).trans (s.count_u32 l)

theorem finalized_record {l : RecordList} {i : ℕ} (hi : i < finalized s l) :
    ∃ h, (s.heights l)[i]? = some h ∧ h ≤ s.finalizedHeight := by
  have hget := List.getElem?_eq_getElem (hi.trans_le (below_le l _))
  exact ⟨_, hget, Nat.lt_succ_iff.1 ((lt_iff_index (s.sorted l) _ hget).2 hi)⟩

/-- the finalized positions of a range -/
def finalizedPositions (s : ChainState formats) (l : RecordList) (range : BlockRange) : List ℕ :=
  List.range' range.1 (min (range.2 + 1 - range.1) (finalized s l - range.1))

/-- a fetch gives each finalized record of a range once, in order, unless the finalized height is no `u32` -/
def FetchExact (s : ChainState formats) (l : RecordList) (logs : ℕ → Log V)
    (fetchLogsInRange : BlockRange → Except LookupError (List (Log V))) : Prop :=
  ∀ range : BlockRange, range.2 ≤ u32Max → fetchLogsInRange range =
    if u32Max < s.finalizedHeight then .error (.chain (.finalizedHeightExceedsU32 s.finalizedHeight))
    else .ok ((finalizedPositions s l range).map logs)

theorem recordLogs_eq {l : RecordList} {recordAt : ℕ → Except LookupError (Found V)} {value : ℕ → V}
    (hreads : ReadsAs s l recordAt value) (hfinal : s.finalizedHeight ≤ u32Max) (address : List UInt8) (a n : ℕ) :
    recordLogs s address l recordAt (finalized s l) (List.range' a n) =
      .ok ((List.range' a (min n (finalized s l - a))).map (logOf s address l value)) := by
  induction n generalizing a with
  | zero => rw [Nat.zero_min]; rfl
  | succ n ih =>
    rw [List.range'_succ, recordLogs]
    split
    next hend =>
      rw [Nat.sub_eq_zero_of_le hend, Nat.min_zero]
      rfl
    next hlt =>
      obtain ⟨h, hi, hle⟩ := finalized_record (not_le.1 hlt)
      rw [hreads a h hi (hle.trans hfinal), Outcome.ok_bind, provenLog_eq hi hle, Outcome.ok_bind, ih, Outcome.ok_bind]
      rw [show min (n + 1) (finalized s l - a) = min n (finalized s l - (a + 1)) + 1 by omega, List.range'_succ]
      rfl

theorem recordsInRange_exact {l : RecordList} {recordAt : ℕ → Except LookupError (Found V)} {value : ℕ → V}
    (hreads : ReadsAs s l recordAt value) (address : List UInt8) :
    FetchExact s l (logOf s address l value) (recordsInRange beyond s address l recordAt) := by
  intro range _
  rw [recordsInRange, show answered s (recordCount l) = .ok (s.heights l).length from rfl, Outcome.ok_bind,
    answered_finalizedCount]
  split
  · rfl
  next hfinal => exact recordLogs_eq hreads (not_lt.1 hfinal) address range.1 _

theorem pageLogs_eq (hfinal : s.finalizedHeight ≤ u32Max) (address : List UInt8) {next n : ℕ}
    (hn : next + n ≤ finalized s .gasPayments) :
    pageLogs s address next ((List.range' next n).map s.gasPaymentAt) =
      .ok ((List.range' next n).map (logOf s address .gasPayments fun i => corePayment (s.gasPaymentAt i))) := by
  induction n generalizing next with
  | zero => rfl
  | succ n ih =>
    obtain ⟨h, hi, hle⟩ := finalized_record (by omega : next < finalized s .gasPayments)
    have hfound := paymentOf_reads next h hi (hle.trans hfinal)
    dsimp only at hfound
    rw [List.range'_succ, List.map_cons, pageLogs, hfound, Outcome.ok_bind,
      provenLog_eq hi hle address fun i => corePayment (s.gasPaymentAt i), Outcome.ok_bind, ih (by omega)]
    rfl

/-- a page is not empty, and the next one begins where it ends; no addition saturates -/
theorem pageLimit_bounds {count next requestedEnd limit largest pageSize : ℕ} (hpage : 0 < pageSize) (hcount : count ≤ largest)
    (hlt : next < count) (hle : next ≤ requestedEnd)
    (hlimit : limit = min (min (count - next) (min (requestedEnd - next + 1) largest)) pageSize) :
    0 < limit ∧ next + limit ≤ count ∧ min (requestedEnd + 1 - next) (count - next) =
      limit + min (requestedEnd + 1 - (next + limit)) (count - (next + limit)) := by
  omega

/-- the pages from an index on -/
theorem paymentPages_eq (hfinal : s.finalizedHeight ≤ u32Max) (address : List UInt8) (requestedEnd : ℕ) {turns next : ℕ}
    (hturns : finalized s .gasPayments - next ≤ turns) :
    paymentPages s address (finalized s .gasPayments) requestedEnd turns next =
      .ok ((finalizedPositions s .gasPayments (next, requestedEnd)).map
        (logOf s address .gasPayments fun i => corePayment (s.gasPaymentAt i))) := by
  induction turns generalizing next with
  | zero =>
    rw [finalizedPositions, Nat.le_zero.1 hturns, Nat.min_zero]
    rfl
  | succ turns ih =>
    have hu32 := finalized_u32 (s := s) .gasPayments
    rw [paymentPages]
    split
    next hmore =>
      obtain ⟨hlt, hle⟩ := hmore
      obtain ⟨limit, hlimit⟩ : ∃ limit, limit = min (min (finalized s .gasPayments - next)
        (saturatingAddU32 (requestedEnd - next) 1)) GAS_PAYMENT_PAGE_SIZE := ⟨_, rfl⟩
      obtain ⟨hpos, hbound, hrest⟩ := pageLimit_bounds (by decide) hu32 hlt hle hlimit
      have hpage := s.pages next limit (hbound.trans (below_le _ _))
      have hlength : (s.gasPayments next limit).length = limit := by rw [hpage, List.length_map, List.length_range']
      dsimp only
      rw [← hlimit, if_neg (not_not.2 hlength), hpage, pageLogs_eq hfinal address hbound, Outcome.ok_bind,
        ih (by omega), Outcome.ok_bind]
      refine congrArg Except.ok ?_
      rw [← List.map_append, finalizedPositions, finalizedPositions, hrest, ← List.range'_append_1]
    next hend =>
      have hzero : min (requestedEnd + 1 - next) (finalized s .gasPayments - next) = 0 := by
        rw [not_and_or, not_lt, not_le] at hend
        omega
      rw [finalizedPositions, hzero]
      rfl

/-- **The pages give each finalized payment of a range once** -/
theorem paymentsInRange_exact (address : List UInt8) :
    FetchExact s .gasPayments (logOf s address .gasPayments fun i => corePayment (s.gasPaymentAt i))
      (paymentsInRange beyond s address) := by
  intro range _
  rw [paymentsInRange, show answered s (recordCount .gasPayments) = .ok (s.heights .gasPayments).length from rfl,
    Outcome.ok_bind, answered_finalizedCount]
  split
  · rfl
  next hfinal => exact paymentPages_eq (not_lt.1 hfinal) address range.2 le_rfl

/-! ## Transactions -/

theorem duskTxIdToH512_inj {a b : TxId} : (duskTxIdToH512 a).1 = (duskTxIdToH512 b).1 ↔ a = b := by
  rw [duskTxIdToH512, duskTxIdToH512, List.append_cancel_left_eq, Subtype.ext_iff]

theorem h512ToDuskTxId_duskTxIdToH512 (id : TxId) : h512ToDuskTxId (duskTxIdToH512 id) = .ok id := by
  have htake : (duskTxIdToH512 id).1.take 32 = List.replicate 32 0 := List.take_left' (List.length_replicate ..)
  rw [h512ToDuskTxId, if_neg (not_not.2 htake)]
  exact congrArg Except.ok (Subtype.ext (List.drop_left' (List.length_replicate ..)))

/-- the logs of a transaction among those of some positions -/
theorem filter_logs (address : List UInt8) (l : RecordList) (value : ℕ → V) (tx : TxId) (is : List ℕ) :
    (is.map (logOf s address l value)).filter (fun log => log.logMeta.transactionId = (duskTxIdToH512 tx).1) =
      (is.filter fun i => s.transactionOf l i = tx).map (logOf s address l value) := by
  rw [List.filter_map]
  refine congrArg _ (List.filter_congr fun i _ => ?_)
  exact decide_eq_decide.2 duskTxIdToH512_inj

theorem chunkLogs_eq {l : RecordList} {value : ℕ → V} {address : List UInt8}
    {fetchLogsInRange : BlockRange → Except LookupError (List (Log V))}
    (hfetch : FetchExact s l (logOf s address l value) fetchLogsInRange) (hfinal : s.finalizedHeight ≤ u32Max) (tx : TxId)
    {chunks : List BlockRange} (hchunks : ∀ chunk ∈ chunks, chunk.2 < finalized s l) :
    chunkLogs fetchLogsInRange (duskTxIdToH512 tx) chunks =
      .ok (((chunks.flatMap positions).filter fun i => s.transactionOf l i = tx).map (logOf s address l value)) := by
  induction chunks with
  | nil => rfl
  | cons chunk chunks ih =>
    have hend := hchunks chunk List.mem_cons_self
    have hu32 := finalized_u32 (s := s) l
    have hwhole : finalizedPositions s l chunk = positions chunk := by
      rw [finalizedPositions, positions, Nat.min_eq_left (by omega)]
    rw [chunkLogs, hfetch chunk (by omega), if_neg (not_lt.2 hfinal), Outcome.ok_bind, hwhole,
      ih fun c hc => hchunks c (List.mem_cons_of_mem chunk hc), Outcome.ok_bind, filter_logs, List.flatMap_cons,
      List.filter_append, List.map_append]
    rfl

/-- the records of a transaction, in sequence order -/
def recordsOf (s : ChainState formats) (l : RecordList) (tx : TxId) : List ℕ :=
  (List.range (s.heights l).length).filter fun i => s.transactionOf l i = tx

theorem range_split {low n len : ℕ} (h : low + n ≤ len) :
    List.range len = List.range' 0 low ++ (List.range' low n ++ List.range' (low + n) (len - (low + n))) := by
  obtain ⟨rest, rfl⟩ := Nat.exists_eq_add_of_le h
  have hwhole := List.range'_append_1 (s := 0) (m := low) (n := n + rest)
  rw [Nat.zero_add, ← Nat.add_assoc] at hwhole
  rw [Nat.add_sub_cancel_left, List.range'_append_1, hwhole, List.range_eq_range']

/-- a record of a transaction is at a position of its block -/
theorem recordsOf_eq {l : RecordList} {tx : TxId} {h : ℕ} (htx : s.transactionBlockHeight tx = some h) :
    recordsOf s l tx =
      (List.range' (below s l h) ((s.heights l).count h)).filter fun i => s.transactionOf l i = tx := by
  have hsucc := below_succ (s := s) l h
  have hle := below_le (s := s) l (h + 1)
  have hinside : ∀ i < (s.heights l).length, s.transactionOf l i = tx → below s l h ≤ i ∧ i < below s l (h + 1) := by
    intro i hi heq
    have hget := List.getElem?_eq_getElem hi
    have hblock := s.inBlock l i _ hget
    rw [heq, htx] at hblock
    rw [← Option.some.inj hblock] at hget
    exact height_iff.1 hget
  have houtside {a n : ℕ} (hn : a + n ≤ (s.heights l).length) (hout : a + n ≤ below s l h ∨ below s l (h + 1) ≤ a) :
      (List.range' a n).filter (fun i => s.transactionOf l i = tx) = [] := by
    refine List.filter_eq_nil_iff.2 fun i hi heq => ?_
    obtain ⟨hai, hin⟩ := List.mem_range'_1.1 hi
    have hinblock := hinside i (by omega) (of_decide_eq_true heq)
    omega
  rw [recordsOf, range_split (hsucc ▸ hle), ← hsucc, List.filter_append, List.filter_append,
    houtside (a := 0) (by omega) (by omega), houtside (a := below s l (h + 1)) (by omega) (by omega), List.nil_append,
    List.append_nil]

/-- what a lookup gives for a transaction of a finalized block -/
def LookupExact (s : ChainState formats) (l : RecordList) (logs : ℕ → Log V)
    (lookup : H512 → Except LookupError (List (Log V))) : Prop :=
  ∀ tx h, s.transactionBlockHeight tx = some h → h ≤ s.finalizedHeight → lookup (duskTxIdToH512 tx) =
    if u32Max < h then .error (.cursorRange h)
    else if DUSK_TX_HASH_LOOKUP_MAX_RECORDS < (s.heights l).count h then .error (.budget (context l) ((s.heights l).count h))
    else if u32Max < s.finalizedHeight ∧ 0 < (s.heights l).count h then
      .error (.chain (.finalizedHeightExceedsU32 s.finalizedHeight))
    else .ok ((recordsOf s l tx).map logs)

theorem ensureTxHashLookupBudget_eq (l : RecordList) (first : ℕ) {n : ℕ} (hn : 0 < n) :
    ensureTxHashLookupBudget (first, first + n - 1) (context l) =
      if DUSK_TX_HASH_LOOKUP_MAX_RECORDS < n then .error (.budget (context l) n) else .ok () := by
  have hcount : first + n - 1 - first + 1 = n := by omega
  rw [ensureTxHashLookupBudget]
  dsimp only
  rw [if_neg (by omega), hcount]

/-- the first chunk is fetched when there is one -/
theorem chunkLogs_error {l : RecordList} {logs : ℕ → Log V}
    {fetchLogsInRange : BlockRange → Except LookupError (List (Log V))} (hfetch : FetchExact s l logs fetchLogsInRange)
    (hlate : u32Max < s.finalizedHeight) (txHash : H512) {chunk : BlockRange} {chunks : List BlockRange}
    (hchunk : chunk.2 ≤ u32Max) :
    chunkLogs fetchLogsInRange txHash (chunk :: chunks) = .error (.chain (.finalizedHeightExceedsU32 s.finalizedHeight)) := by
  rw [chunkLogs, hfetch chunk hchunk, if_pos hlate]
  rfl

/-- a chunk ends within its range -/
theorem blockRangeChunks_end {range chunk : BlockRange} (h : range.2 ≤ u32Max) (hchunk : chunk ∈ blockRangeChunks range) :
    chunk.2 ≤ range.2 := by
  obtain ⟨htile, hbounds⟩ := blockRangeChunks_tile h
  have hle := (hbounds chunk hchunk).1
  have hmem : chunk.2 ∈ positions chunk := List.mem_range'_1.2 (by omega)
  have hin : chunk.2 ∈ positions range := htile ▸ List.mem_flatMap.2 ⟨chunk, hchunk, hmem⟩
  have hrange := List.mem_range'_1.1 hin
  omega

/-- the chunks of the positions of a block -/
theorem chunkLogs_positions {l : RecordList} {value : ℕ → V} {address : List UInt8}
    {fetchLogsInRange : BlockRange → Except LookupError (List (Log V))}
    (hfetch : FetchExact s l (logOf s address l value) fetchLogsInRange) (tx : TxId) {first n : ℕ} (hn : 0 < n)
    (hfinal : first + n ≤ finalized s l) :
    chunkLogs fetchLogsInRange (duskTxIdToH512 tx) (blockRangeChunks (first, first + n - 1)) =
      if u32Max < s.finalizedHeight then .error (.chain (.finalizedHeightExceedsU32 s.finalizedHeight))
      else .ok (((List.range' first n).filter fun i => s.transactionOf l i = tx).map (logOf s address l value)) := by
  have hu32 := finalized_u32 (s := s) l
  have hlast : (first, first + n - 1).2 ≤ u32Max := by dsimp only; omega
  obtain ⟨htile, -⟩ := blockRangeChunks_tile hlast
  have hends : ∀ chunk ∈ blockRangeChunks (first, first + n - 1), chunk.2 < finalized s l := by
    intro chunk hchunk
    have hend := blockRangeChunks_end hlast hchunk
    dsimp only at hend
    omega
  have hpositions : positions (first, first + n - 1) = List.range' first n := by
    rw [positions]
    dsimp only
    congr 1
    omega
  rw [hpositions] at htile
  split
  next hlate =>
    cases hchunks : blockRangeChunks (first, first + n - 1) with
    | nil =>
      rw [hchunks] at htile
      have hlength := congrArg List.length htile
      rw [List.length_range'] at hlength
      exact absurd hlength hn.ne
    | cons chunk chunks =>
      have hend := hends chunk (hchunks ▸ List.mem_cons_self)
      exact chunkLogs_error hfetch hlate _ (hend.le.trans hu32)
  next hknown => rw [chunkLogs_eq hfetch (not_lt.1 hknown) tx hends, htile]

theorem fetchLogsByTxHash_exact {l : RecordList} {value : ℕ → V} {address : List UInt8}
    {fetchLogsInRange : BlockRange → Except LookupError (List (Log V))}
    (hfetch : FetchExact s l (logOf s address l value) fetchLogsInRange) :
    LookupExact s l (logOf s address l value) (fetchLogsByTxHash beyond s l fetchLogsInRange) := by
  intro tx h htx hfinal
  have hsucc := below_succ (s := s) l h
  have hlast : below s l h + (s.heights l).count h ≤ finalized s l := hsucc ▸ below_mono (Nat.succ_le_succ hfinal)
  rw [fetchLogsByTxHash, h512ToDuskTxId_duskTxIdToH512, Outcome.ok_bind, htx]
  dsimp only
  by_cases hheight : u32Max < h
  · rw [if_pos hheight, ensureCursorHeight, if_pos hheight]
    rfl
  · have hu64 : h < u64Max := lt_of_le_of_lt (not_lt.1 hheight) (by decide)
    rw [if_neg hheight, ensureCursorHeight_ok (not_lt.1 hheight), Outcome.ok_bind,
      show answered s finalizedBlockHeight = .ok s.finalizedHeight from rfl, Outcome.ok_bind, if_neg (not_lt.2 hfinal),
      show answered s (recordCount l) = .ok (s.heights l).length from rfl, Outcome.ok_bind, rangeAtBlock_eq l hu64,
      Outcome.ok_bind, recordsOf_eq htx]
    by_cases hnone : (s.heights l).count h = 0
    · rw [if_pos hnone, hnone, if_neg (Nat.not_lt_zero _), if_neg fun hlate => lt_irrefl 0 hlate.2]
      rfl
    · have hpos := Nat.pos_of_ne_zero hnone
      rw [if_neg hnone, hsucc]
      dsimp only
      rw [ensureTxHashLookupBudget_eq l _ hpos]
      by_cases hbudget : DUSK_TX_HASH_LOOKUP_MAX_RECORDS < (s.heights l).count h
      · rw [if_pos hbudget, if_pos hbudget]
        rfl
      · rw [if_neg hbudget, if_neg hbudget, Outcome.ok_bind, chunkLogs_positions hfetch tx hpos hlast]
        simp only [hpos, and_true]

theorem dispatchesByTxHash_exact (address : List UInt8) :
    LookupExact s .dispatches (logOf s address .dispatches fun i => coreMessage (s.dispatched i))
      (dispatchesByTxHash beyond s address) :=
  fetchLogsByTxHash_exact (recordsInRange_exact dispatchAt_reads address)

/-- the positions of a block are those of its height -/
theorem rangeAtBlock_exact (l : RecordList) {h : ℕ} (hh : h < u64Max) :
    ∃ range, rangeAtBlock beyond s l (s.heights l).length h = .ok range ∧ (range = none ↔ h ∉ s.heights l) ∧
      ∀ i, (s.heights l)[i]? = some h ↔ ∃ r ∈ range, i ∈ positions r := by
  have hsucc := below_succ (s := s) l h
  refine ⟨_, rangeAtBlock_eq l hh, ?_, fun i => ?_⟩
  · rw [← List.count_eq_zero]
    split
    next hnone => exact iff_of_true rfl hnone
    next hsome => exact iff_of_false (Option.some_ne_none _) hsome
  · rw [height_iff]
    split
    next hnone =>
      constructor
      · rintro ⟨hlow, hhigh⟩
        omega
      · rintro ⟨_, ⟨⟩, _⟩
    next hsome =>
      have hmem : i ∈ positions (below s l h, below s l (h + 1) - 1) ↔ below s l h ≤ i ∧ i < below s l (h + 1) := by
        rw [positions, List.mem_range'_1]
        dsimp only
        omega
      rw [← hmem]
      exact ⟨fun hi => ⟨_, rfl, hi⟩, fun ⟨_, hr, hi⟩ => Option.some.inj hr ▸ hi⟩

end Proofs

/-- **A lookup gives exactly the records of a transaction of a finalized block, in sequence order**; it fails exactly when
the height of the block is no `u32`, when too many records share the block, and, if any does, when the finalized height
is no `u32` -/
theorem lookups_exact {formats : Formats} (beyond : RecordList → ℕ → Except DuskError ℕ) (s : ChainState formats)
    (address : List UInt8) :
    LookupExact s .dispatches (logOf s address .dispatches fun i => coreMessage (s.dispatched i))
        (dispatchesByTxHash beyond s address) ∧
      LookupExact s .deliveries (logOf s address .deliveries s.processedAtIndex) (deliveriesByTxHash beyond s address) ∧
      LookupExact s .gasPayments (logOf s address .gasPayments fun i => corePayment (s.gasPaymentAt i))
        (paymentsByTxHash beyond s address) ∧
      LookupExact s .insertions (logOf s address .insertions fun i => ⟨i, s.messageIdAt i⟩)
        (insertionsByTxHash beyond s address) ∧
      (∀ l, ∀ h < u64Max, ∃ range, rangeAtBlock beyond s l (s.heights l).length h = .ok range ∧
        (range = none ↔ h ∉ s.heights l) ∧ ∀ i, (s.heights l)[i]? = some h ↔ ∃ r ∈ range, i ∈ positions r) ∧
      (∀ range : BlockRange, range.2 ≤ u32Max → (blockRangeChunks range).flatMap positions = positions range ∧
        ∀ chunk ∈ blockRangeChunks range, chunk.1 ≤ chunk.2 ∧ chunk.2 + 1 - chunk.1 ≤ DUSK_LOG_LOOKUP_CHUNK_SIZE) ∧
      FetchExact s .gasPayments (logOf s address .gasPayments fun i => corePayment (s.gasPaymentAt i))
        (paymentsInRange beyond s address) :=
  ⟨dispatchesByTxHash_exact address, fetchLogsByTxHash_exact (recordsInRange_exact deliveryAt_reads address),
    fetchLogsByTxHash_exact (paymentsInRange_exact address),
    fetchLogsByTxHash_exact (recordsInRange_exact insertionAt_reads address), fun l _ hh => rangeAtBlock_exact l hh,
    fun _ h => blockRangeChunks_tile h, paymentsInRange_exact address⟩

def lateFormats : Formats := ⟨fun _ => [], fun _ => some ⟨0, 0, 0, [], 0, [], []⟩⟩

def lateTransaction : TxId := ⟨List.replicate 32 1, List.length_replicate ..⟩

/-- a chain that has finalized one block more than a `u32` counts, with a record of each kind in its first block -/
def lateChain : ChainState lateFormats where
  heights _ := [0]
  finalizedHeight := u32Max + 1
  rootAt _ := 0
  sorted _ := List.pairwise_singleton ..
  heights_u64 _ _ h := by rw [List.mem_singleton.1 h]; exact Nat.zero_le _
  finalized_u64 := by decide
  dispatchedMessage _ := []
  dispatched _ := ⟨0, 0, 0, [], 0, [], []⟩
  processedAtIndex _ := []
  gasPaymentAt _ := ⟨[], 0, 0, 0, 0⟩
  gasPayments _ limit := List.replicate limit ⟨[], 0, 0, 0, 0⟩
  messageIdAt _ := []
  transactionOf _ _ := lateTransaction
  blockHash _ := []
  transactionBlockHeight _ := some 0
  events _ := [⟨0, [], lateTransaction, []⟩]
  count_u32 _ := by decide
  decodes i hi := ⟨rfl, (Nat.lt_one_iff.1 hi).symm⟩
  paymentHeight i h hi := by
    obtain ⟨hlt, rfl⟩ := List.getElem?_eq_some_iff.1 hi
    rw [List.getElem_singleton]
  pages start limit _ := by rw [List.map_const', List.length_range']
  inBlock l i h hi := by
    obtain ⟨hlt, rfl⟩ := List.getElem?_eq_some_iff.1 hi
    rw [List.getElem_singleton]
  archived l i h hi _ := by
    obtain ⟨hlt, rfl⟩ := List.getElem?_eq_some_iff.1 hi
    obtain rfl := Nat.lt_one_iff.1 hlt
    rfl

/-- few records share the block, and the lookup fails all the same -/
theorem late_lookup_fails : ¬ ∀ (formats : Formats) (beyond : RecordList → ℕ → Except DuskError ℕ) (s : ChainState formats)
    (address : List UInt8) (tx : TxId) (h : ℕ), s.transactionBlockHeight tx = some h → h ≤ s.finalizedHeight →
      (s.heights .dispatches).count h ≤ DUSK_TX_HASH_LOOKUP_MAX_RECORDS →
      dispatchesByTxHash beyond s address (duskTxIdToH512 tx) =
        .ok ((recordsOf s .dispatches tx).map (logOf s address .dispatches fun i => coreMessage (s.dispatched i))) := by
  intro hall
  have hlookup := hall lateFormats (fun _ _ => .error .request) lateChain [] lateTransaction 0 rfl (Nat.zero_le _) (by decide)
  have hfails : dispatchesByTxHash (fun _ _ => .error .request) lateChain [] (duskTxIdToH512 lateTransaction) = _ :=
    dispatchesByTxHash_exact [] lateTransaction 0 rfl (Nat.zero_le _)
  rw [if_neg (Nat.not_lt_zero _), if_neg (by decide), if_pos (by decide), hlookup] at hfails
  nomatch hfails

end Hyperlane.Dusk.Lookup
