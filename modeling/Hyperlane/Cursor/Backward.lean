/-
The backward sequence cursor (hyperlane-base/src/contract_sync/cursors/sequence_aware/backward.rs) and its restarts.

The cursor walks down from the on-chain count it was built with. Besides the two snapshots it keeps, in block mode, durable
pairs (missing sequence, block): how far down the blocks have been searched for a sequence. They are written after empty
ranges (every 1000 blocks, or when the range is exhausted), overwritten on a rewind, deleted when the sequence turns up in
the store, and read back at a restart. A durable write may fail, and a failed one may have landed.

A run is any list of calls and restarts, with arbitrary store contents, on-chain counts and tips, log vectors and ranges,
clock readings and write failures.

- `Spanned`: everything from above the current sequence up to the count was found in the store or came in an update.
- `run_spanned`: this holds in every state of every run, in both modes.
- `Located`: in block mode the log of the current sequence, and of every pair in memory or in the store, is at or below
  the block recorded with it.
- `run_located`: this holds in every run whose fetches return exactly the chain's logs of their range.
-/
import Hyperlane.Cursor.Snapshot

namespace Hyperlane.Cursor

/-! ## Model -/

def INITIAL_SEQUENCE_GAP_BACKOFF : ℕ := 5
def MAX_SEQUENCE_GAP_BACKOFF : ℕ := 5 * 60
def BACKWARD_CURSOR_PERSIST_BLOCK_INTERVAL : ℕ := 1000

/-- blocks by missing sequence -/
abbrev Progress := ℕ → Option ℕ

/-- how a durable write ended -/
inductive Write where
  | done
  | failed (landed : Bool)
deriving DecidableEq

/-- the durable map after a write that would make it `new` -/
def Write.apply (old new : Progress) : Write → Progress
  | .done => new
  | .failed landed => if landed then new else old

/-- the two implementations of `HyperlaneBackwardCursorStore` -/
inductive ProgressStore where
  | rocks
  | scraper
deriving DecidableEq

/-- `store_backward_cursor`: the scraper keeps the lower of the two blocks -/
def ProgressStore.storeBackwardCursor : ProgressStore → Progress → ℕ → ℕ → Progress
  | .rocks, p, sequence, block => Function.update p sequence (some block)
  | .scraper, p, sequence, block => Function.update p sequence (some (((p sequence).map (min block)).getD block))

structure BackwardCursor where
  chunkSize : ℕ
  lowestBlockHeightOrSequence : ℤ
  persistedProgress : Progress
  lastIndexedSnapshot : LastIndexedSnapshot
  currentIndexingSnapshot : Option TargetSnapshot
  indexMode : IndexMode
  sequenceGapRetries : ℕ
  sequenceGapRetryAt : Option ℕ
  sequenceGapState : Option (ℕ × Finset ℕ)

/-- what one call finds outside the cursor: the store, the durable writes, the chain and the clock -/
structure Surroundings where
  view : StoreView
  /-- the rounds `skip_indexed` gets through before the call is cut off -/
  limit : ℕ
  delete : ℕ → Write
  latest : Except Unit (Option ℕ × ℕ)
  now : ℕ
  persist : Write

namespace BackwardCursor

def new (chunkSize : ℕ) (lowest : ℤ) (persistedProgress : Progress) (currentSequenceCount startBlock : ℕ)
    (indexMode : IndexMode) : BackwardCursor :=
  let last : LastIndexedSnapshot := ⟨if 0 < currentSequenceCount then some currentSequenceCount else none, startBlock⟩
  { chunkSize := chunkSize
    lowestBlockHeightOrSequence := lowest
    persistedProgress := persistedProgress
    lastIndexedSnapshot := last
    currentIndexingSnapshot := last.previousTarget
    indexMode := indexMode
    sequenceGapRetries := 0
    sequenceGapRetryAt := none
    sequenceGapState := none }

/-- `clear_sequence_gap_retry` -/
def clearSequenceGapRetry (c : BackwardCursor) : BackwardCursor :=
  { c with sequenceGapRetries := 0, sequenceGapRetryAt := none, sequenceGapState := none }

/-- `schedule_sequence_gap_retry` at the instant `now` -/
def scheduleSequenceGapRetry (c : BackwardCursor) (now targetSequence : ℕ) (missingSequences : Finset ℕ) :
    BackwardCursor :=
  let (missing, madeProgress) :=
    match c.sequenceGapState with
    | some (previousTarget, previousMissing) =>
      if previousTarget = targetSequence then
        (previousMissing ∩ missingSequences, decide ((previousMissing ∩ missingSequences).card < previousMissing.card))
      else (missingSequences, true)
    | none => (missingSequences, true)
  if missing = ∅ then c.clearSequenceGapRetry
  else
    let retries := min ((if madeProgress then 0 else c.sequenceGapRetries) + 1) U32_MAX
    let delay := min (INITIAL_SEQUENCE_GAP_BACKOFF * 2 ^ min (retries - 1) 6) MAX_SEQUENCE_GAP_BACKOFF
    { c with
      sequenceGapState := some (targetSequence, missing)
      sequenceGapRetries := retries
      sequenceGapRetryAt := some (now + delay) }

/-- `rewind` -/
def rewind (c : BackwardCursor) : BackwardCursor :=
  { c with currentIndexingSnapshot := c.lastIndexedSnapshot.previousTarget }

/-- one round of `skip_indexed` past a stored sequence -/
def passed (c : BackwardCursor) (sequence block : ℕ) : BackwardCursor :=
  let last : LastIndexedSnapshot := ⟨some sequence, block⟩
  { c with lastIndexedSnapshot := last, currentIndexingSnapshot := last.previousTarget }

/-- a durable write and, when it returns, the same change of the pairs in memory; the flag says whether it returned -/
def commit (c : BackwardCursor) (w : Write) (memory durable new : Progress) : BackwardCursor × Progress × Bool :=
  match w with
  | .done => ({ c with persistedProgress := memory }, w.apply durable new, true)
  | .failed _ => (c, w.apply durable new, false)

/-- the delete in `skip_indexed` for a sequence that turned up -/
def forget (c : BackwardCursor) (durable : Progress) (sequence : ℕ) (w : Write) : BackwardCursor × Progress × Bool :=
  if (c.persistedProgress sequence).isSome then
    c.commit w (Function.update c.persistedProgress sequence none) durable (Function.update durable sequence none)
  else (c, durable, true)

/-- `skip_indexed`: the cursor, the durable pairs, the sequences it passed, and how the call ended (`none` when it is cut
off after `limit` rounds; a call that is cut off inside a delete is one whose delete fails) -/
def skipIndexed (view : StoreView) (delete : ℕ → Write) :
    ℕ → BackwardCursor → Progress → BackwardCursor × Progress × List ℕ × Option (Except Unit Unit)
  | 0, c, durable => (c, durable, [], none)
  | limit + 1, c, durable =>
    match c.currentIndexingSnapshot with
    | none => (c, durable, [], some (.ok ()))
    | some current =>
      match getSequenceLogBlockNumber view current.sequence with
      | .error _ => (c, durable, [], some (.error ()))
      | .ok none => (c, durable, [], some (.ok ()))
      | .ok (some block) =>
        match c.forget durable current.sequence (delete current.sequence) with
        | (c, durable, false) => (c, durable, [], some (.error ()))
        | (c, durable, true) =>
          let (c, durable, rest, result) := skipIndexed view delete limit (c.passed current.sequence block) durable
          (c, durable, current.sequence :: rest, result)

/-- `apply_persisted_progress` -/
def applyPersistedProgress (c : BackwardCursor) : BackwardCursor :=
  match c.currentIndexingSnapshot with
  | none => c
  | some current =>
    match c.persistedProgress current.sequence with
    | none => c
    | some block =>
      if block < current.atBlock then { c with currentIndexingSnapshot := some { current with atBlock := block } } else c

/-- `should_persist` of `persist_progress` -/
def shouldPersist (c : BackwardCursor) (force : Bool) (current : TargetSnapshot) : Bool :=
  match c.persistedProgress current.sequence with
  | none => true
  | some block =>
    decide (current.atBlock < block) && (force || BACKWARD_CURSOR_PERSIST_BLOCK_INTERVAL ≤ block - current.atBlock)

/-- `persist_progress` -/
def persistProgress (store : ProgressStore) (w : Write) (force : Bool) (c : BackwardCursor) (durable : Progress) :
    BackwardCursor × Progress × Bool :=
  match c.currentIndexingSnapshot with
  | none => (c, durable, true)
  | some current =>
    if c.shouldPersist force current then
      c.commit w (Function.update c.persistedProgress current.sequence (some current.atBlock)) durable
        (store.storeBackwardCursor durable current.sequence current.atBlock)
    else (c, durable, true)

/-- `persist_rewind` -/
def persistRewind (w : Write) (c : BackwardCursor) (durable : Progress) : BackwardCursor × Progress × Bool :=
  match c.currentIndexingSnapshot with
  | none => (c, durable, true)
  | some current =>
    c.commit w (Function.update c.persistedProgress current.sequence (some current.atBlock)) durable
      (Function.update durable current.sequence (some current.atBlock))

/-- `get_lowest_block_height_or_sequence` -/
def getLowestBlockHeightOrSequence (c : BackwardCursor) (latest : Except Unit (Option ℕ × ℕ)) : Option ℕ :=
  if 0 ≤ c.lowestBlockHeightOrSequence then some (c.lowestBlockHeightOrSequence.toNat % 2 ^ 32)
  else
    match latest with
    | .error _ => none
    | .ok (count, tip) =>
      match c.indexMode with
      | .Block => some (tip + c.lowestBlockHeightOrSequence).toNat
      | .Sequence => count.map fun n => (n + c.lowestBlockHeightOrSequence).toNat

/-- the range of at most `chunkSize` steps down from `high` -/
def rangeBelow (c : BackwardCursor) (latest : Except Unit (Option ℕ × ℕ)) (high : ℕ) : Option (ℕ × ℕ) :=
  match c.getLowestBlockHeightOrSequence latest with
  | none => none
  | some lowest => if high < lowest then none else some (max (high - c.chunkSize) lowest, high)

/-- `get_next_block_range` -/
def getNextBlockRange (c : BackwardCursor) (latest : Except Unit (Option ℕ × ℕ)) (current : TargetSnapshot) :
    Option (ℕ × ℕ) :=
  c.rangeBelow latest current.atBlock

/-- `get_next_sequence_range` -/
def getNextSequenceRange (c : BackwardCursor) (latest : Except Unit (Option ℕ × ℕ)) (current : TargetSnapshot) :
    Option (ℕ × ℕ) :=
  c.rangeBelow latest current.sequence

/-- the part of `get_next_range` after the skip -/
def nextRange (store : ProgressStore) (env : Surroundings) (c : BackwardCursor) (durable : Progress) :
    BackwardCursor × Progress × Except Unit (Option (ℕ × ℕ)) :=
  let c := c.applyPersistedProgress
  if (c.sequenceGapRetryAt.map fun retryAt => decide (env.now < retryAt)).getD false then (c, durable, .ok none)
  else
    match c.currentIndexingSnapshot with
    | none => (c, durable, .ok none)
    | some current =>
      match c.indexMode with
      | .Sequence => (c, durable, .ok (c.getNextSequenceRange env.latest current))
      | .Block =>
        match c.getNextBlockRange env.latest current with
        | some range => (c, durable, .ok (some range))
        | none =>
          match c.persistProgress store env.persist true durable with
          | (c, durable, true) => (c, durable, .ok none)
          | (c, durable, false) => (c, durable, .error ())

/-- `get_next_range` with the sequences its skip passed -/
def getNextRange (store : ProgressStore) (env : Surroundings) (c : BackwardCursor) (durable : Progress) :
    BackwardCursor × Progress × List ℕ × Except Unit (Option (ℕ × ℕ)) :=
  match skipIndexed env.view env.delete env.limit c durable with
  | (c, durable, passed, none) => (c, durable, passed, .ok none)
  | (c, durable, passed, some (.error _)) => (c, durable, passed, .error ())
  | (c, durable, passed, some (.ok _)) =>
    let c := if passed.isEmpty then c else c.clearSequenceGapRetry
    let (c, durable, range) := c.nextRange store env durable
    (c, durable, passed, range)

/-- the window an update in block mode must fill: `len` sequences ending at the current one -/
def expectedBlock (current : TargetSnapshot) (len : ℕ) : Finset ℕ :=
  Finset.Ico (min (current.sequence + 1) U32_MAX - len % 2 ^ 32) (min (current.sequence + 1) U32_MAX)

/-- `update_block_range`: the cursor and whether the blocks progressed, `none` for an error -/
def updateBlockRange (c : BackwardCursor) (logs : List (ℕ × ℕ)) (range : ℕ × ℕ) (current : TargetSnapshot) :
    BackwardCursor × Option Bool :=
  if allSequences logs ≠ expectedBlock current logs.length then (c.rewind, some false)
  else
    match tryIntoU32 logs.length with
    | .error _ => (c, none)
    | .ok logsLen =>
      let moved : BackwardCursor := { c with currentIndexingSnapshot :=
        if logsLen ≤ current.sequence then some ⟨current.sequence - logsLen, range.1 - 1⟩ else none }
      match logs.head? with
      | none => (moved, some true)
      | some (sequence, block) =>
        match tryIntoU32 block with
        | .error _ => (moved, none)
        | .ok b => ({ moved with lastIndexedSnapshot := ⟨some sequence, b⟩ }, some true)

/-- `update_sequence_range`: the cursor and the missing sequences, if any, `none` for an error -/
def updateSequenceRange (c : BackwardCursor) (logs : List (ℕ × ℕ)) (range : ℕ × ℕ) (current : TargetSnapshot) :
    BackwardCursor × Option (Option (Finset ℕ)) :=
  let expected := Finset.Icc range.1 range.2
  if range.2 ≠ current.sequence then (c.rewind, some (some expected))
  else if allSequences logs ≠ expected then
    let missing := expected \ allSequences logs
    (c.rewind, some (some (if missing = ∅ then expected else missing)))
  else
    match logs.head? with
    | none => (c, some (some expected))
    | some (sequence, block) =>
      match tryIntoU32 block with
      | .error _ => (c, none)
      | .ok b => (c.passed sequence b, some none)

/-- `update`: the cursor, the durable pairs and whether the call returned `Ok` -/
def update (store : ProgressStore) (now : ℕ) (w : Write) (logs : List Log) (range : ℕ × ℕ) (c : BackwardCursor)
    (durable : Progress) : BackwardCursor × Progress × Bool :=
  match c.currentIndexingSnapshot with
  | none => (c, durable, true)
  | some current =>
    match prepare (fun s => decide (s ≤ current.sequence)) logs with
    | .error _ => (c, durable, false)
    | .ok ls =>
      match c.indexMode with
      | .Sequence =>
        match c.updateSequenceRange ls range current with
        | (c, none) => (c, durable, false)
        | (c, some (some missing)) => (c.scheduleSequenceGapRetry now current.sequence missing, durable, true)
        | (c, some none) => (c.clearSequenceGapRetry, durable, true)
      | .Block =>
        match c.updateBlockRange ls range current with
        | (c, none) => (c, durable, false)
        | (c, some true) => if ls.isEmpty then c.persistProgress store w false durable else (c, durable, true)
        | (c, some false) => c.persistRewind w durable

end BackwardCursor

/-! ## Runs -/

/-- one call with everything it observes, or a restart -/
inductive BackwardOp where
  | next (env : Surroundings)
  | update (logs : List Log) (range : ℕ × ℕ) (now : ℕ) (persist : Write)
  | restart (chunkSize : ℕ) (lowest : ℤ) (count : Fin (2 ^ 32)) (tip : ℕ)

/-- the cursor and its durable pairs, the count it was built with, the range it issued last, the sequences found in the
store, and the logs of all updates -/
structure BackwardRun where
  store : ProgressStore
  cursor : BackwardCursor
  durable : Progress
  count : ℕ
  issued : Option (ℕ × ℕ)
  inStore : List ℕ
  received : List Log

namespace BackwardRun

/-- the backward cursor of `ForwardBackwardSequenceAwareSyncCursor::new` -/
def cursorFrom (durable : Progress) (mode : IndexMode) (chunkSize : ℕ) (lowest : ℤ) (count tip : ℕ) : BackwardCursor :=
  .new chunkSize lowest (if mode = .Block then durable else fun _ => none) count tip mode

/-- the first start, with no durable pairs -/
def start (store : ProgressStore) (mode : IndexMode) (chunkSize : ℕ) (lowest : ℤ) (count : Fin (2 ^ 32)) (tip : ℕ) :
    BackwardRun where
  store := store
  cursor := cursorFrom (fun _ => none) mode chunkSize lowest count tip
  durable := fun _ => none
  count := count
  issued := none
  inStore := []
  received := []

def step (r : BackwardRun) : BackwardOp → BackwardRun
  | .next env =>
    let (c, durable, passed, range) := r.cursor.getNextRange r.store env r.durable
    { r with cursor := c, durable := durable, issued := range.toOption.join, inStore := r.inStore ++ passed }
  | .update logs range now persist =>
    let (c, durable, _) := r.cursor.update r.store now persist logs range r.durable
    { r with cursor := c, durable := durable, issued := none, received := r.received ++ logs }
  | .restart chunkSize lowest count tip =>
    { r with
      cursor := cursorFrom r.durable r.cursor.indexMode chunkSize lowest count tip
      count := count
      issued := none }

def run (r : BackwardRun) (ops : List BackwardOp) : BackwardRun := ops.foldl step r

end BackwardRun

/-! ## What one call does -/

/-- the ways an update leaves the two snapshots of the cursor -/
inductive Lowered (c : BackwardCursor) (logs : List Log) (range : ℕ × ℕ) (c' : BackwardCursor) : Prop
  | kept (last : c'.lastIndexedSnapshot = c.lastIndexedSnapshot)
      (current : c'.currentIndexingSnapshot = c.currentIndexingSnapshot)
  | rewound (last : c'.lastIndexedSnapshot = c.lastIndexedSnapshot)
      (current : c'.currentIndexingSnapshot = c.lastIndexedSnapshot.previousTarget)
  | blocks (t : TargetSnapshot) (n : ℕ) (from_ : c.currentIndexingSnapshot = some t)
      (window : ∀ s ≤ t.sequence, (∃ b, (⟨some s, b⟩ : Log) ∈ logs) ↔ t.sequence < s + n)
      (last : c'.lastIndexedSnapshot = c.lastIndexedSnapshot ∨ ∃ s b, (⟨some s, b⟩ : Log) ∈ logs ∧
        s + n = t.sequence + 1 ∧ c'.lastIndexedSnapshot = ⟨some s, b⟩)
      (current : c'.currentIndexingSnapshot = if n ≤ t.sequence then some ⟨t.sequence - n, range.1 - 1⟩ else none)
  | sequences (t : TargetSnapshot) (low b : ℕ) (from_ : c.currentIndexingSnapshot = some t) (le : low ≤ t.sequence)
      (window : ∀ s, low ≤ s → s ≤ t.sequence → ∃ b, (⟨some s, b⟩ : Log) ∈ logs)
      (lowest : (⟨some low, b⟩ : Log) ∈ logs)
      (last : c'.lastIndexedSnapshot = ⟨some low, b⟩)
      (current : c'.currentIndexingSnapshot = c'.lastIndexedSnapshot.previousTarget)

section Update

variable {c : BackwardCursor} {logs : List Log} {ls : List (ℕ × ℕ)} {t : TargetSnapshot}

/-- a vector that fills the expected window is not cut by the 32-bit length or at sequence 0 -/
theorem expectedBlock_length {keep : ℕ → Bool} (h : Prepared keep logs ls)
    (hw : allSequences ls = BackwardCursor.expectedBlock t ls.length) :
    ls.length % 2 ^ 32 = ls.length ∧ ls.length ≤ min (t.sequence + 1) U32_MAX := by
  have hcard := h.card
  rw [hw, BackwardCursor.expectedBlock, Nat.card_Ico] at hcard
  have hmod := Nat.mod_le ls.length (2 ^ 32)
  omega

/-- a gap-free update moves the current snapshot below its logs and below its range -/
theorem updateBlockRange_gapFree {keep : ℕ → Bool} (h : Prepared keep logs ls)
    (hw : allSequences ls = BackwardCursor.expectedBlock t ls.length) (c : BackwardCursor) (range : ℕ × ℕ) :
    (c.updateBlockRange ls range t).1.currentIndexingSnapshot =
      if ls.length ≤ t.sequence then some ⟨t.sequence - ls.length, range.1 - 1⟩ else none := by
  have hfits : tryIntoU32 ls.length = .ok ls.length :=
    if_pos (by rw [← (expectedBlock_length h hw).1]; exact Nat.mod_lt _ (by decide))
  unfold BackwardCursor.updateBlockRange
  rw [if_neg (not_not.2 hw), hfits]
  dsimp only
  split
  · rfl
  · split <;> rfl

theorem backward_window {keep : ℕ → Bool} (h : Prepared keep logs ls) (ht : t.sequence < U32_MAX)
    (hw : allSequences ls = BackwardCursor.expectedBlock t ls.length) :
    ls.length ≤ t.sequence + 1 ∧ allSequences ls = Finset.Ico (t.sequence + 1 - ls.length) (t.sequence + 1) := by
  obtain ⟨hmod, hlen⟩ := expectedBlock_length h hw
  rw [min_eq_left ht] at hlen
  rw [BackwardCursor.expectedBlock, hmod, min_eq_left ht] at hw
  exact ⟨hlen, hw⟩

theorem updateBlockRange_lowered (hc : c.currentIndexingSnapshot = some t) (ht : t.sequence < U32_MAX)
    (hls : prepare (fun s => decide (s ≤ t.sequence)) logs = .ok ls) (range : ℕ × ℕ) :
    Lowered c logs range (c.updateBlockRange ls range t).1 := by
  have hp := prepare_spec hls
  unfold BackwardCursor.updateBlockRange
  split
  · exact .rewound rfl rfl
  rename_i hw
  rw [not_not] at hw
  obtain ⟨hlen, hw⟩ := backward_window hp ht hw
  cases hn : tryIntoU32 ls.length with
  | error e => exact .kept rfl rfl
  | ok n =>
    obtain ⟨rfl, -⟩ := tryIntoU32_ok hn
    have hwin : ∀ s ≤ t.sequence, (∃ b, (⟨some s, b⟩ : Log) ∈ logs) ↔ t.sequence < s + ls.length := by
      intro s hs
      constructor
      · rintro ⟨b, hb⟩
        have hmem := hp.complete s b hb (by simpa using hs)
        rw [hw, Finset.mem_Ico] at hmem
        omega
      · intro hlt
        apply hp.mem_logs
        rw [hw, Finset.mem_Ico]
        omega
    dsimp only
    cases hhead : ls.head? with
    | none => exact .blocks t _ hc hwin (Or.inl rfl) rfl
    | some x =>
      obtain ⟨s, block⟩ := x
      dsimp only
      cases hb : tryIntoU32 block with
      | error e => exact .blocks t _ hc hwin (Or.inl rfl) rfl
      | ok b =>
        obtain ⟨rfl, -⟩ := tryIntoU32_ok hb
        have hs : s = t.sequence + 1 - ls.length := hp.head_window hw hhead
        have hmem := hp.mem_input (List.mem_of_mem_head? hhead)
        exact .blocks t _ hc hwin (Or.inr ⟨s, b, hmem, by omega, rfl⟩) rfl

theorem updateSequenceRange_lowered (hc : c.currentIndexingSnapshot = some t)
    (hls : prepare (fun s => decide (s ≤ t.sequence)) logs = .ok ls) (range : ℕ × ℕ) :
    Lowered c logs range (c.updateSequenceRange ls range t).1 := by
  have hp := prepare_spec hls
  unfold BackwardCursor.updateSequenceRange
  dsimp only
  split
  · exact .rewound rfl rfl
  rename_i hend
  rw [not_not] at hend
  split
  · exact .rewound rfl rfl
  rename_i hw
  rw [not_not, hend] at hw
  cases hhead : ls.head? with
  | none => exact .kept rfl rfl
  | some x =>
    obtain ⟨low, block⟩ := x
    dsimp only
    cases hb : tryIntoU32 block with
    | error e => exact .kept rfl rfl
    | ok b =>
      obtain ⟨rfl, -⟩ := tryIntoU32_ok hb
      have hmem := List.mem_of_mem_head? hhead
      have hlow := mem_allSequences hmem
      rw [hw, Finset.mem_Icc] at hlow
      refine .sequences t low b hc hlow.2 ?_ (hp.mem_input hmem) rfl rfl
      intro s h1 h2
      apply hp.mem_logs
      rw [hw, Finset.mem_Icc]
      exact ⟨hlow.1.trans h1, h2⟩

end Update

/-- the two cursors have the same snapshots and the same mode -/
structure SamePosition (c c' : BackwardCursor) : Prop where
  last : c'.lastIndexedSnapshot = c.lastIndexedSnapshot
  current : c'.currentIndexingSnapshot = c.currentIndexingSnapshot
  mode : c'.indexMode = c.indexMode

/-- and the same pairs in memory -/
structure SameProgress (c c' : BackwardCursor) : Prop extends SamePosition c c' where
  memory : c'.persistedProgress = c.persistedProgress

section Position

variable {c : BackwardCursor}

theorem SamePosition.refl (c : BackwardCursor) : SamePosition c c := ⟨rfl, rfl, rfl⟩

theorem commit_samePosition (c : BackwardCursor) (w : Write) (memory durable new : Progress) :
    SamePosition c (c.commit w memory durable new).1 := by
  cases w <;> exact ⟨rfl, rfl, rfl⟩

theorem forget_samePosition (c : BackwardCursor) (durable : Progress) (sequence : ℕ) (w : Write) :
    SamePosition c (c.forget durable sequence w).1 := by
  unfold BackwardCursor.forget
  split
  · apply commit_samePosition
  · exact .refl c

theorem persistProgress_samePosition (store : ProgressStore) (w : Write) (force : Bool) (c : BackwardCursor)
    (durable : Progress) : SamePosition c (c.persistProgress store w force durable).1 := by
  unfold BackwardCursor.persistProgress
  split
  · exact .refl c
  · split
    · apply commit_samePosition
    · exact .refl c

theorem persistRewind_samePosition (w : Write) (c : BackwardCursor) (durable : Progress) :
    SamePosition c (c.persistRewind w durable).1 := by
  unfold BackwardCursor.persistRewind
  split
  · exact .refl c
  · apply commit_samePosition

theorem clearSequenceGapRetry_sameProgress (c : BackwardCursor) : SameProgress c c.clearSequenceGapRetry :=
  ⟨⟨rfl, rfl, rfl⟩, rfl⟩

theorem scheduleSequenceGapRetry_sameProgress (c : BackwardCursor) (now target : ℕ) (missing : Finset ℕ) :
    SameProgress c (c.scheduleSequenceGapRetry now target missing) := by
  unfold BackwardCursor.scheduleSequenceGapRetry
  generalize (match c.sequenceGapState with
    | some (previousTarget, previousMissing) =>
      if previousTarget = target then
        (previousMissing ∩ missing, decide ((previousMissing ∩ missing).card < previousMissing.card))
      else (missing, true)
    | none => (missing, true)) = m
  dsimp only
  split <;> exact ⟨⟨rfl, rfl, rfl⟩, rfl⟩

theorem Lowered.congr {logs : List Log} {range : ℕ × ℕ} {c' c'' : BackwardCursor} (h : Lowered c logs range c')
    (hs : SamePosition c' c'') : Lowered c logs range c'' := by
  cases h with
  | kept last current => exact .kept (hs.last.trans last) (hs.current.trans current)
  | rewound last current => exact .rewound (hs.last.trans last) (hs.current.trans current)
  | blocks t n from_ window last current =>
    exact .blocks t n from_ window (hs.last ▸ last) (hs.current.trans current)
  | sequences t low b from_ le window lowest last current =>
    refine .sequences t low b from_ le window lowest (hs.last.trans last) ?_
    rw [hs.current, hs.last, current]

theorem updateBlockRange_frame (c : BackwardCursor) (ls : List (ℕ × ℕ)) (range : ℕ × ℕ) (t : TargetSnapshot) :
    (c.updateBlockRange ls range t).1.persistedProgress = c.persistedProgress ∧
    (c.updateBlockRange ls range t).1.indexMode = c.indexMode := by
  unfold BackwardCursor.updateBlockRange
  split
  · exact ⟨rfl, rfl⟩
  · split
    · exact ⟨rfl, rfl⟩
    · dsimp only
      split
      · exact ⟨rfl, rfl⟩
      · split <;> exact ⟨rfl, rfl⟩

theorem updateSequenceRange_frame (c : BackwardCursor) (ls : List (ℕ × ℕ)) (range : ℕ × ℕ) (t : TargetSnapshot) :
    (c.updateSequenceRange ls range t).1.persistedProgress = c.persistedProgress ∧
    (c.updateSequenceRange ls range t).1.indexMode = c.indexMode := by
  unfold BackwardCursor.updateSequenceRange
  dsimp only
  split
  · exact ⟨rfl, rfl⟩
  · split
    · exact ⟨rfl, rfl⟩
    · split
      · exact ⟨rfl, rfl⟩
      · split <;> exact ⟨rfl, rfl⟩

/-- an update moves the snapshots as `Lowered` says, and then writes a pair for the new position or none at all -/
theorem update_cases (hc : ∀ t, c.currentIndexingSnapshot = some t → t.sequence < U32_MAX) (store : ProgressStore)
    (now : ℕ) (w : Write) (logs : List Log) (range : ℕ × ℕ) (durable : Progress) :
    ∃ c', Lowered c logs range c' ∧ c'.persistedProgress = c.persistedProgress ∧ c'.indexMode = c.indexMode ∧
      ((∃ ok, c.update store now w logs range durable = (c', durable, ok)) ∨
        c.update store now w logs range durable = c'.persistProgress store w false durable ∨
        c.update store now w logs range durable = c'.persistRewind w durable) := by
  unfold BackwardCursor.update
  split
  · exact ⟨c, .kept rfl rfl, rfl, rfl, Or.inl ⟨_, rfl⟩⟩
  rename_i t ht
  split
  · exact ⟨c, .kept rfl rfl, rfl, rfl, Or.inl ⟨_, rfl⟩⟩
  rename_i ls hls
  split
  · have hl := updateSequenceRange_lowered ht hls range
    obtain ⟨hp, hm⟩ := updateSequenceRange_frame c ls range t
    split
    · rename_i c' he
      rw [he] at hl hp hm
      exact ⟨c', hl, hp, hm, Or.inl ⟨_, rfl⟩⟩
    · rename_i c' missing he
      rw [he] at hl hp hm
      have hs := scheduleSequenceGapRetry_sameProgress c' now t.sequence missing
      exact ⟨_, hl.congr hs.toSamePosition, hs.memory.trans hp, hs.mode.trans hm, Or.inl ⟨_, rfl⟩⟩
    · rename_i c' he
      rw [he] at hl hp hm
      exact ⟨_, hl.congr (clearSequenceGapRetry_sameProgress c').toSamePosition, hp, hm, Or.inl ⟨_, rfl⟩⟩
  · have hl := updateBlockRange_lowered ht (hc t ht) hls range
    obtain ⟨hp, hm⟩ := updateBlockRange_frame c ls range t
    split
    · rename_i c' he
      rw [he] at hl hp hm
      exact ⟨c', hl, hp, hm, Or.inl ⟨_, rfl⟩⟩
    · rename_i c' he
      rw [he] at hl hp hm
      refine ⟨c', hl, hp, hm, ?_⟩
      split
      · exact Or.inr (Or.inl rfl)
      · exact Or.inl ⟨_, rfl⟩
    · rename_i c' he
      rw [he] at hl hp hm
      exact ⟨c', hl, hp, hm, Or.inr (Or.inr rfl)⟩

theorem update_lowered (hc : ∀ t, c.currentIndexingSnapshot = some t → t.sequence < U32_MAX) (store : ProgressStore)
    (now : ℕ) (w : Write) (logs : List Log) (range : ℕ × ℕ) (durable : Progress) :
    Lowered c logs range (c.update store now w logs range durable).1 := by
  obtain ⟨c', hl, -, -, ⟨ok, hr⟩ | hr | hr⟩ := update_cases hc store now w logs range durable
  · rwa [hr]
  · rw [hr]
    exact hl.congr (persistProgress_samePosition _ _ _ _ _)
  · rw [hr]
    exact hl.congr (persistRewind_samePosition _ _ _)

/-- what `get_next_range` issues in block mode ends at the block of the current snapshot -/
def Issues (c : BackwardCursor) (range : Option (ℕ × ℕ)) : Prop :=
  ∀ x, range = some x → c.indexMode = .Block → ∃ t, c.currentIndexingSnapshot = some t ∧ x.2 = t.atBlock

theorem rangeBelow_high {latest : Except Unit (Option ℕ × ℕ)} {high : ℕ} {x : ℕ × ℕ}
    (h : c.rangeBelow latest high = some x) : x.2 = high := by
  unfold BackwardCursor.rangeBelow at h
  split at h
  · cases h
  · split at h
    · cases h
    · cases h
      rfl

theorem applyPersistedProgress_frame (c : BackwardCursor) :
    c.applyPersistedProgress.persistedProgress = c.persistedProgress ∧ c.applyPersistedProgress.indexMode = c.indexMode := by
  unfold BackwardCursor.applyPersistedProgress
  split
  · exact ⟨rfl, rfl⟩
  · split
    · exact ⟨rfl, rfl⟩
    · split <;> exact ⟨rfl, rfl⟩

/-- after the skip: the persisted progress is applied, and a pair is written when no range is left -/
theorem nextRange_cases (store : ProgressStore) (env : Surroundings) (c : BackwardCursor) (durable : Progress) :
    let a := c.applyPersistedProgress
    let p := a.persistProgress store env.persist true durable
    let r := c.nextRange store env durable
    (r.1 = a ∧ r.2.1 = durable ∧ Issues a r.2.2.toOption.join) ∨
    (r.1 = p.1 ∧ r.2.1 = p.2.1 ∧ r.2.2.toOption.join = none) := by
  intro a p
  unfold BackwardCursor.nextRange
  dsimp only
  split
  · exact Or.inl ⟨rfl, rfl, nofun⟩
  split
  · exact Or.inl ⟨rfl, rfl, nofun⟩
  rename_i t ht
  split
  · rename_i hm
    refine Or.inl ⟨rfl, rfl, ?_⟩
    intro x _ hb
    rw [hm] at hb
    cases hb
  split
  · rename_i range hr
    refine Or.inl ⟨rfl, rfl, ?_⟩
    intro x hx _
    cases hx
    exact ⟨t, ht, rangeBelow_high hr⟩
  · right
    split
    · rename_i he
      simp only [p, a, he, true_and]
      rfl
    · rename_i he
      simp only [p, a, he, true_and]
      rfl

/-- `get_next_range` is its skip, and then `nextRange` unless the skip failed or was cut off -/
theorem getNextRange_cases (store : ProgressStore) (env : Surroundings) (c : BackwardCursor) (durable : Progress) :
    let k := BackwardCursor.skipIndexed env.view env.delete env.limit c durable
    let r := c.getNextRange store env durable
    r.2.2.1 = k.2.2.1 ∧
    ((r.1 = k.1 ∧ r.2.1 = k.2.1 ∧ r.2.2.2.toOption.join = none) ∨
      ∃ c', SameProgress k.1 c' ∧ r.1 = (c'.nextRange store env k.2.1).1 ∧ r.2.1 = (c'.nextRange store env k.2.1).2.1 ∧
        r.2.2.2 = (c'.nextRange store env k.2.1).2.2) := by
  unfold BackwardCursor.getNextRange
  obtain ⟨c1, d1, passed, result⟩ := BackwardCursor.skipIndexed env.view env.delete env.limit c durable
  rcases result with _ | _ | _
  · exact ⟨rfl, Or.inl ⟨rfl, rfl, rfl⟩⟩
  · exact ⟨rfl, Or.inl ⟨rfl, rfl, rfl⟩⟩
  · refine ⟨rfl, Or.inr ⟨if passed.isEmpty then c1 else c1.clearSequenceGapRetry, ?_, rfl, rfl, rfl⟩⟩
    dsimp only
    split
    · exact ⟨.refl c1, rfl⟩
    · exact clearSequenceGapRetry_sameProgress c1

end Position

/-! ## No sequence is passed unseen -/

/-- everything above the current sequence, and everything from the last indexed one on, is seen up to the count -/
structure Spanned (seen : ℕ → Prop) (count : ℕ) (c : BackwardCursor) : Prop where
  upper : count ≤ U32_MAX
  below : ∀ t, c.currentIndexingSnapshot = some t → t.sequence < count
  current : ∀ s < count, (∀ t, c.currentIndexingSnapshot = some t → t.sequence < s) → seen s
  initial : c.lastIndexedSnapshot.sequence = none → count = 0
  last : ∀ l, c.lastIndexedSnapshot.sequence = some l → l ≤ count ∧ ∀ s, l ≤ s → s < count → seen s

section Spanning

variable {seen seen' : ℕ → Prop} {count : ℕ} {c c' : BackwardCursor}

theorem Spanned.mono (h : Spanned seen count c) (hs : ∀ s, seen s → seen' s) : Spanned seen' count c where
  upper := h.upper
  below := h.below
  current s h1 h2 := hs s (h.current s h1 h2)
  initial := h.initial
  last l hl := ⟨(h.last l hl).1, fun s h1 h2 => hs s ((h.last l hl).2 s h1 h2)⟩

theorem Spanned.congr (h : Spanned seen count c) (hs : SamePosition c c') : Spanned seen count c' :=
  ⟨h.upper, hs.current ▸ h.below, hs.current ▸ h.current, hs.last ▸ h.initial, hs.last ▸ h.last⟩

/-- the position just below a snapshot from which on everything is seen -/
theorem Spanned.ofLast (hcount : count ≤ U32_MAX) (hnone : c.lastIndexedSnapshot.sequence = none → count = 0)
    (hlast : ∀ l, c.lastIndexedSnapshot.sequence = some l → l ≤ count ∧ ∀ s, l ≤ s → s < count → seen s)
    (hc : c.currentIndexingSnapshot = c.lastIndexedSnapshot.previousTarget) : Spanned seen count c := by
  refine ⟨hcount, ?_, ?_, hnone, hlast⟩
  · intro t ht
    rw [hc, LastIndexedSnapshot.previousTarget] at ht
    split at ht
    · cases ht
    · cases ht
    · rename_i l hl
      cases ht
      exact (hlast _ hl).1
  · intro s hs hlt
    rw [hc, LastIndexedSnapshot.previousTarget] at hlt
    cases hl : c.lastIndexedSnapshot.sequence with
    | none => exact absurd (hnone hl ▸ hs) (Nat.not_lt_zero s)
    | some l =>
      apply (hlast l hl).2 s _ hs
      cases l with
      | zero => exact Nat.zero_le s
      | succ l =>
        rw [hl] at hlt
        exact hlt _ rfl

theorem new_spanned (chunkSize : ℕ) (lowest : ℤ) (p : Progress) (hcount : count ≤ U32_MAX) (tip : ℕ) (mode : IndexMode) :
    Spanned seen count (.new chunkSize lowest p count tip mode) := by
  refine .ofLast hcount ?_ ?_ rfl
  · intro h
    simp only [BackwardCursor.new] at h
    split at h
    · cases h
    · omega
  · intro l h
    simp only [BackwardCursor.new] at h
    split at h
    · cases h
      exact ⟨le_rfl, fun s h1 h2 => absurd h2 (not_lt.2 h1)⟩
    · cases h

/-- the cursor after a sequence that is seen, with everything above it -/
theorem Spanned.passed (h : Spanned seen count c) {low : ℕ} (hle : low ≤ count) (hs : ∀ s, low ≤ s → s < count → seen s)
    (block : ℕ) : Spanned seen count (c.passed low block) := by
  refine .ofLast h.upper nofun ?_ rfl
  intro l hl
  cases hl
  exact ⟨hle, hs⟩

theorem Spanned.above (h : Spanned seen count c) (hc : c.currentIndexingSnapshot = some t) {s : ℕ} (h1 : t.sequence < s)
    (h2 : s < count) : seen s := by
  apply h.current s h2
  intro t' ht'
  rw [hc] at ht'
  cases ht'
  exact h1

theorem Spanned.skipIndexed (view : StoreView) (delete : ℕ → Write) (limit : ℕ) (durable : Progress)
    (h : Spanned seen count c) (hs : ∀ s ∈ (BackwardCursor.skipIndexed view delete limit c durable).2.2.1, seen s) :
    Spanned seen count (BackwardCursor.skipIndexed view delete limit c durable).1 := by
  induction limit generalizing c durable with
  | zero => exact h
  | succ limit ih =>
    unfold BackwardCursor.skipIndexed at hs ⊢
    split at hs
    · exact h
    rename_i t ht
    split at hs
    · exact h
    · exact h
    rename_i block hblock
    have hsame := forget_samePosition c durable t.sequence (delete t.sequence)
    split at hs
    · rename_i c' durable' hf
      rw [hf] at hsame
      exact h.congr hsame
    · rename_i c' durable' hf
      rw [hf] at hsame
      -- the sequence was in the store, and all above it are seen already
      have hall : ∀ s, t.sequence ≤ s → s < count → seen s := by
        intro s h1 h2
        rcases h1.eq_or_lt with rfl | h1
        · exact hs _ List.mem_cons_self
        · exact h.above ht h1 h2
      apply ih _ ((h.congr hsame).passed (h.below t ht).le hall block)
      intro s hm
      exact hs s (List.mem_cons_of_mem _ hm)

theorem Spanned.update (h : Spanned seen count c) {logs : List Log} (hs : ∀ s b, (⟨some s, b⟩ : Log) ∈ logs → seen s)
    {range : ℕ × ℕ} (hl : Lowered c logs range c') : Spanned seen count c' := by
  cases hl with
  | kept last current => exact ⟨h.upper, current ▸ h.below, current ▸ h.current, last ▸ h.initial, last ▸ h.last⟩
  | rewound last current => exact .ofLast h.upper (last ▸ h.initial) (last ▸ h.last) (last ▸ current)
  | blocks t n from_ window last current =>
    have ht := h.below t from_
    have hall : ∀ s, t.sequence < s + n → s < count → seen s := by
      intro s h1 h2
      rcases le_or_gt s t.sequence with hle | hgt
      · obtain ⟨b, hb⟩ := (window s hle).2 h1
        exact hs s b hb
      · exact h.above from_ hgt h2
    refine ⟨h.upper, ?_, ?_, ?_, ?_⟩
    · intro t' ht'
      rw [current] at ht'
      split at ht'
      · cases ht'
        exact (Nat.sub_le _ _).trans_lt ht
      · cases ht'
    · intro s h1 h2
      apply hall s _ h1
      rw [current] at h2
      split at h2
      · have := h2 _ rfl
        dsimp only at this
        omega
      · omega
    · rcases last with last | ⟨low, b, -, -, last⟩
      · exact last ▸ h.initial
      · rw [last]
        nofun
    · rcases last with last | ⟨low, b, -, hlow, last⟩
      · exact last ▸ h.last
      · intro l hl
        rw [last] at hl
        cases hl
        refine ⟨by omega, ?_⟩
        intro s h1 h2
        exact hall s (by omega) h2
  | sequences t low b from_ le window lowest last current =>
    refine .ofLast h.upper ?_ ?_ current
    · rw [last]
      nofun
    · intro l hl
      rw [last] at hl
      cases hl
      refine ⟨le.trans (h.below t from_).le, ?_⟩
      intro s h1 h2
      rcases le_or_gt s t.sequence with hle | hgt
      · obtain ⟨b, hb⟩ := window s h1 hle
        exact hs s b hb
      · exact h.above from_ hgt h2

theorem Spanned.applyPersistedProgress (h : Spanned seen count c) : Spanned seen count c.applyPersistedProgress := by
  unfold BackwardCursor.applyPersistedProgress
  split
  · exact h
  rename_i t ht
  split
  · exact h
  · rename_i block hblock
    split
    · -- only the block of the current snapshot changes
      refine ⟨h.upper, ?_, ?_, h.initial, h.last⟩
      · intro t' ht'
        cases ht'
        exact h.below t ht
      · intro s h1 h2
        apply h.current s h1
        intro t' ht'
        rw [ht] at ht'
        cases ht'
        exact h2 ⟨t.sequence, block⟩ rfl
    · exact h

theorem Spanned.getNextRange (store : ProgressStore) (env : Surroundings) (durable : Progress) (h : Spanned seen count c)
    (hs : ∀ s ∈ (c.getNextRange store env durable).2.2.1, seen s) :
    Spanned seen count (c.getNextRange store env durable).1 := by
  obtain ⟨hpassed, hr⟩ := getNextRange_cases store env c durable
  rw [hpassed] at hs
  have hk := h.skipIndexed env.view env.delete env.limit durable hs
  rcases hr with ⟨hr, -⟩ | ⟨c', hsame, hr, -⟩
  · rw [hr]
    exact hk
  · rw [hr]
    have ha := (hk.congr hsame.toSamePosition).applyPersistedProgress
    rcases nextRange_cases store env c' (BackwardCursor.skipIndexed env.view env.delete env.limit c durable).2.1 with
      ⟨hn, -⟩ | ⟨hn, -⟩
    · rw [hn]
      exact ha
    · rw [hn]
      exact ha.congr (persistProgress_samePosition _ _ _ _ _)

end Spanning

/-- `s` was found in the store or came in an update -/
def BackwardRun.Seen (r : BackwardRun) (s : ℕ) : Prop := s ∈ r.inStore ∨ ∃ b, (⟨some s, b⟩ : Log) ∈ r.received

theorem step_spanned {r : BackwardRun} (h : Spanned r.Seen r.count r.cursor) (op : BackwardOp) :
    Spanned (r.step op).Seen (r.step op).count (r.step op).cursor := by
  cases op with
  | next env =>
    refine (h.mono ?_).getNextRange r.store env r.durable ?_
    · intro s hs
      exact hs.imp_left (List.mem_append_left _)
    · intro s hs
      exact Or.inl (List.mem_append_right _ hs)
  | update logs range now persist =>
    have hc : ∀ t, r.cursor.currentIndexingSnapshot = some t → t.sequence < U32_MAX :=
      fun t ht => (h.below t ht).trans_le h.upper
    refine (h.mono ?_).update ?_ (update_lowered hc r.store now persist logs range r.durable)
    · intro s hs
      exact hs.imp_right fun ⟨b, hb⟩ => ⟨b, List.mem_append_left _ hb⟩
    · intro s b hb
      exact Or.inr ⟨b, List.mem_append_right _ hb⟩
  | restart chunkSize lowest count tip => exact new_spanned _ _ _ (Nat.le_of_lt_succ count.2) _ _

theorem run_spanned {r : BackwardRun} (h : Spanned r.Seen r.count r.cursor) (ops : List BackwardOp) :
    Spanned (r.run ops).Seen (r.run ops).count (r.run ops).cursor := by
  induction ops generalizing r with
  | nil => exact h
  | cons op ops ih => exact ih (step_spanned h op)

/-! ## The missing log is at or below the current block -/

/-- every recorded block is at or above the block of its sequence's log -/
def Sound (chain : ℕ → ℕ) (p : Progress) : Prop := ∀ s b, p s = some b → chain s ≤ b

/-- the current snapshot, the one below the last indexed snapshot, and all pairs are at or above their logs -/
structure Located (chain : ℕ → ℕ) (c : BackwardCursor) (durable : Progress) : Prop where
  current : ∀ t, c.currentIndexingSnapshot = some t → chain t.sequence ≤ t.atBlock
  last : ∀ l, c.lastIndexedSnapshot.sequence = some (l + 1) → chain l ≤ c.lastIndexedSnapshot.atBlock
  memory : Sound chain c.persistedProgress
  durable : Sound chain durable

section Locating

variable {chain : ℕ → ℕ} {c c' : BackwardCursor} {durable : Progress}

theorem Sound.update {p : Progress} (h : Sound chain p) {s : ℕ} {v : Option ℕ} (hv : ∀ b, v = some b → chain s ≤ b) :
    Sound chain (Function.update p s v) := by
  intro s' b hb
  rcases eq_or_ne s' s with rfl | hne
  · rw [Function.update_self] at hb
    exact hv b hb
  · rw [Function.update_of_ne hne] at hb
    exact h s' b hb

theorem Sound.storeBackwardCursor {p : Progress} (h : Sound chain p) (store : ProgressStore) {s b : ℕ}
    (hb : chain s ≤ b) : Sound chain (store.storeBackwardCursor p s b) := by
  cases store with
  | rocks =>
    apply h.update
    intro b' hb'
    cases hb'
    exact hb
  | scraper =>
    apply h.update
    intro b' hb'
    cases hb'
    cases hp : p s with
    | none => exact hb
    | some old => exact le_min hb (h s old hp)

theorem Sound.apply {old new : Progress} (ho : Sound chain old) (hn : Sound chain new) (w : Write) :
    Sound chain (w.apply old new) := by
  cases w with
  | done => exact hn
  | failed landed =>
    cases landed with
    | true => exact hn
    | false => exact ho

theorem Located.congr (h : Located chain c durable) (hs : SameProgress c c') : Located chain c' durable :=
  ⟨hs.current ▸ h.current, hs.last ▸ h.last, hs.memory ▸ h.memory, h.durable⟩

theorem Located.commit (h : Located chain c durable) (w : Write) {memory new : Progress} (hm : Sound chain memory)
    (hn : Sound chain new) :
    Located chain (c.commit w memory durable new).1 (c.commit w memory durable new).2.1 := by
  have hd := h.durable.apply hn w
  cases w with
  | done => exact ⟨h.current, h.last, hm, hd⟩
  | failed landed => exact ⟨h.current, h.last, h.memory, hd⟩

theorem Located.forget (h : Located chain c durable) (s : ℕ) (w : Write) :
    Located chain (c.forget durable s w).1 (c.forget durable s w).2.1 := by
  unfold BackwardCursor.forget
  split
  · exact h.commit w (h.memory.update nofun) (h.durable.update nofun)
  · exact h

theorem Located.persistProgress (h : Located chain c durable) (store : ProgressStore) (w : Write) (force : Bool) :
    Located chain (c.persistProgress store w force durable).1 (c.persistProgress store w force durable).2.1 := by
  unfold BackwardCursor.persistProgress
  split
  · exact h
  rename_i t ht
  have hloc := h.current t ht
  split
  · apply h.commit w
    · apply h.memory.update
      intro b hb
      cases hb
      exact hloc
    · exact h.durable.storeBackwardCursor store hloc
  · exact h

theorem Located.persistRewind (h : Located chain c durable) (w : Write) :
    Located chain (c.persistRewind w durable).1 (c.persistRewind w durable).2.1 := by
  unfold BackwardCursor.persistRewind
  split
  · exact h
  rename_i t ht
  have hloc : ∀ b, some t.atBlock = some b → chain t.sequence ≤ b := by
    intro b hb
    cases hb
    exact h.current t ht
  exact h.commit w (h.memory.update hloc) (h.durable.update hloc)

/-- the position just below a snapshot -/
theorem Located.ofLast (hlast : ∀ l, c.lastIndexedSnapshot.sequence = some (l + 1) → chain l ≤ c.lastIndexedSnapshot.atBlock)
    (hc : c.currentIndexingSnapshot = c.lastIndexedSnapshot.previousTarget) (hm : Sound chain c.persistedProgress)
    (hd : Sound chain durable) : Located chain c durable := by
  refine ⟨?_, hlast, hm, hd⟩
  intro t ht
  rw [hc, LastIndexedSnapshot.previousTarget] at ht
  split at ht
  · cases ht
  · cases ht
  · rename_i l hl
    cases ht
    exact hlast l hl

theorem new_located (chunkSize : ℕ) (lowest : ℤ) {p : Progress} (hp : Sound chain p) {count tip : ℕ}
    (htip : ∀ s < count, chain s ≤ tip) (mode : IndexMode) (hd : Sound chain durable) :
    Located chain (.new chunkSize lowest p count tip mode) durable := by
  refine .ofLast ?_ rfl hp hd
  intro l hl
  simp only [BackwardCursor.new] at hl
  split at hl
  · cases hl
    exact htip l (Nat.lt_succ_self l)
  · cases hl

variable (hchain : Monotone chain)
include hchain

theorem Located.passed (h : Located chain c durable) {s b : ℕ} (hb : b = chain s) :
    Located chain (c.passed s b) durable := by
  refine .ofLast ?_ rfl h.memory h.durable
  intro l hl
  cases hl
  exact hb ▸ hchain (Nat.le_succ l)

theorem Located.skipIndexed (h : Located chain c durable) {view : StoreView}
    (hview : ∀ s b, view.blockNumber s = .ok (some b) → b = chain s) (delete : ℕ → Write) (limit : ℕ) :
    Located chain (BackwardCursor.skipIndexed view delete limit c durable).1
      (BackwardCursor.skipIndexed view delete limit c durable).2.1 := by
  induction limit generalizing c durable with
  | zero => exact h
  | succ limit ih =>
    unfold BackwardCursor.skipIndexed
    split
    · exact h
    rename_i t ht
    split
    · exact h
    · exact h
    rename_i block hblock
    have hf := h.forget t.sequence (delete t.sequence)
    split
    · rename_i he
      rwa [he] at hf
    · rename_i he
      rw [he] at hf
      exact ih (hf.passed hchain (hview _ _ (getSequenceLogBlockNumber_some hblock)))

omit hchain in
theorem Located.applyPersistedProgress (h : Located chain c durable) :
    Located chain c.applyPersistedProgress durable := by
  unfold BackwardCursor.applyPersistedProgress
  split
  · exact h
  rename_i t ht
  split
  · exact h
  rename_i block hblock
  split
  · refine ⟨?_, h.last, h.memory, h.durable⟩
    intro t' ht'
    cases ht'
    exact h.memory _ _ hblock
  · exact h

/-- after `get_next_range`, with the range it issued -/
theorem Located.getNextRange (h : Located chain c durable) (store : ProgressStore) {env : Surroundings}
    (hview : ∀ s b, env.view.blockNumber s = .ok (some b) → b = chain s) :
    let r := c.getNextRange store env durable
    Located chain r.1 r.2.1 ∧ Issues r.1 r.2.2.2.toOption.join := by
  obtain ⟨-, hr⟩ := getNextRange_cases store env c durable
  have hk := h.skipIndexed hchain hview env.delete env.limit
  dsimp only
  rcases hr with ⟨h1, h2, h3⟩ | ⟨c', hsame, h1, h2, h3⟩
  · rw [h1, h2, h3]
    exact ⟨hk, nofun⟩
  · rw [h1, h2, h3]
    have ha := (hk.congr hsame).applyPersistedProgress
    rcases nextRange_cases store env c' (BackwardCursor.skipIndexed env.view env.delete env.limit c durable).2.1 with
      ⟨n1, n2, n3⟩ | ⟨n1, n2, n3⟩
    · rw [n1, n2]
      exact ⟨ha, n3⟩
    · rw [n1, n2, n3]
      exact ⟨ha.persistProgress store env.persist true, nofun⟩

/-- the logs of an update are the chain's logs in its range, as far as the chain reached -/
def FetchedExactly (chain : ℕ → ℕ) (count : ℕ) (range : ℕ × ℕ) (logs : List Log) : Prop :=
  ∃ visible, count ≤ visible ∧ ∀ x, x ∈ logs ↔ ∃ s < visible, range.1 ≤ chain s ∧ chain s ≤ range.2 ∧ x = ⟨some s, chain s⟩

theorem Located.lowered (h : Located chain c durable) {count : ℕ} {range : ℕ × ℕ} {logs : List Log}
    (hcount : ∀ t, c.currentIndexingSnapshot = some t → t.sequence < count)
    (hrange : ∀ t, c.currentIndexingSnapshot = some t → t.atBlock = range.2) (hlogs : FetchedExactly chain count range logs)
    (hl : Lowered c logs range c') (hm : c'.persistedProgress = c.persistedProgress) : Located chain c' durable := by
  obtain ⟨visible, hvisible, hexact⟩ := hlogs
  have hmem : Sound chain c'.persistedProgress := hm ▸ h.memory
  have hblock : ∀ s b, (⟨some s, b⟩ : Log) ∈ logs → b = chain s := by
    intro s b hb
    obtain ⟨s', -, -, -, he⟩ := (hexact _).1 hb
    cases he
    rfl
  -- a snapshot at a log of the chain
  have hlowest : ∀ s b, (⟨some s, b⟩ : Log) ∈ logs → c'.lastIndexedSnapshot = ⟨some s, b⟩ →
      ∀ l, c'.lastIndexedSnapshot.sequence = some (l + 1) → chain l ≤ c'.lastIndexedSnapshot.atBlock := by
    intro s b hb hc' l hl'
    rw [hc'] at hl' ⊢
    cases hl'
    exact hblock _ _ hb ▸ hchain (Nat.le_succ l)
  cases hl with
  | kept last current => exact ⟨current ▸ h.current, last ▸ h.last, hmem, h.durable⟩
  | rewound last current => exact .ofLast (last ▸ h.last) (last ▸ current) hmem h.durable
  | blocks t n from_ window last current =>
    refine ⟨?_, ?_, hmem, h.durable⟩
    · intro t' ht'
      rw [current] at ht'
      split at ht'
      · rename_i hn
        cases ht'
        -- the next missing log is in the chain at or below the range's end, and not among the logs
        have hhigh : chain (t.sequence - n) ≤ range.2 := by
          calc chain (t.sequence - n) ≤ chain t.sequence := hchain (Nat.sub_le _ _)
            _ ≤ t.atBlock := h.current t from_
            _ = range.2 := hrange t from_
        have hout : ¬ ∃ b, (⟨some (t.sequence - n), b⟩ : Log) ∈ logs := by
          rw [window _ (Nat.sub_le _ _), Nat.sub_add_cancel hn]
          exact lt_irrefl _
        have hlow : ¬ range.1 ≤ chain (t.sequence - n) := by
          intro hle
          apply hout
          refine ⟨_, (hexact _).2 ⟨_, ?_, hle, hhigh, rfl⟩⟩
          exact (Nat.sub_le _ _).trans_lt ((hcount t from_).trans_le hvisible)
        exact Nat.le_sub_one_of_lt (not_le.1 hlow)
      · cases ht'
    · rcases last with last | ⟨s, b, hb, -, last⟩
      · exact last ▸ h.last
      · exact hlowest s b hb last
  | sequences t low b from_ le window lowest last current => exact .ofLast (hlowest low b lowest last) current hmem h.durable

end Locating

/-- what the chain and the store promise a call: the store's block numbers are the chain's, an update brings exactly the
chain's logs in the range just issued, and at a restart all counted logs are at or below the tip -/
def BackwardOp.Honest (chain : ℕ → ℕ) (r : BackwardRun) : BackwardOp → Prop
  | .next env => ∀ s b, env.view.blockNumber s = .ok (some b) → b = chain s
  | .update logs range _ _ => r.issued = some range ∧ FetchedExactly chain r.count range logs
  | .restart _ _ count tip => ∀ s < (count : ℕ), chain s ≤ tip

def BackwardRun.Honest (chain : ℕ → ℕ) (r : BackwardRun) : List BackwardOp → Prop
  | [] => True
  | op :: ops => op.Honest chain r ∧ (r.step op).Honest chain ops

/-- block mode, all snapshots and pairs at or above their logs, and the issued range ends at the current block -/
structure BackwardRun.Located (chain : ℕ → ℕ) (r : BackwardRun) : Prop where
  mode : r.cursor.indexMode = .Block
  cursor : Cursor.Located chain r.cursor r.durable
  issued : Issues r.cursor r.issued

theorem cursorFrom_located {chain : ℕ → ℕ} {durable : Progress} (hd : Sound chain durable) (chunkSize : ℕ) (lowest : ℤ)
    {count tip : ℕ} (htip : ∀ s < count, chain s ≤ tip) :
    Located chain (BackwardRun.cursorFrom durable .Block chunkSize lowest count tip) durable := by
  apply new_located _ _ _ htip _ hd
  exact hd

theorem skipIndexed_mode (view : StoreView) (delete : ℕ → Write) (limit : ℕ) (c : BackwardCursor) (durable : Progress) :
    (BackwardCursor.skipIndexed view delete limit c durable).1.indexMode = c.indexMode := by
  induction limit generalizing c durable with
  | zero => rfl
  | succ limit ih =>
    unfold BackwardCursor.skipIndexed
    split
    · rfl
    rename_i t ht
    split
    · rfl
    · rfl
    have hf := (forget_samePosition c durable t.sequence (delete t.sequence)).mode
    split
    · rename_i he
      rwa [he] at hf
    · rename_i he
      rw [he] at hf
      exact (ih _ _).trans hf

theorem getNextRange_mode (store : ProgressStore) (env : Surroundings) (c : BackwardCursor) (durable : Progress) :
    (c.getNextRange store env durable).1.indexMode = c.indexMode := by
  obtain ⟨-, ⟨h1, -⟩ | ⟨c', hsame, h1, -⟩⟩ := getNextRange_cases store env c durable
  · rw [h1, skipIndexed_mode]
  · have hc' : c'.indexMode = c.indexMode := hsame.mode.trans (skipIndexed_mode _ _ _ _ _)
    rw [h1]
    rcases nextRange_cases store env c' (BackwardCursor.skipIndexed env.view env.delete env.limit c durable).2.1 with
      ⟨n1, -⟩ | ⟨n1, -⟩
    · rw [n1, (applyPersistedProgress_frame c').2, hc']
    · rw [n1, (persistProgress_samePosition _ _ _ _ _).mode, (applyPersistedProgress_frame c').2, hc']

theorem step_located {chain : ℕ → ℕ} (hchain : Monotone chain) {r : BackwardRun} (hs : Spanned r.Seen r.count r.cursor)
    (h : r.Located chain) {op : BackwardOp} (hop : op.Honest chain r) : (r.step op).Located chain := by
  cases op with
  | next env =>
    obtain ⟨hloc, hissued⟩ := h.cursor.getNextRange hchain r.store hop
    exact ⟨(getNextRange_mode _ _ _ _).trans h.mode, hloc, hissued⟩
  | update logs range now persist =>
    obtain ⟨hissued, hlogs⟩ := hop
    have hrange : ∀ t, r.cursor.currentIndexingSnapshot = some t → t.atBlock = range.2 := by
      intro t ht
      obtain ⟨t', ht', hb⟩ := h.issued range hissued h.mode
      rw [ht] at ht'
      cases ht'
      exact hb.symm
    obtain ⟨c', hl, hm, hmode, hr⟩ := update_cases (fun t ht => (hs.below t ht).trans_le hs.upper) r.store now persist logs
      range r.durable
    have hc' := h.cursor.lowered hchain hs.below hrange hlogs hl hm
    have hmode' := hmode.trans h.mode
    rcases hr with ⟨ok, hr⟩ | hr | hr
    · refine ⟨?_, ?_, nofun⟩ <;> simp only [BackwardRun.step, hr]
      · exact hmode'
      · exact hc'
    · refine ⟨?_, ?_, nofun⟩ <;> simp only [BackwardRun.step, hr]
      · exact (persistProgress_samePosition _ _ _ _ _).mode.trans hmode'
      · exact hc'.persistProgress r.store persist false
    · refine ⟨?_, ?_, nofun⟩ <;> simp only [BackwardRun.step, hr]
      · exact (persistRewind_samePosition _ _ _).mode.trans hmode'
      · exact hc'.persistRewind persist
  | restart chunkSize lowest count tip =>
    refine ⟨h.mode, ?_, nofun⟩
    simp only [BackwardRun.step, h.mode]
    exact cursorFrom_located h.cursor.durable chunkSize lowest hop

theorem run_located {chain : ℕ → ℕ} (hchain : Monotone chain) {r : BackwardRun} (hs : Spanned r.Seen r.count r.cursor)
    (h : r.Located chain) {ops : List BackwardOp} (hops : r.Honest chain ops) : (r.run ops).Located chain := by
  induction ops generalizing r with
  | nil => exact h
  | cons op ops ih => exact ih (step_spanned hs op) (step_located hchain hs h hops.1) hops.2

/-- **No log is skipped across restarts.** In every run with restarts, in both modes, every sequence above the current one
and below the count was found in the store or came in an update. In block mode, when every fetch returned exactly the
chain's logs of its range, the log of the current sequence is at or below the current block. -/
theorem backward_never_skips (store : ProgressStore) (mode : IndexMode) (chunkSize : ℕ) (lowest : ℤ) (count : Fin (2 ^ 32))
    (tip : ℕ) (ops : List BackwardOp) :
    let r := BackwardRun.start store mode chunkSize lowest count tip
    (∀ s < (r.run ops).count, (∀ t, (r.run ops).cursor.currentIndexingSnapshot = some t → t.sequence < s) →
      (r.run ops).Seen s) ∧
    ∀ chain : ℕ → ℕ, Monotone chain → mode = .Block → (∀ s < (count : ℕ), chain s ≤ tip) → r.Honest chain ops →
      ∀ t, (r.run ops).cursor.currentIndexingSnapshot = some t → chain t.sequence ≤ t.atBlock := by
  intro r
  have hs : Spanned r.Seen r.count r.cursor := new_spanned _ _ _ (Nat.le_of_lt_succ count.2) _ _
  constructor
  · exact (run_spanned hs ops).current
  · rintro chain hchain rfl htip hops
    have hempty : Sound chain fun _ => none := by
      intro s b hb
      cases hb
    have hstart : r.Located chain := ⟨rfl, cursorFrom_located hempty chunkSize lowest htip, nofun⟩
    exact (run_located hchain hs hstart hops).cursor.current

/-- logs at blocks 10 and 20: an empty range is searched and persisted, and the search goes on below it after a restart -/
theorem backward_never_skips_two :
    let chain : ℕ → ℕ := fun s => 10 * (s + 1)
    let env : Surroundings := ⟨⟨fun _ => .ok false, fun _ => .ok none⟩, 2, fun _ => .done, .error (), 0, .done⟩
    let r := BackwardRun.start .rocks .Block 5 0 2 29
    let ops : List BackwardOp := [.next env, .update [] (24, 29) 0 .done, .restart 5 0 2 29, .next env,
      .update [⟨some 1, 20⟩] (18, 23) 0 .done]
    r.Honest chain ops ∧ (r.run ops).cursor.currentIndexingSnapshot = some ⟨0, 17⟩ ∧ (r.run ops).Seen 1 ∧ chain 0 ≤ 17 := by
  intro chain env r ops
  have hchain : Monotone chain := fun a b hab => Nat.mul_le_mul_left 10 (Nat.succ_le_succ hab)
  have htip : ∀ s < 2, chain s ≤ 29 := by decide
  have hview : BackwardOp.Honest chain r (.next env) := nofun
  have hempty : FetchedExactly chain 2 (24, 29) [] := by
    refine ⟨2, le_rfl, ?_⟩
    intro x
    constructor
    · nofun
    · rintro ⟨s, hs, h1, h2, rfl⟩
      simp only [chain] at h1
      omega
  have hone : FetchedExactly chain 2 (18, 23) [⟨some 1, 20⟩] := by
    refine ⟨2, le_rfl, ?_⟩
    intro x
    rw [List.mem_singleton]
    constructor
    · rintro rfl
      exact ⟨1, by decide, by decide, by decide, rfl⟩
    · rintro ⟨s, hs, h1, h2, rfl⟩
      simp only [chain] at h1
      obtain rfl : s = 1 := by omega
      rfl
  have hops : r.Honest chain ops :=
    ⟨hview, ⟨by decide +kernel, hempty⟩, htip, hview, ⟨by decide +kernel, hone⟩, trivial⟩
  have hend : (r.run ops).cursor.currentIndexingSnapshot = some ⟨0, 17⟩ := by decide +kernel
  obtain ⟨hseen, hloc⟩ := backward_never_skips .rocks .Block 5 0 2 29 ops
  refine ⟨hops, hend, ?_, hloc chain hchain rfl htip hops _ hend⟩
  apply hseen 1 (by decide +kernel)
  intro t ht
  rw [hend] at ht
  cases ht
  exact Nat.one_pos

end Hyperlane.Cursor
