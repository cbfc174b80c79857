/-
The forward sequence cursor (hyperlane-base/src/contract_sync/cursors/sequence_aware/forward.rs).

The cursor moves its current sequence forward in two ways: past sequences it finds in the store, and past the logs of a
gap-free update. Every other outcome leaves it or rewinds it to just after the last indexed snapshot. A run is any list of
calls, with arbitrary store contents, on-chain counts and tips, log vectors and ranges; a call that returns an error
leaves the cursor as the source leaves it, since the indexing loop only logs the error and goes on.

- `Covered`: everything from the first sequence up to the current one was found in the store or came in an update.
- `run_covered`: this holds in every state of every run, in both modes.
- `Coherent`: the current sequence is the one after the last indexed sequence.
- `run_coherent`: this holds in every run without a half-done update. In block mode the current snapshot is moved before
  the block number of the highest log is converted to 32 bits, so a conversion error leaves the cursor with the current
  snapshot moved and the last indexed one not. In sequence mode the conversion comes first.
-/
import Hyperlane.Cursor.Snapshot

namespace Hyperlane.Cursor

/-! ## Model -/

structure ForwardCursor where
  chunkSize : ℕ
  lastIndexedSnapshot : LastIndexedSnapshot
  currentIndexingSnapshot : TargetSnapshot
  targetSnapshot : Option TargetSnapshot
  indexMode : IndexMode
deriving DecidableEq

namespace ForwardCursor

def new (chunkSize nextSequence startBlock : ℕ) (indexMode : IndexMode) : ForwardCursor where
  chunkSize := chunkSize
  lastIndexedSnapshot := ⟨if 0 < nextSequence then some (nextSequence - 1) else none, startBlock⟩
  currentIndexingSnapshot := ⟨nextSequence, startBlock⟩
  targetSnapshot := none
  indexMode := indexMode

/-- one round of `skip_indexed` past a stored sequence -/
def passed (c : ForwardCursor) (block : ℕ) : ForwardCursor :=
  let last : LastIndexedSnapshot := ⟨some c.currentIndexingSnapshot.sequence, block⟩
  { c with lastIndexedSnapshot := last, currentIndexingSnapshot := last.nextTarget }

/-- `skip_indexed` for at most `limit` rounds: the cursor, the sequences it passed, and how the call ended (`none` when
the limit ended it, that is, the call has not returned) -/
def skipIndexed (view : StoreView) : ℕ → ForwardCursor → ForwardCursor × List ℕ × Option (Except Unit Unit)
  | 0, c => (c, [], none)
  | limit + 1, c =>
    match getSequenceLogBlockNumber view c.currentIndexingSnapshot.sequence with
    | .error _ => (c, [], some (.error ()))
    | .ok none => (c, [], some (.ok ()))
    | .ok (some block) =>
      let (c', rest, result) := skipIndexed view limit (c.passed block)
      (c', c.currentIndexingSnapshot.sequence :: rest, result)

/-- `get_next_block_range` -/
def getNextBlockRange (c : ForwardCursor) (tip : ℕ) : Option (ℕ × ℕ) :=
  if tip < c.currentIndexingSnapshot.atBlock then none
  else some (c.currentIndexingSnapshot.atBlock, min (min (c.currentIndexingSnapshot.atBlock + c.chunkSize) U32_MAX) tip)

/-- `get_next_sequence_range` -/
def getNextSequenceRange (c : ForwardCursor) (currentSequence targetSequence : ℕ) : ℕ × ℕ :=
  (currentSequence, min targetSequence (min (currentSequence + c.chunkSize) U32_MAX))

/-- the part of `get_next_range` after the skip, for an on-chain count and tip -/
def nextRange (c : ForwardCursor) (count tip : ℕ) : ForwardCursor × Option (ℕ × ℕ) :=
  let current := c.currentIndexingSnapshot.sequence
  if current = count then
    ({ c with currentIndexingSnapshot := { c.currentIndexingSnapshot with atBlock := tip } }, none)
  else if current < count then
    let c := { c with targetSnapshot := some ⟨count - 1, tip⟩ }
    match c.indexMode with
    | .Block => (c, c.getNextBlockRange tip)
    | .Sequence => (c, some (c.getNextSequenceRange current (count - 1)))
  else (c, none)

/-- `get_next_range`, with the answer of `latest_sequence_count_and_tip` -/
def getNextRange (view : StoreView) (limit : ℕ) (latest : Except Unit (Option ℕ × ℕ)) (c : ForwardCursor) :
    ForwardCursor × List ℕ × Option (Except Unit (Option (ℕ × ℕ))) :=
  match skipIndexed view limit c with
  | (c, passed, none) => (c, passed, none)
  | (c, passed, some (.error _)) => (c, passed, some (.error ()))
  | (c, passed, some (.ok _)) =>
    match latest with
    | .error _ => (c, passed, some (.error ()))
    | .ok (none, _) => (c, passed, some (.ok none))
    | .ok (some count, tip) =>
      let (c, range) := c.nextRange count tip
      (c, passed, some (.ok range))

/-- `rewind` -/
def rewind (c : ForwardCursor) : ForwardCursor :=
  { c with currentIndexingSnapshot := c.lastIndexedSnapshot.nextTarget }

/-- the window an update in block mode must fill: `current ..< current + len` -/
def expectedBlock (c : ForwardCursor) (len : ℕ) : Finset ℕ :=
  Finset.Ico c.currentIndexingSnapshot.sequence (min (c.currentIndexingSnapshot.sequence + len % 2 ^ 32) U32_MAX)

/-- `update_block_range`: the cursor and whether the call returned `Ok` -/
def updateBlockRange (c : ForwardCursor) (logs : List (ℕ × ℕ)) (range : ℕ × ℕ) : ForwardCursor × Bool :=
  if allSequences logs ≠ c.expectedBlock logs.length then (c.rewind, true)
  else
    let moved : ForwardCursor := { c with currentIndexingSnapshot :=
      ⟨min (c.currentIndexingSnapshot.sequence + logs.length % 2 ^ 32) U32_MAX, range.2⟩ }
    let finish (c : ForwardCursor) : ForwardCursor × Bool :=
      match c.targetSnapshot with
      | none => (c, true)
      | some target =>
        if (c.lastIndexedSnapshot.sequence.map fun s => decide (s < target.sequence)).getD true ∧ target.atBlock ≤ range.2
        then (c.rewind, true) else (c, true)
    match logs.getLast? with
    | none => finish moved
    | some (sequence, block) =>
      -- the conversion of the block number may fail after the current snapshot has moved
      match tryIntoU32 block with
      | .error _ => (moved, false)
      | .ok b => finish { moved with lastIndexedSnapshot := ⟨some sequence, b⟩ }

/-- `update_sequence_range` -/
def updateSequenceRange (c : ForwardCursor) (logs : List (ℕ × ℕ)) (range : ℕ × ℕ) : ForwardCursor × Bool :=
  if range.1 ≠ c.currentIndexingSnapshot.sequence then (c.rewind, true)
  else if allSequences logs ≠ Finset.Icc range.1 range.2 then (c.rewind, true)
  else
    match logs.getLast? with
    | none => (c, true)
    | some (sequence, block) =>
      match tryIntoU32 block with
      | .error _ => (c, false)
      | .ok b =>
        let last : LastIndexedSnapshot := ⟨some sequence, b⟩
        ({ c with lastIndexedSnapshot := last, currentIndexingSnapshot := last.nextTarget }, true)

/-- `update` -/
def update (logs : List Log) (range : ℕ × ℕ) (c : ForwardCursor) : ForwardCursor × Bool :=
  match prepare (fun s => decide (c.currentIndexingSnapshot.sequence ≤ s)) logs with
  | .error _ => (c, false)
  | .ok ls =>
    match c.indexMode with
    | .Block => c.updateBlockRange ls range
    | .Sequence => c.updateSequenceRange ls range

end ForwardCursor

/-! ## Runs -/

/-- one call with everything it observes -/
inductive ForwardOp where
  | next (view : StoreView) (limit : ℕ) (latest : Except Unit (Option ℕ × ℕ))
  | update (logs : List Log) (range : ℕ × ℕ)

/-- the cursor, the sequences `skip_indexed` found in the store, and the logs of all updates -/
structure ForwardRun where
  cursor : ForwardCursor
  inStore : List ℕ
  received : List Log

namespace ForwardRun

def start (cursor : ForwardCursor) : ForwardRun := ⟨cursor, [], []⟩

def step (r : ForwardRun) : ForwardOp → ForwardRun
  | .next view limit latest =>
    let (c, passed, _) := r.cursor.getNextRange view limit latest
    ⟨c, r.inStore ++ passed, r.received⟩
  | .update logs range => ⟨(r.cursor.update logs range).1, r.inStore, r.received ++ logs⟩

def run (r : ForwardRun) (ops : List ForwardOp) : ForwardRun := ops.foldl step r

end ForwardRun

/-! ## What one update does -/

/-- an update in block mode whose logs from the current sequence on have no gap and end in a log with a block number of
more than 32 bits -/
structure HalfDone (c : ForwardCursor) (logs : List Log) : Prop where
  block : c.indexMode = .Block
  sequenced : ∀ x ∈ logs, x.sequence ≠ none
  gapFree : ∃ top, c.currentIndexingSnapshot.sequence ≤ top ∧ top < U32_MAX ∧
    (∀ s, c.currentIndexingSnapshot.sequence ≤ s → ((∃ b, (⟨some s, b⟩ : Log) ∈ logs) ↔ s ≤ top)) ∧
    ∃ x, logs.find? (fun y => y.sequence = some top) = some x ∧ 2 ^ 32 ≤ x.blockNumber

/-- the ways an update leaves the two sequences of the cursor -/
inductive Updated (c : ForwardCursor) (logs : List Log) (c' : ForwardCursor) : Prop
  | kept (last : c'.lastIndexedSnapshot.sequence = c.lastIndexedSnapshot.sequence)
      (current : c'.currentIndexingSnapshot.sequence = c.currentIndexingSnapshot.sequence)
  | rewound (last : c'.lastIndexedSnapshot.sequence = c.lastIndexedSnapshot.sequence)
      (current : c'.currentIndexingSnapshot.sequence = c.lastIndexedSnapshot.nextTarget.sequence)
  | filled (top : ℕ)
      (window : ∀ s, c.currentIndexingSnapshot.sequence ≤ s → s ≤ top → ∃ b, (⟨some s, b⟩ : Log) ∈ logs)
      (last : c'.lastIndexedSnapshot.sequence = some top)
      (current : c'.currentIndexingSnapshot.sequence = min (top + 1) U32_MAX)
  | halfDone (half : HalfDone c logs) (top : ℕ) (upper : top < U32_MAX)
      (window : ∀ s, c.currentIndexingSnapshot.sequence ≤ s → s ≤ top → ∃ b, (⟨some s, b⟩ : Log) ∈ logs)
      (last : c'.lastIndexedSnapshot.sequence = c.lastIndexedSnapshot.sequence)
      (current : c'.currentIndexingSnapshot.sequence = top + 1)

section Update

variable {c : ForwardCursor} {logs : List Log} {ls : List (ℕ × ℕ)}

/-- a vector that fills the expected window is not cut by the 32-bit length or the saturation -/
theorem expectedBlock_window {keep : ℕ → Bool} (h : Prepared keep logs ls) (hc : c.currentIndexingSnapshot.sequence ≤ U32_MAX)
    (hw : allSequences ls = c.expectedBlock ls.length) :
    ls.length % 2 ^ 32 = ls.length ∧ c.currentIndexingSnapshot.sequence + ls.length ≤ U32_MAX := by
  have hcard := h.card
  rw [hw, ForwardCursor.expectedBlock, Nat.card_Ico] at hcard
  have hmod := Nat.mod_le ls.length (2 ^ 32)
  unfold U32_MAX at *
  omega

/-- a gap-free vector with a last log whose block number does not fit -/
theorem HalfDone.of_window (hm : c.indexMode = .Block)
    (hls : prepare (fun s => decide (c.currentIndexingSnapshot.sequence ≤ s)) logs = .ok ls) {stop top block : ℕ}
    (hw : allSequences ls = Finset.Ico c.currentIndexingSnapshot.sequence stop) (htop : top + 1 = stop)
    (hlast : ls.getLast? = some (top, block)) (hmax : top < U32_MAX) (hbig : 2 ^ 32 ≤ block) : HalfDone c logs := by
  have hp := prepare_spec hls
  have hmem := List.mem_of_getLast? hlast
  have hlow : c.currentIndexingSnapshot.sequence ≤ top := by simpa using hp.kept _ hmem
  refine ⟨hm, prepare_sequenced hls, top, hlow, hmax, ?_, _, hp.first _ hmem, hbig⟩
  intro s hs
  constructor
  · rintro ⟨b, hsb⟩
    have := hp.complete s b hsb (by simpa using hs)
    rw [hw, Finset.mem_Ico] at this
    omega
  · intro hst
    apply hp.mem_logs
    rw [hw, Finset.mem_Ico]
    omega

theorem rewind_updated (c : ForwardCursor) (logs : List Log) : Updated c logs c.rewind := .rewound rfl rfl

theorem updateBlockRange_updated (hm : c.indexMode = .Block) (hc : c.currentIndexingSnapshot.sequence ≤ U32_MAX)
    (hls : prepare (fun s => decide (c.currentIndexingSnapshot.sequence ≤ s)) logs = .ok ls) (range : ℕ × ℕ) :
    Updated c logs (c.updateBlockRange ls range).1 := by
  have hp := prepare_spec hls
  unfold ForwardCursor.updateBlockRange
  split
  · exact rewind_updated c logs
  rename_i hw
  rw [not_not] at hw
  obtain ⟨hmod, hmax⟩ := expectedBlock_window hp hc hw
  rw [ForwardCursor.expectedBlock, hmod, min_eq_left hmax] at hw
  rw [hmod, min_eq_left hmax]
  dsimp only
  cases hlast : ls.getLast? with
  | none =>
    -- no log: only the block of the current snapshot moves, unless the target block has been passed
    obtain rfl : ls = [] := List.getLast?_eq_none_iff.1 hlast
    dsimp only
    split
    · exact .kept rfl rfl
    · split
      · exact .rewound rfl rfl
      · exact .kept rfl rfl
  | some x =>
    obtain ⟨top, block⟩ := x
    have htop := hp.last_window hw hlast
    have hmem := List.mem_of_getLast? hlast
    have hlow : c.currentIndexingSnapshot.sequence ≤ top := by simpa using hp.kept _ hmem
    have hwin : ∀ s, c.currentIndexingSnapshot.sequence ≤ s → s ≤ top → ∃ b, (⟨some s, b⟩ : Log) ∈ logs := by
      intro s h1 h2
      apply hp.mem_logs
      rw [hw, Finset.mem_Ico]
      omega
    rw [← htop]
    dsimp only at htop ⊢
    rw [← htop] at hmax
    cases hb : tryIntoU32 block with
    | error e => exact .halfDone (.of_window hm hls hw htop hlast hmax (tryIntoU32_error hb)) top hmax hwin rfl rfl
    | ok b =>
      have hcur : top + 1 = min (top + 1) U32_MAX := (min_eq_left hmax).symm
      dsimp only
      split
      · exact .filled top hwin rfl hcur
      · split
        · exact .filled top hwin rfl rfl
        · exact .filled top hwin rfl hcur

theorem updateSequenceRange_updated
    (hls : prepare (fun s => decide (c.currentIndexingSnapshot.sequence ≤ s)) logs = .ok ls) (range : ℕ × ℕ) :
    Updated c logs (c.updateSequenceRange ls range).1 := by
  have hp := prepare_spec hls
  unfold ForwardCursor.updateSequenceRange
  split
  · exact rewind_updated c logs
  rename_i hstart
  rw [not_not] at hstart
  split
  · exact rewind_updated c logs
  rename_i hw
  rw [not_not, hstart] at hw
  cases hlast : ls.getLast? with
  | none => exact .kept rfl rfl
  | some x =>
    obtain ⟨top, block⟩ := x
    dsimp only
    have hmem := List.mem_of_getLast? hlast
    have hlow : c.currentIndexingSnapshot.sequence ≤ top := by simpa using hp.kept _ hmem
    cases tryIntoU32 block with
    | error e => exact .kept rfl rfl
    | ok b =>
      refine .filled top ?_ rfl rfl
      intro s h1 h2
      apply hp.mem_logs
      have htop := mem_allSequences hmem
      rw [hw, Finset.mem_Icc] at htop ⊢
      exact ⟨h1, h2.trans htop.2⟩

theorem update_updated (hc : c.currentIndexingSnapshot.sequence ≤ U32_MAX) (range : ℕ × ℕ) :
    Updated c logs (c.update logs range).1 := by
  unfold ForwardCursor.update
  split
  · exact .kept rfl rfl
  · rename_i ls hls
    split
    · rename_i hm
      exact updateBlockRange_updated hm hc hls range
    · exact updateSequenceRange_updated hls range

/-- a half-done update fails, and moves the current sequence and not the last indexed one -/
theorem HalfDone.update (h : HalfDone c logs) (range : ℕ × ℕ) :
    (c.update logs range).2 = false ∧ (c.update logs range).1.lastIndexedSnapshot = c.lastIndexedSnapshot ∧
    c.currentIndexingSnapshot.sequence < (c.update logs range).1.currentIndexingSnapshot.sequence := by
  obtain ⟨top, hlow, hmax, hwin, y, hy, hbig⟩ := h.gapFree
  obtain ⟨ls, hls⟩ := prepare_ok (fun s => decide (c.currentIndexingSnapshot.sequence ≤ s)) h.sequenced
  have hp := prepare_spec hls
  have hw : allSequences ls = Finset.Ico c.currentIndexingSnapshot.sequence (top + 1) := by
    ext s
    rw [Finset.mem_Ico]
    constructor
    · intro hs
      obtain ⟨b, hb⟩ := hp.mem_logs hs
      rw [allSequences, List.mem_toFinset] at hs
      obtain ⟨x, hx, rfl⟩ := List.mem_map.1 hs
      have hge : c.currentIndexingSnapshot.sequence ≤ x.1 := by simpa using hp.kept x hx
      exact ⟨hge, Nat.lt_succ_of_le ((hwin _ hge).1 ⟨b, hb⟩)⟩
    · rintro ⟨h1, h2⟩
      obtain ⟨b, hb⟩ := (hwin s h1).2 (Nat.le_of_lt_succ h2)
      exact hp.complete s b hb (by simpa using h1)
  have hlen : ls.length = top + 1 - c.currentIndexingSnapshot.sequence := by rw [← hp.card, hw, Nat.card_Ico]
  have hmod : ls.length % 2 ^ 32 = ls.length := by
    apply Nat.mod_eq_of_lt
    unfold U32_MAX at hmax
    omega
  have hend : min (c.currentIndexingSnapshot.sequence + ls.length % 2 ^ 32) U32_MAX = top + 1 := by
    rw [hmod, min_eq_left] <;> omega
  have hne : ls ≠ [] := by
    rintro rfl
    simp only [List.length_nil] at hlen
    omega
  obtain ⟨x, hx⟩ : ∃ x, ls.getLast? = some x := ⟨_, List.getLast?_eq_some_getLast hne⟩
  have htop : x.1 = top := Nat.succ_injective (hp.last_window hw hx)
  have hblock : x.2 = y.blockNumber := by
    have hfirst := hp.first x (List.mem_of_getLast? hx)
    rw [htop, hy] at hfirst
    cases hfirst
    rfl
  have herr : tryIntoU32 x.2 = .error () := by
    rw [tryIntoU32, if_neg]
    omega
  have hexp : allSequences ls = c.expectedBlock ls.length := by rw [hw, ForwardCursor.expectedBlock, hend]
  unfold ForwardCursor.update
  rw [hls]
  simp only [h.block, ForwardCursor.updateBlockRange, hexp, ne_eq, not_true_eq_false, if_false, hx, herr, hend]
  exact ⟨trivial, trivial, Nat.lt_succ_of_le hlow⟩

end Update

/-! ## No sequence is passed unseen -/

/-- everything from `first` up to the current sequence, and up to the last indexed one, is seen -/
structure Covered (seen : ℕ → Prop) (first : ℕ) (c : ForwardCursor) : Prop where
  bound : c.currentIndexingSnapshot.sequence ≤ U32_MAX
  current : ∀ s, first ≤ s → s < c.currentIndexingSnapshot.sequence → seen s
  last : ∀ l, c.lastIndexedSnapshot.sequence = some l → ∀ s, first ≤ s → s ≤ l → seen s

theorem Covered.mono {seen seen' : ℕ → Prop} {first : ℕ} {c : ForwardCursor} (h : Covered seen first c)
    (hs : ∀ s, seen s → seen' s) : Covered seen' first c :=
  ⟨h.bound, fun s h1 h2 => hs s (h.current s h1 h2), fun l hl s h1 h2 => hs s (h.last l hl s h1 h2)⟩

theorem nextTarget_le (l : LastIndexedSnapshot) : l.nextTarget.sequence ≤ U32_MAX := by
  obtain ⟨_ | s, b⟩ := l
  · exact Nat.zero_le _
  · exact min_le_right _ _

theorem lt_nextTarget {l : LastIndexedSnapshot} {s : ℕ} (h : s < l.nextTarget.sequence) :
    ∃ t, l.sequence = some t ∧ s ≤ t := by
  obtain ⟨_ | t, b⟩ := l
  · exact absurd h (Nat.not_lt_zero s)
  · exact ⟨t, rfl, Nat.le_of_lt_succ (lt_of_lt_of_le h (min_le_left _ _))⟩

section Covering

variable {seen : ℕ → Prop} {first : ℕ} {c : ForwardCursor}

theorem new_covered (chunkSize nextSequence startBlock : ℕ) (mode : IndexMode) (h : nextSequence ≤ U32_MAX) :
    Covered seen nextSequence (ForwardCursor.new chunkSize nextSequence startBlock mode) := by
  refine ⟨h, ?_, ?_⟩
  · intro s h1 h2
    exact absurd h2 (not_lt.2 h1)
  · intro l hl s h1 h2
    simp only [ForwardCursor.new] at hl
    split at hl
    · cases hl
      omega
    · cases hl

theorem Covered.passed (h : Covered seen first c) (hc : seen c.currentIndexingSnapshot.sequence) (block : ℕ) :
    Covered seen first (c.passed block) := by
  have hlast : ∀ s, first ≤ s → s ≤ c.currentIndexingSnapshot.sequence → seen s := by
    intro s h1 h2
    rcases h2.lt_or_eq with h2 | rfl
    · exact h.current s h1 h2
    · exact hc
  refine ⟨nextTarget_le _, ?_, ?_⟩
  · intro s h1 h2
    obtain ⟨t, ht, hst⟩ := lt_nextTarget h2
    cases ht
    exact hlast s h1 hst
  · intro l hl
    cases hl
    exact hlast

theorem Covered.skipIndexed (view : StoreView) (limit : ℕ) (h : Covered seen first c)
    (hs : ∀ s ∈ (ForwardCursor.skipIndexed view limit c).2.1, seen s) :
    Covered seen first (ForwardCursor.skipIndexed view limit c).1 := by
  -- one round of the skip at a time; each round's sequence is among the passed ones
  induction limit generalizing c with
  | zero => exact h
  | succ limit ih =>
    unfold ForwardCursor.skipIndexed at hs ⊢
    split at hs
    · exact h
    · exact h
    · rename_i block hblock
      exact ih (h.passed (hs _ List.mem_cons_self) block) fun s hm => hs s (List.mem_cons_of_mem _ hm)

theorem nextRange_sequences (c : ForwardCursor) (count tip : ℕ) :
    (c.nextRange count tip).1.lastIndexedSnapshot = c.lastIndexedSnapshot ∧
    (c.nextRange count tip).1.currentIndexingSnapshot.sequence = c.currentIndexingSnapshot.sequence := by
  unfold ForwardCursor.nextRange
  dsimp only
  split
  · exact ⟨rfl, rfl⟩
  · split
    · split <;> exact ⟨rfl, rfl⟩
    · exact ⟨rfl, rfl⟩

/-- `get_next_range` moves the sequences of the cursor as its skip does -/
theorem getNextRange_sequences (view : StoreView) (limit : ℕ) (latest : Except Unit (Option ℕ × ℕ)) (c : ForwardCursor) :
    let r := c.getNextRange view limit latest
    let k := ForwardCursor.skipIndexed view limit c
    r.1.lastIndexedSnapshot = k.1.lastIndexedSnapshot ∧
    r.1.currentIndexingSnapshot.sequence = k.1.currentIndexingSnapshot.sequence ∧ r.2.1 = k.2.1 := by
  dsimp only [ForwardCursor.getNextRange]
  obtain ⟨c', passed, result⟩ := ForwardCursor.skipIndexed view limit c
  rcases result with _ | _ | _
  · exact ⟨rfl, rfl, rfl⟩
  · exact ⟨rfl, rfl, rfl⟩
  · rcases latest with _ | ⟨_ | count, tip⟩
    · exact ⟨rfl, rfl, rfl⟩
    · exact ⟨rfl, rfl, rfl⟩
    · obtain ⟨h1, h2⟩ := nextRange_sequences c' count tip
      exact ⟨h1, h2, rfl⟩

theorem Covered.update {logs : List Log} (h : Covered seen first c) (hs : ∀ s b, (⟨some s, b⟩ : Log) ∈ logs → seen s)
    (range : ℕ × ℕ) : Covered seen first (c.update logs range).1 := by
  have hupto : ∀ top, (∀ s, c.currentIndexingSnapshot.sequence ≤ s → s ≤ top → ∃ b, (⟨some s, b⟩ : Log) ∈ logs) →
      ∀ s, first ≤ s → s ≤ top → seen s := by
    intro top hw s h1 h2
    rcases lt_or_ge s c.currentIndexingSnapshot.sequence with hlt | hge
    · exact h.current s h1 hlt
    · obtain ⟨b, hb⟩ := hw s hge h2
      exact hs s b hb
  cases update_updated h.bound range with
  | kept last current => exact ⟨current ▸ h.bound, current ▸ h.current, last ▸ h.last⟩
  | rewound last current =>
    refine ⟨current ▸ nextTarget_le _, ?_, last ▸ h.last⟩
    intro s h1 h2
    rw [current] at h2
    obtain ⟨t, ht, hst⟩ := lt_nextTarget h2
    exact h.last t ht s h1 hst
  | filled top window last current =>
    refine ⟨current ▸ min_le_right _ _, ?_, ?_⟩
    · intro s h1 h2
      apply hupto top window s h1
      omega
    · intro l hl
      rw [last] at hl
      cases hl
      exact hupto top window
  | halfDone half top upper window last current =>
    refine ⟨current ▸ upper, ?_, last ▸ h.last⟩
    intro s h1 h2
    apply hupto top window s h1
    omega

end Covering

/-- `s` was found in the store or came in an update -/
def ForwardRun.Seen (r : ForwardRun) (s : ℕ) : Prop := s ∈ r.inStore ∨ ∃ b, (⟨some s, b⟩ : Log) ∈ r.received

theorem step_covered {first : ℕ} {r : ForwardRun} (h : Covered r.Seen first r.cursor) (op : ForwardOp) :
    Covered (r.step op).Seen first (r.step op).cursor := by
  cases op with
  | next view limit latest =>
    obtain ⟨hlast, hcur, hpassed⟩ := getNextRange_sequences view limit latest r.cursor
    have hseen : Covered (r.step (.next view limit latest)).Seen first
        (ForwardCursor.skipIndexed view limit r.cursor).1 := by
      refine (h.mono ?_).skipIndexed view limit ?_
      · intro s hs
        exact hs.imp_left (List.mem_append_left _)
      · intro s hs
        rw [← hpassed] at hs
        exact Or.inl (List.mem_append_right _ hs)
    exact ⟨hcur ▸ hseen.bound, hcur ▸ hseen.current, hlast ▸ hseen.last⟩
  | update logs range =>
    refine (h.mono ?_).update ?_ range
    · intro s hs
      exact hs.imp_right fun ⟨b, hb⟩ => ⟨b, List.mem_append_left _ hb⟩
    · intro s b hb
      exact Or.inr ⟨b, List.mem_append_right _ hb⟩

theorem run_covered {first : ℕ} {r : ForwardRun} (h : Covered r.Seen first r.cursor) (ops : List ForwardOp) :
    Covered (r.run ops).Seen first (r.run ops).cursor := by
  induction ops generalizing r with
  | nil => exact h
  | cons op ops ih => exact ih (step_covered h op)

/-! ## The current sequence follows the last indexed one -/

/-- the current sequence is the one after the last indexed sequence, or the first one when nothing is indexed -/
def Follows (first : ℕ) (c : ForwardCursor) : Prop :=
  (c.lastIndexedSnapshot.sequence = none → c.currentIndexingSnapshot.sequence = first) ∧
  ∀ l, c.lastIndexedSnapshot.sequence = some l → l < U32_MAX → c.currentIndexingSnapshot.sequence = l + 1

/-- the same with the saturation at `U32_MAX`, as a rewind leaves the cursor -/
structure Coherent (first : ℕ) (c : ForwardCursor) : Prop where
  current : c.currentIndexingSnapshot.sequence = c.lastIndexedSnapshot.nextTarget.sequence
  initial : c.lastIndexedSnapshot.sequence = none → first = 0

/-- the call is not a half-done update -/
def ForwardOp.Whole (c : ForwardCursor) : ForwardOp → Prop
  | .next _ _ _ => True
  | .update logs _ => ¬ HalfDone c logs

/-- no call of the run is a half-done update -/
def ForwardRun.Whole (r : ForwardRun) : List ForwardOp → Prop
  | [] => True
  | op :: ops => op.Whole r.cursor ∧ (r.step op).Whole ops

section Following

variable {first : ℕ} {c : ForwardCursor}

theorem Coherent.bound (h : Coherent first c) : c.currentIndexingSnapshot.sequence ≤ U32_MAX :=
  h.current ▸ nextTarget_le _

theorem Coherent.follows (h : Coherent first c) : Follows first c := by
  have hcur := h.current
  unfold LastIndexedSnapshot.nextTarget at hcur
  constructor
  · intro hl
    rw [hl] at hcur
    rw [hcur, h.initial hl]
    rfl
  · intro l hl hmax
    rw [hl] at hcur
    exact hcur.trans (min_eq_left hmax)

theorem new_coherent (chunkSize nextSequence startBlock : ℕ) (mode : IndexMode) (h : nextSequence ≤ U32_MAX) :
    Coherent nextSequence (ForwardCursor.new chunkSize nextSequence startBlock mode) := by
  rcases Nat.eq_zero_or_pos nextSequence with rfl | hpos
  · exact ⟨rfl, fun _ => rfl⟩
  · refine ⟨?_, ?_⟩
    · simp only [ForwardCursor.new, LastIndexedSnapshot.nextTarget, if_pos hpos, Option.map_some, Option.getD_some]
      omega
    · simp [ForwardCursor.new, hpos]

theorem Coherent.skipIndexed (view : StoreView) (limit : ℕ) (h : Coherent first c) :
    Coherent first (ForwardCursor.skipIndexed view limit c).1 := by
  induction limit generalizing c with
  | zero => exact h
  | succ limit ih =>
    unfold ForwardCursor.skipIndexed
    split
    · exact h
    · exact h
    · apply ih
      exact ⟨rfl, nofun⟩

theorem Coherent.update {logs : List Log} (h : Coherent first c) (hw : ¬ HalfDone c logs) (range : ℕ × ℕ) :
    Coherent first (c.update logs range).1 := by
  have hnext : ∀ c' : ForwardCursor, c'.lastIndexedSnapshot.sequence = c.lastIndexedSnapshot.sequence →
      c'.lastIndexedSnapshot.nextTarget.sequence = c.lastIndexedSnapshot.nextTarget.sequence := by
    intro c' hl
    simp only [LastIndexedSnapshot.nextTarget, hl]
  cases update_updated h.bound range with
  | kept last current => exact ⟨by rw [current, hnext _ last, h.current], last ▸ h.initial⟩
  | rewound last current => exact ⟨by rw [current, hnext _ last], last ▸ h.initial⟩
  | filled top window last current =>
    refine ⟨?_, ?_⟩
    · rw [current, LastIndexedSnapshot.nextTarget, last]
      rfl
    · rw [last]
      nofun
  | halfDone half => exact absurd half hw

theorem HalfDone.not_follows {logs : List Log} (h : HalfDone c logs) (hc : Coherent first c) (range : ℕ × ℕ) :
    ¬ Follows first (c.update logs range).1 := by
  obtain ⟨-, hlast, hcur⟩ := h.update range
  obtain ⟨hnone, hsome⟩ := hc.follows
  rintro ⟨hnone', hsome'⟩
  rw [hlast] at hnone' hsome'
  cases hl : c.lastIndexedSnapshot.sequence with
  | none => exact absurd (hnone hl) (by rw [← hnone' hl]; exact hcur.ne)
  | some l =>
    -- a gap-free window ends below `U32_MAX`, so the last indexed sequence is below it too
    have hmax : l < U32_MAX := by
      obtain ⟨top, hlow, hmax, -⟩ := h.gapFree
      have hcl := hc.current
      rw [LastIndexedSnapshot.nextTarget, hl] at hcl
      simp only [Option.map_some, Option.getD_some] at hcl
      omega
    rw [hsome l hl hmax, hsome' l hl hmax] at hcur
    exact lt_irrefl _ hcur

end Following

section Runs

variable {first : ℕ} {r : ForwardRun}

theorem step_coherent (h : Coherent first r.cursor) {op : ForwardOp} (hw : op.Whole r.cursor) :
    Coherent first (r.step op).cursor := by
  cases op with
  | next view limit latest =>
    obtain ⟨hlast, hcur, -⟩ := getNextRange_sequences view limit latest r.cursor
    have hskip := h.skipIndexed view limit
    refine ⟨?_, hlast ▸ hskip.initial⟩
    calc (r.cursor.getNextRange view limit latest).1.currentIndexingSnapshot.sequence
        = (r.cursor.skipIndexed view limit).1.currentIndexingSnapshot.sequence := hcur
      _ = (r.cursor.skipIndexed view limit).1.lastIndexedSnapshot.nextTarget.sequence := hskip.current
      _ = (r.cursor.getNextRange view limit latest).1.lastIndexedSnapshot.nextTarget.sequence := by rw [hlast]
  | update logs range => exact h.update hw range

theorem run_coherent (h : Coherent first r.cursor) {ops : List ForwardOp} (hw : r.Whole ops) :
    Coherent first (r.run ops).cursor := by
  induction ops generalizing r with
  | nil => exact h
  | cons op ops ih => exact ih (step_coherent h hw.1) hw.2

theorem ForwardRun.Whole.take {ops : List ForwardOp} (hw : r.Whole ops) (k : ℕ) : r.Whole (ops.take k) := by
  induction ops generalizing r k with
  | nil => simpa using hw
  | cons op ops ih =>
    cases k with
    | zero => trivial
    | succ k => exact ⟨hw.1, ih hw.2 k⟩

/-- the current sequence follows the last indexed one at every point of a run exactly when no update is half-done -/
theorem follows_iff_whole (h : Coherent first r.cursor) (ops : List ForwardOp) :
    (∀ k, Follows first (r.run (ops.take k)).cursor) ↔ r.Whole ops := by
  constructor
  · intro hf
    induction ops generalizing r with
    | nil => trivial
    | cons op ops ih =>
      have hop : op.Whole r.cursor := by
        cases op with
        | next view limit latest => trivial
        | update logs range =>
          intro hhalf
          exact hhalf.not_follows h range (hf 1)
      exact ⟨hop, ih (step_coherent h hop) fun k => hf (k + 1)⟩
  · intro hw k
    exact (run_coherent h (hw.take k)).follows

end Runs

/-- **No log is skipped.** In every run, in both modes, every sequence below the current one was found in the store or
came in an update; and the current sequence follows the last indexed one at every point exactly when no update of the
run is half-done. -/
theorem forward_never_skips (chunkSize nextSequence startBlock : ℕ) (mode : IndexMode) (hnext : nextSequence ≤ U32_MAX)
    (ops : List ForwardOp) :
    let r := ForwardRun.start (.new chunkSize nextSequence startBlock mode)
    (∀ s, nextSequence ≤ s → s < (r.run ops).cursor.currentIndexingSnapshot.sequence → (r.run ops).Seen s) ∧
    ((∀ k, Follows nextSequence (r.run (ops.take k)).cursor) ↔ r.Whole ops) := by
  intro r
  constructor
  · exact (run_covered (r := r) (new_covered chunkSize nextSequence startBlock mode hnext) ops).current
  · exact follows_iff_whole (new_coherent chunkSize nextSequence startBlock mode hnext) ops

/-- an empty store, one log on chain, and its update -/
theorem forward_never_skips_one :
    let empty : StoreView := ⟨fun _ => .ok false, fun _ => .ok none⟩
    let ops : List ForwardOp := [.next empty 2 (.ok (some 1, 20)), .update [⟨some 0, 5⟩] (0, 10)]
    let r := ForwardRun.start (.new 10 0 0 .Block)
    0 ≤ U32_MAX ∧ (r.run ops).cursor.currentIndexingSnapshot.sequence = 1 ∧ (r.run ops).Seen 0 ∧
    ∀ k, Follows 0 (r.run (ops.take k)).cursor := by
  intro empty ops r
  have hone : (r.run ops).cursor.currentIndexingSnapshot.sequence = 1 := by decide +kernel
  have h := forward_never_skips 10 0 0 .Block (Nat.zero_le _) ops
  refine ⟨Nat.zero_le _, hone, h.1 0 le_rfl (by rw [hone]; exact Nat.one_pos), h.2.2 ⟨trivial, ?_, trivial⟩⟩
  intro hhalf
  obtain ⟨top, -, -, -, x, hx, hbig⟩ := hhalf.gapFree
  have hmem := List.mem_of_find?_eq_some hx
  rw [List.mem_singleton] at hmem
  subst hmem
  exact absurd hbig (by decide)

/-- a block number of 33 bits: the current sequence is 1 and nothing is indexed -/
theorem half_done_not_follows :
    ¬ Follows 0 ((ForwardRun.start (.new 10 0 0 .Block)).run [.update [⟨some 0, 2 ^ 32⟩] (0, 10)]).cursor := by
  rintro ⟨h, -⟩
  exact absurd (h (by decide +kernel)) (by decide +kernel)

end Hyperlane.Cursor
