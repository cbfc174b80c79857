/-
The rate limited cursor (hyperlane-base/src/contract_sync/cursors/rate_limited.rs) over restarts.

An update stores a watermark before it moves the cursor past its range: the block that the cursor is at, less one chunk. A
restart begins at the watermark, or at the configured height where that is not below it.

Tips are read at any moment and may rise, fall or be missing; a store may fail after or before the watermark has landed. The
estimate of the time left and the metrics are left out.

- `Laid`: the ranges of a run, each where the one before leaves off.
- `step_safe`, `run_safe`: what a step and a run keep.
- `watermark_restart_safe`: every block below the cursor is covered, the watermark stays in its bounds, and the ranges are in
  order.
-/
import Hyperlane.Cursor.Backward

namespace Hyperlane.Cursor.RateLimited

/-! ## Model -/

inductive SyncDirection where
  | Forward
  | Backward
deriving DecidableEq

structure SyncState where
  chunkSize : ℕ
  startBlock : ℕ
  nextBlock : ℕ
  direction : SyncDirection
deriving DecidableEq

namespace SyncState

variable (s : SyncState)

def blockRange (tip : ℕ) : ℕ × ℕ :=
  match s.direction with
  | .Forward => (s.nextBlock, min (min (s.nextBlock + s.chunkSize) U32_MAX) tip)
  | .Backward => (s.nextBlock - s.chunkSize, s.nextBlock)

def getNextRange (tip : ℕ) : Option (ℕ × ℕ) :=
  let range := s.blockRange tip
  if range.2 < range.1 then none else some range

def updateRange (range : ℕ × ℕ) : SyncState :=
  match s.direction with
  | .Forward => { s with nextBlock := min (range.2 + 1) U32_MAX }
  | .Backward => { s with nextBlock := range.1 - 1 }

/-- what an update stores -/
def highWatermark : ℕ := max s.startBlock (s.nextBlock - s.chunkSize)

end SyncState

/-- times are nanoseconds -/
structure RateLimitedContractSyncCursor where
  tip : ℕ
  lastTipUpdate : ℕ
  syncState : SyncState
  idleSleepDuration : ℕ
  configuredInterval : Option ℕ
deriving DecidableEq

structure IndexSettings where
  chunkSize : ℕ
  idleSleepDuration : ℕ
  configuredInterval : Option ℕ
deriving DecidableEq

inductive CursorAction where
  | Query (range : ℕ × ℕ)
  | Sleep (duration : ℕ)
deriving DecidableEq

namespace RateLimitedContractSyncCursor

/-- the block to begin at; a negative height is relative to the tip -/
def indexStartHeight (initialHeight : ℤ) (watermark : Option ℕ) (tip : ℕ) : ℕ :=
  let indexStartHeight := if initialHeight < 0 then max (tip + initialHeight) 0 else initialHeight
  let indexStartHeight :=
    match watermark with
    | some w => if (w : ℤ) ≤ indexStartHeight then indexStartHeight else w
    | none => indexStartHeight
  indexStartHeight.toNat % 2 ^ 32

/-- `new`; `none` where the tip cannot be read -/
def new (settings : IndexSettings) (initialHeight : ℤ) (watermark : Option ℕ) (tip : Option ℕ) (now : ℕ) :
    Option RateLimitedContractSyncCursor :=
  tip.map fun tip =>
    let start := indexStartHeight initialHeight watermark tip
    ⟨tip, now, ⟨settings.chunkSize, start, start, .Forward⟩, settings.idleSleepDuration, settings.configuredInterval⟩

variable (c : RateLimitedContractSyncCursor)

def getRateLimit (now : ℕ) : Option ℕ :=
  if min (c.syncState.nextBlock + c.syncState.chunkSize) U32_MAX < c.tip then none
  else
    let refreshWindow := c.configuredInterval.getD (30 * 10 ^ 9)
    let elapsed := now - c.lastTipUpdate
    if elapsed ≤ refreshWindow then some (refreshWindow - elapsed) else none

/-- `next_action`; `none` where it asks for a tip that cannot be read -/
def nextAction (tip : Option ℕ) (now : ℕ) : Option CursorAction :=
  match c.getRateLimit now with
  | some rateLimit => some (.Sleep rateLimit)
  | none =>
    tip.map fun tip =>
      match c.syncState.getNextRange tip with
      | some range => .Query range
      | none => .Sleep c.idleSleepDuration

/-- `update`, with how the store ends and the tip that is read after it: the cursor, the watermark in the store, and whether
it succeeds -/
def update (watermark : Option ℕ) (range : ℕ × ℕ) (write : Write) (tip : Option ℕ) (now : ℕ) :
    RateLimitedContractSyncCursor × Option ℕ × Bool :=
  match write with
  | .failed landed => (c, if landed then some c.syncState.highWatermark else watermark, false)
  | .done =>
    let moved := { c with syncState := c.syncState.updateRange range }
    match tip with
    | some tip => ({ moved with tip := tip, lastTipUpdate := now }, some c.syncState.highWatermark, true)
    | none => (moved, some c.syncState.highWatermark, false)

end RateLimitedContractSyncCursor

/-! ## Runs -/

/-- a range that `next_action` returned, with the tip it was cut at, and whether an update has moved the cursor past it -/
structure Issue where
  range : ℕ × ℕ
  tip : ℕ
  done : Bool
deriving DecidableEq

/-- the store, the cursor, and what has happened -/
structure World where
  watermark : Option ℕ
  cursor : Option RateLimitedContractSyncCursor
  /-- the last range that was returned, until an update is called with it -/
  pending : Option (ℕ × ℕ)
  /-- the ranges that updates were called with, in this run of the cursor and before it -/
  updated : List (ℕ × ℕ)
  /-- the ranges that were returned in this run of the cursor, the last one first -/
  issued : List Issue
deriving DecidableEq

/-- nothing is stored and nothing runs -/
def World.initial : World := ⟨none, none, none, [], []⟩

/-- the last issue is done -/
def finish : List Issue → List Issue
  | [] => []
  | i :: issued => { i with done := true } :: issued

inductive Step where
  /-- a new cursor takes the place of the one that runs -/
  | restart (settings : IndexSettings) (tip : Option ℕ) (now : ℕ)
  | nextAction (tip : Option ℕ) (now : ℕ)
  | update (write : Write) (tip : Option ℕ) (now : ℕ)
deriving DecidableEq

/-- one step; `none` if it cannot happen -/
def step (initialHeight : ℤ) (w : World) : Step → Option World
  | .restart settings tip now =>
    some
      { w with
        cursor := RateLimitedContractSyncCursor.new settings initialHeight w.watermark tip now
        pending := none
        issued := [] }
  | .nextAction tip now =>
    w.cursor.map fun c =>
      match c.nextAction tip now with
      | some (.Query range) => { w with pending := some range, issued := ⟨range, tip.getD 0, false⟩ :: w.issued }
      | _ => w
  | .update write tip now =>
    match w.cursor, w.pending with
    | some c, some range =>
      let (cursor, watermark, _) := c.update w.watermark range write tip now
      some ⟨watermark, some cursor, none, range :: w.updated, if write = .done then finish w.issued else w.issued⟩
    | _, _ => none

def run (initialHeight : ℤ) (w : World) : List Step → Option World
  | [] => some w
  | s :: steps => (step initialHeight w s).bind fun w' => run initialHeight w' steps

/-! ## The ranges of a run -/

/-- where the range after an issue starts -/
def Issue.after (i : Issue) : ℕ := if i.done then min (i.range.2 + 1) U32_MAX else i.range.1

/-- the ranges of a run that begins at `start`, the last one first, up to the block the next one starts at -/
inductive Laid (start : ℕ) : List Issue → ℕ → Prop
  | nil : Laid start [] start
  | cons {i : Issue} {issued : List Issue} (before : Laid start issued i.range.1) (nonempty : i.range.1 ≤ i.range.2)
      (below : i.range.2 ≤ i.tip) (fits : i.range.2 ≤ U32_MAX) : Laid start (i :: issued) i.after

namespace Laid

variable {start next : ℕ} {i : Issue} {issued : List Issue}

theorem le_after (hle : i.range.1 ≤ i.range.2) (hfits : i.range.2 ≤ U32_MAX) : i.range.1 ≤ i.after := by
  rw [Issue.after]
  split
  · exact le_min (Nat.le_succ_of_le hle) (hle.trans hfits)
  · exact le_rfl

theorem le_next (h : Laid start issued next) : start ≤ next := by
  induction h with
  | nil => exact le_rfl
  | cons _ hle _ hfits ih => exact ih.trans (le_after hle hfits)

theorem bounded (h : Laid start issued next) : ∀ i ∈ issued, i.range.1 ≤ i.range.2 ∧ i.range.2 ≤ i.tip := by
  induction h with
  | nil => exact fun i hi => absurd hi List.not_mem_nil
  | cons _ hle hbelow _ ih =>
    intro i hi
    rcases List.mem_cons.1 hi with rfl | hi
    · exact ⟨hle, hbelow⟩
    · exact ih i hi

theorem after_le (h : Laid start issued next) : ∀ i ∈ issued, i.after ≤ next := by
  induction h with
  | nil => exact fun i hi => absurd hi List.not_mem_nil
  | cons _ hle _ hfits ih =>
    intro i hi
    rcases List.mem_cons.1 hi with rfl | hi
    · exact le_rfl
    · exact (ih i hi).trans (le_after hle hfits)

theorem of_cons (h : Laid start (i :: issued) next) : Laid start issued i.range.1 ∧ i.range.1 ≤ i.range.2 ∧
    i.range.2 ≤ i.tip ∧ i.range.2 ≤ U32_MAX ∧ i.after = next := by
  cases h with
  | cons before hle hbelow hfits => exact ⟨before, hle, hbelow, hfits, rfl⟩

theorem head_after (h : Laid start issued next) : ∀ i ∈ issued.head?, i.after = next := by
  intro i hi
  cases issued with
  | nil => cases hi
  | cons j issued =>
    obtain rfl := Option.some.inj hi
    exact h.of_cons.2.2.2.2

theorem first (h : Laid start issued next) : ∀ i ∈ issued.getLast?, i.range.1 = start := by
  induction h with
  | nil => exact fun i hi => by cases hi
  | @cons j issued before _ _ _ ih =>
    intro i hi
    cases issued with
    | nil =>
      cases before
      obtain rfl := Option.some.inj hi
      rfl
    | cons k issued => exact ih i (by rwa [List.getLast?_cons_cons] at hi)

theorem contiguous (h : Laid start issued next) : issued.IsChain fun later earlier => later.range.1 = earlier.after := by
  induction h with
  | nil => exact .nil
  | cons before _ _ _ ih => exact ih.cons fun j hj => (before.head_after j hj).symm

theorem disjoint (h : Laid start issued next) : issued.Pairwise fun later earlier => earlier.after ≤ later.range.1 := by
  induction h with
  | nil => exact .nil
  | cons before _ _ _ ih => exact ih.cons fun j hj => before.after_le j hj

end Laid

/-- what the ranges of a run that begins at `start` are: each ends at the tip that was read for it or below; each starts
right after the one before, or where that one started if no update has moved the cursor past it; and none has a block of one
that is done -/
structure InOrder (start : ℕ) (issued : List Issue) : Prop where
  bounded : ∀ i ∈ issued, i.range.1 ≤ i.range.2 ∧ i.range.2 ≤ i.tip
  first : ∀ i ∈ issued.getLast?, i.range.1 = start
  contiguous : issued.IsChain fun later earlier => earlier.range.2 < U32_MAX →
    later.range.1 = if earlier.done then earlier.range.2 + 1 else earlier.range.1
  disjoint : issued.Pairwise fun later earlier => earlier.range.2 < U32_MAX → earlier.done → earlier.range.2 < later.range.1

theorem Issue.after_below {i : Issue} (h : i.range.2 < U32_MAX) : i.after = if i.done then i.range.2 + 1 else i.range.1 := by
  rw [Issue.after, min_eq_left h]

theorem Laid.inOrder {start next : ℕ} {issued : List Issue} (h : Laid start issued next) : InOrder start issued := by
  refine ⟨h.bounded, h.first, h.contiguous.imp fun later earlier hafter hbelow => ?_,
    h.disjoint.imp fun {later earlier} hafter hbelow hdone => ?_⟩
  · rw [hafter, Issue.after_below hbelow]
  · rw [Issue.after_below hbelow, if_pos hdone] at hafter
    exact hafter

/-! ## What a run keeps -/

/-- the blocks of some ranges -/
def blocks (ranges : List (ℕ × ℕ)) : Set ℕ := {block | ∃ range ∈ ranges, block ∈ Set.Icc range.1 range.2}

theorem blocks_cons (range : ℕ × ℕ) (ranges : List (ℕ × ℕ)) : blocks ranges ⊆ blocks (range :: ranges) :=
  fun _ ⟨r, hr, hblock⟩ => ⟨r, List.mem_cons_of_mem range hr, hblock⟩

/-- a range that starts where the covered blocks end covers its own -/
theorem covered_cons {low : ℕ} {range : ℕ × ℕ} {ranges : List (ℕ × ℕ)} (h : Set.Ico low range.1 ⊆ blocks ranges) :
    Set.Ico low (range.2 + 1) ⊆ blocks (range :: ranges) := by
  intro block hblock
  by_cases hbefore : block < range.1
  · exact blocks_cons range ranges (h ⟨hblock.1, hbefore⟩)
  · exact ⟨range, List.mem_cons_self, not_lt.1 hbefore, Nat.le_of_lt_succ hblock.2⟩

/-- a cursor that runs, over a configured height -/
structure Running (height : ℕ) (w : World) (c : RateLimitedContractSyncCursor) : Prop where
  forward : c.syncState.direction = .Forward
  above : height ≤ c.syncState.startBlock
  fits : c.syncState.nextBlock ≤ U32_MAX
  covered : Set.Ico height c.syncState.nextBlock ⊆ blocks w.updated
  marked : ∀ mark, w.watermark = some mark → c.syncState.startBlock ≤ mark ∧ mark ≤ c.syncState.nextBlock
  laid : Laid c.syncState.startBlock w.issued c.syncState.nextBlock
  pending : ∀ range, w.pending = some range → ∃ i issued, w.issued = i :: issued ∧ i.range = range ∧ i.done = false

/-- the store is behind what is covered, and so is the cursor -/
structure Safe (height : ℕ) (w : World) : Prop where
  stored : ∀ mark, w.watermark = some mark → height ≤ mark ∧ mark ≤ U32_MAX ∧ Set.Ico height mark ⊆ blocks w.updated
  running : ∀ c, w.cursor = some c → Running height w c

section Steps

variable {height : ℕ} {w w' : World} {c : RateLimitedContractSyncCursor}

theorem indexStartHeight_eq (hheight : height ≤ U32_MAX) {watermark : Option ℕ}
    (hmark : ∀ mark, watermark = some mark → height ≤ mark ∧ mark ≤ U32_MAX) (tip : ℕ) :
    RateLimitedContractSyncCursor.indexStartHeight height watermark tip = watermark.getD height := by
  have hnonneg : ¬(height : ℤ) < 0 := not_lt.2 (Int.natCast_nonneg height)
  unfold RateLimitedContractSyncCursor.indexStartHeight
  rw [if_neg hnonneg]
  cases watermark with
  | none => exact Nat.mod_eq_of_lt (Nat.lt_succ_of_le hheight)
  | some mark =>
    obtain ⟨hle, hfits⟩ := hmark mark rfl
    have hmax : (if (mark : ℤ) ≤ height then (height : ℤ) else mark) = mark := by
      split
      next hbelow => exact le_antisymm (Int.ofNat_le.2 hle) hbelow
      next => rfl
    dsimp only
    rw [hmax]
    exact Nat.mod_eq_of_lt (Nat.lt_succ_of_le hfits)

theorem getNextRange_forward {s : SyncState} (hforward : s.direction = .Forward) {tip : ℕ} {range : ℕ × ℕ}
    (h : s.getNextRange tip = some range) :
    range.1 = s.nextBlock ∧ range.1 ≤ range.2 ∧ range.2 ≤ tip ∧ range.2 ≤ U32_MAX := by
  rw [SyncState.getNextRange, SyncState.blockRange, hforward] at h
  dsimp only at h
  split at h
  · cases h
  next hle =>
    obtain rfl := Option.some.inj h
    exact ⟨rfl, not_lt.1 hle, min_le_right _ _, (min_le_left _ _).trans (min_le_right _ _)⟩

/-- the tip that a range is cut at is the one that is read for it -/
theorem nextAction_query {tip : Option ℕ} {now : ℕ} {range : ℕ × ℕ} (h : c.nextAction tip now = some (.Query range)) :
    c.syncState.getNextRange (tip.getD 0) = some range := by
  rw [RateLimitedContractSyncCursor.nextAction] at h
  split at h
  · cases h
  · obtain ⟨t, rfl, haction⟩ := Option.map_eq_some_iff.1 h
    split at haction
    next range' hrange =>
      obtain rfl := CursorAction.Query.inj haction
      exact hrange
    next => cases haction

theorem highWatermark_le (hle : c.syncState.startBlock ≤ c.syncState.nextBlock) :
    c.syncState.startBlock ≤ c.syncState.highWatermark ∧ c.syncState.highWatermark ≤ c.syncState.nextBlock :=
  ⟨le_max_left _ _, max_le hle (Nat.sub_le _ _)⟩

/-- a restart begins at what is stored, or else at the configured height -/
theorem restart_running (hheight : height ≤ U32_MAX) (h : Safe height w) {settings : IndexSettings} {tip : Option ℕ} {now : ℕ}
    (hc : RateLimitedContractSyncCursor.new settings height w.watermark tip now = some c) :
    Running height { w with cursor := some c, pending := none, issued := [] } c := by
  obtain ⟨t, -, rfl⟩ := Option.map_eq_some_iff.1 hc
  have hstart := indexStartHeight_eq hheight (fun mark hmark => ⟨(h.stored mark hmark).1, (h.stored mark hmark).2.1⟩) t
  have hcases : (w.watermark = none ∧ w.watermark.getD height = height) ∨
      ∃ mark, w.watermark = some mark ∧ w.watermark.getD height = mark := by
    cases w.watermark with
    | none => exact .inl ⟨rfl, rfl⟩
    | some mark => exact .inr ⟨mark, rfl, rfl⟩
  refine ⟨rfl, ?_, ?_, ?_, fun mark hmark => ?_, .nil, fun range hrange => by cases hrange⟩
  all_goals
    dsimp only
    rw [hstart]
  · rcases hcases with ⟨-, heq⟩ | ⟨mark, hmark, heq⟩
    · exact heq.ge
    · exact heq ▸ (h.stored mark hmark).1
  · rcases hcases with ⟨-, heq⟩ | ⟨mark, hmark, heq⟩
    · exact heq.trans_le hheight
    · exact heq ▸ (h.stored mark hmark).2.1
  · rcases hcases with ⟨-, heq⟩ | ⟨mark, hmark, heq⟩
    · rw [heq, Set.Ico_self]
      exact Set.empty_subset _
    · exact heq ▸ (h.stored mark hmark).2.2
  · have heq : w.watermark.getD height = mark := by
      rw [show w.watermark = some mark from hmark, Option.getD_some]
    exact ⟨heq.le, heq.ge⟩

theorem nextAction_running (h : Running height w c) {tip : Option ℕ} {now : ℕ} {range : ℕ × ℕ}
    (hrange : c.nextAction tip now = some (.Query range)) :
    Running height { w with pending := some range, issued := ⟨range, tip.getD 0, false⟩ :: w.issued } c := by
  obtain ⟨hstart, hle, htip, hfits⟩ := getNextRange_forward h.forward (nextAction_query hrange)
  refine ⟨h.forward, h.above, h.fits, h.covered, h.marked, ?_, fun r hr => ⟨_, _, rfl, Option.some.inj hr, rfl⟩⟩
  have hlaid : Laid c.syncState.startBlock (⟨range, tip.getD 0, false⟩ :: w.issued) range.1 :=
    .cons (hstart ▸ h.laid) hle htip hfits
  rwa [hstart] at hlaid

theorem failed_running (h : Running height w c) (range : ℕ × ℕ) (landed : Bool) :
    Running height
      ⟨if landed then some c.syncState.highWatermark else w.watermark, some c, none, range :: w.updated, w.issued⟩ c := by
  refine ⟨h.forward, h.above, h.fits, h.covered.trans (blocks_cons range w.updated), fun mark hmark => ?_, h.laid,
    fun r hr => by cases hr⟩
  dsimp only at hmark
  split at hmark
  · obtain rfl := Option.some.inj hmark
    exact highWatermark_le h.laid.le_next
  · exact h.marked mark hmark

/-- the watermark is stored before the cursor moves, so it is not above the block that the range starts at -/
theorem moved_running (h : Running height w c) {range : ℕ × ℕ} (hpending : w.pending = some range)
    {c' : RateLimitedContractSyncCursor} (hmoved : c'.syncState = c.syncState.updateRange range) :
    Running height ⟨some c.syncState.highWatermark, some c', none, range :: w.updated, finish w.issued⟩ c' := by
  have hstate : c.syncState.updateRange range = { c.syncState with nextBlock := min (range.2 + 1) U32_MAX } := by
    unfold SyncState.updateRange
    split
    next => rfl
    next hbackward =>
      rw [h.forward] at hbackward
      cases hbackward
  rw [hstate] at hmoved
  obtain ⟨i, issued, hissued, rfl, hdone⟩ := h.pending range hpending
  have hlaid := h.laid
  rw [hissued] at hlaid
  obtain ⟨before, hle, hbelow, hfits, hafter⟩ := hlaid.of_cons
  -- the range is the last one that was returned, and starts at the block of the cursor
  have hstart : i.range.1 = c.syncState.nextBlock := by rwa [Issue.after, hdone] at hafter
  obtain ⟨hlow, hhigh⟩ := highWatermark_le h.laid.le_next
  have hgrow : c.syncState.nextBlock ≤ min (i.range.2 + 1) U32_MAX :=
    le_min (hstart ▸ Nat.le_succ_of_le hle) h.fits
  refine ⟨?_, ?_, ?_, ?_, fun mark hmark => ?_, ?_, fun r hr => by cases hr⟩
  all_goals rw [hmoved]
  · exact h.forward
  · exact h.above
  · exact min_le_right _ _
  · have hcovered : Set.Ico height i.range.1 ⊆ blocks w.updated := hstart ▸ h.covered
    exact (Set.Ico_subset_Ico_right (min_le_left _ _)).trans (covered_cons hcovered)
  · obtain rfl := Option.some.inj hmark
    exact ⟨hlow, hhigh.trans hgrow⟩
  · dsimp only
    rw [hissued]
    have hnext : Laid c.syncState.startBlock ({ i with done := true } :: issued) { i with done := true }.after :=
      .cons before hle hbelow hfits
    exact hnext

theorem Running.safe (h : Running height w c) (hc : w.cursor = some c) : Safe height w := by
  refine ⟨fun mark hmark => ?_, fun c' hc' => ?_⟩
  · obtain ⟨hlow, hhigh⟩ := h.marked mark hmark
    exact ⟨h.above.trans hlow, hhigh.trans h.fits, (Set.Ico_subset_Ico_right hhigh).trans h.covered⟩
  · rw [hc] at hc'
    obtain rfl := Option.some.inj hc'
    exact h

theorem step_safe (hheight : height ≤ U32_MAX) (h : Safe height w) {s : Step} (hstep : step height w s = some w') :
    Safe height w' := by
  cases s with
  | restart settings tip now =>
    obtain rfl := Option.some.inj hstep
    refine ⟨h.stored, fun c hc => ?_⟩
    have hrunning := restart_running hheight h hc
    rwa [← hc] at hrunning
  | nextAction tip now =>
    obtain ⟨c, hc, rfl⟩ := Option.map_eq_some_iff.1 hstep
    split
    next range hrange => exact (nextAction_running (h.running c hc) hrange).safe hc
    next => exact h
  | update write tip now =>
    rw [step] at hstep
    split at hstep
    next c range hc hpending =>
      obtain rfl := Option.some.inj hstep
      have hrunning := h.running c hc
      cases write with
      | failed landed => exact (failed_running hrunning range landed).safe rfl
      | done =>
        cases tip with
        | none => exact (moved_running hrunning hpending rfl).safe rfl
        | some tip => exact (moved_running hrunning hpending rfl).safe rfl
    next => cases hstep

theorem initial_safe : Safe height .initial :=
  ⟨fun _ hmark => (by cases hmark), fun _ hc => by cases hc⟩

theorem run_safe (hheight : height ≤ U32_MAX) (h : Safe height w) {steps : List Step}
    (hrun : run height w steps = some w') : Safe height w' := by
  induction steps generalizing w with
  | nil =>
    obtain rfl := Option.some.inj hrun
    exact h
  | cons s steps ih =>
    rw [run] at hrun
    obtain ⟨next, hstep, hrest⟩ := Option.bind_eq_some_iff.1 hrun
    exact ih (step_safe hheight h hstep) hrest

/-- after any run, the cursor has all blocks below it covered from the configured height on, the stored watermark lies
between the blocks that the cursor began at and is at, and the ranges of its run are in order -/
theorem watermark_restart_safe (hheight : height ≤ U32_MAX) {steps : List Step} (hrun : run height .initial steps = some w)
    (hc : w.cursor = some c) :
    (∀ block, height ≤ block → block < c.syncState.nextBlock → ∃ range ∈ w.updated, range.1 ≤ block ∧ block ≤ range.2) ∧
      (∀ mark, w.watermark = some mark → c.syncState.startBlock ≤ mark ∧ mark ≤ c.syncState.nextBlock) ∧
      InOrder c.syncState.startBlock w.issued := by
  have hrunning := (run_safe hheight initial_safe hrun).running c hc
  exact ⟨fun block hlow hhigh => hrunning.covered ⟨hlow, hhigh⟩, hrunning.marked, hrunning.laid.inOrder⟩

end Steps

/-- the tip falls, a read of it fails after an update, and the cursor is built again -/
def restarted : List Step :=
  [.restart ⟨10, 5, none⟩ (some 100) 0, .nextAction (some 100) 1, .update .done (some 90) 2, .nextAction (some 80) 3,
    .update .done none 4, .restart ⟨10, 5, none⟩ (some 70) 5, .nextAction (some 12) 6]

theorem watermark_restart_safe_restarted : ∃ w c, run 3 .initial restarted = some w ∧ w.cursor = some c ∧
    w.issued = [⟨(4, 12), 12, false⟩] ∧
    (∀ block, 3 ≤ block → block < c.syncState.nextBlock → ∃ range ∈ w.updated, range.1 ≤ block ∧ block ≤ range.2) ∧
    (∀ mark, w.watermark = some mark → c.syncState.startBlock ≤ mark ∧ mark ≤ c.syncState.nextBlock) ∧
    InOrder c.syncState.startBlock w.issued :=
  ⟨_, _, rfl, rfl, by decide, @watermark_restart_safe 3 _ _ (by decide) restarted rfl rfl⟩

end Hyperlane.Cursor.RateLimited
