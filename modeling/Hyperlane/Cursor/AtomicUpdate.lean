/-
What a failed update leaves of the two sequence-aware cursors (`update_block_range` and `update_sequence_range` of
forward.rs and backward.rs under hyperlane-base/src/contract_sync/cursors/sequence_aware/).

An update fails on a log without a sequence and on a block number of more than 32 bits. In sequence mode both cursors convert
the block number before they assign a snapshot. In block mode both move the current snapshot first.

- `ForwardCursor.failed_unchanged`, `BackwardCursor.failed_unchanged`: a failed update changes a snapshot only in block mode,
  and there only when the logs fill the window at the current sequence and the log at its far end has such a block number.
- `update_atomic_iff`: exactly these half-done updates change a snapshot.
-/
import Hyperlane.Cursor.Backward
import Hyperlane.Cursor.Forward

namespace Hyperlane.Cursor

/-! ## The forward cursor -/

/-- neither snapshot has changed -/
def ForwardCursor.SameSnapshots (c c' : ForwardCursor) : Prop :=
  c'.currentIndexingSnapshot = c.currentIndexingSnapshot ∧ c'.lastIndexedSnapshot = c.lastIndexedSnapshot

section Forward

variable {c : ForwardCursor} {logs : List Log} {ls : List (ℕ × ℕ)}

theorem ForwardCursor.updateBlockRange_failed (hm : c.indexMode = .Block) (hc : c.currentIndexingSnapshot.sequence ≤ U32_MAX)
    (hls : prepare (fun s => decide (c.currentIndexingSnapshot.sequence ≤ s)) logs = .ok ls) {range : ℕ × ℕ}
    (h : (c.updateBlockRange ls range).2 = false) : HalfDone c logs := by
  revert h
  unfold ForwardCursor.updateBlockRange
  split
  · intro h
    cases h
  rename_i hw
  rw [not_not] at hw
  obtain ⟨hmod, hmax⟩ := expectedBlock_window (prepare_spec hls) hc hw
  rw [ForwardCursor.expectedBlock, hmod, min_eq_left hmax] at hw
  dsimp only
  cases hlast : ls.getLast? with
  | none =>
    dsimp only
    split
    · intro h
      cases h
    · split <;> exact fun h => by cases h
  | some x =>
    obtain ⟨top, block⟩ := x
    have htop := (prepare_spec hls).last_window hw hlast
    dsimp only at htop ⊢
    cases hb : tryIntoU32 block with
    | error e =>
      intro _
      exact .of_window hm hls hw htop hlast (by omega) (tryIntoU32_error hb)
    | ok b =>
      dsimp only
      split
      · intro h
        cases h
      · split <;> exact fun h => by cases h

theorem ForwardCursor.updateSequenceRange_failed {range : ℕ × ℕ} (h : (c.updateSequenceRange ls range).2 = false) :
    c.SameSnapshots (c.updateSequenceRange ls range).1 := by
  revert h
  unfold ForwardCursor.updateSequenceRange
  split
  · nofun
  split
  · nofun
  split
  · nofun
  split
  · intro _
    exact ⟨rfl, rfl⟩
  · nofun

theorem ForwardCursor.failed_unchanged (hc : c.currentIndexingSnapshot.sequence ≤ U32_MAX) (hhalf : ¬ HalfDone c logs)
    {range : ℕ × ℕ} (h : (c.update logs range).2 = false) : c.SameSnapshots (c.update logs range).1 := by
  revert h
  unfold ForwardCursor.update
  split
  · intro _
    exact ⟨rfl, rfl⟩
  · rename_i ls hls
    split
    · rename_i hm
      intro h
      exact absurd (ForwardCursor.updateBlockRange_failed hm hc hls h) hhalf
    · exact ForwardCursor.updateSequenceRange_failed

end Forward

/-! ## The backward cursor -/

/-- neither snapshot has changed -/
def BackwardCursor.SameSnapshots (c c' : BackwardCursor) : Prop :=
  c'.currentIndexingSnapshot = c.currentIndexingSnapshot ∧ c'.lastIndexedSnapshot = c.lastIndexedSnapshot

/-- the update returns `Err` before it comes to the store: it fails however the durable write would end -/
def BackwardCursor.FailsEarly (store : ProgressStore) (now : ℕ) (logs : List Log) (range : ℕ × ℕ) (c : BackwardCursor)
    (durable : Progress) : Prop :=
  ∀ w, (c.update store now w logs range durable).2.2 = false

/-- an update in block mode whose logs down from the current sequence have no gap and end in a log with a block number of
more than 32 bits -/
structure BackwardHalfDone (c : BackwardCursor) (t : TargetSnapshot) (logs : List Log) : Prop where
  block : c.indexMode = .Block
  current : c.currentIndexingSnapshot = some t
  sequenced : ∀ x ∈ logs, x.sequence ≠ none
  gapFree : ∃ low ≤ t.sequence,
    (∀ s ≤ t.sequence, (∃ b, (⟨some s, b⟩ : Log) ∈ logs) ↔ low ≤ s ∧ s < min (t.sequence + 1) U32_MAX) ∧
    ∃ x, logs.find? (fun y => y.sequence = some low) = some x ∧ 2 ^ 32 ≤ x.blockNumber

section Backward

variable {c : BackwardCursor} {logs : List Log} {ls : List (ℕ × ℕ)} {t : TargetSnapshot}

theorem BackwardCursor.updateBlockRange_failed (hm : c.indexMode = .Block) (hc : c.currentIndexingSnapshot = some t)
    (hls : prepare (fun s => decide (s ≤ t.sequence)) logs = .ok ls) (range : ℕ × ℕ)
    (h : (c.updateBlockRange ls range t).2 = none) : BackwardHalfDone c t logs := by
  have hp := prepare_spec hls
  unfold BackwardCursor.updateBlockRange at h
  split at h
  · cases h
  rename_i hw
  rw [not_not] at hw
  obtain ⟨hmod, hlen⟩ := expectedBlock_length hp hw
  rw [BackwardCursor.expectedBlock, hmod] at hw
  have hfits : tryIntoU32 ls.length = .ok ls.length := if_pos (by rw [← hmod]; exact Nat.mod_lt _ (by decide))
  rw [hfits] at h
  dsimp only at h
  cases hhead : ls.head? with
  | none =>
    rw [hhead] at h
    cases h
  | some x =>
    obtain ⟨low, block⟩ := x
    rw [hhead] at h
    dsimp only at h
    cases hb : tryIntoU32 block with
    | ok b =>
      rw [hb] at h
      cases h
    | error e =>
      have hmem := List.mem_of_mem_head? hhead
      have hle : low ≤ t.sequence := by simpa using hp.kept _ hmem
      have hlow : low = min (t.sequence + 1) U32_MAX - ls.length := hp.head_window hw hhead
      refine ⟨hm, hc, prepare_sequenced hls, low, hle, ?_, _, hp.first _ hmem, tryIntoU32_error hb⟩
      intro s hs
      rw [hlow, ← Finset.mem_Ico, ← hw]
      constructor
      · rintro ⟨b, hsb⟩
        exact hp.complete s b hsb (by simpa using hs)
      · exact hp.mem_logs

theorem BackwardCursor.updateSequenceRange_failed {range : ℕ × ℕ} (h : (c.updateSequenceRange ls range t).2 = none) :
    c.SameSnapshots (c.updateSequenceRange ls range t).1 := by
  revert h
  unfold BackwardCursor.updateSequenceRange
  dsimp only
  split
  · nofun
  split
  · nofun
  split
  · nofun
  split
  · intro _
    exact ⟨rfl, rfl⟩
  · nofun

theorem BackwardCursor.persistProgress_done (store : ProgressStore) (force : Bool) (c : BackwardCursor) (durable : Progress) :
    (c.persistProgress store .done force durable).2.2 = true := by
  unfold BackwardCursor.persistProgress
  split
  · rfl
  · split <;> rfl

theorem BackwardCursor.persistRewind_done (c : BackwardCursor) (durable : Progress) :
    (c.persistRewind .done durable).2.2 = true := by
  unfold BackwardCursor.persistRewind
  split <;> rfl

theorem BackwardCursor.failed_unchanged (hhalf : ∀ t, ¬ BackwardHalfDone c t logs) {store : ProgressStore} {now : ℕ}
    {range : ℕ × ℕ} {durable : Progress} (h : c.FailsEarly store now logs range durable) (w : Write) :
    c.SameSnapshots (c.update store now w logs range durable).1 := by
  replace h := h .done
  revert h
  unfold BackwardCursor.update
  split
  · nofun
  rename_i t ht
  split
  · intro _
    exact ⟨rfl, rfl⟩
  rename_i ls hls
  split
  · -- sequence mode
    have hsequence : (c.updateSequenceRange ls range t).2 = none → c.SameSnapshots (c.updateSequenceRange ls range t).1 :=
      BackwardCursor.updateSequenceRange_failed
    split
    · rename_i c' he
      intro _
      rw [he] at hsequence
      exact hsequence rfl
    · nofun
    · nofun
  · -- block mode
    rename_i hm
    split
    · rename_i c' he
      intro _
      refine absurd (BackwardCursor.updateBlockRange_failed hm ht hls range ?_) (hhalf t)
      rw [he]
    · split
      · rw [BackwardCursor.persistProgress_done]
        nofun
      · nofun
    · rw [BackwardCursor.persistRewind_done]
      nofun

/-- a half-done update fails and moves the current snapshot -/
theorem BackwardHalfDone.update (h : BackwardHalfDone c t logs) (store : ProgressStore) (now : ℕ) (range : ℕ × ℕ)
    (durable : Progress) : c.FailsEarly store now logs range durable ∧
      ∀ w, (c.update store now w logs range durable).1.currentIndexingSnapshot ≠ c.currentIndexingSnapshot := by
  obtain ⟨low, hle, hwin, y, hy, hbig⟩ := h.gapFree
  obtain ⟨ls, hls⟩ := prepare_ok (fun s => decide (s ≤ t.sequence)) h.sequenced
  have hp := prepare_spec hls
  have hw : allSequences ls = Finset.Ico low (min (t.sequence + 1) U32_MAX) := by
    ext s
    rw [Finset.mem_Ico]
    constructor
    · intro hs
      obtain ⟨b, hb⟩ := hp.mem_logs hs
      rw [allSequences, List.mem_toFinset] at hs
      obtain ⟨x, hx, rfl⟩ := List.mem_map.1 hs
      have hxt : x.1 ≤ t.sequence := by simpa using hp.kept x hx
      exact (hwin _ hxt).1 ⟨b, hb⟩
    · intro hs
      have hst : s ≤ t.sequence := Nat.le_of_lt_succ (lt_of_lt_of_le hs.2 (min_le_left _ _))
      obtain ⟨b, hb⟩ := (hwin s hst).2 hs
      exact hp.complete s b hb (by simpa using hst)
  have hlow : low < min (t.sequence + 1) U32_MAX := by
    have hmem := List.mem_of_find?_eq_some hy
    have hsequence : y.sequence = some low := by simpa using List.find?_some hy
    exact ((hwin low hle).1 ⟨y.blockNumber, hsequence ▸ hmem⟩).2
  have hlen : ls.length = min (t.sequence + 1) U32_MAX - low := by rw [← hp.card, hw, Nat.card_Ico]
  have hmax : ls.length < 2 ^ 32 := by
    unfold U32_MAX at hlen
    omega
  have hexp : allSequences ls = BackwardCursor.expectedBlock t ls.length := by
    rw [hw, BackwardCursor.expectedBlock, Nat.mod_eq_of_lt hmax, hlen, Nat.sub_sub_self hlow.le]
  have hfits : tryIntoU32 ls.length = .ok ls.length := if_pos hmax
  obtain ⟨x, hx⟩ : ∃ x, ls.head? = some x := by
    cases ls with
    | nil =>
      simp only [List.length_nil] at hlen
      omega
    | cons x xs => exact ⟨x, rfl⟩
  have hblock : x.2 = y.blockNumber := by
    have hfirst := hp.first x (List.mem_of_mem_head? hx)
    rw [hp.head_window hw hx, hy] at hfirst
    cases hfirst
    rfl
  have herr : tryIntoU32 x.2 = .error () := by
    rw [tryIntoU32, if_neg]
    omega
  have hfailed : (c.updateBlockRange ls range t).2 = none := by
    simp only [BackwardCursor.updateBlockRange, hexp, ne_eq, not_true_eq_false, if_false, hfits, hx, herr]
  have hupdate : ∀ w, c.update store now w logs range durable = ((c.updateBlockRange ls range t).1, durable, false) := by
    intro w
    unfold BackwardCursor.update
    rw [h.current]
    dsimp only
    rw [hls]
    simp only [h.block]
    split
    · rename_i he
      rw [he]
    all_goals
      rename_i he
      rw [he] at hfailed
      cases hfailed
  refine ⟨fun w => by rw [hupdate], ?_⟩
  intro w
  rw [hupdate, updateBlockRange_gapFree hp hexp, h.current]
  split
  · intro he
    have hsequence := congrArg TargetSnapshot.sequence (Option.some.inj he)
    dsimp only at hsequence
    omega
  · intro he
    cases he

end Backward

/-! ## Failed updates -/

/-- **Which failed updates are atomic.** For both cursors in both modes, every log vector and every range: an update that
fails before it comes to the store leaves both snapshots as they were, if and only if it is not half done. -/
theorem update_atomic_iff (logs : List Log) (range : ℕ × ℕ) :
    (∀ c : ForwardCursor, c.currentIndexingSnapshot.sequence ≤ U32_MAX →
      (((c.update logs range).2 = false → c.SameSnapshots (c.update logs range).1) ↔ ¬ HalfDone c logs)) ∧
    ∀ (c : BackwardCursor) (store : ProgressStore) (now : ℕ) (durable : Progress),
      (c.FailsEarly store now logs range durable → ∀ w, c.SameSnapshots (c.update store now w logs range durable).1) ↔
        ∀ t, ¬ BackwardHalfDone c t logs := by
  constructor
  · intro c hc
    constructor
    · intro hatomic hhalf
      obtain ⟨hfails, -, hmoved⟩ := hhalf.update range
      have hsame := (hatomic hfails).1
      rw [hsame] at hmoved
      exact lt_irrefl _ hmoved
    · intro hhalf h
      exact ForwardCursor.failed_unchanged hc hhalf h
  · intro c store now durable
    constructor
    · intro hatomic t hhalf
      obtain ⟨hfails, hmoved⟩ := hhalf.update store now range durable
      exact hmoved .done (hatomic hfails .done).1
    · intro hhalf h
      exact BackwardCursor.failed_unchanged hhalf h

/-- log 0 at block 2^32: the forward cursor has moved on to sequence 1, and the backward cursor is synced, with nothing
indexed -/
theorem update_not_atomic :
    (¬ ∀ (c : ForwardCursor) (logs : List Log) (range : ℕ × ℕ), (c.update logs range).2 = false →
      c.SameSnapshots (c.update logs range).1) ∧
    ¬ ∀ (c : BackwardCursor) (store : ProgressStore) (now : ℕ) (logs : List Log) (range : ℕ × ℕ) (durable : Progress),
      c.FailsEarly store now logs range durable → ∀ w, c.SameSnapshots (c.update store now w logs range durable).1 := by
  have hwin : ∀ s ≤ 0, (∃ b, (⟨some s, b⟩ : Log) ∈ [(⟨some 0, 2 ^ 32⟩ : Log)]) ↔ 0 ≤ s ∧ s < min (0 + 1) U32_MAX := by
    intro s hs
    obtain rfl := Nat.le_zero.1 hs
    simp
  constructor
  · intro hatomic
    have hsame := (hatomic (.new 10 0 0 .Block) [⟨some 0, 2 ^ 32⟩] (0, 10) (by decide +kernel)).1
    revert hsame
    decide +kernel
  · intro hatomic
    have hhalf : BackwardHalfDone (.new 10 0 (fun _ => none) 1 10 .Block) ⟨0, 10⟩ [⟨some 0, 2 ^ 32⟩] :=
      ⟨rfl, rfl, by decide, 0, le_rfl, hwin, ⟨some 0, 2 ^ 32⟩, rfl, le_rfl⟩
    obtain ⟨hfails, hmoved⟩ := hhalf.update .rocks 0 (0, 10) fun _ => none
    exact hmoved .done (hatomic _ _ _ _ _ _ hfails .done).1

/-- the forward cursor at sequence 0, with the log of block 10 and with the one of block 2^32 -/
theorem update_atomic_iff_two :
    (let c : ForwardCursor := .new 10 0 0 .Block
    ((c.update [⟨some 0, 10⟩] (0, 10)).2 = false → c.SameSnapshots (c.update [⟨some 0, 10⟩] (0, 10)).1) ∧
      HalfDone c [⟨some 0, 2 ^ 32⟩]) := by
  have hfails : ((ForwardCursor.new 10 0 0 .Block).update [⟨some 0, 2 ^ 32⟩] (0, 10)).2 = false := by decide +kernel
  have hmoved : ¬ (ForwardCursor.new 10 0 0 .Block).SameSnapshots
      ((ForwardCursor.new 10 0 0 .Block).update [⟨some 0, 2 ^ 32⟩] (0, 10)).1 := by
    intro hsame
    have hsame := hsame.1
    revert hsame
    decide +kernel
  constructor
  · refine ((update_atomic_iff [⟨some 0, 10⟩] (0, 10)).1 (.new 10 0 0 .Block) (by decide)).2 ?_
    rintro ⟨-, -, top, -, -, hwin, x, hx, hbig⟩
    obtain rfl : top = 0 := Nat.le_zero.1 (((hwin top (Nat.zero_le _)).2 le_rfl).elim (by simp))
    cases hx
    exact absurd hbig (by decide)
  · by_contra hhalf
    exact hmoved (((update_atomic_iff [⟨some 0, 2 ^ 32⟩] (0, 10)).1 (.new 10 0 0 .Block) (by decide)).2 hhalf hfails)

end Hyperlane.Cursor
