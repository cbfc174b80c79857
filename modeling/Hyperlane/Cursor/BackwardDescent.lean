/-
How the backward sequence cursor comes to an end in block mode (`get_next_block_range` and `update_block_range` of
hyperlane-base/src/contract_sync/cursors/sequence_aware/backward.rs).

After a gap-free update the cursor goes on at the block below the start of the range, by a saturating subtraction: at block 0
it stays there. It stops when its block is below the lowest block, which is never the case for the lowest block 0.

- `Scan`: the ranges issued one after another, each followed by a gap-free update, while the store has none of the
  sequences the cursor is at.
- `Scan.descends`: with a positive lowest block each range ends strictly below the start of the one before.
- `exists_scan`: with the lowest block 0 there are scans of any length.
-/
import Hyperlane.Cursor.Backward

namespace Hyperlane.Cursor

/-! ## Scans -/

/-- the logs of an update fill the window down from the current sequence -/
def BackwardCursor.GapFree (c : BackwardCursor) (logs : List Log) : Prop :=
  ∃ t ls, c.currentIndexingSnapshot = some t ∧ prepare (fun s => decide (s ≤ t.sequence)) logs = .ok ls ∧
    allSequences ls = BackwardCursor.expectedBlock t ls.length

/-- the ranges issued after `range`: each comes after a gap-free update, and the skip before it passes nothing -/
inductive Scan (store : ProgressStore) : BackwardCursor → Progress → ℕ × ℕ → List (ℕ × ℕ) → Prop
  | stop (c : BackwardCursor) (durable : Progress) (range : ℕ × ℕ) : Scan store c durable range []
  | round {c c' c'' : BackwardCursor} {durable durable' durable'' : Progress} {range next : ℕ × ℕ} {rest : List (ℕ × ℕ)}
      {logs : List Log} {now : ℕ} {w : Write} {ok : Bool} {env : Surroundings} (gapFree : c.GapFree logs)
      (update : c.update store now w logs range durable = (c', durable', ok))
      (issued : c'.getNextRange store env durable' = (c'', durable'', [], .ok (some next)))
      (rest_ : Scan store c'' durable'' next rest) : Scan store c durable range (next :: rest)

/-- in every scan from the cursor, each range ends strictly below the start of the one before, and there are no more ranges
than blocks -/
def BackwardCursor.Descends (store : ProgressStore) (c : BackwardCursor) (durable : Progress) : Prop :=
  ∀ env c' durable' passed range rest, c.getNextRange store env durable = (c', durable', passed, .ok (some range)) →
    Scan store c' durable' range rest →
      (range :: rest).IsChain (fun before after => after.2 < before.1) ∧ (range :: rest).length ≤ range.2 + 1

/-! ## What stays and what goes down -/

/-- what no call changes -/
def BackwardCursor.config (c : BackwardCursor) : ℕ × ℤ × IndexMode :=
  (c.chunkSize, c.lowestBlockHeightOrSequence, c.indexMode)

section Config

variable {c : BackwardCursor}

theorem config_mode {c c' : BackwardCursor} (h : c'.config = c.config) : c'.indexMode = c.indexMode :=
  congrArg (fun x => x.2.2) h

theorem config_lowest {c c' : BackwardCursor} (h : c'.config = c.config) :
    c'.lowestBlockHeightOrSequence = c.lowestBlockHeightOrSequence :=
  congrArg (fun x => x.2.1) h

theorem commit_config (c : BackwardCursor) (w : Write) (memory durable new : Progress) :
    (c.commit w memory durable new).1.config = c.config := by
  cases w <;> rfl

theorem forget_config (c : BackwardCursor) (durable : Progress) (sequence : ℕ) (w : Write) :
    (c.forget durable sequence w).1.config = c.config := by
  unfold BackwardCursor.forget
  split
  · apply commit_config
  · rfl

theorem persistProgress_config (store : ProgressStore) (w : Write) (force : Bool) (c : BackwardCursor) (durable : Progress) :
    (c.persistProgress store w force durable).1.config = c.config := by
  unfold BackwardCursor.persistProgress
  split
  · rfl
  · split
    · apply commit_config
    · rfl

theorem persistRewind_config (w : Write) (c : BackwardCursor) (durable : Progress) :
    (c.persistRewind w durable).1.config = c.config := by
  unfold BackwardCursor.persistRewind
  split
  · rfl
  · apply commit_config

theorem applyPersistedProgress_config (c : BackwardCursor) : c.applyPersistedProgress.config = c.config := by
  unfold BackwardCursor.applyPersistedProgress
  split
  · rfl
  · split
    · rfl
    · split <;> rfl

theorem skipIndexed_config (view : StoreView) (delete : ℕ → Write) (limit : ℕ) (c : BackwardCursor) (durable : Progress) :
    (BackwardCursor.skipIndexed view delete limit c durable).1.config = c.config := by
  induction limit generalizing c durable with
  | zero => rfl
  | succ limit ih =>
    unfold BackwardCursor.skipIndexed
    split
    · rfl
    rename_i t ht
    split
    · rfl
    · rfl
    have hf := forget_config c durable t.sequence (delete t.sequence)
    split
    · rename_i he
      rwa [he] at hf
    · rename_i he
      rw [he] at hf
      exact (ih _ _).trans hf

theorem updateBlockRange_config (c : BackwardCursor) (ls : List (ℕ × ℕ)) (range : ℕ × ℕ) (t : TargetSnapshot) :
    (c.updateBlockRange ls range t).1.config = c.config := by
  unfold BackwardCursor.updateBlockRange
  split
  · rfl
  split
  · rfl
  dsimp only
  split
  · rfl
  · split <;> rfl

/-- a skip that passes nothing and returns leaves everything as it is -/
theorem skipIndexed_none {view : StoreView} {delete : ℕ → Write} {limit : ℕ} {c c' : BackwardCursor}
    {durable durable' : Progress} {u : Unit}
    (h : BackwardCursor.skipIndexed view delete limit c durable = (c', durable', [], some (.ok u))) :
    c' = c ∧ durable' = durable := by
  cases limit with
  | zero => cases h
  | succ limit =>
    unfold BackwardCursor.skipIndexed at h
    split at h
    · cases h
      exact ⟨rfl, rfl⟩
    split at h
    · cases h
    · cases h
      exact ⟨rfl, rfl⟩
    · split at h <;> cases h

/-- persisted progress keeps the sequence and only lowers the block -/
theorem applyPersistedProgress_lowers {t : TargetSnapshot} (h : c.applyPersistedProgress.currentIndexingSnapshot = some t) :
    ∃ t', c.currentIndexingSnapshot = some t' ∧ t.atBlock ≤ t'.atBlock := by
  unfold BackwardCursor.applyPersistedProgress at h
  split at h
  · rename_i hc
    rw [hc] at h
    cases h
  · rename_i t' hc
    split at h
    · rw [hc] at h
      cases h
      exact ⟨t, hc, le_rfl⟩
    · split at h
      · rename_i hlt
        cases h
        exact ⟨t', hc, hlt.le⟩
      · rw [hc] at h
        cases h
        exact ⟨t, hc, le_rfl⟩

end Config

/-! ## One round -/

section Round

variable {store : ProgressStore} {c c' : BackwardCursor} {durable durable' : Progress} {env : Surroundings} {passed : List ℕ}
  {range : ℕ × ℕ}

theorem rangeBelow_some {latest : Except Unit (Option ℕ × ℕ)} {high : ℕ} (hlow : 0 ≤ c.lowestBlockHeightOrSequence)
    (h : c.rangeBelow latest high = some range) :
    range.2 = high ∧ range.1 ≤ range.2 ∧ c.lowestBlockHeightOrSequence.toNat % 2 ^ 32 ≤ range.1 := by
  unfold BackwardCursor.rangeBelow BackwardCursor.getLowestBlockHeightOrSequence at h
  rw [if_pos hlow] at h
  dsimp only at h
  split at h
  · cases h
  · rename_i hhigh
    cases h
    exact ⟨rfl, max_le (Nat.sub_le _ _) (not_lt.1 hhigh), le_max_right _ _⟩

/-- a range issued in block mode ends at the block of the current snapshot and starts at or above the lowest block -/
theorem getNextRange_issued (hmode : c.indexMode = .Block) (hlow : 0 ≤ c.lowestBlockHeightOrSequence)
    (h : c.getNextRange store env durable = (c', durable', passed, .ok (some range))) :
    c'.config = c.config ∧ range.1 ≤ range.2 ∧ c.lowestBlockHeightOrSequence.toNat % 2 ^ 32 ≤ range.1 ∧
      (passed = [] → ∃ t, c.currentIndexingSnapshot = some t ∧ range.2 ≤ t.atBlock) := by
  have hskip := skipIndexed_config env.view env.delete env.limit c durable
  unfold BackwardCursor.getNextRange at h
  split at h
  · cases h
  · cases h
  rename_i k d p u hk
  rw [hk] at hskip
  dsimp only at hskip
  obtain ⟨c₁, hconfig, hcurrent, hnext, rfl⟩ : ∃ c₁ : BackwardCursor, c₁.config = k.config ∧
      c₁.currentIndexingSnapshot = k.currentIndexingSnapshot ∧
        c₁.nextRange store env d = (c', durable', .ok (some range)) ∧ p = passed := by
    obtain ⟨hc, hd, hp, hrange⟩ := by simpa only [Prod.mk.injEq] using h
    refine ⟨_, ?_, ?_, Prod.ext hc (Prod.ext hd hrange), hp⟩ <;> split <;> rfl
  have hlowered := fun t => applyPersistedProgress_lowers (c := c₁) (t := t)
  have hfinal : c₁.applyPersistedProgress.config = c.config :=
    (applyPersistedProgress_config c₁).trans (hconfig.trans hskip)
  have hblock := (config_mode hfinal).trans hmode
  unfold BackwardCursor.nextRange at hnext
  dsimp only at hnext
  split at hnext
  · cases hnext
  split at hnext
  · cases hnext
  rename_i t ht
  simp only [hblock] at hnext
  split at hnext
  · rename_i x hx
    cases hnext
    obtain ⟨hend, hle, hlowest⟩ := rangeBelow_some ((config_lowest hfinal).symm ▸ hlow) hx
    rw [config_lowest hfinal] at hlowest
    refine ⟨hfinal, hle, hlowest, ?_⟩
    rintro rfl
    obtain ⟨t', ht', hat⟩ := hlowered t ht
    rw [hcurrent, (skipIndexed_none hk).1] at ht'
    exact ⟨t', ht', hend.le.trans hat⟩
  · split at hnext <;> cases hnext

/-- a gap-free update leaves the cursor synced or at the block below the start of the range -/
theorem update_gapFree {logs : List Log} {now : ℕ} {w : Write} {ok : Bool} (hmode : c.indexMode = .Block)
    (hlogs : c.GapFree logs) (h : c.update store now w logs range durable = (c', durable', ok)) :
    c'.config = c.config ∧ ∀ t, c'.currentIndexingSnapshot = some t → t.atBlock = range.1 - 1 := by
  obtain ⟨t, ls, ht, hls, hw⟩ := hlogs
  have hconfig := updateBlockRange_config c ls range t
  have hcurrent := updateBlockRange_gapFree (prepare_spec hls) hw c range
  have hmoved : ∀ t', (c.updateBlockRange ls range t).1.currentIndexingSnapshot = some t' → t'.atBlock = range.1 - 1 := by
    intro t' ht'
    rw [hcurrent] at ht'
    split at ht'
    · cases ht'
      rfl
    · cases ht'
  unfold BackwardCursor.update at h
  rw [ht] at h
  dsimp only at h
  rw [hls] at h
  simp only [hmode] at h
  split at h
  · rename_i c₁ he
    rw [he] at hconfig hmoved
    cases h
    exact ⟨hconfig, hmoved⟩
  · rename_i c₁ he
    rw [he] at hconfig hmoved
    split at h
    · have hpersist := persistProgress_config store w false c₁ durable
      have hposition := persistProgress_samePosition store w false c₁ durable
      rw [h] at hpersist hposition
      exact ⟨hpersist.trans hconfig, fun t' ht' => hmoved t' (hposition.current ▸ ht')⟩
    · cases h
      exact ⟨hconfig, hmoved⟩
  · rename_i c₁ he
    have hpersist := persistRewind_config w c₁ durable
    have hposition := persistRewind_samePosition w c₁ durable
    rw [he] at hconfig hmoved
    rw [h] at hpersist hposition
    exact ⟨hpersist.trans hconfig, fun t' ht' => hmoved t' (hposition.current ▸ ht')⟩

end Round

/-! ## Whole scans -/

section Scans

variable {store : ProgressStore} {c : BackwardCursor} {durable : Progress} {range : ℕ × ℕ} {rest : List (ℕ × ℕ)}

/-- **With a positive lowest block a scan descends.** One step lemma for a round, and the induction on the scan. -/
theorem Scan.descends (h : Scan store c durable range rest) (hmode : c.indexMode = .Block)
    (hlow : 0 < c.lowestBlockHeightOrSequence.toNat % 2 ^ 32)
    (hrange : c.lowestBlockHeightOrSequence.toNat % 2 ^ 32 ≤ range.1) (hle : range.1 ≤ range.2) :
    (range :: rest).IsChain (fun before after => after.2 < before.1) ∧ (range :: rest).length ≤ range.2 + 1 := by
  induction h with
  | stop => exact ⟨.singleton _, Nat.le_add_left _ _⟩
  | @round c c' c'' durable durable' durable'' range next rest logs now w ok env gapFree update issued _ ih =>
    obtain ⟨hconfig, hbelow⟩ := update_gapFree hmode gapFree update
    have hmode' := (config_mode hconfig).trans hmode
    have hlowest := config_lowest hconfig
    have hnonneg : 0 ≤ c'.lowestBlockHeightOrSequence := by
      by_contra hneg
      rw [← hlowest, Int.toNat_of_nonpos (not_le.1 hneg).le] at hlow
      exact absurd hlow (by decide)
    obtain ⟨hconfig', hle', hfrom, hstay⟩ := getNextRange_issued hmode' hnonneg issued
    obtain ⟨t, ht, hend⟩ := hstay rfl
    have hlt : next.2 < range.1 := by
      calc next.2 ≤ t.atBlock := hend
        _ = range.1 - 1 := hbelow t ht
        _ < range.1 := Nat.sub_lt (hlow.trans_le hrange) Nat.one_pos
    have hlowest' := (config_lowest hconfig').trans hlowest
    obtain ⟨hchain, hlength⟩ := ih ((config_mode hconfig').trans hmode') (hlowest' ▸ hlow)
      (hlowest' ▸ hlowest ▸ hfrom) hle'
    refine ⟨List.isChain_cons_cons.2 ⟨hlt, hchain⟩, ?_⟩
    rw [List.length_cons]
    omega

/-- with the lowest block 0, a cursor that finds nothing in the store issues a range -/
theorem exists_issued (store : ProgressStore) (durable : Progress) (hmode : c.indexMode = .Block)
    (hnonneg : 0 ≤ c.lowestBlockHeightOrSequence) (hlow : c.lowestBlockHeightOrSequence.toNat % 2 ^ 32 = 0)
    (hcurrent : c.currentIndexingSnapshot ≠ none) :
    ∃ env c' range, c.getNextRange store env durable = (c', durable, [], .ok (some range)) ∧
      c'.config = c.config ∧ c'.currentIndexingSnapshot ≠ none := by
  obtain ⟨t, ht⟩ := Option.ne_none_iff_exists'.1 hcurrent
  let env : Surroundings :=
    ⟨⟨fun _ => .ok false, fun _ => .ok none⟩, 1, fun _ => .done, .error (), c.sequenceGapRetryAt.getD 0, .done⟩
  have hskip : BackwardCursor.skipIndexed env.view env.delete env.limit c durable = (c, durable, [], some (.ok ())) := by
    show BackwardCursor.skipIndexed env.view env.delete 1 c durable = _
    unfold BackwardCursor.skipIndexed
    rw [ht]
    rfl
  obtain ⟨t', ht'⟩ : ∃ t', c.applyPersistedProgress.currentIndexingSnapshot = some t' := by
    unfold BackwardCursor.applyPersistedProgress
    rw [ht]
    dsimp only
    split
    · exact ⟨t, ht⟩
    · split
      · exact ⟨_, rfl⟩
      · exact ⟨t, ht⟩
  have hconfig := applyPersistedProgress_config c
  have hretry : c.applyPersistedProgress.sequenceGapRetryAt = c.sequenceGapRetryAt := by
    unfold BackwardCursor.applyPersistedProgress
    split
    · rfl
    · split
      · rfl
      · split <;> rfl
  have hnow : ((c.sequenceGapRetryAt.map fun retryAt => decide (env.now < retryAt)).getD false) = false := by
    cases hr : c.sequenceGapRetryAt with
    | none => rfl
    | some retryAt =>
      have hat : env.now = retryAt := by simp [env, hr]
      simp [hat]
  have hrange : c.applyPersistedProgress.getNextBlockRange env.latest t' =
      some (max (t'.atBlock - c.applyPersistedProgress.chunkSize) 0, t'.atBlock) := by
    unfold BackwardCursor.getNextBlockRange BackwardCursor.rangeBelow BackwardCursor.getLowestBlockHeightOrSequence
    rw [config_lowest hconfig, if_pos hnonneg, hlow]
    dsimp only
    rw [if_neg (Nat.not_lt_zero _)]
  refine ⟨env, c.applyPersistedProgress, (max (t'.atBlock - c.applyPersistedProgress.chunkSize) 0, t'.atBlock), ?_,
    hconfig, by rw [ht']; nofun⟩
  unfold BackwardCursor.getNextRange
  rw [hskip]
  simp only [List.isEmpty_nil, if_true]
  unfold BackwardCursor.nextRange
  dsimp only
  rw [hretry, hnow, ht', (config_mode hconfig).trans hmode]
  simp only [hrange, Bool.false_eq_true, if_false]

variable (store) in
/-- with the lowest block 0 there are scans of any length: every update is empty -/
theorem exists_scan (n : ℕ) (durable : Progress) (range : ℕ × ℕ) (hmode : c.indexMode = .Block)
    (hnonneg : 0 ≤ c.lowestBlockHeightOrSequence) (hlow : c.lowestBlockHeightOrSequence.toNat % 2 ^ 32 = 0)
    (hcurrent : c.currentIndexingSnapshot ≠ none) : ∃ rest, rest.length = n ∧ Scan store c durable range rest := by
  induction n generalizing c durable range with
  | zero => exact ⟨[], rfl, .stop c durable range⟩
  | succ n ih =>
    obtain ⟨t, ht⟩ := Option.ne_none_iff_exists'.1 hcurrent
    have hempty : prepare (fun s => decide (s ≤ t.sequence)) [] = .ok [] := rfl
    have hwindow : allSequences [] = BackwardCursor.expectedBlock t ([] : List (ℕ × ℕ)).length := by
      simp [allSequences, BackwardCursor.expectedBlock]
    have hgapFree : c.GapFree [] := ⟨t, [], ht, hempty, hwindow⟩
    obtain ⟨c', durable', ok, hupdate⟩ : ∃ c' durable' ok, c.update store 0 .done [] range durable = (c', durable', ok) :=
      ⟨_, _, _, rfl⟩
    have hstays : c'.currentIndexingSnapshot ≠ none := by
      have hmoved : (c.updateBlockRange [] range t).1.currentIndexingSnapshot = some ⟨t.sequence, range.1 - 1⟩ :=
        (updateBlockRange_gapFree (prepare_spec hempty) hwindow c range).trans (if_pos (Nat.zero_le _))
      have hresult : c.update store 0 .done [] range durable =
          (c.updateBlockRange [] range t).1.persistProgress store .done false durable := by
        unfold BackwardCursor.update
        rw [ht]
        dsimp only
        rw [hempty]
        simp [hmode, BackwardCursor.updateBlockRange, hwindow, tryIntoU32]
      have hposition := persistProgress_samePosition store .done false (c.updateBlockRange [] range t).1 durable
      rw [← hresult, hupdate] at hposition
      rw [hposition.current, hmoved]
      exact Option.some_ne_none _
    obtain ⟨hconfig, -⟩ := update_gapFree hmode hgapFree hupdate
    have hmode' := (config_mode hconfig).trans hmode
    have hlowest := config_lowest hconfig
    obtain ⟨env, c'', next, hissued, hconfig', hcurrent'⟩ :=
      exists_issued store durable' hmode' (hlowest ▸ hnonneg) (hlowest ▸ hlow) hstays
    have hlowest' := config_lowest hconfig'
    obtain ⟨rest, hlength, hrest⟩ := ih durable' next ((config_mode hconfig').trans hmode')
      (hlowest' ▸ hlowest ▸ hnonneg) (hlowest' ▸ hlowest ▸ hlow) hcurrent'
    exact ⟨next :: rest, by rw [List.length_cons, hlength], .round hgapFree hupdate hissued hrest⟩

end Scans

/-- **When backward block scanning descends.** For every cursor in block mode with a non-negative lowest block: every scan
goes strictly down, and so ends, if and only if the lowest block is positive as a 32-bit number or the cursor is synced. -/
theorem backward_descends_iff (store : ProgressStore) (c : BackwardCursor) (durable : Progress) (hmode : c.indexMode = .Block)
    (hlow : 0 ≤ c.lowestBlockHeightOrSequence) : c.Descends store durable ↔
      0 < c.lowestBlockHeightOrSequence.toNat % 2 ^ 32 ∨ c.currentIndexingSnapshot = none := by
  constructor
  · intro hdescends
    by_contra hnot
    obtain ⟨hzero, hcurrent⟩ := not_or.1 hnot
    have hzero := Nat.eq_zero_of_not_pos hzero
    obtain ⟨env, c', range, hissued, hconfig, hcurrent'⟩ := exists_issued store durable hmode hlow hzero hcurrent
    have hlowest := config_lowest hconfig
    obtain ⟨rest, hlength, hscan⟩ := exists_scan store (range.2 + 1) durable range
      ((config_mode hconfig).trans hmode) (hlowest ▸ hlow) (hlowest ▸ hzero) hcurrent'
    have hbound := (hdescends _ _ _ _ _ _ hissued hscan).2
    rw [List.length_cons, hlength] at hbound
    omega
  · intro hcondition env c' durable' passed range rest hissued hscan
    obtain ⟨hconfig, hle, hfrom, hstay⟩ := getNextRange_issued hmode hlow hissued
    have hlowest := config_lowest hconfig
    rcases hcondition with hpositive | hsynced
    · exact hscan.descends ((config_mode hconfig).trans hmode) (hlowest ▸ hpositive) (hlowest ▸ hfrom) hle
    · -- a synced cursor passes nothing, so that it would have a current snapshot
      exfalso
      have hpassed : passed = [] := by
        have hskip : (BackwardCursor.skipIndexed env.view env.delete env.limit c durable).2.2.1 = [] := by
          cases env.limit with
          | zero => rfl
          | succ limit =>
            unfold BackwardCursor.skipIndexed
            rw [hsynced]
        have hcases := (getNextRange_cases store env c durable).1
        rw [hissued, hskip] at hcases
        exact hcases
      obtain ⟨t, ht, -⟩ := hstay hpassed
      rw [hsynced] at ht
      cases ht

/-- the cursor of one message at block 0: block 0 is queried again and again -/
theorem backward_not_descends :
    ¬ (BackwardCursor.new 5 0 (fun _ => none) 1 0 .Block).Descends .rocks fun _ => none := by
  intro hdescends
  rcases (backward_descends_iff .rocks _ _ rfl le_rfl).1 hdescends with hpositive | hsynced
  · exact absurd hpositive (by decide)
  · exact absurd hsynced (by decide)

/-- from block 6 down to the lowest block 1 -/
theorem backward_descends_one :
    let c := BackwardCursor.new 5 1 (fun _ => none) 1 6 .Block
    let env : Surroundings := ⟨⟨fun _ => .ok false, fun _ => .ok none⟩, 1, fun _ => .done, .error (), 0, .done⟩
    (c.getNextRange .rocks env fun _ => none).2.2.2 = .ok (some (1, 6)) ∧ c.Descends .rocks fun _ => none :=
  ⟨by decide +kernel, (backward_descends_iff .rocks _ _ rfl (by decide)).2 (Or.inl (by decide))⟩

end Hyperlane.Cursor
