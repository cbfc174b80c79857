/-
The early stop and the bounded steps of a checkpoint batch (agents/validator/src/submit.rs: `replay_cannot_improve_vote`,
`verify_checkpoint_batch_step`).

A vote counts reports that match the roots known so far. Replaying more leaves makes more roots known and changes none, so
the rank that decides lies between that of the matching reports and that of the possible ones; when they meet, replaying
changes nothing (`early_stop`). A step that stops at its limit leaves a tree on which the next step resets nothing and goes
on where the loop was (`replay_resumes`).

- `evaluate_grown`: the vote of a tree on which replaying cannot help is the vote of each later tree.
- `steps_settled`: enough bounded steps end as one unbounded call does.
- `batch_unchanged`: both, for every tree of a run.
-/
import Hyperlane.Validator.Consensus

namespace Hyperlane.Validator

open Hyperlane.Accumulator Hyperlane.Outcome

variable {H : Type} [DecidableEq H] (K : Keccak H) (s : ValidatorSubmitter H)

/-! ## Model -/

/-- `verify_checkpoint_batch` -/
def verifyCheckpointBatch (tree : CheckpointTree H) (checkpoints : Samples H) (db : Insertions H) :
    Except Panic (CheckpointTree H × Option (CheckpointBatch H)) :=
  verifyCheckpointBatchStep K s tree checkpoints (2 ^ 64 - 1) db

/-- calls of `verify_checkpoint_batch_step` with these limits until one returns a batch -/
def verifyInSteps (checkpoints : Samples H) (db : Insertions H) :
    List ℕ → CheckpointTree H → Except Panic (CheckpointTree H × Option (CheckpointBatch H))
  | [], tree => .ok (tree, none)
  | limit :: limits, tree => do
    let (tree, batch) ← verifyCheckpointBatchStep K s tree checkpoints limit db
    match batch with
    | some batch => .ok (tree, some batch)
    | none => verifyInSteps checkpoints db limits tree

/-- the replay loop without its early stop -/
def replayAll (indices : List ℕ) (db : Insertions H) : ℕ → CheckpointTree H → Except Panic (CheckpointTree H)
  | 0, tree => .ok tree
  | left + 1, tree =>
    if U32_MAX < tree.accumulated.count then .error .leafCount
    else
      match db tree.accumulated.count with
      | .error _ => .error .database
      | .ok none => .ok tree
      | .ok (some messageId) => do
        replayAll indices db left (← tree.ingest K messageId (indices.contains tree.accumulated.count))

/-- up to the highest sampled index -/
def replayAvailable (tree : CheckpointTree H) (checkpoints : Samples H) (db : Insertions H) :
    Except Panic (CheckpointTree H) :=
  let indices := checkpoints.reports.map (·.index)
  replayAll K indices db (indices.max?.elim 0 (· + 1) - tree.accumulated.count) tree

/-- the trees that calls from a restored tree leave, and those within a call -/
inductive Reachable (t0 : IncrementalMerkle H) : CheckpointTree H → Prop
  | start : Reachable t0 (CheckpointTree.new t0)
  | call {tree tree' : CheckpointTree H} {batch : Option (CheckpointBatch H)} (h : Reachable t0 tree) (c : Call H)
      (hc : step K s tree c = .ok (tree', batch)) : Reachable t0 tree'
  | prepare {tree : CheckpointTree H} (h : Reachable t0 tree) (indices : List ℕ) :
      Reachable t0 (tree.prepareSamples indices)
  | ingest {tree tree' : CheckpointTree H} (h : Reachable t0 tree) (messageId : H) (capture : Bool)
      (hi : tree.ingest K messageId capture = .ok tree') : Reachable t0 tree'

variable {K s} {t0 : IncrementalMerkle H} {tree tree' full : CheckpointTree H} {checkpoints : Samples H}
  {indices : List ℕ} {db : Insertions H}

theorem Reachable.inv (h : Reachable K s t0 tree) (hcap : t0.count ≤ U32_MAX) : ∃ C A, Inv K t0 C A tree := by
  induction h with
  | start => exact ⟨[], [], new_inv K t0 rfl⟩
  | call _ c hc ih =>
    obtain ⟨C, A, hinv⟩ := ih
    rcases (step_ends (s := s) hinv hcap c).of_ok hc with ⟨⟨A', hinv'⟩, -⟩ | ⟨C', A', -, -, hinv', -⟩
    · exact ⟨C, A', hinv'⟩
    · exact ⟨C', A', hinv'⟩
  | prepare _ indices ih =>
    obtain ⟨C, A, hinv⟩ := ih
    obtain ⟨A', hinv'⟩ := prepareSamples_inv hinv indices
    exact ⟨C, A', hinv'⟩
  | ingest _ messageId capture hi ih =>
    obtain ⟨C, A, hinv⟩ := ih
    exact ⟨C, A ++ [messageId], ((ingest_ends hinv messageId capture).of_ok hi).1⟩

/-! ## More leaves -/

/-- the later tree knows what the earlier one knows -/
structure Grown (a b : CheckpointTree H) : Prop where
  committed : b.committed = a.committed
  sampled : ∀ i x, a.sampled i = some x → b.sampled i = some x

omit [DecidableEq H] in
theorem Grown.refl (a : CheckpointTree H) : Grown a a := ⟨rfl, fun _ _ h => h⟩

omit [DecidableEq H] in
theorem Grown.trans {a b c : CheckpointTree H} (h : Grown a b) (h' : Grown b c) : Grown a c :=
  ⟨h'.committed.trans h.committed, fun i x hx => h'.sampled i x (h.sampled i x hx)⟩

omit [DecidableEq H] in
/-- what an ingested leaf changes -/
theorem ingest_cases {messageId : H} {capture : Bool} (h : tree.ingest K messageId capture = .ok tree') :
    tree'.committed = tree.committed ∧ tree'.accumulated.count = tree.accumulated.count + 1 ∧
      tree'.accumulated.count ≤ U32_MAX ∧
      (capture = false → tree'.sampled = tree.sampled) ∧
      (capture = true → ∃ x, tree'.sampled = Function.update tree.sampled tree.accumulated.count (some x)) := by
  unfold CheckpointTree.ingest at h
  cases hacc : tree.accumulated.ingest K messageId with
  | none => simp [hacc] at h
  | some accumulated =>
    obtain ⟨hcount, hle⟩ := IncrementalMerkle.ingest_count hacc
    simp only [hacc] at h
    cases capture with
    | false =>
      obtain rfl := Except.ok.inj h
      exact ⟨rfl, hcount, hle, (fun _ => rfl), (fun h => nomatch h)⟩
    | true =>
      have hindex : accumulated.index = some tree.accumulated.count := by
        unfold U32_MAX at hle
        rw [IncrementalMerkle.index, if_neg (by omega), Nat.mod_eq_of_lt (by omega), hcount, Nat.add_sub_cancel]
      simp only [hindex, if_true] at h
      obtain rfl := Except.ok.inj h
      exact ⟨rfl, hcount, hle, (fun h => nomatch h), fun _ => ⟨_, rfl⟩⟩

omit [DecidableEq H] in
theorem Inv.sampled_lt {C A : List H} (h : Inv K t0 C A tree) {i : ℕ} {x : IncrementalMerkle H × H}
    (hx : tree.sampled i = some x) : i < tree.accumulated.count := by
  obtain ⟨-, S, hS, -, hlength, -⟩ := h.sampled_eq i x.1 x.2 hx
  have hcount := (IncrementalMerkle.ingestAll_count h.accumulated_eq).1
  have hle := hS.length_le
  omega

omit [DecidableEq H] in
theorem ingest_grown {C A : List H} {messageId : H} {capture : Bool} (h : Inv K t0 C A tree)
    (hi : tree.ingest K messageId capture = .ok tree') : Grown tree tree' := by
  obtain ⟨hcommitted, -, -, hkept, hcaptured⟩ := ingest_cases hi
  refine ⟨hcommitted, fun i x hx => ?_⟩
  cases capture with
  | false => rwa [hkept rfl]
  | true =>
    obtain ⟨y, hy⟩ := hcaptured rfl
    rw [hy, Function.update_of_ne (h.sampled_lt hx).ne]
    exact hx

omit [DecidableEq H] in
theorem replayAll_grown {left : ℕ} {C A : List H} (h : Inv K t0 C A tree)
    (hr : replayAll K indices db left tree = .ok full) : Grown tree full := by
  induction left generalizing tree A with
  | zero =>
    obtain rfl := Except.ok.inj hr
    exact Grown.refl _
  | succ left ih =>
    unfold replayAll at hr
    split_ifs at hr
    split at hr
    · cases hr
    · obtain rfl := Except.ok.inj hr
      exact Grown.refl _
    next messageId _ =>
      obtain ⟨next, hnext, hrest⟩ := bind_eq_ok.1 hr
      have hinv := ((ingest_ends h messageId _).of_ok hnext).1
      exact (ingest_grown h hnext).trans (ih hinv hrest)

/-! ## The vote of a later tree -/

omit [DecidableEq H] in
theorem Grown.rootAt {a b : CheckpointTree H} (h : Grown a b) {i : ℕ} {root : H} (hroot : a.rootAt K i = some root) :
    b.rootAt K i = some root := by
  unfold CheckpointTree.rootAt at hroot ⊢
  rw [h.committed]
  split_ifs at hroot ⊢ with hindex
  · exact hroot
  · obtain ⟨x, hx, rfl⟩ := Option.map_eq_some_iff.1 hroot
    rw [h.sampled i x hx, Option.map_some]

theorem vote_matching {a : CheckpointTree H} {o : Checkpoint H} : vote K s a o = .matching ↔
    treeExceedsCheckpoint o a.committed = false ∧ a.rootAt K o.index = some o.root ∧
      s.checkpoint o.root o.index = o := by
  unfold vote
  split_ifs with hbehind
  · simp [hbehind]
  · cases hroot : a.rootAt K o.index with
    | none => simp
    | some root =>
      simp only [Option.some.injEq]
      split_ifs with heq
      · refine ⟨fun _ => ⟨Bool.not_eq_true _ ▸ hbehind, ?_, ?_⟩, fun _ => rfl⟩
        · exact congrArg Checkpoint.root heq
        · rwa [show o.root = root from (congrArg Checkpoint.root heq).symm]
      · refine ⟨(fun h => nomatch h), fun h => absurd ?_ heq⟩
        rw [h.2.1]
        exact h.2.2

theorem Grown.matching {a b : CheckpointTree H} (h : Grown a b) {o : Checkpoint H} (ho : vote K s a o = .matching) :
    vote K s b o = .matching := by
  obtain ⟨hbehind, hroot, heq⟩ := vote_matching.1 ho
  exact vote_matching.2 ⟨h.committed ▸ hbehind, h.rootAt hroot, heq⟩

/-- what matches later was possible before -/
theorem Grown.possible {a b : CheckpointTree H} (h : Grown a b) {o : Checkpoint H} (ho : vote K s b o = .matching) :
    vote K s a o = .matching ∨ vote K s a o = .missing := by
  obtain ⟨hbehind, hroot, heq⟩ := vote_matching.1 ho
  rw [h.committed] at hbehind
  cases hold : a.rootAt K o.index with
  | none =>
    refine .inr ?_
    unfold vote
    rw [if_neg (by rw [hbehind]; exact Bool.false_ne_true), hold]
  | some root =>
    obtain rfl : root = o.root := Option.some.inj ((h.rootAt hold).symm.trans hroot)
    exact .inl (vote_matching.2 ⟨hbehind, hold, heq⟩)

/-- the reports that match -/
def matchingReports (K : Keccak H) (s : ValidatorSubmitter H) (tree : CheckpointTree H) (checkpoints : Samples H) :
    List (Checkpoint H) := checkpoints.reports.filter fun o => vote K s tree o = .matching

def possibleReports (K : Keccak H) (s : ValidatorSubmitter H) (tree : CheckpointTree H) (checkpoints : Samples H) :
    List (Checkpoint H) :=
  checkpoints.reports.filter fun o => vote K s tree o = .matching || vote K s tree o = .missing

theorem Grown.matching_sublist {a b : CheckpointTree H} (h : Grown a b) :
    (matchingReports K s a checkpoints).Sublist (matchingReports K s b checkpoints) := by
  refine List.monotone_filter_right _ fun o ho => ?_
  simp only [decide_eq_true_eq] at ho ⊢
  exact h.matching ho

theorem Grown.possible_sublist {a b : CheckpointTree H} (h : Grown a b) :
    (matchingReports K s b checkpoints).Sublist (possibleReports K s a checkpoints) := by
  refine List.monotone_filter_right _ fun o ho => ?_
  simp only [decide_eq_true_eq] at ho
  rcases h.possible ho with ho | ho
  · simp [ho]
  · simp [ho]

omit [DecidableEq H] in
/-- the report of a rank, by its index -/
theorem rank_index (l : List (Checkpoint H)) (k : ℕ) :
    ((l.insertionSort fun a b => b.index ≤ a.index)[k]?).map Checkpoint.index =
      ((l.map Checkpoint.index).insertionSort (· ≥ ·))[k]? := by
  have hmap := List.map_insertionSort (r := fun a b : Checkpoint H => b.index ≤ a.index) (s := fun a b : ℕ => a ≥ b)
    Checkpoint.index l fun _ _ _ _ => Iff.rfl
  rw [← List.getElem?_map, hmap]

omit [DecidableEq H] in
theorem sorted_getElem {l : List (Checkpoint H)} {k : ℕ} (hk : k < l.length) : ∃ t ∈ l,
    (l.insertionSort fun a b => b.index ≤ a.index)[k]? = some t := by
  have hlength : k < (l.insertionSort fun a b => b.index ≤ a.index).length := by rwa [List.length_insertionSort]
  refine ⟨_, (List.perm_insertionSort _ l).mem_iff.1 (List.getElem_mem hlength), List.getElem?_eq_getElem hlength⟩

omit [DecidableEq H] in
theorem sublist_rank_le {l₁ l₂ : List (Checkpoint H)} (h : l₁.Sublist l₂) {k : ℕ} {a b : Checkpoint H}
    (ha : (l₁.insertionSort fun a b => b.index ≤ a.index)[k]? = some a)
    (hb : (l₂.insertionSort fun a b => b.index ≤ a.index)[k]? = some b) : a.index ≤ b.index := by
  refine kth_le (k := k) (fun x => (h.map Checkpoint.index).countP_le) ?_ ?_
  · rw [← rank_index, ha, Option.map_some]
  · rw [← rank_index, hb, Option.map_some]

omit [DecidableEq H] in
theorem required_pos {c : CheckpointConsensus} {n r : ℕ} (h : c.required n = .ok r) : 0 < r :=
  ((required_ends c n).of_ok h).2

/-- what the check says of the ranks -/
theorem cannotImprove_true (h : replayCannotImproveVote K s tree checkpoints = .ok true) :
    ∃ r, s.checkpointConsensus.required checkpoints.length = .ok r ∧ 0 < r ∧
      r ≤ (matchingReports K s tree checkpoints).length ∧
      (((matchingReports K s tree checkpoints).map Checkpoint.index).insertionSort (· ≥ ·))[r - 1]? =
        (((possibleReports K s tree checkpoints).map Checkpoint.index).insertionSort (· ≥ ·))[r - 1]? := by
  obtain ⟨r, hr, hrest⟩ := bind_eq_ok.1 h
  refine ⟨r, hr, required_pos hr, ?_⟩
  simp only [List.length_map] at hrest
  split_ifs at hrest with hfew
  · cases hrest
  · exact ⟨not_lt.1 hfew, of_decide_eq_true (Except.ok.inj hrest)⟩

/-- a vote with enough matching reports commits the one of the rank -/
theorem evaluate_matching {r : ℕ} {target : Checkpoint H}
    (hr : s.checkpointConsensus.required checkpoints.length = .ok r)
    (hle : r ≤ (matchingReports K s tree checkpoints).length)
    (htarget : ((matchingReports K s tree checkpoints).insertionSort fun a b => b.index ≤ a.index)[r - 1]? =
      some target) :
    evaluateCheckpointBatch K s tree checkpoints =
      (tree.commit K target.index).map fun x => (x.1, .Verified target x.2) := by
  unfold evaluateCheckpointBatch
  rw [hr, ok_bind]
  rw [matchingReports] at hle htarget
  dsimp only
  rw [if_neg (not_lt.2 hle), htarget]
  change (tree.commit K target.index >>= fun x => .ok (x.1, CheckpointBatch.Verified target x.2)) = _
  cases tree.commit K target.index with
  | ok x => rfl
  | error e => rfl

/-- a commit of a matching report is that of a later tree -/
theorem commit_grown (h : Grown tree full) {target : Checkpoint H} (hmatching : vote K s tree target = .matching) :
    ∃ t₁ t₂ latest, tree.commit K target.index = .ok (t₁, latest) ∧ full.commit K target.index = .ok (t₂, latest) ∧
      t₁.committed = t₂.committed := by
  unfold CheckpointTree.commit
  rw [h.committed]
  split_ifs with hindex
  · exact ⟨tree, full, none, rfl, rfl, h.committed.symm⟩
  · obtain ⟨-, hroot, -⟩ := vote_matching.1 hmatching
    rw [CheckpointTree.rootAt, if_neg hindex] at hroot
    obtain ⟨⟨frontier, messageId⟩, hx, -⟩ := Option.map_eq_some_iff.1 hroot
    rw [hx, h.sampled _ _ hx]
    exact ⟨_, _, _, rfl, rfl, rfl⟩

/-- **The early stop is sound.** When replaying cannot improve the vote, it is the vote of every later tree. -/
theorem evaluate_grown (h : Grown tree full) (hcheck : replayCannotImproveVote K s tree checkpoints = .ok true) :
    ∃ target latest t₁ t₂, evaluateCheckpointBatch K s tree checkpoints = .ok (t₁, .Verified target latest) ∧
      evaluateCheckpointBatch K s full checkpoints = .ok (t₂, .Verified target latest) ∧
      t₁.committed = t₂.committed := by
  obtain ⟨r, hr, hpos, hle, hranks⟩ := cannotImprove_true hcheck
  have hsub : (matchingReports K s tree checkpoints).Sublist (matchingReports K s full checkpoints) := h.matching_sublist
  have hsub' : (matchingReports K s full checkpoints).Sublist (possibleReports K s tree checkpoints) :=
    h.possible_sublist
  have hlt : r - 1 < (matchingReports K s tree checkpoints).length := by omega
  obtain ⟨target, hmem, htarget⟩ := sorted_getElem hlt
  obtain ⟨target', hmem', htarget'⟩ := sorted_getElem (hlt.trans_le hsub.length_le)
  obtain ⟨possible, -, hpossible⟩ := sorted_getElem (hlt.trans_le (hsub.trans hsub').length_le)
  -- the rank lies between that of the matching reports and that of the possible ones
  have hindex : target.index = target'.index := by
    rw [← rank_index, ← rank_index, htarget, hpossible, Option.map_some, Option.map_some] at hranks
    have hlow := sublist_rank_le hsub htarget htarget'
    have hhigh := sublist_rank_le hsub' htarget' hpossible
    have := Option.some.inj hranks
    omega
  have hmatching : vote K s tree target = .matching := of_decide_eq_true (List.mem_filter.1 hmem).2
  have hmatching' : vote K s full target' = .matching := of_decide_eq_true (List.mem_filter.1 hmem').2
  have hsame : target = target' := by
    obtain ⟨-, hroot, heq⟩ := vote_matching.1 (h.matching hmatching)
    obtain ⟨-, hroot', heq'⟩ := vote_matching.1 hmatching'
    rw [hindex] at hroot
    rw [← heq, ← heq', hindex, Option.some.inj (hroot.symm.trans hroot')]
  obtain ⟨t₁, t₂, latest, hcommit, hcommit', hcommitted⟩ := commit_grown h hmatching
  refine ⟨target, latest, t₁, t₂, ?_, ?_, hcommitted⟩
  · rw [evaluate_matching hr hle htarget, hcommit]
    rfl
  · rw [evaluate_matching hr (hle.trans hsub.length_le) htarget', ← hsame, hcommit']
    rfl

/-! ## A step that stops at its limit -/

/-- every sampled index between the frontiers has been captured, and no other one -/
structure Prepared (indices : List ℕ) (tree : CheckpointTree H) : Prop where
  captured : ∀ i ∈ indices, tree.committed.count ≤ i → i < tree.accumulated.count → (tree.sampled i).isSome
  only : ∀ i x, tree.sampled i = some x → i ∈ indices

omit [DecidableEq H] in
theorem prepareSamples_prepared (tree : CheckpointTree H) (indices : List ℕ) :
    Prepared indices (tree.prepareSamples indices) := by
  unfold CheckpointTree.prepareSamples
  dsimp only
  split_ifs with hreset
  · exact ⟨fun i _ hle hlt => absurd hlt (not_lt.2 hle), fun i x hx => nomatch hx⟩
  · refine ⟨fun i hi hle hlt => ?_, fun i x hx => ?_⟩
    · by_contra hnone
      rw [Bool.not_eq_true, Option.isSome_eq_false_iff] at hnone
      refine hreset (List.any_eq_true.2 ⟨i, hi, ?_⟩)
      simp only [Bool.and_eq_true, decide_eq_true_eq]
      exact ⟨⟨hle, hlt⟩, hnone⟩
    · by_contra hi
      dsimp only at hx
      rw [if_neg hi] at hx
      cases hx

omit [DecidableEq H] in
/-- nothing is reset once more -/
theorem Prepared.prepareSamples (h : Prepared indices tree) : tree.prepareSamples indices = tree := by
  have hretained : (fun i => if i ∈ indices then tree.sampled i else none) = tree.sampled := by
    funext i
    split_ifs with hi
    · rfl
    · cases hx : tree.sampled i with
      | none => rfl
      | some x => exact absurd (h.only i x hx) hi
  have hreset : ¬ (indices.any fun i => tree.committed.count ≤ i && i < tree.accumulated.count &&
      (if i ∈ indices then tree.sampled i else none).isNone) = true := by
    rw [Bool.not_eq_true, List.any_eq_false]
    intro i hi hmissing
    rw [if_pos hi] at hmissing
    simp only [Bool.and_eq_true, decide_eq_true_eq] at hmissing
    obtain ⟨⟨hle, hlt⟩, hnone⟩ := hmissing
    exact Option.not_isSome_iff_eq_none.2 (Option.isNone_iff_eq_none.1 hnone) (h.captured i hi hle hlt)
  unfold CheckpointTree.prepareSamples
  dsimp only
  rw [if_neg hreset, hretained]

omit [DecidableEq H] in
theorem Prepared.ingest (h : Prepared indices tree) {messageId : H}
    (hi : tree.ingest K messageId (indices.contains tree.accumulated.count) = .ok tree') : Prepared indices tree' := by
  obtain ⟨hcommitted, hcount, -, hkept, hcaptured⟩ := ingest_cases hi
  cases hcontains : indices.contains tree.accumulated.count with
  | false =>
    have hnot : tree.accumulated.count ∉ indices := by simpa using hcontains
    refine ⟨fun i hmem hle hlt => ?_, fun i x hx => h.only i x (hkept hcontains ▸ hx)⟩
    have hne : i ≠ tree.accumulated.count := fun heq => hnot (heq ▸ hmem)
    rw [hkept hcontains]
    exact h.captured i hmem (hcommitted ▸ hle) (by omega)
  | true =>
    obtain ⟨y, hy⟩ := hcaptured hcontains
    refine ⟨fun i hmem hle hlt => ?_, fun i x hx => ?_⟩
    · by_cases heq : i = tree.accumulated.count
      · rw [hy, heq, Function.update_self]
        rfl
      · rw [hy, Function.update_of_ne heq]
        exact h.captured i hmem (hcommitted ▸ hle) (by omega)
    · by_cases heq : i = tree.accumulated.count
      · simpa [heq] using hcontains
      · rw [hy, Function.update_of_ne heq] at hx
        exact h.only i x hx

/-- the check reads the committed frontier and the samples -/
theorem cannotImprove_congr {a b : CheckpointTree H} (hcommitted : b.committed = a.committed)
    (hsampled : b.sampled = a.sampled) :
    replayCannotImproveVote K s b checkpoints = replayCannotImproveVote K s a checkpoints := by
  have hvote : ∀ o, vote K s b o = vote K s a o := by
    intro o
    unfold vote CheckpointTree.rootAt
    rw [hcommitted, hsampled]
  unfold replayCannotImproveVote
  simp only [hvote]

omit [DecidableEq H] in
theorem auditCommitted_congr [DecidableEq H] {a b : CheckpointTree H} (hcommitted : b.committed = a.committed) :
    auditCommitted K s b checkpoints = auditCommitted K s a checkpoints := by
  unfold auditCommitted
  rw [hcommitted]

/-- a tree on which a step may go on -/
structure Resumable (K : Keccak H) (s : ValidatorSubmitter H) (checkpoints : Samples H) (indices : List ℕ)
    (tree : CheckpointTree H) : Prop where
  prepared : Prepared indices tree
  check : replayCannotImproveVote K s tree checkpoints = .ok false
  count : tree.accumulated.count ≤ U32_MAX

/-- a leaf that does not stop the loop -/
theorem Resumable.ingest {messageId : H} (h : Resumable K s checkpoints indices tree)
    (hi : tree.ingest K messageId (indices.contains tree.accumulated.count) = .ok tree')
    (hcheck : indices.contains tree.accumulated.count = true → replayCannotImproveVote K s tree' checkpoints = .ok false) :
    Resumable K s checkpoints indices tree' ∧ tree'.committed = tree.committed ∧
      tree'.accumulated.count = tree.accumulated.count + 1 := by
  obtain ⟨hcommitted, hcount, hle, hkept, -⟩ := ingest_cases hi
  refine ⟨⟨h.prepared.ingest hi, ?_, hle⟩, hcommitted, hcount⟩
  cases hcontains : indices.contains tree.accumulated.count with
  | true => exact hcheck hcontains
  | false => rw [cannotImprove_congr hcommitted (hkept hcontains), h.check]

/-- the loop with room takes in a leaf -/
theorem replay_succ {stop left : ℕ} (hstop : ¬ stop ≤ tree.accumulated.count)
    (hroom : ¬ U32_MAX < tree.accumulated.count) : replay K s checkpoints indices db stop (left + 1) tree =
      match db tree.accumulated.count with
      | .error _ => .error .database
      | .ok none => .ok (tree, true)
      | .ok (some messageId) =>
        tree.ingest K messageId (indices.contains tree.accumulated.count) >>= fun next =>
          if indices.contains tree.accumulated.count then
            replayCannotImproveVote K s next checkpoints >>= fun stopped =>
              if stopped then .ok (next, true) else replay K s checkpoints indices db stop left next
          else replay K s checkpoints indices db stop left next := by
  rw [replay, if_neg hstop]
  exact if_neg hroom

/-- **The loop resumes.** A loop that stops at its limit leaves a tree from which an unbounded one goes on as it would
have; a loop that ends otherwise ends as an unbounded one. -/
theorem replay_resumes (stop : ℕ) {most : ℕ} (left : ℕ) (hmost : U32_MAX < most) (h : Resumable K s checkpoints indices tree) :
    (∃ t rest, replay K s checkpoints indices db stop left tree = .ok (t, false) ∧
      Resumable K s checkpoints indices t ∧ t.committed = tree.committed ∧ stop ≤ t.accumulated.count ∧ 0 < rest ∧
      t.accumulated.count + rest = tree.accumulated.count + left ∧
      replay K s checkpoints indices db most left tree = replay K s checkpoints indices db most rest t) ∨
    ((∀ t, replay K s checkpoints indices db stop left tree ≠ .ok (t, false)) ∧
      replay K s checkpoints indices db most left tree = replay K s checkpoints indices db stop left tree) := by
  induction left generalizing tree with
  | zero => exact .inr ⟨(fun t ht => by simp [replay] at ht), rfl⟩
  | succ left ih =>
    by_cases hstop : stop ≤ tree.accumulated.count
    · refine .inl ⟨tree, left + 1, ?_, h, rfl, hstop, Nat.succ_pos _, rfl, rfl⟩
      rw [replay, if_pos hstop]
    have hmore : ¬ most ≤ tree.accumulated.count := not_le.2 (h.count.trans_lt hmost)
    have hroom : ¬ U32_MAX < tree.accumulated.count := not_lt.2 h.count
    rw [replay_succ hstop hroom, replay_succ hmore hroom]
    cases hdb : db tree.accumulated.count with
    | error e => exact .inr ⟨(fun t ht => nomatch ht), rfl⟩
    | ok row =>
      cases row with
      | none => exact .inr ⟨(fun t ht => by simp at ht), rfl⟩
      | some messageId =>
        dsimp only
        cases hi : tree.ingest K messageId (indices.contains tree.accumulated.count) with
        | error e => exact .inr ⟨(fun t ht => nomatch ht), rfl⟩
        | ok next =>
          rw [ok_bind, ok_bind]
          by_cases hcontains : indices.contains tree.accumulated.count = true
          · rw [if_pos hcontains, if_pos hcontains]
            cases hcheck : replayCannotImproveVote K s next checkpoints with
            | error e => exact .inr ⟨(fun t ht => nomatch ht), rfl⟩
            | ok stopped =>
              rw [ok_bind, ok_bind]
              cases stopped with
              | true => exact .inr ⟨(fun t ht => by simp at ht), rfl⟩
              | false =>
                obtain ⟨hnext, hcommitted, hcount⟩ := h.ingest hi fun _ => hcheck
                rw [if_neg Bool.false_ne_true, if_neg Bool.false_ne_true]
                rcases ih hnext with ⟨t, rest, h1, h2, h3, h4, h5, h6, h7⟩ | hother
                · exact .inl ⟨t, rest, h1, h2, h3.trans hcommitted, h4, h5, by omega, h7⟩
                · exact .inr hother
          · obtain ⟨hnext, hcommitted, hcount⟩ := h.ingest hi fun h => absurd h hcontains
            rw [if_neg hcontains, if_neg hcontains]
            rcases ih hnext with ⟨t, rest, h1, h2, h3, h4, h5, h6, h7⟩ | hother
            · exact .inl ⟨t, rest, h1, h2, h3.trans hcommitted, h4, h5, by omega, h7⟩
            · exact .inr hother

/-- an unbounded loop never stops at its limit -/
theorem replay_unbounded {most left : ℕ} (hmost : U32_MAX < most) (h : Resumable K s checkpoints indices tree)
    (t : CheckpointTree H) : replay K s checkpoints indices db most left tree ≠ .ok (t, false) := by
  rcases replay_resumes most left hmost h with ⟨t', rest, -, h2, -, h4, -⟩ | ⟨hnot, -⟩
  · exact absurd h2.count (not_le.2 (hmost.trans_le h4))
  · exact hnot t

/-- the end of a step -/
def finish (K : Keccak H) (s : ValidatorSubmitter H) (checkpoints : Samples H) :
    Except Panic (CheckpointTree H × Bool) → Except Panic (CheckpointTree H × Option (CheckpointBatch H))
  | .error e => .error e
  | .ok (tree, true) => do
    let (tree, batch) ← evaluateCheckpointBatch K s tree checkpoints
    .ok (tree, some batch)
  | .ok (tree, false) => .ok (tree, none)

/-- a step on a tree that is audited, with the highest index -/
theorem step_eq {limit most : ℕ} (haudit : auditCommitted K s tree checkpoints = .ok ())
    (hmax : (checkpoints.reports.map (·.index)).max? = some most) :
    verifyCheckpointBatchStep K s tree checkpoints limit db =
      (replayCannotImproveVote K s (tree.prepareSamples (checkpoints.reports.map (·.index))) checkpoints >>= fun stop =>
        finish K s checkpoints (if stop then .ok (tree.prepareSamples (checkpoints.reports.map (·.index)), true)
          else replay K s checkpoints (checkpoints.reports.map (·.index)) db
            (min ((tree.prepareSamples (checkpoints.reports.map (·.index))).accumulated.count + limit) (2 ^ 64 - 1))
            (most + 1 - (tree.prepareSamples (checkpoints.reports.map (·.index))).accumulated.count)
            (tree.prepareSamples (checkpoints.reports.map (·.index))))) := by
  unfold verifyCheckpointBatchStep
  rw [haudit, ok_bind]
  simp only [hmax]
  congr 1
  funext stop
  generalize (if stop = true then Except.ok (tree.prepareSamples (checkpoints.reports.map (·.index)), true) else _) = r
  cases r with
  | error e => rfl
  | ok r =>
    obtain ⟨t, done⟩ := r
    cases done <;> rfl

/-- a step on a tree that may go on -/
theorem step_resumed {limit most : ℕ} (haudit : auditCommitted K s tree checkpoints = .ok ())
    (hmax : (checkpoints.reports.map (·.index)).max? = some most)
    (h : Resumable K s checkpoints (checkpoints.reports.map (·.index)) tree) :
    verifyCheckpointBatchStep K s tree checkpoints limit db =
      finish K s checkpoints (replay K s checkpoints (checkpoints.reports.map (·.index)) db
        (min (tree.accumulated.count + limit) (2 ^ 64 - 1)) (most + 1 - tree.accumulated.count) tree) := by
  rw [step_eq haudit hmax, h.prepared.prepareSamples, h.check, ok_bind, if_neg Bool.false_ne_true]

variable (K s checkpoints) in
theorem finish_done {r : Except Panic (CheckpointTree H × Bool)} (h : ∀ t, r ≠ .ok (t, false)) :
    ∀ t, finish K s checkpoints r ≠ .ok (t, none) := by
  intro t ht
  cases r with
  | error e => cases ht
  | ok r =>
    obtain ⟨t', done⟩ := r
    cases done with
    | false => exact h t' rfl
    | true =>
      obtain ⟨x, -, hx⟩ := bind_eq_ok.1 ht
      cases hx

/-- steps on a tree that may go on end as the unbounded loop does; each of them but the last takes in a leaf -/
theorem steps_resumed {most : ℕ} (hmax : (checkpoints.reports.map (·.index)).max? = some most) (limits : List ℕ)
    (hpos : ∀ l ∈ limits, 0 < l) (haudit : auditCommitted K s tree checkpoints = .ok ())
    (h : Resumable K s checkpoints (checkpoints.reports.map (·.index)) tree)
    (hlength : most + 1 - tree.accumulated.count < limits.length) :
    verifyInSteps K s checkpoints db limits tree =
      finish K s checkpoints (replay K s checkpoints (checkpoints.reports.map (·.index)) db (2 ^ 64 - 1)
        (most + 1 - tree.accumulated.count) tree) := by
  induction limits generalizing tree with
  | nil => simp at hlength
  | cons limit limits ih =>
    have hmost : U32_MAX < 2 ^ 64 - 1 := by norm_num
    rw [verifyInSteps, step_resumed haudit hmax h]
    rcases replay_resumes (min (tree.accumulated.count + limit) (2 ^ 64 - 1))
      (most + 1 - tree.accumulated.count) hmost h with
      ⟨t, rest, hlimited, ht, hcommitted, hstop, hrest, hsum, hfull⟩ | ⟨hnot, hfull⟩
    · -- the limit was reached behind where the step began
      have hlimit := hpos limit List.mem_cons_self
      have hgrown : tree.accumulated.count < t.accumulated.count := by
        have hcount := h.count
        unfold U32_MAX at hcount
        omega
      have hleft : rest = most + 1 - t.accumulated.count := by omega
      rw [hlimited, hfull, hleft]
      refine ih (fun l hl => hpos l (List.mem_cons_of_mem _ hl)) ?_ ht ?_
      · rw [auditCommitted_congr hcommitted, haudit]
      · rw [List.length_cons] at hlength
        omega
    · rw [hfull]
      have hdone := finish_done K s checkpoints hnot
      generalize finish K s checkpoints _ = r at hdone
      cases r with
      | error e => rfl
      | ok r =>
        obtain ⟨t, batch⟩ := r
        cases batch with
        | none => exact absurd rfl (hdone t)
        | some batch => rfl

/-- a step that is the last one -/
theorem steps_last {limit : ℕ} {limits : List ℕ}
    (h : ∀ t, verifyCheckpointBatchStep K s tree checkpoints limit db ≠ .ok (t, none)) :
    verifyInSteps K s checkpoints db (limit :: limits) tree = verifyCheckpointBatchStep K s tree checkpoints limit db := by
  rw [verifyInSteps]
  generalize verifyCheckpointBatchStep K s tree checkpoints limit db = r at h
  cases r with
  | error e => rfl
  | ok r =>
    obtain ⟨t, batch⟩ := r
    cases batch with
    | none => exact absurd rfl (h t)
    | some batch => rfl

/-- a step that returns the same with every limit, and a batch -/
theorem settled_of_limits (h : ∀ limit limit' : ℕ, verifyCheckpointBatchStep K s tree checkpoints limit db =
      verifyCheckpointBatchStep K s tree checkpoints limit' db)
    (hbatch : ∀ t, verifyCheckpointBatch K s tree checkpoints db ≠ .ok (t, none)) {limits : List ℕ}
    (hlength : 0 < limits.length) :
    verifyInSteps K s checkpoints db limits tree = verifyCheckpointBatch K s tree checkpoints db := by
  cases limits with
  | nil => simp at hlength
  | cons limit limits =>
    have hsame : verifyCheckpointBatchStep K s tree checkpoints limit db =
        verifyCheckpointBatch K s tree checkpoints db := h limit _
    rw [steps_last fun t => hsame ▸ hbatch t, hsame]

/-- a tree on which the check says that replaying may help -/
theorem settled_of_resumable {most : ℕ} (haudit : auditCommitted K s tree checkpoints = .ok ())
    (hmax : (checkpoints.reports.map (·.index)).max? = some most)
    (h : Resumable K s checkpoints (checkpoints.reports.map (·.index))
      (tree.prepareSamples (checkpoints.reports.map (·.index)))) :
    (∀ limits : List ℕ, (∀ l ∈ limits, 0 < l) → most + 2 ≤ limits.length →
      verifyInSteps K s checkpoints db limits tree = verifyCheckpointBatch K s tree checkpoints db) ∧
      ∀ t, verifyCheckpointBatch K s tree checkpoints db ≠ .ok (t, none) := by
  set p := tree.prepareSamples (checkpoints.reports.map (·.index)) with hp
  have hprepared : auditCommitted K s p checkpoints = .ok () := by
    rw [← haudit]
    refine auditCommitted_congr ?_
    rw [hp, CheckpointTree.prepareSamples]
    dsimp only
    split_ifs <;> rfl
  have hstep : ∀ limit, verifyCheckpointBatchStep K s tree checkpoints limit db =
      verifyCheckpointBatchStep K s p checkpoints limit db := by
    intro limit
    rw [step_resumed hprepared hmax h, step_eq haudit hmax, ← hp, h.check, ok_bind, if_neg Bool.false_ne_true]
  have hmost : U32_MAX < 2 ^ 64 - 1 := by norm_num
  have hbatch : verifyCheckpointBatch K s tree checkpoints db =
      finish K s checkpoints (replay K s checkpoints (checkpoints.reports.map (·.index)) db (2 ^ 64 - 1)
        (most + 1 - p.accumulated.count) p) := by
    rw [verifyCheckpointBatch, hstep, step_resumed hprepared hmax h, min_eq_right (Nat.le_add_left _ _)]
  refine ⟨fun limits hpos hlength => ?_, fun t => ?_⟩
  · rw [hbatch, ← steps_resumed hmax limits hpos hprepared h (by omega)]
    cases limits with
    | nil => simp at hlength
    | cons limit limits => rw [verifyInSteps, verifyInSteps, hstep]
  · rw [hbatch]
    exact finish_done K s checkpoints (replay_unbounded hmost h) t

/-- **Bounded steps.** Enough of them end as one unbounded call, which returns a batch unless it panics. -/
theorem steps_settled (hcount : (tree.prepareSamples (checkpoints.reports.map (·.index))).accumulated.count ≤ U32_MAX) :
    ∃ n, (∀ limits : List ℕ, (∀ l ∈ limits, 0 < l) → n ≤ limits.length →
      verifyInSteps K s checkpoints db limits tree = verifyCheckpointBatch K s tree checkpoints db) ∧
      ∀ t, verifyCheckpointBatch K s tree checkpoints db ≠ .ok (t, none) := by
  -- the steps that do not come to the loop return the same with every limit
  have hfirst : (∀ limit limit' : ℕ, verifyCheckpointBatchStep K s tree checkpoints limit db =
      verifyCheckpointBatchStep K s tree checkpoints limit' db) →
      (∀ t, verifyCheckpointBatch K s tree checkpoints db ≠ .ok (t, none)) →
      ∃ n, (∀ limits : List ℕ, (∀ l ∈ limits, 0 < l) → n ≤ limits.length →
        verifyInSteps K s checkpoints db limits tree = verifyCheckpointBatch K s tree checkpoints db) ∧
        ∀ t, verifyCheckpointBatch K s tree checkpoints db ≠ .ok (t, none) :=
    fun hlimits hbatch => ⟨1, fun limits _ hlength => settled_of_limits hlimits hbatch hlength, hbatch⟩
  cases haudit : auditCommitted K s tree checkpoints with
  | error e =>
    have hstep : ∀ limit, verifyCheckpointBatchStep K s tree checkpoints limit db = .error e := by
      intro limit
      rw [verifyCheckpointBatchStep, haudit]
      rfl
    refine hfirst (fun limit limit' => by rw [hstep, hstep]) fun t ht => ?_
    rw [verifyCheckpointBatch, hstep] at ht
    cases ht
  | ok u =>
    cases hmax : (checkpoints.reports.map (·.index)).max? with
    | none =>
      have hstep : ∀ limit, verifyCheckpointBatchStep K s tree checkpoints limit db =
          .ok (tree.prepareSamples (checkpoints.reports.map (·.index)), some .WaitingForRpc) := by
        intro limit
        rw [verifyCheckpointBatchStep, haudit, ok_bind]
        simp only [hmax]
      refine hfirst (fun limit limit' => by rw [hstep, hstep]) fun t ht => ?_
      rw [verifyCheckpointBatch, hstep] at ht
      cases ht
    | some most =>
      cases hcheck : replayCannotImproveVote K s (tree.prepareSamples (checkpoints.reports.map (·.index))) checkpoints with
      | error e =>
        have hstep : ∀ limit, verifyCheckpointBatchStep K s tree checkpoints limit db = .error e := by
          intro limit
          rw [step_eq haudit hmax, hcheck]
          rfl
        refine hfirst (fun limit limit' => by rw [hstep, hstep]) fun t ht => ?_
        rw [verifyCheckpointBatch, hstep] at ht
        cases ht
      | ok stop =>
        cases stop with
        | true =>
          have hstep : ∀ limit, verifyCheckpointBatchStep K s tree checkpoints limit db = finish K s checkpoints
              (.ok (tree.prepareSamples (checkpoints.reports.map (·.index)), true)) := by
            intro limit
            rw [step_eq haudit hmax, hcheck, ok_bind, if_pos rfl]
          refine hfirst (fun limit limit' => by rw [hstep, hstep]) fun t ht => ?_
          rw [verifyCheckpointBatch, hstep] at ht
          exact finish_done K s checkpoints (fun _ h => by simp at h) t ht
        | false =>
          exact ⟨most + 2, settled_of_resumable haudit hmax ⟨prepareSamples_prepared _ _, hcheck, hcount⟩⟩

/-- **Early stop and bounded steps do not change the vote.** On a tree of a run, with samples and insertions that stay as
they are: if the check says that replaying cannot improve the vote, the batch is evaluated as after replaying all
available leaves, to the same committed tree; and enough steps with any positive limits return what one call returns. -/
theorem batch_unchanged (K : Keccak H) (s : ValidatorSubmitter H) (t0 : IncrementalMerkle H) (hcap : t0.count ≤ U32_MAX)
    (tree : CheckpointTree H) (h : Reachable K s t0 tree) (checkpoints : Samples H) (db : Insertions H) :
    (∀ full, replayCannotImproveVote K s tree checkpoints = .ok true →
      replayAvailable K tree checkpoints db = .ok full →
        ∃ target latest t₁ t₂, evaluateCheckpointBatch K s tree checkpoints = .ok (t₁, .Verified target latest) ∧
          evaluateCheckpointBatch K s full checkpoints = .ok (t₂, .Verified target latest) ∧
          t₁.committed = t₂.committed) ∧
    ∃ n, (∀ limits : List ℕ, (∀ l ∈ limits, 0 < l) → n ≤ limits.length →
      verifyInSteps K s checkpoints db limits tree = verifyCheckpointBatch K s tree checkpoints db) ∧
      ∀ t, verifyCheckpointBatch K s tree checkpoints db ≠ .ok (t, none) := by
  obtain ⟨C, A, hinv⟩ := h.inv hcap
  refine ⟨fun full hcheck hreplay => evaluate_grown (replayAll_grown hinv hreplay) hcheck, steps_settled ?_⟩
  obtain ⟨C', A', hprepared⟩ := (h.prepare (checkpoints.reports.map (·.index))).inv hcap
  exact (IncrementalMerkle.ingestAll_count hprepared.accumulated_eq).2 hcap

/-- two leaves are replayed, and the vote on the second one is settled -/
theorem batch_unchanged_two : ∃ tree full target latest t₁ t₂,
    replayCannotImproveVote toyKeccak toySubmitter tree toySamples = .ok true ∧
      evaluateCheckpointBatch toyKeccak toySubmitter tree toySamples = .ok (t₁, .Verified target latest) ∧
      evaluateCheckpointBatch toyKeccak toySubmitter full toySamples = .ok (t₂, .Verified target latest) ∧
      t₁.committed = t₂.committed := by
  obtain ⟨tree, full, hreached, hcheck, hreplay⟩ : ∃ tree full,
      Reachable toyKeccak toySubmitter (IncrementalMerkle.default toyKeccak) tree ∧
        replayCannotImproveVote toyKeccak toySubmitter tree toySamples = .ok true ∧
        replayAvailable toyKeccak tree toySamples (fun i => .ok ([7, 8, 9][i]?)) = .ok full :=
    ⟨_, _, (Reachable.start.ingest 7 false rfl).ingest 8 true rfl, rfl, rfl⟩
  obtain ⟨target, latest, t₁, t₂, hstopped, hreplayed, hcommitted⟩ := (batch_unchanged toyKeccak toySubmitter _ (by decide)
    tree hreached toySamples _).1 full hcheck hreplay
  exact ⟨tree, full, target, latest, t₁, t₂, hcheck, hstopped, hreplayed, hcommitted⟩

end Hyperlane.Validator
