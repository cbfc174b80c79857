/-
The validator's consensus signing boundary (agents/validator/src/submit.rs, agents/validator/src/checkpoint_consensus.rs).

`CheckpointTree` keeps three overlapping trees: the committed frontier, the accumulated one that replays the indexed
insertions, and captured frontiers at the indices that endpoints reported. A batch step replays insertions, compares the
sampled frontiers with the endpoint reports and commits the required-th highest matching index. Recovery replaces the
suffix after the committed frontier by leaves fetched over RPC and takes the same vote.

Block heights are left out: nothing modelled reads them, and without them reports that agree are equal, so the order the
unstable sort gives to ties does not matter. The insertions a step reads are a function from the leaf index, chosen anew
for every step: within one step each index is read at most once.

Leaf sequences are relative to the restored tree: a tree is described by the leaves ingested since then.
- `Inv`: the committed leaves are a prefix of the accumulated ones; every captured frontier lies strictly after the
  committed frontier and is the tree of a prefix of the accumulated leaves.
- `evaluate_ends`: the vote commits such a prefix, and the matching reports are roots of its extensions.
- `step_ends`: every batch step and every recovery keeps the invariant.
- `consensus_signing_boundary`: the same over every run.
-/
import Hyperlane.Accumulator.Incremental
import Hyperlane.Core.Outcome

namespace Hyperlane.Validator

open Hyperlane.Accumulator Hyperlane.Outcome

variable {H : Type}

/-! ## Model -/

/-- the ways a worker panics -/
inductive Panic where
  /-- `checkpoint endpoint pool must not be empty` -/
  | emptyPool
  /-- `Incorrect tree root. Most likely a reorg has occurred.` -/
  | reorg
  /-- `Failed to fetch merkle tree insertion` -/
  | database
  /-- the capacity assertion of `IncrementalMerkle::ingest` -/
  | treeFull
  /-- `index is invalid when tree is empty` -/
  | emptyTree
  /-- `Merkle leaf count fits in u32` -/
  | leafCount
  /-- `verified sampled frontier` -/
  | sampledFrontier
  /-- `verified recovery advances the committed frontier` -/
  | recoveryFrontier
  /-- an index or a slice beyond the end of a vector -/
  | outOfBounds
deriving DecidableEq

/-- `Checkpoint`; also `CheckpointAtBlock`, without the height -/
structure Checkpoint (H : Type) where
  merkleTreeHookAddress : H
  mailboxDomain : ℕ
  root : H
  index : ℕ
deriving DecidableEq

structure CheckpointWithMessageId (H : Type) where
  checkpoint : Checkpoint H
  messageId : H
deriving DecidableEq

structure QueuedCheckpoint (H : Type) where
  root : H
  index : ℕ
  messageId : H
deriving DecidableEq

/-- `into_checkpoint` -/
def QueuedCheckpoint.intoCheckpoint (q : QueuedCheckpoint H) (verifiedCheckpoint : Checkpoint H) :
    CheckpointWithMessageId H :=
  ⟨{ verifiedCheckpoint with root := q.root, index := q.index }, q.messageId⟩

inductive CheckpointConsensus where
  | Quorum
  | Majority
deriving DecidableEq

def CheckpointConsensus.required (c : CheckpointConsensus) (endpointCount : ℕ) : Except Panic ℕ :=
  if endpointCount = 0 then .error .emptyPool
  else
    match c with
    | .Quorum => .ok ((endpointCount + 1) / 2)
    | .Majority => .ok (endpointCount - endpointCount / 3)

/-- the fields of the submitter that the checkpoint workers read -/
structure ValidatorSubmitter (H : Type) where
  /-- `merkle_tree_hook.address()` -/
  address : H
  /-- `merkle_tree_hook.domain().id()` -/
  domain : ℕ
  checkpointConsensus : CheckpointConsensus
  rpcRecovery : Bool
  maxSignConcurrency : ℕ
  /-- `signer.eth_address()` -/
  signer : ℕ
  concurrency_pos : 0 < maxSignConcurrency

def ValidatorSubmitter.checkpoint (s : ValidatorSubmitter H) (root : H) (index : ℕ) : Checkpoint H :=
  ⟨s.address, s.domain, root, index⟩

structure CheckpointTree (H : Type) where
  committed : IncrementalMerkle H
  accumulated : IncrementalMerkle H
  sampled : ℕ → Option (IncrementalMerkle H × H)

/-- `tree_exceeds_checkpoint` -/
def treeExceedsCheckpoint (checkpoint : Checkpoint H) (tree : IncrementalMerkle H) : Bool :=
  min (checkpoint.index + 1) U32_MAX < tree.count % 2 ^ 32

namespace CheckpointTree

def new (tree : IncrementalMerkle H) : CheckpointTree H := ⟨tree, tree, fun _ => none⟩

/-- `prepare_samples` -/
def prepareSamples (tree : CheckpointTree H) (indices : List ℕ) : CheckpointTree H :=
  let retained : ℕ → Option (IncrementalMerkle H × H) := fun i => if i ∈ indices then tree.sampled i else none
  if indices.any fun i => tree.committed.count ≤ i && i < tree.accumulated.count && (retained i).isNone
  then ⟨tree.committed, tree.committed, fun _ => none⟩
  else { tree with sampled := retained }

/-- `root_at` -/
def rootAt (K : Keccak H) (tree : CheckpointTree H) (index : ℕ) : Option H :=
  if tree.committed.index = some index then some (tree.committed.root K)
  else (tree.sampled index).map fun x => x.1.root K

/-- `ingest` -/
def ingest (K : Keccak H) (tree : CheckpointTree H) (messageId : H) (capture : Bool) : Except Panic (CheckpointTree H) :=
  match tree.accumulated.ingest K messageId with
  | none => .error .treeFull
  | some accumulated =>
    if capture then
      match accumulated.index with
      | none => .error .emptyTree
      | some i =>
        .ok { tree with accumulated, sampled := Function.update tree.sampled i (some (accumulated, messageId)) }
    else .ok { tree with accumulated }

/-- `commit` -/
def commit (K : Keccak H) (tree : CheckpointTree H) (index : ℕ) :
    Except Panic (CheckpointTree H × Option (QueuedCheckpoint H)) :=
  if tree.committed.index = some index then .ok (tree, none)
  else
    match tree.sampled index with
    | none => .error .sampledFrontier
    | some (frontier, messageId) =>
      .ok ({ tree with committed := frontier, sampled := fun i => if index < i then tree.sampled i else none },
        some ⟨frontier.root K, index, messageId⟩)

end CheckpointTree

inductive CheckpointBatch (H : Type) where
  | WaitingForInsertions
  | WaitingForRpc
  | Verified (checkpoint : Checkpoint H) (latest : Option (QueuedCheckpoint H))
deriving DecidableEq

/-- one slot per configured endpoint; a failed read is `none` -/
abbrev Samples (H : Type) := List (Option (Checkpoint H))

/-- `checkpoints.iter().flatten()` -/
def Samples.reports (checkpoints : Samples H) : List (Checkpoint H) := checkpoints.filterMap id

/-- how one report compares with the local history -/
inductive Vote where
  /-- behind the committed frontier -/
  | behind
  | matching
  | mismatching
  /-- the local root at that index is not known yet -/
  | missing
deriving DecidableEq

section Steps

variable [DecidableEq H] (K : Keccak H) (s : ValidatorSubmitter H)

def vote (tree : CheckpointTree H) (observed : Checkpoint H) : Vote :=
  if treeExceedsCheckpoint observed tree.committed then .behind
  else
    match tree.rootAt K observed.index with
    | some root => if s.checkpoint root observed.index = observed then .matching else .mismatching
    | none => .missing

/-- `replay_cannot_improve_vote` -/
def replayCannotImproveVote (tree : CheckpointTree H) (checkpoints : Samples H) : Except Panic Bool := do
  let required ← s.checkpointConsensus.required checkpoints.length
  let matching := (checkpoints.reports.filter fun o => vote K s tree o = .matching).map (·.index)
  let possible := (checkpoints.reports.filter fun o =>
    vote K s tree o = .matching || vote K s tree o = .missing).map (·.index)
  if matching.length < required then .ok false
  else
    .ok ((matching.insertionSort (· ≥ ·))[required - 1]? = (possible.insertionSort (· ≥ ·))[required - 1]?)

/-- `evaluate_checkpoint_batch` -/
def evaluateCheckpointBatch (tree : CheckpointTree H) (checkpoints : Samples H) :
    Except Panic (CheckpointTree H × CheckpointBatch H) := do
  let required ← s.checkpointConsensus.required checkpoints.length
  let matching := checkpoints.reports.filter fun o => vote K s tree o = .matching
  let missing := checkpoints.reports.countP fun o => vote K s tree o = .missing
  if matching.length < required then
    .ok (tree, if required ≤ matching.length + missing then .WaitingForInsertions else .WaitingForRpc)
  else
    match (matching.insertionSort fun a b => b.index ≤ a.index)[required - 1]? with
    | none => .error .outOfBounds
    | some target => do
      let (tree, latest) ← tree.commit K target.index
      .ok (tree, .Verified target latest)

/-- the audit of the committed root at the start of a batch step; a conflicting vote ends in `verify_checkpoint`, which
panics because the roots differ -/
def auditCommitted (tree : CheckpointTree H) (checkpoints : Samples H) : Except Panic Unit :=
  match tree.committed.index with
  | none => .ok ()
  | some i => do
    let own := s.checkpoint (tree.committed.root K) i
    let required ← s.checkpointConsensus.required checkpoints.length
    if checkpoints.reports.any fun observed =>
      observed.index = own.index && observed.mailboxDomain = own.mailboxDomain &&
        observed.merkleTreeHookAddress = own.merkleTreeHookAddress && observed.root ≠ own.root &&
        required ≤ checkpoints.reports.countP (· = observed)
    then .error .reorg else .ok ()

/-- one insertion read: a database error, a missing row, or the row's message id -/
abbrev Insertions (H : Type) := ℕ → Except Unit (Option H)

/-- the replay loop; the first number counts the leaves left up to the highest sampled index. The flag is `false` when
the limit stopped the loop. -/
def replay (checkpoints : Samples H) (indices : List ℕ) (db : Insertions H) (stopCount : ℕ) :
    ℕ → CheckpointTree H → Except Panic (CheckpointTree H × Bool)
  | 0, tree => .ok (tree, true)
  | left + 1, tree =>
    if stopCount ≤ tree.accumulated.count then .ok (tree, false)
    else if U32_MAX < tree.accumulated.count then .error .leafCount
    else
      match db tree.accumulated.count with
      | .error _ => .error .database
      | .ok none => .ok (tree, true)
      | .ok (some messageId) => do
        let captured := indices.contains tree.accumulated.count
        let tree ← tree.ingest K messageId captured
        if captured then do
          let stop ← replayCannotImproveVote K s tree checkpoints
          if stop then .ok (tree, true) else replay checkpoints indices db stopCount left tree
        else replay checkpoints indices db stopCount left tree

/-- `verify_checkpoint_batch_step`; no batch means that more cached leaves remain -/
def verifyCheckpointBatchStep (tree : CheckpointTree H) (checkpoints : Samples H) (limit : ℕ) (db : Insertions H) :
    Except Panic (CheckpointTree H × Option (CheckpointBatch H)) := do
  auditCommitted K s tree checkpoints
  let indices := checkpoints.reports.map (·.index)
  let tree := tree.prepareSamples indices
  match indices.max? with
  | none => .ok (tree, some .WaitingForRpc)
  | some maxIndex => do
    let stop ← replayCannotImproveVote K s tree checkpoints
    let stopCount := min (tree.accumulated.count + limit) (2 ^ 64 - 1)
    let left := maxIndex + 1 - tree.accumulated.count
    let (tree, done) ← (if stop then .ok (tree, true) else replay K s checkpoints indices db stopCount left tree)
    if done then do
      let (tree, batch) ← evaluateCheckpointBatch K s tree checkpoints
      .ok (tree, some batch)
    else .ok (tree, none)

/-- replay fetched leaves, as leaf index and message id, onto a copy of the committed frontier -/
def recoveredTree (tree : CheckpointTree H) (checkpoints : Samples H) (leaves : List (ℕ × H)) :
    Except Panic (CheckpointTree H) :=
  let indices := checkpoints.reports.map (·.index)
  leaves.foldlM (fun (t : CheckpointTree H) x => t.ingest K x.2 (indices.contains x.1))
    (CheckpointTree.new tree.committed)

/-- `recover_checkpoint_batch`: `fetched` is what the RPC fetch returned (`none` for an error or a timeout) and
`stored` whether the repair was persisted -/
def recoverCheckpointBatch (tree : CheckpointTree H) (checkpoints : Samples H) (fetched : Option (List (ℕ × H)))
    (stored : Bool) : Except Panic (CheckpointTree H × Option (CheckpointBatch H)) :=
  if !s.rpcRecovery then .ok (tree, none)
  else if !checkpoints.reports.any fun o => tree.committed.count ≤ o.index && o.index < tree.accumulated.count
  then .ok (tree, none)
  else if U32_MAX < tree.committed.count then .error .leafCount
  else
    match fetched with
    | none => .ok (tree, none)
    | some leaves => do
      let recovered ← recoveredTree K tree checkpoints leaves
      let (recovered, batch) ← evaluateCheckpointBatch K s recovered checkpoints
      match batch with
      | .Verified _ (some _) =>
        if recovered.committed.count < tree.committed.count then .error .recoveryFrontier
        else if leaves.length < recovered.committed.count - tree.committed.count then .error .outOfBounds
        else if stored then .ok (⟨recovered.committed, recovered.committed, fun _ => none⟩, some batch)
        else .ok (tree, none)
      | _ => .ok (tree, none)

/-- one call on the live tree, with everything it observes -/
inductive Call (H : Type) where
  | verify (checkpoints : Samples H) (limit : ℕ) (db : Insertions H)
  | recover (checkpoints : Samples H) (fetched : Option (List (ℕ × H))) (stored : Bool)

def Call.samples : Call H → Samples H
  | .verify checkpoints _ _ => checkpoints
  | .recover checkpoints _ _ => checkpoints

def step (tree : CheckpointTree H) : Call H → Except Panic (CheckpointTree H × Option (CheckpointBatch H))
  | .verify checkpoints limit db => verifyCheckpointBatchStep K s tree checkpoints limit db
  | .recover checkpoints fetched stored => recoverCheckpointBatch K s tree checkpoints fetched stored

/-- the calls of a run with the tree before each and its outcome; a panic ends it -/
def trace : CheckpointTree H → List (Call H) →
    List (CheckpointTree H × Call H × Except Panic (CheckpointTree H × Option (CheckpointBatch H)))
  | _, [] => []
  | tree, call :: calls =>
    (tree, call, step K s tree call) ::
      match step K s tree call with
      | .ok (tree', _) => trace tree' calls
      | .error _ => []

end Steps

/-! ## The invariant -/

/-- relative to the restored tree `t0`: committed after the leaves `C`, accumulated after the leaves `A` -/
structure Inv (K : Keccak H) (t0 : IncrementalMerkle H) (C A : List H) (tree : CheckpointTree H) : Prop where
  committed_pre : C <+: A
  committed_eq : IncrementalMerkle.ingestAll K t0 C = some tree.committed
  accumulated_eq : IncrementalMerkle.ingestAll K t0 A = some tree.accumulated
  /-- a captured frontier is strictly after the committed one, and lies on the way to the accumulated one -/
  sampled_eq : ∀ i frontier messageId, tree.sampled i = some (frontier, messageId) → tree.committed.count ≤ i ∧
    ∃ S, S <+: A ∧ IncrementalMerkle.ingestAll K t0 S = some frontier ∧ t0.count + S.length = i + 1 ∧
      S.getLast? = some messageId

theorem new_inv (K : Keccak H) (t0 : IncrementalMerkle H) {C : List H} {t : IncrementalMerkle H}
    (h : IncrementalMerkle.ingestAll K t0 C = some t) : Inv K t0 C C (CheckpointTree.new t) :=
  ⟨List.prefix_rfl, h, h, fun i f m hi => by simp [CheckpointTree.new] at hi⟩

theorem prepareSamples_inv {K : Keccak H} {t0 : IncrementalMerkle H} {C A : List H} {tree : CheckpointTree H}
    (h : Inv K t0 C A tree) (indices : List ℕ) : ∃ A', Inv K t0 C A' (tree.prepareSamples indices) := by
  simp only [CheckpointTree.prepareSamples]
  split_ifs
  · exact ⟨C, new_inv K t0 h.committed_eq⟩
  · refine ⟨A, h.committed_pre, h.committed_eq, h.accumulated_eq, fun i f m hi => ?_⟩
    simp only at hi
    split_ifs at hi with hmem
    exact h.sampled_eq i f m hi

/-- one replayed leaf -/
theorem ingest_ends {K : Keccak H} {t0 : IncrementalMerkle H} {C A : List H} {tree : CheckpointTree H}
    (h : Inv K t0 C A tree) (messageId : H) (capture : Bool) :
    Ends (· ≠ .sampledFrontier) (fun tree' => Inv K t0 C (A ++ [messageId]) tree' ∧ tree'.committed = tree.committed)
      (tree.ingest K messageId capture) := by
  unfold CheckpointTree.ingest
  split
  · exact Ends.error (by decide)
  · rename_i acc hacc
    have hall := IncrementalMerkle.ingestAll_concat.2 ⟨_, h.accumulated_eq, hacc⟩
    have hpre : A <+: A ++ [messageId] := List.prefix_append _ _
    have hold : ∀ i f m, tree.sampled i = some (f, m) → tree.committed.count ≤ i ∧ ∃ S, S <+: A ++ [messageId] ∧
        IncrementalMerkle.ingestAll K t0 S = some f ∧ t0.count + S.length = i + 1 ∧ S.getLast? = some m := by
      intro i f m hi
      obtain ⟨h1, S, h2, h3⟩ := h.sampled_eq i f m hi
      exact ⟨h1, S, h2.trans hpre, h3⟩
    split_ifs with hcap
    · split
      · exact Ends.error (by decide)
      · rename_i j hj
        refine Ends.ok ⟨⟨h.committed_pre.trans hpre, h.committed_eq, hall, fun i f m hi => ?_⟩, rfl⟩
        simp only [Function.update_apply] at hi
        split_ifs at hi with hij
        · -- the frontier captured just now
          obtain ⟨rfl, rfl⟩ : acc = f ∧ messageId = m := by simpa using hi
          obtain ⟨hc1, hc2⟩ := IncrementalMerkle.ingest_count hacc
          have hlen := (IncrementalMerkle.ingestAll_count h.accumulated_eq).1
          have hclen := (IncrementalMerkle.ingestAll_count h.committed_eq).1
          have hle := h.committed_pre.length_le
          have hidx : j = tree.accumulated.count := by
            unfold IncrementalMerkle.index at hj
            split_ifs at hj
            cases hj
            unfold U32_MAX at hc2
            rw [Nat.mod_eq_of_lt (by omega), hc1]
            omega
          have hcj : tree.committed.count ≤ i := by rw [hij, hidx]; omega
          refine ⟨hcj, A ++ [messageId], List.prefix_rfl, hall, ?_, by simp⟩
          rw [List.length_append, List.length_singleton, hij, hidx, hlen]
          omega
        · exact hold i f m hi
    · exact Ends.ok ⟨⟨h.committed_pre.trans hpre, h.committed_eq, hall, hold⟩, rfl⟩

/-- committing a captured frontier: its leaves become the committed ones, and the later frontiers stay valid -/
theorem commit_inv {K : Keccak H} {t0 : IncrementalMerkle H} {C A : List H} {tree : CheckpointTree H}
    (h : Inv K t0 C A tree) {index : ℕ} {frontier : IncrementalMerkle H} {S : List H}
    (hSA : S <+: A) (hS : IncrementalMerkle.ingestAll K t0 S = some frontier) (hlen : t0.count + S.length = index + 1) :
    Inv K t0 S A ⟨frontier, tree.accumulated, fun i => if index < i then tree.sampled i else none⟩ := by
  refine ⟨hSA, hS, h.accumulated_eq, fun i f m hi => ?_⟩
  simp only at hi
  split_ifs at hi with hlarger
  obtain ⟨-, hrest⟩ := h.sampled_eq i f m hi
  refine ⟨?_, hrest⟩
  have hfc := (IncrementalMerkle.ingestAll_count hS).1
  simp only
  omega

/-! ## The vote -/

section Votes

variable [DecidableEq H] {K : Keccak H} {s : ValidatorSubmitter H} {t0 : IncrementalMerkle H} {C A : List H}
  {tree : CheckpointTree H}

/-- what a verified commit from `C` to `C'` guarantees -/
structure Boundary (K : Keccak H) (s : ValidatorSubmitter H) (t0 : IncrementalMerkle H) (C C' : List H)
    (checkpoints : Samples H) (q : QueuedCheckpoint H) : Prop where
  /-- the signed sequence strictly extends the committed one -/
  extends_committed : C <+: C'
  grows : C.length < C'.length
  length_eq : t0.count + C'.length = q.index + 1
  last_eq : C'.getLast? = some q.messageId
  root_eq : ∃ t, IncrementalMerkle.ingestAll K t0 C' = some t ∧ q.root = t.root K
  /-- the plain root, when the restored tree is the tree of a leaf list -/
  plain_root : ∀ L, t0.Represents K L → q.root = K.merkleRoot (L ++ C')
  /-- the required number of distinct slots reported roots of extensions of the signed sequence -/
  votes : ∃ (A : List H) (slots : Finset ℕ) (required : ℕ), C' <+: A ∧
    s.checkpointConsensus.required checkpoints.length = .ok required ∧ required ≤ slots.card ∧
    ∀ slot ∈ slots, ∃ observed, checkpoints[slot]? = some (some observed) ∧
      observed.merkleTreeHookAddress = s.address ∧ observed.mailboxDomain = s.domain ∧ q.index ≤ observed.index ∧
      ∃ E t, C' <+: E ∧ E <+: A ∧ t0.count + E.length = observed.index + 1 ∧
        IncrementalMerkle.ingestAll K t0 E = some t ∧ observed.root = t.root K

/-- a matching report that is not the committed checkpoint names a captured frontier after it, with its root -/
theorem matching_sampled (h : Inv K t0 C A tree) (hcap : t0.count ≤ U32_MAX) {observed : Checkpoint H}
    (hv : vote K s tree observed = .matching) :
    observed.merkleTreeHookAddress = s.address ∧ observed.mailboxDomain = s.domain ∧
    (tree.committed.index ≠ some observed.index → ∃ frontier messageId,
      tree.sampled observed.index = some (frontier, messageId) ∧ observed.root = frontier.root K) ∧
    (∀ i, tree.committed.index = some i → i ≤ observed.index) := by
  unfold vote at hv
  split_ifs at hv with hbehind
  split at hv
  · rename_i root hroot
    split_ifs at hv with heq
    rw [← heq]
    refine ⟨rfl, rfl, fun hne => ?_, fun i hi => ?_⟩
    · rw [CheckpointTree.rootAt] at hroot
      simp only [ValidatorSubmitter.checkpoint] at hne ⊢
      rw [if_neg hne] at hroot
      obtain ⟨⟨f, m⟩, hf, rfl⟩ := Option.map_eq_some_iff.1 hroot
      exact ⟨f, m, hf, rfl⟩
    · have hcc := (IncrementalMerkle.ingestAll_count h.committed_eq).2 hcap
      unfold IncrementalMerkle.index at hi
      split_ifs at hi
      cases hi
      simp only [treeExceedsCheckpoint, decide_eq_true_eq] at hbehind
      simp only [ValidatorSubmitter.checkpoint]
      unfold U32_MAX at hbehind hcc
      omega
  · cases hv

theorem required_ends (c : CheckpointConsensus) (n : ℕ) :
    Ends (· ≠ .sampledFrontier) (fun r => c.required n = .ok r ∧ 0 < r) (c.required n) := by
  unfold CheckpointConsensus.required
  split_ifs with h0
  · exact Ends.error (by decide)
  · split
    · exact Ends.ok ⟨rfl, by omega⟩
    · exact Ends.ok ⟨rfl, by omega⟩

/-- the required-th highest matching report is reached by the required number of slots -/
theorem slots_of_target (tree : CheckpointTree H) (checkpoints : Samples H) {required : ℕ} (hpos : 0 < required)
    {target : Checkpoint H}
    (htarget : ((checkpoints.reports.filter fun o => vote K s tree o = .matching).insertionSort
      fun a b => b.index ≤ a.index)[required - 1]? = some target) :
    ∃ slots : Finset ℕ, required ≤ slots.card ∧ ∀ slot ∈ slots, ∃ observed,
      checkpoints[slot]? = some (some observed) ∧ vote K s tree observed = .matching ∧
      target.index ≤ observed.index := by
  set matching := checkpoints.reports.filter fun o => vote K s tree o = .matching with hmatching
  have hsorted : (matching.insertionSort fun a b => b.index ≤ a.index).Pairwise fun a b => b.index ≤ a.index :=
    List.pairwise_insertionSort _ _
  have hcount := countP_of_sorted (fun c : Checkpoint H => c.index) hsorted htarget
  rw [(List.perm_insertionSort _ matching).countP_eq, hmatching, List.countP_filter, Samples.reports,
    List.countP_filterMap] at hcount
  obtain ⟨slots, hcard, hslots⟩ := exists_positions _ checkpoints
  refine ⟨slots, by rw [hcard]; exact le_trans (by omega) hcount, fun slot hslot => ?_⟩
  obtain ⟨o, ho, hp⟩ := hslots slot hslot
  cases o with
  | none => simp at hp
  | some observed =>
    have hp' : target.index ≤ observed.index ∧ vote K s tree observed = .matching := by simpa using hp
    exact ⟨observed, ho, hp'.2, hp'.1⟩

/-- the boundary of a commit of a captured frontier that a matching report names -/
theorem boundary_of_commit (h : Inv K t0 C A tree) (hcap : t0.count ≤ U32_MAX) (checkpoints : Samples H)
    {required : ℕ} (hrequired : s.checkpointConsensus.required checkpoints.length = .ok required) (hpos : 0 < required)
    {target : Checkpoint H}
    (htarget : ((checkpoints.reports.filter fun o => vote K s tree o = .matching).insertionSort
      fun a b => b.index ≤ a.index)[required - 1]? = some target)
    (htcommitted : ∀ i, tree.committed.index = some i → i ≤ target.index)
    (hcur : tree.committed.index ≠ some target.index) {frontier : IncrementalMerkle H} {messageId : H} {S : List H}
    (hti : tree.committed.count ≤ target.index) (hSA : S <+: A)
    (hS : IncrementalMerkle.ingestAll K t0 S = some frontier) (hlen : t0.count + S.length = target.index + 1)
    (hlast : S.getLast? = some messageId) :
    Boundary K s t0 C S checkpoints ⟨frontier.root K, target.index, messageId⟩ := by
  have hclen := (IncrementalMerkle.ingestAll_count h.committed_eq).1
  have hlt : C.length < S.length := by omega
  refine ⟨List.prefix_of_prefix_length_le h.committed_pre hSA hlt.le, hlt, hlen, hlast, ⟨frontier, hS, rfl⟩,
    fun L hL => ?_, ?_⟩
  · have hcapS := (IncrementalMerkle.ingestAll_count hS).2 hcap
    have hcntS := (IncrementalMerkle.ingestAll_count hS).1
    rw [hL.count_eq] at hcntS
    obtain ⟨t, ht, hrep⟩ := hL.ingestAll S (by omega)
    rw [hS] at ht
    cases ht
    exact hrep.root_eq (by rw [List.length_append]; omega)
  · obtain ⟨slots, hcard, hslots⟩ := slots_of_target (K := K) (s := s) tree checkpoints hpos htarget
    refine ⟨A, slots, required, hSA, hrequired, hcard, fun slot hslot => ?_⟩
    obtain ⟨observed, ho, hov, hidx⟩ := hslots slot hslot
    obtain ⟨haddr, hdom, hosampled, -⟩ := matching_sampled (s := s) h hcap hov
    -- the committed checkpoint lies strictly below the target, so every counted report names a captured frontier
    have hne : tree.committed.index ≠ some observed.index := by
      intro hc
      have := htcommitted _ hc
      exact hcur (by rw [hc, show observed.index = target.index by omega])
    obtain ⟨f, m, hf, hroot⟩ := hosampled hne
    obtain ⟨-, E, hEA, hE, hElen, -⟩ := h.sampled_eq _ _ _ hf
    exact ⟨observed, ho, haddr, hdom, hidx, E, f, List.prefix_of_prefix_length_le hSA hEA (by omega), hEA, hElen, hE,
      hroot⟩

/-- outcome of a vote on a tree at `C`: nothing changed, or a commit with its boundary -/
def Voted (K : Keccak H) (s : ValidatorSubmitter H) (t0 : IncrementalMerkle H) (C A : List H) (tree : CheckpointTree H)
    (checkpoints : Samples H) (r : CheckpointTree H × CheckpointBatch H) : Prop :=
  (r.1 = tree ∧ ∀ cp q, r.2 ≠ .Verified cp (some q)) ∨
  ∃ C' q, r.2 = .Verified (s.checkpoint q.root q.index) (some q) ∧ Inv K t0 C' A r.1 ∧
    Boundary K s t0 C C' checkpoints q

/-- **The vote.** Evaluating a batch never misses the sampled frontier it commits; a commit moves the committed leaves
to a longer prefix of the accumulated ones and meets the boundary. -/
theorem evaluate_ends (h : Inv K t0 C A tree) (hcap : t0.count ≤ U32_MAX) (checkpoints : Samples H) :
    Ends (· ≠ .sampledFrontier) (Voted K s t0 C A tree checkpoints) (evaluateCheckpointBatch K s tree checkpoints) := by
  refine (required_ends s.checkpointConsensus checkpoints.length).bind fun required hr => ?_
  obtain ⟨hrequired, hpos⟩ := hr
  simp only
  split
  · refine Ends.ok (Or.inl ⟨rfl, fun cp q => ?_⟩)
    simp only
    split_ifs
    · exact fun hq => by cases hq
    · exact fun hq => by cases hq
  split
  · exact Ends.error (by decide)
  · rename_i target htarget
    have hmem := (List.perm_insertionSort _ _).mem_iff.1 (List.mem_of_getElem? htarget)
    have hvote : vote K s tree target = .matching := by simpa using (List.mem_filter.1 hmem).2
    obtain ⟨haddr, hdom, htsampled, htcommitted⟩ := matching_sampled (s := s) h hcap hvote
    by_cases hcur : tree.committed.index = some target.index
    · -- the boundary is the committed checkpoint itself
      rw [CheckpointTree.commit, if_pos hcur]
      exact Ends.ok (Or.inl ⟨rfl, fun cp q hq => by cases hq⟩)
    · obtain ⟨frontier, messageId, hfrontier, hroot⟩ := htsampled hcur
      have htgt : target = s.checkpoint (frontier.root K) target.index := by
        rw [← hroot, ValidatorSubmitter.checkpoint, ← haddr, ← hdom]
      obtain ⟨hti, S, hSA, hS, hSlen, hSlast⟩ := h.sampled_eq _ _ _ hfrontier
      rw [CheckpointTree.commit, if_neg hcur, hfrontier]
      exact Ends.ok (Or.inr ⟨S, _, by rw [← htgt], commit_inv h hSA hS hSlen,
        boundary_of_commit h hcap checkpoints hrequired hpos htarget htcommitted hcur hti hSA hS hSlen hSlast⟩)

/-! ## Steps -/

theorem cannotImprove_ends (tree : CheckpointTree H) (checkpoints : Samples H) :
    Ends (· ≠ .sampledFrontier) (fun _ => True) (replayCannotImproveVote K s tree checkpoints) := by
  refine (required_ends s.checkpointConsensus checkpoints.length).bind fun required _ => ?_
  simp only
  split
  · exact Ends.ok trivial
  · exact Ends.ok trivial

theorem audit_ends (tree : CheckpointTree H) (checkpoints : Samples H) :
    Ends (· ≠ .sampledFrontier) (fun _ => True) (auditCommitted K s tree checkpoints) := by
  unfold auditCommitted
  split
  · exact Ends.ok trivial
  · refine (required_ends s.checkpointConsensus checkpoints.length).bind fun required _ => ?_
    split
    · exact Ends.error (by decide)
    · exact Ends.ok trivial

/-- the replay loop extends the accumulated leaves and nothing else -/
theorem replay_ends (checkpoints : Samples H) (indices : List ℕ) (db : Insertions H) (stopCount left : ℕ)
    (h : Inv K t0 C A tree) :
    Ends (· ≠ .sampledFrontier) (fun r => ∃ A', Inv K t0 C A' r.1 ∧ r.1.committed = tree.committed)
      (replay K s checkpoints indices db stopCount left tree) := by
  induction left generalizing tree A with
  | zero => exact Ends.ok ⟨A, h, rfl⟩
  | succ left ih =>
    unfold replay
    split_ifs
    · exact Ends.ok ⟨A, h, rfl⟩
    · exact Ends.error (by decide)
    split
    · exact Ends.error (by decide)
    · exact Ends.ok ⟨A, h, rfl⟩
    · rename_i messageId _
      refine (ingest_ends h messageId _).bind fun tree' ht => ?_
      obtain ⟨hinv, hcomm⟩ := ht
      have hrest : Ends (· ≠ .sampledFrontier) (fun r => ∃ A', Inv K t0 C A' r.1 ∧ r.1.committed = tree.committed)
          (replay K s checkpoints indices db stopCount left tree') := by
        rw [← hcomm]
        exact ih hinv
      split_ifs
      · refine (cannotImprove_ends tree' checkpoints).bind fun stop _ => ?_
        cases stop with
        | true => exact Ends.ok ⟨_, hinv, hcomm⟩
        | false => exact hrest
      · exact hrest

/-- outcome of one call on a tree at `C`: the committed frontier is kept, or moved by a verified commit -/
def Stepped (K : Keccak H) (s : ValidatorSubmitter H) (t0 : IncrementalMerkle H) (C : List H) (checkpoints : Samples H)
    (r : CheckpointTree H × Option (CheckpointBatch H)) : Prop :=
  ((∃ A, Inv K t0 C A r.1) ∧ ∀ cp q, r.2 ≠ some (.Verified cp (some q))) ∨
  ∃ C' A q, r.2 = some (.Verified (s.checkpoint q.root q.index) (some q)) ∧ Inv K t0 C' A r.1 ∧
    Boundary K s t0 C C' checkpoints q

theorem verify_ends (h : Inv K t0 C A tree) (hcap : t0.count ≤ U32_MAX) (checkpoints : Samples H) (limit : ℕ)
    (db : Insertions H) :
    Ends (· ≠ .sampledFrontier) (Stepped K s t0 C checkpoints)
      (verifyCheckpointBatchStep K s tree checkpoints limit db) := by
  refine (audit_ends tree checkpoints).bind fun _ _ => ?_
  obtain ⟨A', hprep⟩ := prepareSamples_inv h (checkpoints.reports.map (·.index))
  simp only
  split
  · exact Ends.ok (Or.inl ⟨⟨A', hprep⟩, fun cp q hq => by cases hq⟩)
  refine (cannotImprove_ends _ checkpoints).bind fun stop _ => ?_
  have hreplayed : ∀ stopCount left, Ends (· ≠ .sampledFrontier) (fun r => ∃ A', Inv K t0 C A' r.1)
      (if stop = true then .ok (tree.prepareSamples (checkpoints.reports.map (·.index)), true)
        else replay K s checkpoints (checkpoints.reports.map (·.index)) db stopCount left
          (tree.prepareSamples (checkpoints.reports.map (·.index)))) := by
    intro stopCount left
    split_ifs
    · exact Ends.ok ⟨A', hprep⟩
    · exact (replay_ends checkpoints _ db stopCount left hprep).mono fun r hr => ⟨hr.choose, hr.choose_spec.1⟩
  refine (hreplayed _ _).bind fun r hr => ?_
  obtain ⟨tree', done⟩ := r
  obtain ⟨A'', hinv⟩ := hr
  cases done with
  | false => exact Ends.ok (Or.inl ⟨⟨A'', hinv⟩, fun cp q hq => by cases hq⟩)
  | true =>
    refine (evaluate_ends hinv hcap checkpoints).bind fun r hr => ?_
    obtain ⟨tree'', batch⟩ := r
    rcases hr with ⟨heq, hno⟩ | ⟨C', q, hq, hinv', hb⟩
    · simp only at heq hno
      subst heq
      exact Ends.ok (Or.inl ⟨⟨A'', hinv⟩, fun cp q hq => hno cp q (by simpa using hq)⟩)
    · simp only at hq
      subst hq
      exact Ends.ok (Or.inr ⟨C', A'', q, rfl, hinv', hb⟩)

omit [DecidableEq H] in
theorem recoveredTree_ends (h : Inv K t0 C A tree) (checkpoints : Samples H) (leaves : List (ℕ × H)) :
    Ends (· ≠ .sampledFrontier) (fun t => ∃ A', Inv K t0 C A' t) (recoveredTree K tree checkpoints leaves) := by
  refine Ends.foldlM (fun t : CheckpointTree H => ∃ A', Inv K t0 C A' t) (fun t x ht => ?_) leaves _
    ⟨C, new_inv K t0 h.committed_eq⟩
  obtain ⟨A', hinv⟩ := ht
  exact (ingest_ends hinv x.2 _).mono fun t' ht' => ⟨_, ht'.1⟩

theorem recover_ends (h : Inv K t0 C A tree) (hcap : t0.count ≤ U32_MAX) (checkpoints : Samples H)
    (fetched : Option (List (ℕ × H))) (stored : Bool) :
    Ends (· ≠ .sampledFrontier) (Stepped K s t0 C checkpoints)
      (recoverCheckpointBatch K s tree checkpoints fetched stored) := by
  have hkeep : Ends (· ≠ .sampledFrontier) (Stepped K s t0 C checkpoints) (.ok (tree, none) : Except Panic _) :=
    Ends.ok (Or.inl ⟨⟨A, h⟩, fun cp q hq => by cases hq⟩)
  unfold recoverCheckpointBatch
  split
  · exact hkeep
  split
  · exact hkeep
  split
  · exact Ends.error (by decide)
  split
  · exact hkeep
  · rename_i leaves
    refine (recoveredTree_ends h checkpoints leaves).bind fun recovered hrec => ?_
    obtain ⟨A', hinv⟩ := hrec
    refine (evaluate_ends hinv hcap checkpoints).bind fun r hr => ?_
    obtain ⟨recovered', batch⟩ := r
    rcases hr with ⟨-, hno⟩ | ⟨C', q, hq, hinv', hb⟩
    · simp only at hno ⊢
      exact hkeep
    · simp only at hq
      subst hq
      simp only
      split_ifs
      · exact Ends.error (by decide)
      · exact Ends.error (by decide)
      · exact Ends.ok (Or.inr ⟨C', C', q, rfl, new_inv K t0 hinv'.committed_eq, hb⟩)
      · exact hkeep

/-- **One step.** -/
theorem step_ends (h : Inv K t0 C A tree) (hcap : t0.count ≤ U32_MAX) (call : Call H) :
    Ends (· ≠ .sampledFrontier) (Stepped K s t0 C call.samples) (step K s tree call) := by
  cases call with
  | verify checkpoints limit db => exact verify_ends h hcap checkpoints limit db
  | recover checkpoints fetched stored => exact recover_ends h hcap checkpoints fetched stored

end Votes

/-! ## Runs -/

variable [DecidableEq H]

/-- what every call of a run satisfies, with `C k` the leaves committed before call `k` -/
def Bounded (K : Keccak H) (s : ValidatorSubmitter H) (t0 : IncrementalMerkle H) (C : ℕ → List H)
    (calls : List (CheckpointTree H × Call H × Except Panic (CheckpointTree H × Option (CheckpointBatch H)))) : Prop :=
  (∀ k, C k <+: C (k + 1)) ∧
  ∀ k tree call r, calls[k]? = some (tree, call, r) →
    IncrementalMerkle.ingestAll K t0 (C k) = some tree.committed ∧ r ≠ .error .sampledFrontier ∧
    (∀ tree' batch, r = .ok (tree', batch) →
      IncrementalMerkle.ingestAll K t0 (C (k + 1)) = some tree'.committed ∧
      ∀ cp q, batch = some (.Verified cp (some q)) →
        Boundary K s t0 (C k) (C (k + 1)) call.samples q ∧ tree.committed.count < tree'.committed.count) ∧
    -- the vote of a recovery, also of one that is dropped because it could not be stored
    ∀ leaves recovered recovered' cp q, recoveredTree K tree call.samples leaves = .ok recovered →
      evaluateCheckpointBatch K s recovered call.samples = .ok (recovered', .Verified cp (some q)) →
      ∃ C', Boundary K s t0 (C k) C' call.samples q ∧ tree.committed.count < recovered'.committed.count

theorem recovered_bounded {K : Keccak H} {s : ValidatorSubmitter H} {t0 : IncrementalMerkle H} {C A : List H}
    {tree recovered recovered' : CheckpointTree H} {checkpoints : Samples H} {leaves : List (ℕ × H)} {cp : Checkpoint H}
    {q : QueuedCheckpoint H} (h : Inv K t0 C A tree) (hcap : t0.count ≤ U32_MAX)
    (hrec : recoveredTree K tree checkpoints leaves = .ok recovered)
    (heval : evaluateCheckpointBatch K s recovered checkpoints = .ok (recovered', .Verified cp (some q))) :
    ∃ C', Boundary K s t0 C C' checkpoints q ∧ tree.committed.count < recovered'.committed.count := by
  obtain ⟨A', hinv⟩ := (recoveredTree_ends h checkpoints leaves).of_ok hrec
  rcases (evaluate_ends hinv hcap checkpoints).of_ok heval with ⟨-, hno⟩ | ⟨C', q', hq, hinv', hb⟩
  · exact absurd rfl (hno cp q)
  · cases hq
    refine ⟨C', hb, ?_⟩
    rw [(IncrementalMerkle.ingestAll_count h.committed_eq).1, (IncrementalMerkle.ingestAll_count hinv'.committed_eq).1]
    exact Nat.add_lt_add_left hb.grows _

theorem trace_bounded (K : Keccak H) (s : ValidatorSubmitter H) (t0 : IncrementalMerkle H) (hcap : t0.count ≤ U32_MAX)
    (calls : List (Call H)) (tree : CheckpointTree H) (C0 A : List H) (h : Inv K t0 C0 A tree) :
    ∃ C, C 0 = C0 ∧ Bounded K s t0 C (trace K s tree calls) := by
  induction calls generalizing tree C0 A with
  | nil => exact ⟨fun _ => C0, rfl, fun _ => List.prefix_rfl, fun k tree call r hk => by simp [trace] at hk⟩
  | cons call calls ih =>
    have hstep := step_ends (s := s) h hcap call
    simp only [trace]
    cases hr : step K s tree call with
    | error p =>
      refine ⟨fun _ => C0, rfl, fun _ => List.prefix_rfl, fun k tree' call' r hk => ?_⟩
      cases k with
      | succ k => simp at hk
      | zero =>
        obtain ⟨rfl, rfl, rfl⟩ : tree = tree' ∧ call = call' ∧ .error p = r := by simpa using hk
        refine ⟨h.committed_eq, fun hp => hstep.of_error hr (by cases hp; rfl), nofun, fun _ _ _ _ _ h1 h2 => ?_⟩
        exact recovered_bounded h hcap h1 h2
    | ok r =>
      obtain ⟨tree1, batch⟩ := r
      obtain ⟨C1, A1, hpre, hinv1, hbound⟩ : ∃ C1 A1, C0 <+: C1 ∧ Inv K t0 C1 A1 tree1 ∧
          ∀ cp q, batch = some (.Verified cp (some q)) → Boundary K s t0 C0 C1 call.samples q := by
        rcases hstep.of_ok hr with ⟨⟨A', hinv⟩, hno⟩ | ⟨C', A', q, hq, hinv, hb⟩
        · exact ⟨C0, A', List.prefix_rfl, hinv, fun cp q hq => absurd hq (hno cp q)⟩
        · refine ⟨C', A', hb.extends_committed, hinv, fun cp' q' hq' => ?_⟩
          simp only at hq
          rw [hq] at hq'
          cases hq'
          exact hb
      obtain ⟨C, hC0, hmono, hcalls⟩ := ih tree1 C1 A1 hinv1
      refine ⟨fun k => k.casesOn C0 C, rfl, fun k => ?_, fun k tree' call' r hk => ?_⟩
      · cases k with
        | zero => simpa [hC0] using hpre
        | succ k => exact hmono k
      · cases k with
        | succ k => exact hcalls k tree' call' r (by simpa using hk)
        | zero =>
          obtain ⟨rfl, rfl, rfl⟩ : tree = tree' ∧ call = call' ∧ .ok (tree1, batch) = r := by simpa using hk
          refine ⟨h.committed_eq, nofun, fun tree2 batch2 hok => ?_, fun _ _ _ _ _ h1 h2 => recovered_bounded h hcap h1 h2⟩
          cases hok
          refine ⟨by simpa [hC0] using hinv1.committed_eq, fun cp q hq => ?_⟩
          have hb := hbound cp q hq
          refine ⟨by simpa [hC0] using hb, ?_⟩
          rw [(IncrementalMerkle.ingestAll_count h.committed_eq).1, (IncrementalMerkle.ingestAll_count hinv1.committed_eq).1]
          exact Nat.add_lt_add_left hb.grows _

/-- **Consensus signing boundary.** Over every run of batch steps and recoveries from a restored tree there is a chain of
committed leaf sequences, each a prefix of the next, such that every commit meets its boundary, strictly advances the
committed count, and the expect on the sampled frontier never fires. -/
theorem consensus_signing_boundary (K : Keccak H) (s : ValidatorSubmitter H) (t0 : IncrementalMerkle H)
    (hcap : t0.count ≤ U32_MAX) (calls : List (Call H)) :
    ∃ C, C 0 = [] ∧ Bounded K s t0 C (trace K s (CheckpointTree.new t0) calls) :=
  trace_bounded K s t0 hcap calls _ [] [] (new_inv K t0 rfl)

/-- a submitter for runs on fixed leaves -/
def toySubmitter : ValidatorSubmitter ℕ := ⟨100, 1, .Majority, true, 4, 9, by decide⟩

/-- two of three endpoints report the root after the leaves 7 and 8 -/
def toySamples : Samples ℕ :=
  let report := (IncrementalMerkle.ingestAll toyKeccak (IncrementalMerkle.default toyKeccak) [7, 8]).map fun t =>
    toySubmitter.checkpoint (t.root toyKeccak) 1
  [report, none, report]

def toyCall : Call ℕ := .verify toySamples 256 fun i => .ok ([7, 8][i]?)

theorem consensus_signing_boundary_two :
    (∃ tree cp q, step toyKeccak toySubmitter (CheckpointTree.new (IncrementalMerkle.default toyKeccak)) toyCall =
      .ok (tree, some (.Verified cp (some q))) ∧ q.index = 1 ∧ q.messageId = 8) ∧
    ∃ C, C 0 = [] ∧ Bounded toyKeccak toySubmitter (IncrementalMerkle.default toyKeccak) C
      (trace toyKeccak toySubmitter (CheckpointTree.new (IncrementalMerkle.default toyKeccak)) [toyCall]) := by
  refine ⟨?_, consensus_signing_boundary toyKeccak toySubmitter _ (by decide) [toyCall]⟩
  exact ⟨_, _, _, rfl, rfl, rfl⟩

end Hyperlane.Validator
