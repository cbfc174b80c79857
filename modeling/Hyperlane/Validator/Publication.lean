/-
Live and historical checkpoint publication in consensus mode (agents/validator/src/submit.rs): the interleaving of
`consensus_checkpoint_submitter` with the one `checkpoint_history_submitter` worker it spawns.

The live worker verifies batches (module `Consensus`), signs and stores only the latest verified checkpoint, publishes
the latest index and then sends the checkpoint as the history target. The history worker starts from the same restored
tree, replays the database up to the newest target, compares the root, signs and stores every earlier index in reverse
chunks and writes a snapshot. The target channel keeps only the newest unseen target.

An event is one thing the environment or the scheduler does: a batch call with its samples and rows, one row read by the
history worker, one answer of storage or signer to one pending submission, one scheduling point. Every answer is
arbitrary, so the database and the checkpoint storage may change at any time. An event that is not awaited leaves the
system as it is. Three logs record what the claims are about: the values passed to the signer, the values written or
confirmed in storage, and the snapshot indices.

- `Authentic`: a checkpoint of a prefix of the committed leaves.
- `SystemInv`: everything that was or will be signed is authentic (under an injective pairing), and every index below the
  history tree is stored or still queued.
- `step_inv`, `run_inv`: it holds in every state of every run.
- `signed_values_unique`: two signed values with one index are equal.
- `snapshot_durable`: a snapshot covers only stored checkpoints.
-/
import Hyperlane.Validator.Consensus

namespace Hyperlane.Validator

open Hyperlane.Accumulator Hyperlane.Outcome

variable {H : Type}

/-! ## Submitting one checkpoint -/

/-- where a `sign_and_submit_checkpoint` stands; an error restarts it from the fetch -/
inductive Stage where
  | fetching
  | signing
  | writing
  | done
deriving DecidableEq

structure Job (H : Type) where
  checkpoint : CheckpointWithMessageId H
  stage : Stage
deriving DecidableEq

/-- an answer to a pending submission; a fetched checkpoint comes with its recovered signer -/
inductive Reply (H : Type) where
  | fetched (existing : Except Unit (Option (Except Unit ℕ × CheckpointWithMessageId H)))
  | signed (ok : Bool)
  | written (ok : Bool)

/-- a submission after an answer: what was passed to the signer, what is now known to be stored, and whether a
conflicting own checkpoint was found -/
structure Progress (H : Type) where
  job : Job H
  signed : List (CheckpointWithMessageId H)
  durable : List (CheckpointWithMessageId H)
  conflict : Bool

variable [DecidableEq H]

/-- `sign_and_submit_checkpoint` -/
def Job.reply (s : ValidatorSubmitter H) (job : Job H) (r : Reply H) : Progress H :=
  let c := job.checkpoint
  let retry : Progress H := ⟨⟨c, .fetching⟩, [], [], false⟩
  let sign : Progress H := ⟨⟨c, .signing⟩, [c], [], false⟩
  match job.stage, r with
  | .fetching, .fetched (.error _) => retry
  | .fetching, .fetched (.ok none) => sign
  | .fetching, .fetched (.ok (some (.error _, _))) => retry
  | .fetching, .fetched (.ok (some (.ok signer, existing))) =>
    if signer = s.signer ∧ existing = c then ⟨⟨c, .done⟩, [], [c], false⟩
    else if signer = s.signer ∧ existing.checkpoint.index = c.checkpoint.index ∧
      existing.checkpoint.mailboxDomain = c.checkpoint.mailboxDomain ∧
      existing.checkpoint.merkleTreeHookAddress = c.checkpoint.merkleTreeHookAddress then ⟨job, [], [], true⟩
    else sign
  | .signing, .signed true => ⟨⟨c, .writing⟩, [], [], false⟩
  | .signing, .signed false => retry
  | .writing, .written true => ⟨⟨c, .done⟩, [], [c], false⟩
  | .writing, .written false => retry
  | _, _ => ⟨job, [], [], false⟩

/-! ## The two workers -/

inductive Live (H : Type) where
  /-- sampling and verifying -/
  | running
  | submitting (job : Job H) (target : Checkpoint H)
  /-- `publish_latest_checkpoint_index` -/
  | publishing (target : Checkpoint H)
  | sending (target : Checkpoint H)
  | stopped

inductive History (H : Type) where
  | waiting
  /-- the loop of `verified_checkpoints`, with the tree it started from -/
  | replaying (target : Checkpoint H) (verified : IncrementalMerkle H) (queue : List (QueuedCheckpoint H))
  /-- the RPC fallback after a root mismatch -/
  | recovering (target : Checkpoint H) (verified : IncrementalMerkle H)
  /-- `submit_checkpoints`: the remaining checkpoints, highest first, and the current chunk -/
  | submitting (rest : List (CheckpointWithMessageId H)) (jobs : List (Job H))
  | stopped

structure System (H : Type) where
  tree : CheckpointTree H
  live : Live H
  historyTree : IncrementalMerkle H
  history : History H
  /-- the newest target the history worker has not seen -/
  pending : Option (Checkpoint H)
  /-- `reorg_halt` -/
  halted : Bool
  signed : List (CheckpointWithMessageId H)
  durable : List (CheckpointWithMessageId H)
  snapshots : List ℕ

def System.start (restored : IncrementalMerkle H) : System H :=
  ⟨CheckpointTree.new restored, .running, restored, .waiting, none, false, [], [], []⟩

inductive Event (H : Type) where
  | call (c : Call H)
  | liveReply (r : Reply H)
  | latestIndex (ok : Bool)
  | send
  /-- the live loop notices that the history worker ended -/
  | joinHistory
  /-- the history worker is aborted when the live worker is gone -/
  | abortHistory
  | take
  | read (row : Except Unit (Option H))
  | conclude
  | fetch (leaves : List H)
  | nextChunk
  | historyReply (j : ℕ) (r : Reply H)
  | snapshot

section Machine

variable (K : Keccak H) (s : ValidatorSubmitter H)

def System.record (sys : System H) (p : Progress H) : System H :=
  { sys with signed := sys.signed ++ p.signed, durable := sys.durable ++ p.durable }

/-- one replayed leaf of `verified_checkpoints`; `none` is a panic -/
def ingestQueued (x : IncrementalMerkle H × List (QueuedCheckpoint H)) (messageId : H) :
    Option (IncrementalMerkle H × List (QueuedCheckpoint H)) :=
  match x.1.ingest K messageId with
  | none => none
  | some tree =>
    match tree.index with
    | none => none
    | some i => some (tree, x.2 ++ [⟨tree.root K, i, messageId⟩])

/-- the end of `verified_checkpoints` and the `queue.pop()` of its caller: the live worker published the target -/
def checkTarget (sys : System H) (target : Checkpoint H) (queue : List (QueuedCheckpoint H)) : System H :=
  match sys.historyTree.index with
  | none => { sys with history := .stopped }
  | some i =>
    if target.index ≠ i then { sys with history := .stopped }
    else if s.checkpoint ((queue.getLast?.map (·.root)).getD (sys.historyTree.root K)) i ≠ target then
      { sys with halted := true, history := .stopped }
    else { sys with history := .submitting (queue.dropLast.map (·.intoCheckpoint target)).reverse [] }

def System.step (sys : System H) : Event H → System H
  | .call c =>
    match sys.live with
    | .running =>
      match Validator.step K s sys.tree c with
      | .error .reorg => { sys with halted := true, live := .stopped }
      | .error _ => { sys with live := .stopped }
      | .ok (tree, some (.Verified cp (some q))) =>
        { sys with tree, live := .submitting ⟨q.intoCheckpoint cp, .fetching⟩ cp }
      | .ok (tree, _) => { sys with tree }
    | _ => sys
  | .liveReply r =>
    if sys.halted then sys
    else
      match sys.live with
      | .submitting job target =>
        let p := job.reply s r
        if p.conflict then { sys with halted := true, live := .stopped }
        else { sys.record p with live := if p.job.stage = .done then .publishing target else .submitting p.job target }
      | _ => sys
  | .latestIndex ok =>
    if sys.halted then sys
    else
      match sys.live with
      | .publishing target => if ok then { sys with live := .sending target } else sys
      | _ => sys
  | .send =>
    match sys.live, sys.history with
    | .sending _, .stopped => { sys with live := .stopped }
    | .sending target, _ => { sys with live := .running, pending := some target }
    | _, _ => sys
  | .joinHistory =>
    match sys.live, sys.history with
    | .running, .stopped => { sys with live := .stopped }
    | _, _ => sys
  | .abortHistory =>
    match sys.live with
    | .stopped => { sys with history := .stopped }
    | _ => sys
  | .take =>
    match sys.history, sys.pending with
    | .waiting, some target =>
      if treeExceedsCheckpoint target sys.historyTree then { sys with pending := none, history := .stopped }
      else { sys with pending := none, history := .replaying target sys.historyTree [] }
    | _, _ => sys
  | .read row =>
    match sys.history with
    | .replaying target verified queue =>
      if target.index < sys.historyTree.count % 2 ^ 32 then sys
      else
        match row with
        | .error _ => { sys with history := .stopped }
        | .ok none => sys
        | .ok (some messageId) =>
          match ingestQueued K (sys.historyTree, queue) messageId with
          | none => { sys with history := .stopped }
          | some (tree, queue) => { sys with historyTree := tree, history := .replaying target verified queue }
    | _ => sys
  | .conclude =>
    match sys.history with
    | .replaying target verified queue =>
      if ¬ target.index < sys.historyTree.count % 2 ^ 32 then sys
      else if s.rpcRecovery ∧ queue ≠ [] ∧
        (sys.historyTree.index.map fun i => s.checkpoint (sys.historyTree.root K) i) ≠ some target then
        { sys with history := .recovering target verified }
      else checkTarget K s sys target queue
    | _ => sys
  | .fetch leaves =>
    match sys.history with
    | .recovering target verified =>
      -- `fetch_insertions` reports any other number of leaves as an error, and the worker retries
      if ¬ (verified.count ≤ target.index ∧ leaves.length = target.index - verified.count + 1) then sys
      else
        match leaves.foldlM (ingestQueued K) (verified, []) with
        | none => { sys with history := .stopped }
        | some (tree, queue) => checkTarget K s { sys with historyTree := tree } target queue
    | _ => sys
  | .nextChunk =>
    match sys.history with
    | .submitting rest jobs =>
      if jobs.all (·.stage = .done) ∧ rest ≠ [] then
        let chunk : List (Job H) := (rest.take s.maxSignConcurrency).map fun c => ⟨c, .fetching⟩
        { sys with history := .submitting (rest.drop s.maxSignConcurrency) chunk }
      else sys
    | _ => sys
  | .historyReply j r =>
    if sys.halted then sys
    else
      match sys.history with
      | .submitting rest jobs =>
        match jobs[j]? with
        | none => sys
        | some job =>
          let p := job.reply s r
          if p.conflict then { sys with halted := true, history := .stopped }
          else { sys.record p with history := .submitting rest (jobs.set j p.job) }
      | _ => sys
  | .snapshot =>
    if sys.halted then sys
    else
      match sys.history with
      | .submitting [] jobs =>
        if jobs.all (·.stage = .done) then
          match sys.historyTree.index with
          | none => { sys with history := .stopped }
          | some i => { sys with history := .waiting, snapshots := sys.snapshots ++ [i] }
        else sys
      | _ => sys

def System.run (sys : System H) (events : List (Event H)) : System H := events.foldl (System.step K s) sys

end Machine

/-! ## Authentic checkpoints -/

/-- the checkpoint of a nonempty prefix of the leaves `C` committed after the restored tree -/
def Authentic (K : Keccak H) (s : ValidatorSubmitter H) (t0 : IncrementalMerkle H) (C : List H)
    (c : CheckpointWithMessageId H) : Prop :=
  ∃ S t m, S <+: C ∧ IncrementalMerkle.ingestAll K t0 S = some t ∧ S.getLast? = some m ∧
    c = ⟨s.checkpoint (t.root K) (t0.count + S.length - 1), m⟩

omit [DecidableEq H] in
theorem Authentic.mono {K : Keccak H} {s : ValidatorSubmitter H} {t0 : IncrementalMerkle H} {C C' : List H}
    {c : CheckpointWithMessageId H} (h : Authentic K s t0 C c) (hC : C <+: C') : Authentic K s t0 C' c := by
  obtain ⟨S, t, m, hS, hrest⟩ := h
  exact ⟨S, t, m, hS.trans hC, hrest⟩

omit [DecidableEq H] in
/-- the index determines an authentic checkpoint -/
theorem Authentic.unique {K : Keccak H} {s : ValidatorSubmitter H} {t0 : IncrementalMerkle H} {C : List H}
    {c d : CheckpointWithMessageId H} (hc : Authentic K s t0 C c) (hd : Authentic K s t0 C d)
    (h : c.checkpoint.index = d.checkpoint.index) : c = d := by
  obtain ⟨S, t, m, hS, ht, hm, rfl⟩ := hc
  obtain ⟨T, u, n, hT, hu, hn, rfl⟩ := hd
  have hSne : S.length ≠ 0 := fun h0 => by simp [List.length_eq_zero_iff.1 h0] at hm
  have hTne : T.length ≠ 0 := fun h0 => by simp [List.length_eq_zero_iff.1 h0] at hn
  have hlen : S.length = T.length := by
    simp only [ValidatorSubmitter.checkpoint] at h
    omega
  have hST : S = T := (List.prefix_of_prefix_length_le hS hT hlen.le).eq_of_length hlen
  subst hST
  rw [ht] at hu
  rw [hm] at hn
  cases hu
  cases hn
  rfl

/-- a target the live worker has stored -/
def Announced (K : Keccak H) (s : ValidatorSubmitter H) (t0 : IncrementalMerkle H) (C : List H)
    (durable : List (CheckpointWithMessageId H)) (target : Checkpoint H) : Prop :=
  ∃ c ∈ durable, Authentic K s t0 C c ∧ c.checkpoint = target

/-- index `i` is stored -/
def Stored (durable : List (CheckpointWithMessageId H)) (i : ℕ) : Prop := ∃ c ∈ durable, c.checkpoint.index = i

/-- a history tree whose leaves are committed ones and all of whose indices are stored -/
structure Settled (K : Keccak H) (t0 : IncrementalMerkle H) (C : List H)
    (durable : List (CheckpointWithMessageId H)) (t : IncrementalMerkle H) : Prop where
  reached : ∃ V, IncrementalMerkle.ingestAll K t0 V = some t ∧ (Function.Injective2 K.concat → V <+: C)
  covered : ∀ i, t0.count ≤ i → i < t.count → Stored durable i

/-- the queue of a replay from `verified` to `tree`: one entry per leaf -/
def Queued (K : Keccak H) (verified tree : IncrementalMerkle H) (queue : List (QueuedCheckpoint H)) : Prop :=
  ∃ M, IncrementalMerkle.ingestAll K verified M = some tree ∧ queue.length = M.length ∧
    ∀ j < M.length, ∃ t m, IncrementalMerkle.ingestAll K verified (M.take (j + 1)) = some t ∧ M[j]? = some m ∧
      queue[j]? = some ⟨t.root K, verified.count + j, m⟩

/-- what the live worker holds -/
def LiveOk (K : Keccak H) (s : ValidatorSubmitter H) (t0 : IncrementalMerkle H) (C : List H)
    (durable : List (CheckpointWithMessageId H)) : Live H → Prop
  | .submitting job target =>
    Authentic K s t0 C job.checkpoint ∧ job.checkpoint.checkpoint = target ∧ job.stage ≠ .done
  | .publishing target => Announced K s t0 C durable target
  | .sending target => Announced K s t0 C durable target
  | _ => True

/-- what the history worker holds next to its tree -/
def HistoryOk (K : Keccak H) (s : ValidatorSubmitter H) (t0 : IncrementalMerkle H) (C : List H)
    (durable : List (CheckpointWithMessageId H)) (tree : IncrementalMerkle H) : History H → Prop
  | .waiting => Settled K t0 C durable tree
  | .replaying target verified queue =>
    Announced K s t0 C durable target ∧ Settled K t0 C durable verified ∧ Queued K verified tree queue
  | .recovering target verified => Announced K s t0 C durable target ∧ Settled K t0 C durable verified
  | .submitting rest jobs =>
    (∃ V, IncrementalMerkle.ingestAll K t0 V = some tree ∧ (Function.Injective2 K.concat → V <+: C)) ∧
    (Function.Injective2 K.concat → (∀ c ∈ rest, Authentic K s t0 C c) ∧
      ∀ job ∈ jobs, Authentic K s t0 C job.checkpoint) ∧
    ∀ i, t0.count ≤ i → i < tree.count → Stored durable i ∨ (∃ c ∈ rest, c.checkpoint.index = i) ∨
      ∃ job ∈ jobs, job.stage ≠ .done ∧ job.checkpoint.checkpoint.index = i
  | .stopped => True

/-- the joint invariant of both workers, for committed leaves `C` -/
structure SystemInv (K : Keccak H) (s : ValidatorSubmitter H) (t0 : IncrementalMerkle H) (C : List H) (sys : System H) :
    Prop where
  tree_inv : ∃ A, Inv K t0 C A sys.tree
  live_ok : LiveOk K s t0 C sys.durable sys.live
  history_ok : HistoryOk K s t0 C sys.durable sys.historyTree sys.history
  pending_ok : ∀ target, sys.pending = some target → Announced K s t0 C sys.durable target
  signed_ok : Function.Injective2 K.concat → ∀ c ∈ sys.signed, Authentic K s t0 C c
  snapshots_ok : ∀ n ∈ sys.snapshots, ∀ i, t0.count ≤ i → i ≤ n → Stored sys.durable i

/-! ## Growing logs and committed leaves -/

section Growth

variable {K : Keccak H} {s : ValidatorSubmitter H} {t0 : IncrementalMerkle H} {C C' : List H}
  {durable : List (CheckpointWithMessageId H)} (more : List (CheckpointWithMessageId H))

omit [DecidableEq H]

theorem Announced.mono {target : Checkpoint H} (h : Announced K s t0 C durable target) (hC : C <+: C') :
    Announced K s t0 C' (durable ++ more) target := by
  obtain ⟨c, hc, ha, ht⟩ := h
  exact ⟨c, List.mem_append_left _ hc, ha.mono hC, ht⟩

theorem Stored.mono {i : ℕ} (h : Stored durable i) : Stored (durable ++ more) i := by
  obtain ⟨c, hc, hi⟩ := h
  exact ⟨c, List.mem_append_left _ hc, hi⟩

theorem Settled.mono {t : IncrementalMerkle H} (h : Settled K t0 C durable t) (hC : C <+: C') :
    Settled K t0 C' (durable ++ more) t := by
  obtain ⟨⟨V, hV, hpre⟩, hcov⟩ := h
  exact ⟨⟨V, hV, fun hf => (hpre hf).trans hC⟩, fun i h1 h2 => (hcov i h1 h2).mono more⟩

theorem LiveOk.mono {l : Live H} (h : LiveOk K s t0 C durable l) (hC : C <+: C') :
    LiveOk K s t0 C' (durable ++ more) l := by
  cases l with
  | running => trivial
  | submitting job target => exact ⟨h.1.mono hC, h.2⟩
  | publishing target => exact Announced.mono more h hC
  | sending target => exact Announced.mono more h hC
  | stopped => trivial

theorem HistoryOk.mono {tree : IncrementalMerkle H} {h : History H} (hh : HistoryOk K s t0 C durable tree h)
    (hC : C <+: C') : HistoryOk K s t0 C' (durable ++ more) tree h := by
  cases h with
  | waiting => exact Settled.mono more hh hC
  | replaying target verified queue => exact ⟨hh.1.mono more hC, hh.2.1.mono more hC, hh.2.2⟩
  | recovering target verified => exact ⟨hh.1.mono more hC, hh.2.mono more hC⟩
  | submitting rest jobs =>
    obtain ⟨⟨V, hV, hpre⟩, hauth, hcov⟩ := hh
    refine ⟨⟨V, hV, fun hf => (hpre hf).trans hC⟩, fun hf => ?_, fun i h1 h2 => ?_⟩
    · exact ⟨fun c hc => ((hauth hf).1 c hc).mono hC, fun job hj => ((hauth hf).2 job hj).mono hC⟩
    · exact (hcov i h1 h2).imp_left (Stored.mono more)
  | stopped => trivial

end Growth

/-! ## One submission -/

/-- everything an answer can do: the value stays, only that value is signed or stored, and a finished submission is
stored -/
theorem Job.reply_cases (s : ValidatorSubmitter H) (job : Job H) (r : Reply H) :
    (job.reply s r).job.checkpoint = job.checkpoint ∧ (∀ c ∈ (job.reply s r).signed, c = job.checkpoint) ∧
    (∀ c ∈ (job.reply s r).durable, c = job.checkpoint) ∧
    ((job.reply s r).job.stage = .done → job.stage = .done ∨ job.checkpoint ∈ (job.reply s r).durable) := by
  obtain ⟨c, stage⟩ := job
  unfold Job.reply
  dsimp only
  split
  · simp
  · simp
  · simp
  · split_ifs
    · simp
    · simp
    · simp
  · simp
  · simp
  · simp
  · simp
  · simp

/-! ## The replayed queue -/

section Queue

variable {K : Keccak H} {s : ValidatorSubmitter H} {t0 : IncrementalMerkle H} {C : List H}
  {durable : List (CheckpointWithMessageId H)}

omit [DecidableEq H]

theorem index_eq {t : IncrementalMerkle H} {i : ℕ} (hcap : t.count ≤ U32_MAX) (h : t.index = some i) :
    i + 1 = t.count := by
  unfold IncrementalMerkle.index at h
  split_ifs at h
  cases h
  unfold U32_MAX at hcap
  omega

theorem queued_nil (K : Keccak H) (t : IncrementalMerkle H) : Queued K t t [] :=
  ⟨[], rfl, rfl, fun j hj => by simp at hj⟩

/-- one more leaf: one more entry -/
theorem ingestQueued_queued {verified tree tree' : IncrementalMerkle H} {queue queue' : List (QueuedCheckpoint H)}
    {messageId : H} (h : Queued K verified tree queue)
    (hi : ingestQueued K (tree, queue) messageId = some (tree', queue')) : Queued K verified tree' queue' := by
  obtain ⟨M, hM, hlen, hq⟩ := h
  unfold ingestQueued at hi
  dsimp only at hi
  split at hi
  · cases hi
  rename_i t ht
  split at hi
  · cases hi
  rename_i i hidx
  cases hi
  have hall := IncrementalMerkle.ingestAll_concat.2 ⟨_, hM, ht⟩
  obtain ⟨hc1, hc2⟩ := IncrementalMerkle.ingest_count ht
  have hi : i = verified.count + M.length := by
    have h1 := index_eq hc2 hidx
    have h2 := (IncrementalMerkle.ingestAll_count hM).1
    omega
  refine ⟨M ++ [messageId], hall, by simp [hlen], fun j hj => ?_⟩
  rw [List.length_append, List.length_singleton] at hj
  by_cases hjM : j < M.length
  · obtain ⟨u, m, hu, hm, hqj⟩ := hq j hjM
    refine ⟨u, m, ?_, ?_, ?_⟩
    · rw [List.take_append_of_le_length (by omega)]; exact hu
    · rw [List.getElem?_append_left hjM]; exact hm
    · rw [List.getElem?_append_left (by omega)]; exact hqj
  · have hj' : j = M.length := by omega
    subst hj'
    refine ⟨tree', messageId, ?_, by simp, ?_⟩
    · rw [List.take_of_length_le (by simp)]; exact hall
    · rw [List.getElem?_append_right (by omega), hlen, hi]
      simp

theorem foldlM_queued {verified tree tree' : IncrementalMerkle H} {queue queue' : List (QueuedCheckpoint H)}
    {leaves : List H} (h : Queued K verified tree queue)
    (hf : leaves.foldlM (ingestQueued K) (tree, queue) = some (tree', queue')) : Queued K verified tree' queue' := by
  induction leaves generalizing tree queue with
  | nil => cases hf; exact h
  | cons x leaves ih =>
    rw [List.foldlM_cons, Option.bind_eq_bind, Option.bind_eq_some_iff] at hf
    obtain ⟨⟨tree1, queue1⟩, h1, h2⟩ := hf
    exact ih (ingestQueued_queued h h1) h2

/-- the last entry of the queue carries the root of the replayed tree -/
theorem queued_root {verified tree : IncrementalMerkle H} {queue : List (QueuedCheckpoint H)}
    (h : Queued K verified tree queue) : (queue.getLast?.map (·.root)).getD (tree.root K) = tree.root K := by
  obtain ⟨M, hM, hlen, hq⟩ := h
  by_cases h0 : M.length = 0
  · rw [List.length_eq_zero_iff.1 (hlen.trans h0)]
    rfl
  · obtain ⟨t, m, ht, -, hqj⟩ := hq (M.length - 1) (by omega)
    rw [Nat.sub_add_cancel (by omega), List.take_length, hM] at ht
    cases ht
    rw [List.getLast?_eq_getElem?, hlen, hqj]
    rfl

/-- **Authentication by one root.** When the replayed tree has the root and index of an announced target and the pairing
is injective, its leaves are committed ones, and so every entry of the queue is authentic. -/
theorem queue_authentic (hf : Function.Injective2 K.concat) (hcap : t0.count ≤ U32_MAX)
    {verified tree : IncrementalMerkle H} {queue : List (QueuedCheckpoint H)} {target : Checkpoint H} {V M : List H}
    (hV : IncrementalMerkle.ingestAll K t0 V = some verified) (hM : IncrementalMerkle.ingestAll K verified M = some tree)
    (hq : ∀ j < M.length, ∃ t m, IncrementalMerkle.ingestAll K verified (M.take (j + 1)) = some t ∧ M[j]? = some m ∧
      queue[j]? = some ⟨t.root K, verified.count + j, m⟩) (hlen : queue.length = M.length)
    (hann : Announced K s t0 C durable target) (hindex : target.index + 1 = tree.count)
    (hroot : target.root = tree.root K) :
    V ++ M <+: C ∧ ∀ q ∈ queue, Authentic K s t0 C (q.intoCheckpoint target) := by
  obtain ⟨c, -, ⟨S, t, m, hS, ht, hm, rfl⟩, rfl⟩ := hann
  have hVM : IncrementalMerkle.ingestAll K t0 (V ++ M) = some tree := by
    rw [IncrementalMerkle.ingestAll_append hV, hM]
  have hSne : S.length ≠ 0 := fun h0 => by simp [List.length_eq_zero_iff.1 h0] at hm
  have hlenS : (V ++ M).length = S.length := by
    have h1 := (IncrementalMerkle.ingestAll_count hVM).1
    simp only [ValidatorSubmitter.checkpoint] at hindex
    omega
  have hVMS : V ++ M = S := IncrementalMerkle.ingestAll_injective hf hcap hVM ht hlenS hroot.symm
  have hpre : V ++ M <+: C := hVMS ▸ hS
  refine ⟨hpre, fun q hqm => ?_⟩
  obtain ⟨j, hj⟩ := List.mem_iff_getElem?.1 hqm
  have hjM : j < M.length := by
    rw [← hlen]
    exact (List.getElem?_eq_some_iff.1 hj).1
  obtain ⟨u, n, hu, hn, hqj⟩ := hq j hjM
  rw [hqj] at hj
  cases hj
  have hcount := (IncrementalMerkle.ingestAll_count hV).1
  refine ⟨V ++ M.take (j + 1), u, n, ?_, by rw [IncrementalMerkle.ingestAll_append hV, hu], ?_, ?_⟩
  · exact ((List.prefix_append_right_inj V).2 (List.take_prefix _ _)).trans hpre
  · have hne : M.take (j + 1) ≠ [] := List.length_pos_iff.1 (by rw [List.length_take]; omega)
    rw [List.getLast?_append_of_ne_nil _ hne, List.getLast?_eq_getElem?, List.length_take, List.getElem?_take,
      if_pos (by omega), show min (j + 1) M.length - 1 = j by omega, hn]
  · simp only [QueuedCheckpoint.intoCheckpoint, ValidatorSubmitter.checkpoint]
    rw [List.length_append, List.length_take, hcount,
      show t0.count + (V.length + min (j + 1) M.length) - 1 = t0.count + V.length + j by omega]

/-- indices of the replayed leaves are stored, announced or queued before the last entry -/
theorem queue_covered {verified tree : IncrementalMerkle H}
    {queue : List (QueuedCheckpoint H)} {target : Checkpoint H} (hset : Settled K t0 C durable verified)
    (hq : Queued K verified tree queue) (hann : Announced K s t0 C durable target)
    (hindex : target.index + 1 = tree.count) (i : ℕ) (h0 : t0.count ≤ i) (hi : i < tree.count) :
    Stored durable i ∨ ∃ q ∈ queue.dropLast, q.index = i := by
  obtain ⟨M, hM, hlen, hqj⟩ := hq
  have hcount := (IncrementalMerkle.ingestAll_count hM).1
  by_cases hv : i < verified.count
  · exact Or.inl (hset.covered i h0 hv)
  · by_cases hlast : i = target.index
    · -- the live worker stored the target before it announced it
      obtain ⟨c, hc, -, ht⟩ := hann
      exact Or.inl ⟨c, hc, by rw [ht, hlast]⟩
    · right
      obtain ⟨t, m, -, -, hentry⟩ := hqj (i - verified.count) (by omega)
      have hdrop : queue.dropLast[i - verified.count]? = some ⟨t.root K, verified.count + (i - verified.count), m⟩ := by
        rw [List.getElem?_dropLast, if_pos (by omega)]
        exact hentry
      exact ⟨_, List.mem_of_getElem? hdrop, by simp only; omega⟩

end Queue

/-! ## Steps -/

section Steps

variable {K : Keccak H} {s : ValidatorSubmitter H} {t0 : IncrementalMerkle H} {C : List H} {sys : System H}

omit [DecidableEq H] in
/-- a step that only moves a worker's phase -/
theorem SystemInv.withPhases (h : SystemInv K s t0 C sys) {l : Live H} {hist : History H}
    {pending : Option (Checkpoint H)} (halted : Bool) (hl : LiveOk K s t0 C sys.durable l)
    (hh : HistoryOk K s t0 C sys.durable sys.historyTree hist)
    (hp : ∀ target, pending = some target → Announced K s t0 C sys.durable target) :
    SystemInv K s t0 C { sys with live := l, history := hist, pending, halted } :=
  ⟨h.tree_inv, hl, hh, hp, h.signed_ok, h.snapshots_ok⟩

/-- the batch call of the live worker: the committed leaves grow, and a verified checkpoint is authentic -/
theorem call_inv (h : SystemInv K s t0 C sys) (hcap : t0.count ≤ U32_MAX) (c : Call H) :
    ∃ C', C <+: C' ∧ SystemInv K s t0 C' (sys.step K s (.call c)) := by
  obtain ⟨A, hinv⟩ := h.tree_inv
  have hsame : ∀ l : Live H, LiveOk K s t0 C sys.durable l → ∀ halted : Bool,
      ∃ C', C <+: C' ∧ SystemInv K s t0 C' { sys with live := l, halted } := fun l hl halted =>
    ⟨C, List.prefix_rfl, h.withPhases halted hl h.history_ok h.pending_ok⟩
  simp only [System.step]
  cases hlive : sys.live with
  | running =>
    have hstep := step_ends (s := s) hinv hcap c
    simp only
    cases hr : Validator.step K s sys.tree c with
    | error p =>
      cases p
      case reorg => exact hsame .stopped trivial true
      all_goals exact hsame .stopped trivial sys.halted
    | ok r =>
      obtain ⟨tree, batch⟩ := r
      rcases hstep.of_ok hr with ⟨hkeep, hno⟩ | ⟨C', A', q, hq, hinv', hb⟩
      · have hres : SystemInv K s t0 C { sys with tree := tree, live := .running } :=
          ⟨hkeep, trivial, h.history_ok, h.pending_ok, h.signed_ok, h.snapshots_ok⟩
        match batch, hno with
        | some (.Verified cp (some q)), hno => exact absurd rfl (hno cp q)
        | some (.Verified cp none), _ => exact ⟨C, List.prefix_rfl, hres⟩
        | some .WaitingForInsertions, _ => exact ⟨C, List.prefix_rfl, hres⟩
        | some .WaitingForRpc, _ => exact ⟨C, List.prefix_rfl, hres⟩
        | none, _ => exact ⟨C, List.prefix_rfl, hres⟩
      · simp only at hq
        subst hq
        have hC := hb.extends_committed
        have hauth : Authentic K s t0 C' (q.intoCheckpoint (s.checkpoint q.root q.index)) := by
          obtain ⟨t, ht, hroot⟩ := hb.root_eq
          refine ⟨C', t, q.messageId, List.prefix_rfl, ht, hb.last_eq, ?_⟩
          have hlen := hb.length_eq
          rw [show t0.count + C'.length - 1 = q.index by omega, ← hroot]
          rfl
        refine ⟨C', hC, ⟨A', hinv'⟩, ⟨hauth, rfl, nofun⟩, ?_, fun target ht => ?_, fun hf c hc => ?_, h.snapshots_ok⟩
        · simpa using h.history_ok.mono [] hC
        · simpa using (h.pending_ok target ht).mono [] hC
        · exact (h.signed_ok hf c hc).mono hC
  | submitting job target => exact ⟨C, List.prefix_rfl, h⟩
  | publishing target => exact ⟨C, List.prefix_rfl, h⟩
  | sending target => exact ⟨C, List.prefix_rfl, h⟩
  | stopped => exact ⟨C, List.prefix_rfl, h⟩

/-- an answer to the live submission -/
theorem liveReply_inv (h : SystemInv K s t0 C sys) (r : Reply H) :
    SystemInv K s t0 C (sys.step K s (.liveReply r)) := by
  simp only [System.step]
  split
  · exact h
  split
  · rename_i job target hlive
    obtain ⟨hauth, htarget, hpend⟩ : LiveOk K s t0 C sys.durable (.submitting job target) := hlive ▸ h.live_ok
    obtain ⟨hjob, hsigned, hdurable, hdone⟩ := job.reply_cases s r
    split
    · exact h.withPhases true trivial h.history_ok h.pending_ok
    · refine ⟨h.tree_inv, ?_, h.history_ok.mono _ List.prefix_rfl, fun t ht => (h.pending_ok t ht).mono _ List.prefix_rfl,
        fun hf c hc => ?_, fun n hn i h1 h2 => (h.snapshots_ok n hn i h1 h2).mono _⟩
      · split_ifs with hfin
        · exact ⟨job.checkpoint, List.mem_append_right _ ((hdone hfin).resolve_left hpend), hauth, htarget⟩
        · exact ⟨by rw [hjob]; exact hauth, by rw [hjob]; exact htarget, hfin⟩
      · rcases List.mem_append.1 hc with hc | hc
        · exact h.signed_ok hf c hc
        · rw [hsigned c hc]
          exact hauth
  · exact h

/-- the check at the end of a replay: a tree that passes is settled but for the queued entries -/
theorem checkTarget_inv (h : SystemInv K s t0 C sys) (hcap : t0.count ≤ U32_MAX) {target : Checkpoint H}
    {verified tree : IncrementalMerkle H} {queue : List (QueuedCheckpoint H)}
    (hann : Announced K s t0 C sys.durable target) (hset : Settled K t0 C sys.durable verified)
    (hq : Queued K verified tree queue) :
    SystemInv K s t0 C (checkTarget K s { sys with historyTree := tree } target queue) := by
  have hstop : ∀ halted : Bool, SystemInv K s t0 C { sys with historyTree := tree, halted, history := .stopped } :=
    fun _ => ⟨h.tree_inv, h.live_ok, trivial, h.pending_ok, h.signed_ok, h.snapshots_ok⟩
  unfold checkTarget
  dsimp only
  split
  · exact hstop _
  rename_i i hi
  split
  · exact hstop _
  rename_i htarget
  rw [queued_root hq]
  split
  · exact hstop _
  rename_i hsame
  obtain ⟨V, hV, hVC⟩ := hset.reached
  obtain ⟨M, hM, hlen, hentries⟩ := hq
  have hVM : IncrementalMerkle.ingestAll K t0 (V ++ M) = some tree := by
    rw [IncrementalMerkle.ingestAll_append hV, hM]
  have hindex : target.index + 1 = tree.count := by
    rw [not_not.1 htarget]
    exact index_eq ((IncrementalMerkle.ingestAll_count hVM).2 hcap) hi
  have hroot : target.root = tree.root K := by rw [← not_not.1 hsame]; rfl
  refine ⟨h.tree_inv, h.live_ok, ⟨⟨V ++ M, hVM, fun hf => ?_⟩, fun hf => ⟨fun c hc => ?_, by simp⟩, fun j h0 hj => ?_⟩,
    h.pending_ok, h.signed_ok, h.snapshots_ok⟩
  · exact (queue_authentic hf hcap hV hM hentries hlen hann hindex hroot).1
  · rw [List.mem_reverse, List.mem_map] at hc
    obtain ⟨q, hqm, rfl⟩ := hc
    exact (queue_authentic hf hcap hV hM hentries hlen hann hindex hroot).2 q (List.dropLast_subset _ hqm)
  · refine (queue_covered hset ⟨M, hM, hlen, hentries⟩ hann hindex j h0 hj).imp_right fun hqj => ?_
    obtain ⟨q, hqm, hqi⟩ := hqj
    exact Or.inl ⟨q.intoCheckpoint target, List.mem_reverse.2 (List.mem_map.2 ⟨q, hqm, rfl⟩), hqi⟩

omit [DecidableEq H] in
theorem SystemInv.stopHistory (h : SystemInv K s t0 C sys) : SystemInv K s t0 C { sys with history := .stopped } :=
  h.withPhases sys.halted h.live_ok trivial h.pending_ok

omit [DecidableEq H] in
theorem SystemInv.historyAt (h : SystemInv K s t0 C sys) {hist : History H} (hhist : sys.history = hist) :
    HistoryOk K s t0 C sys.durable sys.historyTree hist := hhist ▸ h.history_ok

/-- one row of the database -/
theorem read_inv (h : SystemInv K s t0 C sys) (row : Except Unit (Option H)) :
    SystemInv K s t0 C (sys.step K s (.read row)) := by
  simp only [System.step]
  split
  · rename_i target verified queue hhist
    obtain ⟨hann, hset, hq⟩ := h.historyAt hhist
    split
    · exact h
    split
    · exact h.stopHistory
    · exact h
    split
    · exact h.stopHistory
    · rename_i hing
      exact ⟨h.tree_inv, h.live_ok, ⟨hann, hset, ingestQueued_queued hq hing⟩, h.pending_ok, h.signed_ok, h.snapshots_ok⟩
  · exact h

/-- the end of a replay -/
theorem conclude_inv (h : SystemInv K s t0 C sys) (hcap : t0.count ≤ U32_MAX) :
    SystemInv K s t0 C (sys.step K s .conclude) := by
  simp only [System.step]
  split
  · rename_i target verified queue hhist
    obtain ⟨hann, hset, hq⟩ := h.historyAt hhist
    split
    · exact h
    split
    · exact h.withPhases sys.halted h.live_ok ⟨hann, hset⟩ h.pending_ok
    · exact checkTarget_inv h hcap hann hset hq
  · exact h

/-- the RPC fallback -/
theorem fetch_inv (h : SystemInv K s t0 C sys) (hcap : t0.count ≤ U32_MAX) (leaves : List H) :
    SystemInv K s t0 C (sys.step K s (.fetch leaves)) := by
  simp only [System.step]
  split
  · rename_i target verified hhist
    obtain ⟨hann, hset⟩ := h.historyAt hhist
    split
    · exact h
    split
    · exact h.stopHistory
    · rename_i hing
      exact checkTarget_inv h hcap hann hset (foldlM_queued (queued_nil K verified) hing)
  · exact h

/-- the next chunk of the history worker: the indices taken from the queue are in pending submissions -/
theorem nextChunk_inv (h : SystemInv K s t0 C sys) : SystemInv K s t0 C (sys.step K s .nextChunk) := by
  simp only [System.step]
  split
  · rename_i rest jobs hhist
    obtain ⟨hreach, hauth, hcov⟩ := h.historyAt hhist
    split
    · rename_i hdone
      refine h.withPhases sys.halted h.live_ok ⟨hreach, fun hf => ⟨fun c hc => ?_, fun job hj => ?_⟩, fun i h0 hi => ?_⟩
        h.pending_ok
      · exact (hauth hf).1 c (List.drop_subset _ _ hc)
      · obtain ⟨c, hc, rfl⟩ := List.mem_map.1 hj
        exact (hauth hf).1 c (List.take_subset _ _ hc)
      · rcases hcov i h0 hi with hst | ⟨c, hc, hci⟩ | ⟨job, hj, hpend, -⟩
        · exact Or.inl hst
        · right
          rw [← List.take_append_drop s.maxSignConcurrency rest, List.mem_append] at hc
          rcases hc with hc | hc
          · exact Or.inr ⟨⟨c, .fetching⟩, List.mem_map.2 ⟨c, hc, rfl⟩, nofun, hci⟩
          · exact Or.inl ⟨c, hc, hci⟩
        · exact absurd (by simpa using List.all_eq_true.1 hdone.1 job hj) hpend
    · exact h
  · exact h

/-- after an answer to one submission, an index with a pending one is stored or has a pending one still -/
theorem pending_after_reply {jobs : List (Job H)} {j i : ℕ} {job : Job H} (hget : jobs[j]? = some job) (r : Reply H)
    (h : ∃ job' ∈ jobs, job'.stage ≠ .done ∧ job'.checkpoint.checkpoint.index = i) :
    Stored (sys.durable ++ (job.reply s r).durable) i ∨
      ∃ job' ∈ jobs.set j (job.reply s r).job, job'.stage ≠ .done ∧ job'.checkpoint.checkpoint.index = i := by
  obtain ⟨hjob, -, -, hdone⟩ := job.reply_cases s r
  obtain ⟨job', hj', hpend, hji⟩ := h
  obtain ⟨k, hk⟩ := List.mem_iff_getElem?.1 hj'
  by_cases hkj : k = j
  · subst hkj
    rw [hget] at hk
    cases hk
    by_cases hfin : (job.reply s r).job.stage = .done
    · exact Or.inl ⟨job.checkpoint, List.mem_append_right _ ((hdone hfin).resolve_left hpend), hji⟩
    · refine Or.inr ⟨(job.reply s r).job, ?_, hfin, by rw [hjob]; exact hji⟩
      exact List.mem_set (List.getElem?_eq_some_iff.1 hget).1 _
  · refine Or.inr ⟨job', ?_, hpend, hji⟩
    exact List.mem_of_getElem? (by rw [List.getElem?_set_ne (Ne.symm hkj)]; exact hk)

/-- an answer to the history worker: every index stays stored, queued or in a pending submission -/
theorem historyReply_inv (h : SystemInv K s t0 C sys) (j : ℕ) (r : Reply H) :
    SystemInv K s t0 C (sys.step K s (.historyReply j r)) := by
  simp only [System.step]
  split
  · exact h
  split
  · rename_i rest jobs hhist
    obtain ⟨hreach, hauth, hcov⟩ := h.historyAt hhist
    split
    · exact h
    rename_i job hget
    obtain ⟨hjob, hsigned, -, -⟩ := job.reply_cases s r
    have hmem : job ∈ jobs := List.mem_of_getElem? hget
    split
    · exact h.withPhases true h.live_ok trivial h.pending_ok
    · refine ⟨h.tree_inv, h.live_ok.mono _ List.prefix_rfl, ⟨hreach, fun hf => ⟨(hauth hf).1, fun job' hj' => ?_⟩,
        fun i h0 hi => ?_⟩, fun t ht => (h.pending_ok t ht).mono _ List.prefix_rfl, fun hf c hc => ?_,
        fun n hn i h1 h2 => (h.snapshots_ok n hn i h1 h2).mono _⟩
      · rcases List.mem_or_eq_of_mem_set hj' with hj' | rfl
        · exact (hauth hf).2 job' hj'
        · rw [hjob]
          exact (hauth hf).2 job hmem
      · rcases hcov i h0 hi with hst | hrest | hpend
        · exact Or.inl (hst.mono _)
        · exact Or.inr (Or.inl hrest)
        · exact (pending_after_reply hget r hpend).imp_right Or.inr
      · rcases List.mem_append.1 hc with hc | hc
        · exact h.signed_ok hf c hc
        · rw [hsigned c hc]
          exact (hauth hf).2 job hmem
  · exact h

/-- a snapshot is written when nothing is queued or pending any more -/
theorem snapshot_inv (h : SystemInv K s t0 C sys) (hcap : t0.count ≤ U32_MAX) :
    SystemInv K s t0 C (sys.step K s .snapshot) := by
  simp only [System.step]
  split
  · exact h
  split
  · rename_i jobs hhist
    obtain ⟨⟨V, hV, hVC⟩, hauth, hcov⟩ : HistoryOk K s t0 C sys.durable sys.historyTree (.submitting [] jobs) :=
      hhist ▸ h.history_ok
    split
    · rename_i hall
      have hstored : ∀ i, t0.count ≤ i → i < sys.historyTree.count → Stored sys.durable i := by
        intro i h0 hi
        rcases hcov i h0 hi with hst | ⟨c, hc, -⟩ | ⟨job, hj, hpend, -⟩
        · exact hst
        · simp at hc
        · exact absurd (by simpa using List.all_eq_true.1 hall job hj) hpend
      split
      · exact h.withPhases sys.halted h.live_ok trivial h.pending_ok
      · rename_i n hn
        have hidx := index_eq ((IncrementalMerkle.ingestAll_count hV).2 hcap) hn
        refine ⟨h.tree_inv, h.live_ok, ⟨⟨V, hV, hVC⟩, hstored⟩, h.pending_ok, h.signed_ok, fun m hm i h0 hi => ?_⟩
        rcases List.mem_append.1 hm with hm | hm
        · exact h.snapshots_ok m hm i h0 hi
        · rw [List.mem_singleton] at hm
          exact hstored i h0 (by omega)
    · exact h
  · exact h

/-- the live worker announces a stored target -/
theorem send_inv (h : SystemInv K s t0 C sys) : SystemInv K s t0 C (sys.step K s .send) := by
  simp only [System.step]
  split
  · exact h.withPhases sys.halted trivial h.history_ok h.pending_ok
  · rename_i target hlive _
    have hann : LiveOk K s t0 C sys.durable (.sending target) := hlive ▸ h.live_ok
    refine h.withPhases sys.halted trivial h.history_ok fun t ht => ?_
    cases ht
    exact hann
  · exact h

/-- the history worker takes the newest target -/
theorem take_inv (h : SystemInv K s t0 C sys) : SystemInv K s t0 C (sys.step K s .take) := by
  simp only [System.step]
  split
  · rename_i target hhist hpend
    have hset := h.historyAt hhist
    split
    · exact h.withPhases sys.halted h.live_ok trivial nofun
    · exact h.withPhases sys.halted h.live_ok ⟨h.pending_ok target hpend, hset, queued_nil K _⟩ nofun
  · exact h

theorem latestIndex_inv (h : SystemInv K s t0 C sys) (ok : Bool) : SystemInv K s t0 C (sys.step K s (.latestIndex ok)) := by
  simp only [System.step]
  split
  · exact h
  split
  · rename_i target hlive
    have hann : LiveOk K s t0 C sys.durable (.publishing target) := hlive ▸ h.live_ok
    split
    · exact h.withPhases sys.halted hann h.history_ok h.pending_ok
    · exact h
  · exact h

/-- **One step.** Every event keeps the joint invariant, for committed leaves that only grow. -/
theorem step_inv (h : SystemInv K s t0 C sys) (hcap : t0.count ≤ U32_MAX) (e : Event H) :
    ∃ C', C <+: C' ∧ SystemInv K s t0 C' (sys.step K s e) := by
  have hsame : SystemInv K s t0 C (sys.step K s e) → ∃ C', C <+: C' ∧ SystemInv K s t0 C' (sys.step K s e) :=
    fun h => ⟨C, List.prefix_rfl, h⟩
  cases e with
  | call c => exact call_inv h hcap c
  | liveReply r => exact hsame (liveReply_inv h r)
  | latestIndex ok => exact hsame (latestIndex_inv h ok)
  | send => exact hsame (send_inv h)
  | joinHistory =>
    refine hsame ?_
    simp only [System.step]
    split
    · exact h.withPhases sys.halted trivial h.history_ok h.pending_ok
    · exact h
  | abortHistory =>
    refine hsame ?_
    simp only [System.step]
    split
    · exact h.withPhases sys.halted h.live_ok trivial h.pending_ok
    · exact h
  | take => exact hsame (take_inv h)
  | read row => exact hsame (read_inv h row)
  | conclude => exact hsame (conclude_inv h hcap)
  | fetch leaves => exact hsame (fetch_inv h hcap leaves)
  | nextChunk => exact hsame (nextChunk_inv h)
  | historyReply j r => exact hsame (historyReply_inv h j r)
  | snapshot => exact hsame (snapshot_inv h hcap)

end Steps

/-! ## Runs -/

/-- **Every run.** -/
theorem run_inv (K : Keccak H) (s : ValidatorSubmitter H) {t0 : IncrementalMerkle H} (hcap : t0.count ≤ U32_MAX)
    (events : List (Event H)) (sys : System H) (C : List H) (h : SystemInv K s t0 C sys) :
    ∃ C', SystemInv K s t0 C' (sys.run K s events) := by
  induction events generalizing sys C with
  | nil => exact ⟨C, h⟩
  | cons e events ih =>
    obtain ⟨C', _, h'⟩ := step_inv h hcap e
    exact ih (sys.step K s e) C' h'

omit [DecidableEq H] in
theorem start_inv (K : Keccak H) (s : ValidatorSubmitter H) (t0 : IncrementalMerkle H) :
    SystemInv K s t0 [] (System.start t0) :=
  ⟨⟨[], new_inv K t0 rfl⟩, trivial, ⟨⟨[], rfl, fun _ => List.prefix_rfl⟩, fun i h1 h2 => by
    simp only [System.start] at h2; omega⟩, nofun, fun _ c hc => by simp [System.start] at hc, fun n hn => by
    simp [System.start] at hn⟩

/-- **One value per index.** In every run of both workers from a restored tree, two values passed to the signer with the
same index are equal, provided the pairing is injective. -/
theorem signed_values_unique (K : Keccak H) (hf : Function.Injective2 K.concat) (s : ValidatorSubmitter H)
    (restored : IncrementalMerkle H) (hcap : restored.count ≤ U32_MAX) (events : List (Event H))
    (c d : CheckpointWithMessageId H) (hc : c ∈ ((System.start restored).run K s events).signed)
    (hd : d ∈ ((System.start restored).run K s events).signed) (hindex : c.checkpoint.index = d.checkpoint.index) :
    c = d := by
  obtain ⟨C, h⟩ := run_inv K s hcap events _ [] (start_inv K s restored)
  exact (h.signed_ok hf c hc).unique (h.signed_ok hf d hd) hindex

/-- the report of the tree with the leaves 7, 8 cut at `n` -/
def pairSamples (n : ℕ) : Samples ℕ :=
  [(IncrementalMerkle.ingestAll pairKeccak (IncrementalMerkle.default pairKeccak) ([7, 8].take n)).map fun t =>
    toySubmitter.checkpoint (t.root pairKeccak) (n - 1)]

/-- verify the first `n` leaves, sign, store, publish and announce -/
def pairRound (n : ℕ) : List (Event ℕ) :=
  [.call (.verify (pairSamples n) 256 fun i => .ok ([7, 8][i]?)), .liveReply (.fetched (.ok none)),
    .liveReply (.signed true), .liveReply (.written true), .latestIndex true, .send]

/-- two live rounds whose targets coalesce, then the history worker, which signs index 0 once more -/
def pairEvents : List (Event ℕ) :=
  pairRound 1 ++ pairRound 2 ++ [.take, .read (.ok (some 7)), .read (.ok none), .read (.ok (some 8)), .conclude,
    .nextChunk, .historyReply 0 (.fetched (.ok none)), .historyReply 0 (.signed true), .historyReply 0 (.written true),
    .snapshot]

def pairRun : System ℕ := (System.start (IncrementalMerkle.default pairKeccak)).run pairKeccak toySubmitter pairEvents

theorem pairRun_signed : pairRun.signed.map (·.checkpoint.index) = [0, 1, 0] := by decide +kernel

theorem pairRun_snapshots : pairRun.snapshots = [1] := by decide +kernel

/-- the live worker and the history worker both sign index 0 -/
theorem signed_values_unique_coalesced :
    ∃ c e d, pairRun.signed = [c, e, d] ∧ c.checkpoint.index = 0 ∧ d.checkpoint.index = 0 ∧ c = d := by
  obtain ⟨c, l, hl, hc, h1⟩ := List.map_eq_cons_iff.1 pairRun_signed
  obtain ⟨e, l', rfl, _, h2⟩ := List.map_eq_cons_iff.1 h1
  obtain ⟨d, l'', rfl, hd, h3⟩ := List.map_eq_cons_iff.1 h2
  obtain rfl : l'' = [] := by simpa using h3
  refine ⟨c, e, d, hl, hc, hd, ?_⟩
  exact signed_values_unique pairKeccak pairKeccak_injective toySubmitter (IncrementalMerkle.default pairKeccak)
    (by decide) pairEvents c d (show c ∈ pairRun.signed by simp [hl]) (show d ∈ pairRun.signed by simp [hl])
    (hc.trans hd.symm)

/-- **Snapshot durability.** In every state of every run, every index from the restored count up to a written snapshot
has been stored. -/
theorem snapshot_durable (K : Keccak H) (s : ValidatorSubmitter H) (restored : IncrementalMerkle H)
    (hcap : restored.count ≤ U32_MAX) (events : List (Event H)) (n : ℕ)
    (hn : n ∈ ((System.start restored).run K s events).snapshots) (i : ℕ) (h0 : restored.count ≤ i) (hi : i ≤ n) :
    ∃ c ∈ ((System.start restored).run K s events).durable, c.checkpoint.index = i := by
  obtain ⟨C, h⟩ := run_inv K s hcap events _ [] (start_inv K s restored)
  exact h.snapshots_ok n hn i h0 hi

theorem snapshot_durable_coalesced :
    pairRun.snapshots = [1] ∧ ∃ c ∈ pairRun.durable, c.checkpoint.index = 0 := by
  refine ⟨pairRun_snapshots, ?_⟩
  exact snapshot_durable pairKeccak toySubmitter (IncrementalMerkle.default pairKeccak) (by decide) pairEvents 1
    (show 1 ∈ pairRun.snapshots by rw [pairRun_snapshots]; simp) 0 (by decide) (by decide)

end Hyperlane.Validator
