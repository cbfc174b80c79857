/-
What a validator has published stays, across workers, crashes and restarts.

The two workers of a process submit disjoint indices, and each index at most once. So when a submission has fetched and
found nothing of this validator, nothing of it is stored there until the submission itself has written: a checkpoint that
is published is never replaced, whatever trees and leaves later processes start from, and nothing is ever signed that
contradicts it. A snapshot is only written when everything below it is published.

- `WorkerOk`, `Inv`: the invariant.
- `answer_ok`: one answer to one submission.
- `step_later`, `run_later`: what a step and a run keep.
- `published_once`: publication is write-once, and a tombstone ends it.
- `announced_stored`: a new latest index and a snapshot point at published checkpoints.
-/
import Hyperlane.Validator.NormalMode

namespace Hyperlane.NormalMode

open Hyperlane.Accumulator Hyperlane.Validator

variable {H : Type}

abbrev idx (c : CheckpointWithMessageId H) : ℕ := c.checkpoint.index

variable (s : ValidatorSubmitter H) {K : Keccak H} {C : HashCodec H}

/-- of the validator's domain and hook -/
def Ours (c : CheckpointWithMessageId H) : Prop :=
  c.checkpoint.mailboxDomain = s.domain ∧ c.checkpoint.merkleTreeHookAddress = s.address

/-- stored under its index, with the validator's signature -/
def Published (storage : ℕ → Option (Stored H)) (i : ℕ) (c : CheckpointWithMessageId H) : Prop :=
  storage i = some (.ok s.signer, c) ∧ idx c = i ∧ Ours s c

variable {s} {storage storage' : ℕ → Option (Stored H)} {role : Role} {tipCount : ℕ}
  {halted : Bool}

theorem Published.unique {i : ℕ} {c d : CheckpointWithMessageId H} (hc : Published s storage i c)
    (hd : Published s storage i d) : c = d := by
  have h := hc.1.symm.trans hd.1
  exact (Prod.mk.inj (Option.some.inj h)).2

/-! ## Submissions -/

variable (s storage) in
/-- what is known of the storage while a submission is under way -/
def JobOk (job : Job H) : Prop :=
  match job.stage with
  | .fetching => True
  | .signing => ∀ c, Published s storage (idx job.checkpoint) c → c = job.checkpoint
  | .writing => ∀ c, Published s storage (idx job.checkpoint) c → c = job.checkpoint
  | .done => Published s storage (idx job.checkpoint) job.checkpoint

/-- another index -/
theorem JobOk.congr {job : Job H} (h : JobOk s storage job)
    (hsame : storage' (idx job.checkpoint) = storage (idx job.checkpoint)) : JobOk s storage' job := by
  unfold JobOk Published at h ⊢
  rw [hsame]
  exact h

variable (s storage storage') in
/-- what an answer does to the storage and to the record of what was signed -/
structure Answered (c : CheckpointWithMessageId H) (new : List (CheckpointWithMessageId H)) : Prop where
  kept : ∀ i d, Published s storage i d → Published s storage' i d
  others : ∀ i, i ≠ idx c → storage' i = storage i
  signed : ∀ d ∈ new, ∀ e, Published s storage (idx d) e → e = d

theorem Answered.refl (c : CheckpointWithMessageId H) : Answered s storage storage c [] :=
  ⟨fun _ _ => id, fun _ _ => rfl, fun _ hd => absurd hd List.not_mem_nil⟩

section Step

variable [DecidableEq H]

/-- what a fetch finds decides whether the submission may sign -/
theorem fetched_ok {c : CheckpointWithMessageId H} (hours : Ours s c)
    (hconflict : (Job.reply s ⟨c, .fetching⟩ (.fetched (.ok (storage (idx c))))).conflict = false) :
    JobOk s storage (Job.reply s ⟨c, .fetching⟩ (.fetched (.ok (storage (idx c))))).job ∧
      Answered s storage storage c (Job.reply s ⟨c, .fetching⟩ (.fetched (.ok (storage (idx c))))).signed := by
  have hfree : (∀ d, Published s storage (idx c) d → d = c) → Answered s storage storage c [c] := fun hfree =>
    ⟨fun _ _ => id, fun _ _ => rfl, fun d hd => by rw [List.mem_singleton.1 hd]; exact hfree⟩
  cases hstored : storage (idx c) with
  | none =>
    have hnone : ∀ d, Published s storage (idx c) d → d = c := fun d hd => nomatch hstored.symm.trans hd.1
    exact ⟨hnone, hfree hnone⟩
  | some stored =>
    obtain ⟨signer, existing⟩ := stored
    cases signer with
    | error e => exact ⟨trivial, Answered.refl c⟩
    | ok signer =>
      rw [hstored] at hconflict
      simp only [Job.reply] at hconflict ⊢
      split_ifs at hconflict ⊢ with hsame hother
      · obtain ⟨rfl, rfl⟩ := hsame
        exact ⟨⟨hstored, rfl, hours⟩, Answered.refl _⟩
      · -- what is stored there is not of this validator
        have hnone : ∀ d, Published s storage (idx c) d → d = c := by
          intro d ⟨hd, hindex, hd'⟩
          obtain ⟨hsigner, rfl⟩ := Prod.mk.inj (Option.some.inj (hstored.symm.trans hd))
          refine absurd ⟨Except.ok.inj hsigner, hindex, ?_, ?_⟩ hother
          · exact hd'.1.trans hours.1.symm
          · exact hd'.2.trans hours.2.symm
        exact ⟨hnone, hfree hnone⟩

/-- **An answer to a submission**: what was published stays, other indices are left alone, and what is signed does not
contradict what is published. -/
theorem answer_ok {job : Job H} (hjob : JobOk s storage job) (hours : Ours s job.checkpoint) (a : Answer)
    (hconflict : (job.reply s (reply storage job.checkpoint a)).conflict = false) :
    (job.reply s (reply storage job.checkpoint a)).job.checkpoint = job.checkpoint ∧
      JobOk s (land s storage job a) (job.reply s (reply storage job.checkpoint a)).job ∧
      Answered s storage (land s storage job a) job.checkpoint (job.reply s (reply storage job.checkpoint a)).signed := by
  refine ⟨(Job.reply_cases s job _).1, ?_⟩
  obtain ⟨c, stage⟩ := job
  cases a with
  | fetched ok =>
    cases stage with
    | fetching =>
      cases ok with
      | true => exact fetched_ok hours hconflict
      | false => exact ⟨trivial, Answered.refl c⟩
    | signing => cases ok <;> exact ⟨hjob, Answered.refl c⟩
    | writing => cases ok <;> exact ⟨hjob, Answered.refl c⟩
    | done => cases ok <;> exact ⟨hjob, Answered.refl c⟩
  | signed ok =>
    cases stage with
    | signing =>
      cases ok with
      | true => exact ⟨hjob, Answered.refl c⟩
      | false => exact ⟨trivial, Answered.refl c⟩
    | fetching => cases ok <;> exact ⟨hjob, Answered.refl c⟩
    | writing => cases ok <;> exact ⟨hjob, Answered.refl c⟩
    | done => cases ok <;> exact ⟨hjob, Answered.refl c⟩
  | written landed ok =>
    cases landed with
    | false =>
      cases stage with
      | writing => exact ⟨trivial, Answered.refl c⟩
      | fetching => exact ⟨hjob, Answered.refl c⟩
      | signing => exact ⟨hjob, Answered.refl c⟩
      | done => exact ⟨hjob, Answered.refl c⟩
    | true =>
      cases stage with
      | writing =>
        have hland : land s storage ⟨c, .writing⟩ (.written true ok) =
            Function.update storage (idx c) (some (.ok s.signer, c)) := by
          unfold land
          exact if_pos rfl
        have hpublished : Published s (land s storage ⟨c, .writing⟩ (.written true ok)) (idx c) c := by
          rw [hland]
          exact ⟨Function.update_self _ _ _, rfl, hours⟩
        have hanswered : Answered s storage (land s storage ⟨c, .writing⟩ (.written true ok)) c [] := by
          refine ⟨fun i d hd => ?_, fun i hi => ?_, fun _ hd => absurd hd List.not_mem_nil⟩
          · by_cases hi : i = idx c
            · subst hi
              exact hjob d hd ▸ hpublished
            · rw [hland]
              exact ⟨(Function.update_of_ne hi _ _).trans hd.1, hd.2⟩
          · rw [hland]
            exact Function.update_of_ne hi _ _
        cases ok with
        | true => exact ⟨hpublished, hanswered⟩
        | false => exact ⟨trivial, hanswered⟩
      | fetching => exact ⟨hjob, Answered.refl c⟩
      | signing => exact ⟨hjob, Answered.refl c⟩
      | done => exact ⟨hjob, Answered.refl c⟩

end Step

/-! ## Workers -/

/-- the indices of a worker -/
def Within (role : Role) (tipCount i : ℕ) : Prop :=
  match role with
  | .backfill => i < tipCount
  | .tip => tipCount ≤ i

theorem Within.disjoint {i : ℕ} (h : Within .backfill tipCount i) (h' : Within .tip tipCount i) : False :=
  absurd h (not_lt.2 h')

variable (s storage role tipCount) in
/-- the tree a worker has verified -/
structure Verified (tree : IncrementalMerkle H) : Prop where
  cap : tree.count ≤ U32_MAX
  low : role = .tip → tipCount ≤ tree.count
  covered : role = .backfill → ∀ i < tree.count, ∃ c, Published s storage i c

/-- where a worker may go -/
def High (role : Role) (tipCount : ℕ) (target : Checkpoint H) : Prop := role = .backfill → target.index < tipCount

variable (s storage role tipCount) in
/-- what a worker is about to publish -/
structure Submitting (tree : IncrementalMerkle H) (rest : List (CheckpointWithMessageId H)) (jobs : List (Job H)) :
    Prop where
  cap : tree.count ≤ U32_MAX
  low : role = .tip → tipCount ≤ tree.count
  queued : ∀ c ∈ rest, Ours s c ∧ Within role tipCount (idx c)
  active : ∀ job ∈ jobs, Ours s job.checkpoint ∧ Within role tipCount (idx job.checkpoint) ∧ JobOk s storage job
  distinct : (jobs.map (fun job => idx job.checkpoint) ++ rest.map idx).Nodup
  covered : role = .backfill → ∀ i < tree.count,
    (∃ c, Published s storage i c) ∨ (∃ c ∈ rest, idx c = i) ∨ ∃ job ∈ jobs, idx job.checkpoint = i

variable (s K storage role tipCount halted) in
/-- a worker whose process is halted or not -/
def WorkerOk (w : Worker H) : Prop :=
  match w.phase with
  | .waiting => Verified s storage role tipCount w.tree
  | .replaying target verified queue =>
    Verified s storage role tipCount verified ∧ High role tipCount target ∧ Queued K verified w.tree queue
  | .recovering target verified => Verified s storage role tipCount verified ∧ High role tipCount target
  | .submitting rest jobs latest =>
    Submitting s storage role tipCount w.tree rest jobs ∧ ∀ i, latest = .writing i → ∃ c, Published s storage i c
  | .guarding _ => halted = true
  | .ended => True

theorem Verified.keep {tree : IncrementalMerkle H} (h : Verified s storage role tipCount tree)
    (hkept : ∀ i c, Published s storage i c → Published s storage' i c) : Verified s storage' role tipCount tree :=
  ⟨h.cap, h.low, fun hrole i hi => (h.covered hrole i hi).imp fun c => hkept i c⟩

/-- another worker's answer -/
theorem WorkerOk.keep {w : Worker H} (h : WorkerOk s K storage role tipCount halted w)
    (hkept : ∀ i c, Published s storage i c → Published s storage' i c)
    (hothers : ∀ i, Within role tipCount i → storage' i = storage i) : WorkerOk s K storage' role tipCount halted w := by
  unfold WorkerOk at h ⊢
  split at h
  · exact h.keep hkept
  · exact ⟨h.1.keep hkept, h.2⟩
  · exact ⟨h.1.keep hkept, h.2⟩
  · obtain ⟨hw, hlatest⟩ := h
    refine ⟨⟨hw.cap, hw.low, hw.queued, fun job hjob => ?_, hw.distinct, fun hrole i hi => ?_⟩, fun i hi => ?_⟩
    · obtain ⟨hours, hwithin, hok⟩ := hw.active job hjob
      exact ⟨hours, hwithin, hok.congr (hothers _ hwithin)⟩
    · exact (hw.covered hrole i hi).imp_left fun ⟨c, hc⟩ => ⟨c, hkept i c hc⟩
    · exact (hlatest i hi).imp fun c => hkept i c
  · exact h
  · trivial

/-- the halt stays -/
theorem WorkerOk.halt {w : Worker H} (h : WorkerOk s K storage role tipCount halted w) (halt : Bool) :
    WorkerOk s K storage role tipCount (halted || halt) w := by
  unfold WorkerOk at h ⊢
  split at h
  · exact h
  · exact h
  · exact h
  · exact h
  · rw [h, Bool.true_or]
  · trivial

/-- the indices of a replayed queue follow the verified tree -/
theorem queued_indices {verified tree : IncrementalMerkle H} {queue : List (QueuedCheckpoint H)}
    (h : Queued K verified tree queue) :
    queue.map (·.index) = List.range' verified.count queue.length ∧ tree.count = verified.count + queue.length := by
  obtain ⟨M, hM, hlen, hq⟩ := h
  refine ⟨List.ext_getElem? fun j => ?_, ?_⟩
  · rw [List.getElem?_map]
    by_cases hj : j < M.length
    · obtain ⟨t, m, -, -, hentry⟩ := hq j hj
      rw [hentry, List.getElem?_range' (by omega), Nat.one_mul]
      rfl
    · rw [List.getElem?_eq_none (by omega), List.getElem?_eq_none (by rw [List.length_range']; omega)]
      rfl
  · rw [hlen]
    exact (IncrementalMerkle.ingestAll_count hM).1

section Worker

variable [DecidableEq H] {w : Worker H}

omit [DecidableEq H] in
/-- a replayed queue whose root is the target's -/
theorem submit_ok {verified tree : IncrementalMerkle H} {target : Checkpoint H} {queue : List (QueuedCheckpoint H)}
    (hverified : Verified s storage role tipCount verified) (hhigh : High role tipCount target)
    (hqueue : Queued K verified tree queue) (hcap : tree.count ≤ U32_MAX) (hindex : target.index + 1 = tree.count)
    (hdomain : target.mailboxDomain = s.domain) (haddress : target.merkleTreeHookAddress = s.address) :
    WorkerOk s K storage role tipCount halted ⟨tree, submit target queue⟩ := by
  obtain ⟨hindices, hcount⟩ := queued_indices hqueue
  have hmem : ∀ q ∈ queue, verified.count ≤ q.index ∧ q.index < tree.count := by
    intro q hq
    have hmap : q.index ∈ queue.map (·.index) := List.mem_map_of_mem hq
    rw [hindices, List.mem_range'_1] at hmap
    omega
  have hmap : ((queue.map (·.intoCheckpoint target)).reverse).map idx = (queue.map (·.index)).reverse := by
    rw [List.map_reverse, List.map_map]
    rfl
  suffices hsubmitting : Submitting s storage role tipCount tree (queue.map (·.intoCheckpoint target)).reverse [] by
    refine ⟨hsubmitting, fun i hi => ?_⟩
    split at hi
    · cases hi
    · cases hi
  refine ⟨hcap, fun hrole => ?_, ?_, fun job hjob => absurd hjob List.not_mem_nil, ?_, fun hrole i hi => ?_⟩
  · have hlow := hverified.low hrole
    omega
  · intro c hc
    obtain ⟨q, hq, rfl⟩ := List.mem_map.1 (List.mem_reverse.1 hc)
    obtain ⟨hfrom, hto⟩ := hmem q hq
    refine ⟨⟨hdomain, haddress⟩, ?_⟩
    cases role with
    | backfill =>
      have hlt := hhigh rfl
      change q.index < tipCount
      omega
    | tip => exact (hverified.low rfl).trans hfrom
  · rw [List.map_nil, List.nil_append, hmap, List.nodup_reverse, hindices]
    exact List.nodup_range'
  · by_cases hi' : i < verified.count
    · exact .inl (hverified.covered hrole i hi')
    · right
      left
      have hmem' : i ∈ queue.map (·.index) := by
        rw [hindices, List.mem_range'_1]
        omega
      obtain ⟨q, hq, rfl⟩ := List.mem_map.1 hmem'
      exact ⟨q.intoCheckpoint target, List.mem_reverse.2 (List.mem_map_of_mem hq), rfl⟩

theorem checkTarget_ok {verified tree : IncrementalMerkle H} {target : Checkpoint H} {queue : List (QueuedCheckpoint H)}
    (hverified : Verified s storage role tipCount verified) (hhigh : High role tipCount target)
    (hqueue : Queued K verified tree queue) :
    WorkerOk s K storage role tipCount (halted || (checkTarget K s tree target queue).2)
      ⟨tree, (checkTarget K s tree target queue).1⟩ := by
  have hcap : tree.count ≤ U32_MAX := by
    obtain ⟨M, hM, -⟩ := hqueue
    exact (IncrementalMerkle.ingestAll_count hM).2 hverified.cap
  unfold checkTarget
  split
  · trivial
  rename_i i hi
  split_ifs with hindex hroot
  · trivial
  · exact Bool.or_true halted
  · rw [not_not] at hindex hroot
    have hi' := index_eq hcap hi
    refine submit_ok hverified hhigh hqueue hcap (by omega) ?_ ?_
    · rw [← hroot]
      rfl
    · rw [← hroot]
      rfl

omit [DecidableEq H] in
theorem begin_ok {tree : IncrementalMerkle H} {target : Checkpoint H} (hverified : Verified s storage role tipCount tree)
    (hhigh : High role tipCount target) : WorkerOk s K storage role tipCount halted ⟨tree, begin tree target⟩ := by
  unfold begin
  split_ifs
  · trivial
  · exact ⟨hverified, hhigh, queued_nil K tree⟩

omit [DecidableEq H] in
theorem read_ok (h : WorkerOk s K storage role tipCount halted w) (row : Except Unit (Option H)) :
    WorkerOk s K storage role tipCount halted (w.read K row) := by
  unfold Worker.read
  split
  · rename_i target verified queue hphase
    split_ifs
    · exact h
    · cases row with
      | error e => trivial
      | ok row =>
        cases row with
        | none => exact h
        | some messageId =>
          dsimp only
          split
          · trivial
          · rename_i tree queue' hingest
            rw [WorkerOk, hphase] at h
            exact ⟨h.1, h.2.1, ingestQueued_queued h.2.2 hingest⟩
  · exact h

theorem conclude_ok (h : WorkerOk s K storage role tipCount halted w) :
    WorkerOk s K storage role tipCount (halted || (w.conclude K s).2) (w.conclude K s).1 := by
  unfold Worker.conclude
  split
  · rename_i target verified queue hphase
    split_ifs
    · rw [WorkerOk, hphase] at h
      exact ⟨h.1, h.2.1⟩
    · rw [WorkerOk, hphase] at h
      exact checkTarget_ok h.1 h.2.1 h.2.2
    · exact h.halt false
  · exact h.halt false

theorem fetchInsertions_ok (h : WorkerOk s K storage role tipCount halted w) (leaves : List H) :
    WorkerOk s K storage role tipCount (halted || (w.fetchInsertions K s leaves).2) (w.fetchInsertions K s leaves).1 := by
  unfold Worker.fetchInsertions
  split
  · rename_i target verified hphase
    split_ifs
    · split
      · trivial
      · rename_i tree queue hfold
        rw [WorkerOk, hphase] at h
        exact checkTarget_ok h.1 h.2 (foldlM_queued (queued_nil K verified) hfold)
    · exact h.halt false
  · exact h.halt false

omit [DecidableEq H] in
/-- the next submissions, when the ones before are through -/
theorem Submitting.chunk {tree : IncrementalMerkle H} {rest : List (CheckpointWithMessageId H)} {jobs : List (Job H)}
    (h : Submitting s storage role tipCount tree rest jobs) (hdone : ∀ job ∈ jobs, job.stage = .done) (k : ℕ) :
    Submitting s storage role tipCount tree (rest.drop k) ((rest.take k).map fun c => ⟨c, .fetching⟩) := by
  refine ⟨h.cap, h.low, fun c hc => h.queued c (List.mem_of_mem_drop hc), ?_, ?_, fun hrole i hi => ?_⟩
  · intro job hjob
    obtain ⟨c, hc, rfl⟩ := List.mem_map.1 hjob
    obtain ⟨hours, hwithin⟩ := h.queued c (List.mem_of_mem_take hc)
    exact ⟨hours, hwithin, trivial⟩
  · have hsame : ((rest.take k).map fun c => (⟨c, .fetching⟩ : Job H)).map (fun job => idx job.checkpoint) =
        (rest.take k).map idx := by
      rw [List.map_map]
      rfl
    rw [hsame, ← List.map_append, List.take_append_drop]
    exact (List.nodup_append.1 h.distinct).2.1
  · rcases h.covered hrole i hi with hpub | ⟨c, hc, hci⟩ | ⟨job, hjob, hji⟩
    · exact .inl hpub
    · right
      rw [← List.take_append_drop k rest] at hc
      rcases List.mem_append.1 hc with hc | hc
      · exact .inr ⟨⟨c, .fetching⟩, List.mem_map_of_mem hc, hci⟩
      · exact .inl ⟨c, hc, hci⟩
    · left
      have hok := (h.active job hjob).2.2
      rw [JobOk, hdone job hjob] at hok
      exact ⟨job.checkpoint, hji ▸ hok⟩

omit [DecidableEq H] in
theorem nextChunk_ok (h : WorkerOk s K storage role tipCount halted w) :
    WorkerOk s K storage role tipCount halted (w.nextChunk s) := by
  unfold Worker.nextChunk
  split
  · rename_i rest jobs hphase
    split_ifs with hready
    · rw [WorkerOk, hphase] at h
      have hdone : ∀ job ∈ jobs, job.stage = .done := by
        intro job hjob
        simpa using List.all_eq_true.1 hready.1 job hjob
      exact ⟨h.1.chunk hdone s.maxSignConcurrency, fun i hi => nomatch hi⟩
    · exact h
  · rename_i rest latest _ hphase
    rw [WorkerOk, hphase] at h
    exact ⟨h.1.chunk (fun job hjob => absurd hjob List.not_mem_nil) s.maxSignConcurrency, h.2⟩
  · exact h

end Worker

/-! ## The node -/

variable (s K storage) in
structure ProcessOk (tombstone : Bool) (p : Process H) : Prop where
  stopped : tombstone = true → p.halted = true
  workers : ∀ role, WorkerOk s K storage role p.tipCount p.halted (p.worker role)

variable (s K) in
structure Inv (n : Node H) : Prop where
  process : ∀ p, n.process = some p → ProcessOk s K n.storage n.tombstone p
  /-- a snapshot covers published checkpoints only -/
  snapshot : ∀ snapshot, n.snapshot = some snapshot → ∀ i ≤ snapshot.index.toNat, ∃ c, Published s n.storage i c

variable (s) in
/-- what never changes back -/
structure Later (n n' : Node H) : Prop where
  published : ∀ i c, Published s n.storage i c → Published s n'.storage i c
  signed : ∃ new, n'.signed = n.signed ++ new ∧ ∀ c ∈ new, ∀ d, Published s n.storage (idx c) d → d = c
  latest : n'.latestIndex = n.latestIndex ∨ ∃ i c, n'.latestIndex = some i ∧ Published s n'.storage i c
  stopped : n.tombstone = true → n'.tombstone = true ∧ n'.storage = n.storage ∧ n'.signed = n.signed

/-- nothing is stored and nothing is signed -/
theorem Later.same {n n' : Node H} (hstorage : n'.storage = n.storage) (hsigned : n'.signed = n.signed)
    (hlatest : n'.latestIndex = n.latestIndex) (hstone : n.tombstone = true → n'.tombstone = true) : Later s n n' := by
  refine ⟨fun i c hc => hstorage ▸ hc, ⟨[], ?_, fun _ hc => absurd hc List.not_mem_nil⟩, .inl hlatest, fun h => ?_⟩
  · rw [List.append_nil]
    exact hsigned
  · exact ⟨hstone h, hstorage, hsigned⟩

theorem Later.refl (n : Node H) : Later s n n := .same rfl rfl rfl id

theorem Later.trans {a b c : Node H} (h : Later s a b) (h' : Later s b c) : Later s a c := by
  refine ⟨fun i d hd => h'.published i d (h.published i d hd), ?_, ?_, fun hstopped => ?_⟩
  · obtain ⟨new, hnew, hagree⟩ := h.signed
    obtain ⟨new', hnew', hagree'⟩ := h'.signed
    refine ⟨new ++ new', by rw [hnew', hnew, List.append_assoc], fun d hd e he => ?_⟩
    rcases List.mem_append.1 hd with hd | hd
    · exact hagree d hd e he
    · exact hagree' d hd e (h.published _ e he)
  · rcases h'.latest with hsame | hmoved
    · rcases h.latest with hsame' | ⟨i, d, hi, hd⟩
      · exact .inl (hsame.trans hsame')
      · exact .inr ⟨i, d, hsame.trans hi, h'.published i d hd⟩
    · exact .inr hmoved
  · obtain ⟨hstone, hstorage, hsigned⟩ := h.stopped hstopped
    obtain ⟨hstone', hstorage', hsigned'⟩ := h'.stopped hstone
    exact ⟨hstone', hstorage'.trans hstorage, hsigned'.trans hsigned⟩

section Steps

variable {n : Node H} {p : Process H}

@[simp]
theorem worker_setWorker (p : Process H) (role role' : Role) (w : Worker H) :
    (p.setWorker role w).worker role' = if role' = role then w else p.worker role' := by
  cases role <;> cases role' <;> rfl

@[simp]
theorem tipCount_setWorker (p : Process H) (role : Role) (w : Worker H) : (p.setWorker role w).tipCount = p.tipCount := by
  cases role <;> rfl

/-- one worker goes on, and the storage stays -/
theorem Inv.withWorker (h : Inv s K n) (hp : n.process = some p) {w : Worker H} {halt : Bool}
    (hw : WorkerOk s K n.storage role p.tipCount (p.halted || halt) w) : Inv s K (n.withWorker p role w halt) := by
  obtain ⟨hstopped, hworkers⟩ := h.process p hp
  refine ⟨fun p' hp' => ?_, h.snapshot⟩
  obtain rfl := Option.some.inj hp'
  refine ⟨fun hstone => ?_, fun role' => ?_⟩
  · change (p.halted || halt) = true
    rw [hstopped hstone, Bool.true_or]
  · change WorkerOk s K n.storage role' (p.setWorker role w).tipCount (p.halted || halt)
      ((p.setWorker role w).worker role')
    rw [tipCount_setWorker, worker_setWorker]
    split_ifs with hrole
    · subst hrole
      exact hw
    · exact (hworkers role').halt halt

theorem withWorker_later (p : Process H) (role : Role) (w : Worker H) (halt : Bool) :
    Later s n (n.withWorker p role w halt) := .same rfl rfl rfl id

/-- an event for one worker -/
theorem onWorker_ok {P : Node H → Prop} {f : Process H → Worker H → Node H} (hidle : P n)
    (hf : ∀ p, n.process = some p → P (f p (p.worker role))) : P (n.onWorker role f) := by
  unfold Node.onWorker
  split
  · exact hidle
  · rename_i p hp
    exact hf p hp

variable (s K) in
/-- what is to be shown of a step -/
def Good (n n' : Node H) : Prop := Inv s K n' ∧ Later s n n'

theorem Good.refl (h : Inv s K n) : Good s K n n := ⟨h, Later.refl n⟩

theorem good_withWorker (h : Inv s K n) (hp : n.process = some p) {w : Worker H} {halt : Bool}
    (hw : WorkerOk s K n.storage role p.tipCount (p.halted || halt) w) : Good s K n (n.withWorker p role w halt) :=
  ⟨h.withWorker hp hw, withWorker_later p role w halt⟩

variable [DecidableEq H]

/-- **An answer to one submission** of a process that is not halted. The other submissions, of both workers, have other
indices. -/
theorem answer_good (h : Inv s K n) (role : Role) (j : ℕ) (a : Answer) : Good s K n (n.answer s role j a) := by
  refine onWorker_ok (Good.refl h) fun p hp => ?_
  obtain ⟨hstopped, hworkers⟩ := h.process p hp
  dsimp only
  split
  · rename_i rest jobs latest hhalted hphase
    have hworker := hworkers role
    rw [WorkerOk, hphase] at hworker
    obtain ⟨hw, hlatest⟩ := hworker
    cases hj : jobs[j]? with
    | none => exact Good.refl h
    | some job =>
      obtain ⟨hours, hwithin, hok⟩ := hw.active job (List.mem_of_getElem? hj)
      dsimp only
      split_ifs with hconflict
      · exact good_withWorker h hp (Bool.or_true _)
      · rw [Bool.not_eq_true] at hconflict
        obtain ⟨hsame, hok', hanswered⟩ := answer_ok hok hours a hconflict
        generalize hstorage : land s n.storage job a = storage' at hok' hanswered
        generalize hprogress : job.reply s (reply n.storage job.checkpoint a) = progress at hsame hok' hanswered
        have hindices : (jobs.set j progress.job).map (fun job => idx job.checkpoint) =
            jobs.map fun job => idx job.checkpoint := by
          refine List.ext_getElem? fun k => ?_
          rw [List.getElem?_map, List.getElem?_map]
          by_cases hkj : k = j
          · subst hkj
            rw [List.getElem?_set_self (List.getElem?_eq_some_iff.1 hj).1, hj]
            exact congrArg (fun c => some (idx c)) hsame
          · rw [List.getElem?_set_ne (Ne.symm hkj)]
        have hnot : ∀ i, Within role p.tipCount i → ∀ role', role' ≠ role → ¬ Within role' p.tipCount i := by
          intro i hi role' hne hi'
          cases role <;> cases role'
          · exact hne rfl
          · exact hi.disjoint hi'
          · exact hi'.disjoint hi
          · exact hne rfl
        -- the worker that got the answer
        have hown : WorkerOk s K storage' role p.tipCount (p.halted || false)
            ⟨(p.worker role).tree, .submitting rest (jobs.set j progress.job) latest⟩ := by
          refine ⟨⟨hw.cap, hw.low, hw.queued, fun job' hjob' => ?_, ?_, fun hrole i hi => ?_⟩, fun i hi => ?_⟩
          · obtain ⟨k, hk⟩ := List.mem_iff_getElem?.1 hjob'
            by_cases hkj : k = j
            · subst hkj
              rw [List.getElem?_set_self (List.getElem?_eq_some_iff.1 hj).1] at hk
              obtain rfl := Option.some.inj hk
              rw [hsame]
              exact ⟨hours, hwithin, hok'⟩
            · rw [List.getElem?_set_ne (Ne.symm hkj)] at hk
              obtain ⟨hours', hwithin', hother⟩ := hw.active job' (List.mem_of_getElem? hk)
              refine ⟨hours', hwithin', hother.congr (hanswered.others _ fun heq => hkj ?_)⟩
              have hnodup := (List.nodup_append.1 hw.distinct).1
              have hk' : (jobs.map fun job => idx job.checkpoint)[k]? = some (idx job'.checkpoint) := by
                rw [List.getElem?_map, hk]
                rfl
              have hj' : (jobs.map fun job => idx job.checkpoint)[j]? = some (idx job'.checkpoint) := by
                rw [List.getElem?_map, hj, heq]
                rfl
              exact (List.getElem?_inj (List.getElem?_eq_some_iff.1 hk').1 hnodup).1 (hk'.trans hj'.symm)
          · rw [hindices]
            exact hw.distinct
          · rcases hw.covered hrole i hi with ⟨c, hc⟩ | hrest | ⟨job', hjob', hi'⟩
            · exact .inl ⟨c, hanswered.kept i c hc⟩
            · exact .inr (.inl hrest)
            · right
              right
              have hmem : i ∈ (jobs.set j progress.job).map fun job => idx job.checkpoint := by
                rw [hindices, ← hi']
                exact List.mem_map_of_mem hjob'
              obtain ⟨job'', hjob'', hi''⟩ := List.mem_map.1 hmem
              exact ⟨job'', hjob'', hi''⟩
          · exact (hlatest i hi).imp fun c => hanswered.kept i c
        refine ⟨⟨fun p' hp' => ?_, fun snapshot hsnapshot i hi => ?_⟩, ?_⟩
        · obtain rfl := Option.some.inj hp'
          refine ⟨fun hstone => ?_, fun role' => ?_⟩
          · change (p.halted || false) = true
            rw [hstopped hstone, Bool.true_or]
          · change WorkerOk s K storage' role' (p.setWorker role _).tipCount (p.halted || false)
              ((p.setWorker role _).worker role')
            rw [tipCount_setWorker, worker_setWorker]
            split_ifs with hrole
            · subst hrole
              exact hown
            · refine ((hworkers role').halt false).keep hanswered.kept fun i hi => hanswered.others i ?_
              rintro rfl
              exact hnot _ hwithin role' hrole hi
        · obtain ⟨c, hc⟩ := h.snapshot snapshot hsnapshot i hi
          exact ⟨c, hanswered.kept i c hc⟩
        · refine ⟨hanswered.kept, ⟨progress.signed, rfl, hanswered.signed⟩, .inl rfl, fun hstone => ?_⟩
          rw [hstopped hstone] at hhalted
          cases hhalted
  · exact Good.refl h

omit [DecidableEq H] in
theorem readLatest_good (h : Inv s K n) (role : Role) (ok : Bool) : Good s K n (n.readLatest role ok) := by
  refine onWorker_ok (Good.refl h) fun p hp => ?_
  dsimp only
  split
  · rename_i rest jobs index hhalted hphase
    have hw := (h.process p hp).workers role
    rw [WorkerOk, hphase] at hw
    split_ifs with hready
    · -- the submission of the index is through, so it is published
      refine good_withWorker h hp ⟨hw.1, fun i hi => ?_⟩
      obtain rfl := Publication.writing.inj hi
      obtain ⟨job, hjob, hdone⟩ := List.any_eq_true.1 hready.2
      obtain ⟨rfl, hstage⟩ := of_decide_eq_true hdone
      have hok := (hw.1.active job hjob).2.2
      rw [JobOk, hstage] at hok
      exact ⟨job.checkpoint, hok⟩
    · exact good_withWorker h hp ⟨hw.1, fun i hi => nomatch hi⟩
    · exact Good.refl h
  · exact Good.refl h

omit [DecidableEq H] in
/-- the latest index moves to a checkpoint that is stored -/
theorem writeLatest_good (h : Inv s K n) (role : Role) (landed ok : Bool) :
    Good s K n (n.writeLatest role landed ok) := by
  refine onWorker_ok (Good.refl h) fun p hp => ?_
  dsimp only
  split
  · rename_i rest jobs index hhalted hphase
    have hw := (h.process p hp).workers role
    rw [WorkerOk, hphase] at hw
    obtain ⟨c, hc⟩ := hw.2 index rfl
    have hmoved : Good s K n { n with latestIndex := if landed then some index else n.latestIndex } := by
      refine ⟨⟨h.process, h.snapshot⟩, fun _ _ => id, ⟨[], (List.append_nil _).symm, ?_⟩, ?_, fun hstone => ?_⟩
      · exact fun _ hd => absurd hd List.not_mem_nil
      · cases landed with
        | true => exact .inr ⟨index, c, rfl, hc⟩
        | false => exact .inl rfl
      · exact ⟨hstone, rfl, rfl⟩
    have hnext : ∀ latest, (∀ i, latest = .writing i → False) → WorkerOk s K n.storage role p.tipCount (p.halted || false)
        ⟨(p.worker role).tree, .submitting rest jobs latest⟩ :=
      fun latest hlatest => ⟨hw.1, fun i hi => (hlatest i hi).elim⟩
    refine ⟨hmoved.1.withWorker hp (hnext _ fun i hi => ?_), hmoved.2.trans (withWorker_later p role _ false)⟩
    split_ifs at hi
  · exact Good.refl h

omit [DecidableEq H] in
/-- the backfill worker writes its snapshot when everything below it is published -/
theorem finish_good (h : Inv s K n) (role : Role) (landed : Bool) : Good s K n (n.finish K C role landed) := by
  refine onWorker_ok (Good.refl h) fun p hp => ?_
  dsimp only
  split
  · rename_i jobs hhalted hphase
    have hw := (h.process p hp).workers role
    rw [WorkerOk, hphase] at hw
    by_cases hdone : (jobs.all fun job => decide (job.stage = .done)) = true
    · rw [if_pos hdone]
      have hverified : Verified s n.storage role p.tipCount (p.worker role).tree := by
        refine ⟨hw.1.cap, hw.1.low, fun hrole i hi => ?_⟩
        rcases hw.1.covered hrole i hi with hpub | ⟨c, hc, -⟩ | ⟨job, hjob, rfl⟩
        · exact hpub
        · exact absurd hc List.not_mem_nil
        · have hok := (hw.1.active job hjob).2.2
          have hstage : job.stage = .done := by simpa using List.all_eq_true.1 hdone job hjob
          rw [JobOk, hstage] at hok
          exact ⟨job.checkpoint, hok⟩
      cases role with
      | tip => exact good_withWorker h hp hverified
      | backfill =>
        dsimp only
        cases hcapture : MerkleTreeSnapshot.capture K C (p.worker .backfill).tree with
        | error e => exact good_withWorker h hp trivial
        | ok snapshot =>
          have hwritten : Good s K n { n with snapshot := if landed then some snapshot else n.snapshot } := by
            refine ⟨⟨h.process, fun snapshot' hsnapshot' i hi => ?_⟩, .same rfl rfl rfl id⟩
            cases landed with
            | false => exact h.snapshot snapshot' hsnapshot' i hi
            | true =>
              obtain rfl := Option.some.inj hsnapshot'
              refine hverified.covered rfl i ?_
              unfold MerkleTreeSnapshot.capture at hcapture
              split at hcapture
              · cases hcapture
              · rename_i index hindex
                obtain rfl := Except.ok.inj hcapture
                have hcount := index_eq hverified.cap hindex
                have hlt : index < UInt32.size := by
                  have hcap := hverified.cap
                  unfold U32_MAX at hcap
                  have hsize : UInt32.size = 2 ^ 32 := rfl
                  omega
                change i ≤ (UInt32.ofNat index).toNat at hi
                rw [UInt32.toNat_ofNat_of_lt' hlt] at hi
                omega
          have hended : WorkerOk s K n.storage .backfill p.tipCount (p.halted || false)
              ⟨(p.worker .backfill).tree, .ended⟩ := trivial
          exact ⟨hwritten.1.withWorker hp hended, hwritten.2.trans (withWorker_later p .backfill _ false)⟩
    · rw [if_neg hdone]
      exact Good.refl h
  · exact Good.refl h

omit [DecidableEq H] in
/-- a guard is only written by a worker that has set the halt -/
theorem persist_good (h : Inv s K n) (hp : n.process = some p) (n' : Node H) (hprocess : n'.process = n.process)
    (hsnapshot : n'.snapshot = n.snapshot) (hstorage : n'.storage = n.storage) (hsigned : n'.signed = n.signed)
    (hlatest : n'.latestIndex = n.latestIndex) (hstone : n.tombstone = true → n'.tombstone = true)
    (hhalted : n'.tombstone = true → p.halted = true) {w : Worker H} {halt : Bool}
    (hw : WorkerOk s K n.storage role p.tipCount (p.halted || halt) w) : Good s K n (n'.withWorker p role w halt) := by
  have hinv : Inv s K n' := by
    refine ⟨fun p' hp' => ?_, fun snapshot hs => ?_⟩
    · obtain rfl := Option.some.inj (hp.symm.trans (hprocess.symm.trans hp'))
      exact ⟨hhalted, hstorage ▸ (h.process p hp).workers⟩
    · exact hstorage ▸ h.snapshot snapshot (hsnapshot ▸ hs)
  have hlater : Later s n n' := .same hstorage hsigned hlatest hstone
  exact ⟨hinv.withWorker (hprocess.trans hp) (hstorage ▸ hw), hlater.trans (withWorker_later p role w halt)⟩

omit [DecidableEq H] in
theorem persistTombstone_good (h : Inv s K n) (role : Role) (landed ok : Bool) :
    Good s K n (n.persistTombstone role landed ok) := by
  refine onWorker_ok (Good.refl h) fun p hp => ?_
  split
  · rename_i hphase
    have hhalted : p.halted = true := by
      have hw := (h.process p hp).workers role
      rw [WorkerOk, hphase] at hw
      exact hw
    refine persist_good h hp { n with tombstone := n.tombstone || landed } rfl rfl rfl rfl rfl (fun hstone => ?_)
      (fun _ => hhalted) ?_
    · change (n.tombstone || landed) = true
      rw [hstone, Bool.true_or]
    · change (p.halted || false) = true
      rw [hhalted, Bool.true_or]
  · exact Good.refl h

omit [DecidableEq H] in
theorem persistStatus_good (h : Inv s K n) (role : Role) (landed ok : Bool) :
    Good s K n (n.persistStatus role landed ok) := by
  refine onWorker_ok (Good.refl h) fun p hp => ?_
  split
  · rename_i hphase
    have hhalted : p.halted = true := by
      have hw := (h.process p hp).workers role
      rw [WorkerOk, hphase] at hw
      exact hw
    refine persist_good h hp { n with reorgStatus := n.reorgStatus || landed } rfl rfl rfl rfl rfl id (fun _ => hhalted) ?_
    cases landed && ok with
    | true => trivial
    | false =>
      change (p.halted || false) = true
      rw [hhalted, Bool.true_or]
  · exact Good.refl h

/-! ## Starting -/

omit [DecidableEq H] in
/-- an empty tree -/
theorem default_verified : Verified s storage .backfill tipCount (IncrementalMerkle.default K) :=
  ⟨Nat.zero_le _, fun hrole => (nomatch hrole), fun _ i hi => absurd hi (Nat.not_lt_zero i)⟩

/-- a restored tree stands for published checkpoints -/
theorem restored_verified (h : Inv s K n) {targetIndex : ℕ} {readable fetched : Bool} {tree : IncrementalMerkle H}
    (hrestored : restoredSnapshotTree K C s n targetIndex readable fetched = some tree) :
    Verified s n.storage .backfill tipCount tree := by
  unfold restoredSnapshotTree at hrestored
  split at hrestored
  · cases hrestored
  split at hrestored
  · cases hrestored
  rename_i snapshot hsnapshot
  split at hrestored
  · cases hrestored
  split at hrestored
  · cases hrestored
  rename_i restored hrestore
  split at hrestored
  · cases hrestored
  split at hrestored
  · split_ifs at hrestored
    obtain rfl := Option.some.inj hrestored
    obtain ⟨hcount, hcap, -⟩ := MerkleTreeSnapshot.restore_ok hrestore
    refine ⟨hcap, fun hrole => (nomatch hrole), fun _ i hi => h.snapshot snapshot hsnapshot i ?_⟩
    omega
  · cases hrestored

theorem start_good (h : Inv s K n) (tip : IncrementalMerkle H) (readable fetched : Bool) :
    Good s K n (n.start K C s tip readable fetched) := by
  unfold Node.start
  split_ifs with hguard
  · exact Good.refl h
  · obtain ⟨hnone, hstone, -, hpos, hcap⟩ : n.process.isSome = false ∧ n.tombstone = false ∧ n.reorgStatus = false ∧
        0 < tip.count ∧ tip.count ≤ U32_MAX := by
      simpa [not_or, Nat.pos_iff_ne_zero] using hguard
    refine ⟨⟨fun p hp => ?_, h.snapshot⟩, .same rfl rfl rfl id⟩
    obtain rfl := Option.some.inj hp
    refine ⟨fun hstone' => absurd (hstone'.symm.trans hstone) Bool.noConfusion, fun role => ?_⟩
    cases role with
    | backfill =>
      refine begin_ok ?_ fun _ => ?_
      · cases hrestored : restoredSnapshotTree K C s n (tip.count - 1) readable fetched with
        | none => exact default_verified
        | some tree => exact restored_verified h hrestored
      · change tip.count - 1 < tip.count
        omega
    | tip => exact ⟨hcap, fun _ => le_rfl, fun hrole => nomatch hrole⟩

/-! ## Whole runs -/

/-- **One event** keeps what is published, and the invariant. -/
theorem step_good (h : Inv s K n) (e : Event H) : Good s K n (n.step K C s e) := by
  cases e with
  | start tip readable fetched => exact start_good h tip readable fetched
  | crash => exact ⟨⟨fun p hp => (nomatch hp), h.snapshot⟩, .same rfl rfl rfl id⟩
  | latestCheckpoint target =>
    rw [Node.step]
    refine onWorker_ok (Good.refl h) fun p hp => ?_
    split
    · rename_i hphase
      have hw := (h.process p hp).workers .tip
      rw [WorkerOk, hphase] at hw
      split_ifs
      · exact Good.refl h
      · exact good_withWorker h hp (begin_ok hw fun hrole => nomatch hrole)
    · exact Good.refl h
  | read role row =>
    rw [Node.step]
    refine onWorker_ok (Good.refl h) fun p hp => ?_
    exact good_withWorker h hp ((read_ok ((h.process p hp).workers role) row).halt false)
  | conclude role =>
    rw [Node.step]
    refine onWorker_ok (Good.refl h) fun p hp => ?_
    exact good_withWorker h hp (conclude_ok ((h.process p hp).workers role))
  | fetchInsertions role leaves =>
    rw [Node.step]
    refine onWorker_ok (Good.refl h) fun p hp => ?_
    exact good_withWorker h hp (fetchInsertions_ok ((h.process p hp).workers role) leaves)
  | nextChunk role =>
    rw [Node.step]
    refine onWorker_ok (Good.refl h) fun p hp => ?_
    exact good_withWorker h hp ((nextChunk_ok ((h.process p hp).workers role)).halt false)
  | answer role j a => exact answer_good h role j a
  | readLatest role ok => exact readLatest_good h role ok
  | writeLatest role landed ok => exact writeLatest_good h role landed ok
  | finish role landed => exact finish_good h role landed
  | persistTombstone role landed ok => exact persistTombstone_good h role landed ok
  | persistStatus role landed ok => exact persistStatus_good h role landed ok

theorem run_good (h : Inv s K n) (events : List (Event H)) : Good s K n (n.run K C s events) := by
  induction events generalizing n with
  | nil => exact Good.refl h
  | cons e events ih =>
    obtain ⟨hinv, hlater⟩ := step_good h e
    obtain ⟨hinv', hlater'⟩ := ih hinv
    exact ⟨hinv', hlater.trans hlater'⟩

omit [DecidableEq H] in
/-- a node whose validator does not run, and whose snapshot covers published checkpoints only -/
theorem idle_inv (hprocess : n.process = none)
    (hsnapshot : ∀ snapshot, n.snapshot = some snapshot → ∀ i ≤ snapshot.index.toNat, ∃ c, Published s n.storage i c) :
    Inv s K n :=
  ⟨fun _ hp => (nomatch hprocess.symm.trans hp), hsnapshot⟩

end Steps

variable [DecidableEq H] {n : Node H}

/-- **Publication is write-once**, over any number of crashes and restarts, whatever trees, leaves and checkpoints the
processes see and however their requests end: a checkpoint that is published once is published for good, nothing is ever
passed to the signer that contradicts what is published by then, and once a tombstone is on the disk nothing is stored
and nothing is signed any more. -/
theorem published_once (K : Keccak H) (C : HashCodec H) (s : ValidatorSubmitter H) (hprocess : n.process = none)
    (hsnapshot : ∀ snapshot, n.snapshot = some snapshot → ∀ i ≤ snapshot.index.toNat, ∃ c, Published s n.storage i c)
    (past future : List (Event H)) :
    let earlier := n.run K C s past
    let later := n.run K C s (past ++ future)
    (∀ i c, Published s earlier.storage i c → Published s later.storage i c) ∧
      (∃ new, later.signed = earlier.signed ++ new ∧ ∀ c ∈ new, ∀ d, Published s earlier.storage (idx c) d → d = c) ∧
      (earlier.tombstone = true → later.storage = earlier.storage ∧ later.signed = earlier.signed) := by
  intro earlier later
  have hearlier : Inv s K earlier := (run_good (idle_inv hprocess hsnapshot) past).1
  have hlater : Later s earlier later := by
    have hrun : later = earlier.run K C s future := List.foldl_append
    rw [hrun]
    exact (run_good hearlier future).2
  exact ⟨hlater.published, hlater.signed, fun hstone => (hlater.stopped hstone).2⟩

/-- a validator that has never run -/
def fresh : Node ℕ := ⟨fun _ => none, none, none, false, false, none, []⟩

theorem fresh_snapshot (snapshot : MerkleTreeSnapshot ℕ) (h : fresh.snapshot = some snapshot) :
    ∀ i ≤ snapshot.index.toNat, ∃ c, Published toySubmitter fresh.storage i c := by
  cases h

def leafTree (leaf : ℕ) : IncrementalMerkle ℕ :=
  (IncrementalMerkle.ingestAll pairKeccak (IncrementalMerkle.default pairKeccak) [leaf]).getD
    (IncrementalMerkle.default pairKeccak)

/-- a process that starts from one leaf and fetches what is stored for it -/
def replayOf (leaf : ℕ) : List (Event ℕ) :=
  [.start (leafTree leaf) true true, .read .backfill (.ok (some leaf)), .conclude .backfill, .nextChunk .backfill,
    .answer .backfill 0 (.fetched true)]

/-- the checkpoint lands, its write is reported as failed, and the process crashes -/
def crashed : List (Event ℕ) :=
  replayOf 7 ++ [.answer .backfill 0 (.signed true), .answer .backfill 0 (.written true false), .crash]

/-- the next process sees another history; it halts, and after the tombstone none starts -/
def refused : List (Event ℕ) := replayOf 9 ++ [.persistTombstone .backfill true true, .crash] ++ replayOf 9

def ofSeven : CheckpointWithMessageId ℕ := ⟨toySubmitter.checkpoint ((leafTree 7).root pairKeccak) 0, 7⟩

theorem published_once_crashed :
    Published toySubmitter ((fresh.run pairKeccak unary toySubmitter (crashed ++ refused)).storage) 0 ofSeven ∧
      (fresh.run pairKeccak unary toySubmitter (crashed ++ refused)).tombstone = true := by
  refine ⟨?_, by decide +kernel⟩
  refine (published_once pairKeccak unary toySubmitter rfl fresh_snapshot crashed refused).1 0 ofSeven ?_
  exact ⟨by decide +kernel, rfl, rfl, rfl⟩

/-- **What is announced is stored.** In every reached state, the latest index is the one from before the run or that of a
published checkpoint, and every checkpoint that the snapshot covers is published. -/
theorem announced_stored (K : Keccak H) (C : HashCodec H) (s : ValidatorSubmitter H) (hprocess : n.process = none)
    (hsnapshot : ∀ snapshot, n.snapshot = some snapshot → ∀ i ≤ snapshot.index.toNat, ∃ c, Published s n.storage i c)
    (events : List (Event H)) :
    let n' := n.run K C s events
    (n'.latestIndex = n.latestIndex ∨ ∃ i c, n'.latestIndex = some i ∧ Published s n'.storage i c) ∧
      ∀ snapshot, n'.snapshot = some snapshot → ∀ i ≤ snapshot.index.toNat, ∃ c, Published s n'.storage i c := by
  intro n'
  obtain ⟨hinv, hlater⟩ := run_good (C := C) (idle_inv hprocess hsnapshot) events
  exact ⟨hlater.latest, hinv.snapshot⟩

/-- a process that gets through -/
def completed : List (Event ℕ) :=
  replayOf 7 ++ [.answer .backfill 0 (.signed true), .answer .backfill 0 (.written true true), .readLatest .backfill true,
    .writeLatest .backfill true true, .finish .backfill true]

theorem announced_stored_completed : ∃ c, Published toySubmitter
    (fresh.run pairKeccak unary toySubmitter completed).storage 0 c := by
  obtain ⟨snapshot, hsnapshot⟩ : ∃ snapshot, (fresh.run pairKeccak unary toySubmitter completed).snapshot = some snapshot :=
    Option.isSome_iff_exists.1 (by decide +kernel)
  refine (announced_stored pairKeccak unary toySubmitter rfl fresh_snapshot completed).2 snapshot hsnapshot 0 ?_
  exact Nat.zero_le _

end Hyperlane.NormalMode
