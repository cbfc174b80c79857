/-
Batch submission: `OperationBatch::submit` (agents/relayer/src/msg/op_batch.rs) with `submit_single_operation`
(msg/message_processor.rs).

The answers of the mailbox and of the operations are arbitrary. What is followed is where each operation of the batch is
handed to: the confirm queue with the outcome of the batch, or a submission of its own.

- `handleBatchResult_perm`: a result accounts for the batch if and only if it has an outcome or fails every operation.
- `submit_conserves_iff`: no operation is lost if and only if the result that the retries end with accounts for the
  batch. `sent_without_outcome_lost`: a result without an outcome and without failures loses the whole batch.
-/
import Mathlib.Tactic

namespace Hyperlane.Relayer.Batching

/-! ## The model -/

inductive ChainCommunicationError where
  | BatchIsEmpty
  | BatchingFailed
  /-- whatever the mailbox answers -/
  | Other (code : ℕ)
deriving DecidableEq

structure TxOutcome where
  transactionId : ℕ
  executed : Bool
  gasUsed : ℕ
deriving DecidableEq

structure BatchResult where
  outcome : Option TxOutcome
  failedIndexes : List ℕ
deriving DecidableEq

/-- `BatchResult::failed` -/
def BatchResult.failed (opsCount : ℕ) : BatchResult := ⟨none, List.range opsCount⟩

structure Mailbox (Op : Type) where
  supportsBatching : Bool
  /-- the answer to the `k`-th attempt -/
  processBatch : ℕ → List Op → Except ChainCommunicationError BatchResult

inductive PendingOperationResult where
  | Success
  | NotReady
  | Reprepare (reason : ℕ)
  | Drop
  | Confirm (reason : ℕ)
deriving DecidableEq

/-- what the code asks of an operation -/
structure PendingOperation (Op : Type) where
  tryGetMailbox : Op → Option (Mailbox Op)
  getTxCostEstimate : Op → Option ℕ
  submit : Op → PendingOperationResult

/-- where `submit_single_operation` leaves an operation -/
inductive Destination where
  | prepareQueue
  | confirmQueue
  | dropped
deriving DecidableEq

/-- an operation leaves the batch -/
inductive HandOff (Op : Type) where
  /-- pushed to the confirm queue by `update_sent_ops_state` -/
  | sent (op : Op) (outcome : TxOutcome) (totalEstimatedCost : ℕ)
  /-- given to `submit_single_operation` -/
  | serial (op : Op) (destination : Destination)
deriving DecidableEq

def HandOff.op {Op : Type} : HandOff Op → Op
  | .sent op _ _ => op
  | .serial op _ => op

def DEFAULT_MAX_RPC_RETRIES : ℕ := 10

section Model

variable {Op : Type} (P : PendingOperation Op)

/-- `submit_single_operation` -/
def submitSingleOperation (op : Op) : HandOff Op :=
  match P.submit op with
  | .Reprepare _ => .serial op .prepareQueue
  | .NotReady => .serial op .prepareQueue
  | .Drop => .serial op .dropped
  | .Success => .serial op .confirmQueue
  | .Confirm _ => .serial op .confirmQueue

/-- `submit_serially` -/
def submitSerially (operations : List Op) : List (HandOff Op) := operations.map (submitSingleOperation P)

/-- `total_estimated_cost`, a saturating sum in `U256` -/
def totalEstimatedCost (ops : List Op) : ℕ :=
  ops.foldl (fun acc op => min (acc + (P.getTxCostEstimate op).getD 0) (2 ^ 256 - 1)) 0

/-- `update_sent_ops_state` -/
def updateSentOpsState (sentOps : List Op) (outcome : TxOutcome) : List (HandOff Op) :=
  sentOps.map fun op => .sent op outcome (totalEstimatedCost P sentOps)

/-- the operations at the indexes with a property -/
def selectIdx (operations : List Op) (p : ℕ → Bool) : List Op :=
  (operations.zipIdx.filter fun x => p x.2).map Prod.fst

/-- `handle_batch_result`: what is handed on, and the excluded operations -/
def handleBatchResult (operations : List Op) (batchResult : BatchResult) : List (HandOff Op) × List Op :=
  let sentOps := selectIdx operations fun i => !batchResult.failedIndexes.contains i
  let excludedOps := selectIdx operations fun i => batchResult.failedIndexes.contains i
  match batchResult.outcome with
  | some outcome => (updateSentOpsState P sentOps outcome, excludedOps)
  | none => ([], excludedOps)

/-- the loop of `submit_batch_with_retry`, for `n` more attempts from the `k`-th on -/
def retryLoop (mailbox : Mailbox Op) (operations : List Op) :
    ℕ → ℕ → Option ChainCommunicationError → Except ChainCommunicationError BatchResult
  | 0, _, lastError => .error (lastError.getD .BatchingFailed)
  | n + 1, k, _ =>
    match mailbox.processBatch k operations with
    | .ok res => .ok res
    | .error err => retryLoop mailbox operations n (k + 1) (some err)

def submitBatchWithRetry (mailbox : Mailbox Op) (operations : List Op) (maxRetries : ℕ) :
    Except ChainCommunicationError BatchResult :=
  if mailbox.supportsBatching then retryLoop mailbox operations maxRetries 1 none
  else .ok (BatchResult.failed operations.length)

def trySubmitAsBatch (operations : List Op) : Except ChainCommunicationError BatchResult :=
  match operations.head? with
  | none => .error .BatchIsEmpty
  | some firstItem =>
    match P.tryGetMailbox firstItem with
    | none => .ok (BatchResult.failed operations.length)
    | some mailbox => submitBatchWithRetry mailbox operations DEFAULT_MAX_RPC_RETRIES

/-- `OperationBatch::submit` -/
def submit (operations : List Op) : List (HandOff Op) :=
  match trySubmitAsBatch P operations with
  | .ok batchResult =>
    let (handed, excludedOps) := handleBatchResult P operations batchResult
    handed ++ submitSerially P excludedOps
  | .error _ => submitSerially P operations

end Model

/-! ## Partitions -/

section Proofs

variable {Op : Type} {P : PendingOperation Op} {operations : List Op}

@[simp]
theorem submitSingleOperation_op (op : Op) : (submitSingleOperation P op).op = op := by
  unfold submitSingleOperation
  cases P.submit op <;> rfl

@[simp]
theorem submitSerially_op : (submitSerially P operations).map HandOff.op = operations := by
  simp [submitSerially, Function.comp_def]

@[simp]
theorem updateSentOpsState_op (outcome : TxOutcome) :
    (updateSentOpsState P operations outcome).map HandOff.op = operations := by
  simp [updateSentOpsState, Function.comp_def, HandOff.op]

/-- the two sides of a partition are the whole -/
theorem selectIdx_perm (p : ℕ → Bool) :
    (selectIdx operations (fun i => !p i) ++ selectIdx operations p).Perm operations := by
  have hperm := (List.filter_append_perm (fun x : Op × ℕ => p x.2) operations.zipIdx).map Prod.fst
  rw [List.map_append, List.zipIdx_map_fst] at hperm
  exact List.perm_append_comm.trans hperm

theorem selectIdx_sublist (p : ℕ → Bool) : (selectIdx operations p).Sublist operations := by
  have h := (List.filter_sublist (p := fun x : Op × ℕ => p x.2) (l := operations.zipIdx)).map Prod.fst
  rwa [List.zipIdx_map_fst] at h

/-- one side is the whole if and only if every index is on it -/
theorem selectIdx_perm_iff (p : ℕ → Bool) :
    (selectIdx operations p).Perm operations ↔ ∀ i < operations.length, p i = true := by
  have hlen : (selectIdx operations p).length = operations.length ↔ ∀ i < operations.length, p i = true := by
    rw [selectIdx, List.length_map, ← List.length_zipIdx (l := operations), List.length_filter_eq_length_iff]
    constructor
    · intro h i hi
      rw [List.length_zipIdx] at hi
      exact h (operations[i], i) (List.mk_mem_zipIdx_iff_getElem?.2 (List.getElem?_eq_getElem hi))
    · intro h x hx
      refine h x.2 ?_
      rw [List.length_zipIdx]
      exact (List.getElem?_eq_some_iff.1 (List.mem_zipIdx_iff_getElem?.1 hx)).1
  rw [← hlen]
  exact ⟨List.Perm.length_eq, fun h => by rw [(selectIdx_sublist p).eq_of_length h]⟩

/-! ## One result -/

/-- a result says of every operation of the batch what became of it -/
def Accounts (n : ℕ) (r : BatchResult) : Prop := r.outcome.isSome ∨ ∀ i < n, i ∈ r.failedIndexes

theorem accounts_failed (n : ℕ) : Accounts n (BatchResult.failed n) := by
  right
  intro i hi
  exact List.mem_range.2 hi

/-- what is handed on and what is excluded is the batch if and only if the result accounts for it -/
theorem handleBatchResult_perm (r : BatchResult) :
    ((handleBatchResult P operations r).1.map HandOff.op ++ (handleBatchResult P operations r).2).Perm operations ↔
      Accounts operations.length r := by
  obtain ⟨outcome, failed⟩ := r
  cases outcome with
  | some outcome =>
    simp only [handleBatchResult, updateSentOpsState_op, Accounts, Option.isSome_some, true_or, iff_true]
    exact selectIdx_perm _
  | none => simp [handleBatchResult, Accounts, selectIdx_perm_iff]

/-! ## The retries -/

/-- the loop ends with the first answer that is not an error -/
theorem retryLoop_eq_ok {mailbox : Mailbox Op} {n k : ℕ} {lastError : Option ChainCommunicationError} {r : BatchResult} :
    retryLoop mailbox operations n k lastError = .ok r ↔ ∃ j, k ≤ j ∧ j < k + n ∧
      (∀ i, k ≤ i → i < j → ∃ e, mailbox.processBatch i operations = .error e) ∧
      mailbox.processBatch j operations = .ok r := by
  induction n generalizing k lastError with
  | zero =>
    constructor
    · intro h
      cases h
    · rintro ⟨j, hle, hlt, -⟩
      omega
  | succ n ih =>
    rw [retryLoop]
    cases hk : mailbox.processBatch k operations with
    | ok res =>
      constructor
      · intro h
        cases h
        exact ⟨k, le_rfl, by omega, fun i hle hlt => by omega, hk⟩
      · rintro ⟨j, hle, -, hbefore, hj⟩
        rcases hle.eq_or_lt with rfl | hlt
        · exact hk.symm.trans hj
        · obtain ⟨e, he⟩ := hbefore k le_rfl hlt
          cases hk.symm.trans he
    | error err =>
      simp only [ih]
      constructor
      · rintro ⟨j, hle, hlt, hbefore, hj⟩
        refine ⟨j, by omega, by omega, fun i hi hij => ?_, hj⟩
        rcases hi.eq_or_lt with rfl | hi
        · exact ⟨err, hk⟩
        · exact hbefore i hi hij
      · rintro ⟨j, hle, hlt, hbefore, hj⟩
        have hne : k ≠ j := by
          rintro rfl
          cases hk.symm.trans hj
        exact ⟨j, by omega, by omega, fun i hi hij => hbefore i (by omega) hij, hj⟩

/-- the mailbox is asked: the first operation has one, and it supports batching -/
def Asks (P : PendingOperation Op) (operations : List Op) (mailbox : Mailbox Op) : Prop :=
  ∃ firstItem, operations.head? = some firstItem ∧ P.tryGetMailbox firstItem = some mailbox ∧
    mailbox.supportsBatching = true

/-- `r` is the first answer of the mailbox, in at most `DEFAULT_MAX_RPC_RETRIES` attempts, that is not an error -/
def Answers (mailbox : Mailbox Op) (operations : List Op) (r : BatchResult) : Prop :=
  ∃ k, 1 ≤ k ∧ k < 1 + DEFAULT_MAX_RPC_RETRIES ∧
    (∀ i, 1 ≤ i → i < k → ∃ e, mailbox.processBatch i operations = .error e) ∧ mailbox.processBatch k operations = .ok r

/-- a result is what the mailbox answers, or fails the whole batch -/
theorem trySubmitAsBatch_cases {r : BatchResult} (h : trySubmitAsBatch P operations = .ok r) :
    (∃ mailbox, Asks P operations mailbox ∧ Answers mailbox operations r) ∨ r = BatchResult.failed operations.length := by
  unfold trySubmitAsBatch at h
  cases hhead : operations.head? with
  | none => simp [hhead] at h
  | some firstItem =>
    cases hmailbox : P.tryGetMailbox firstItem with
    | none =>
      simp only [hhead, hmailbox, Except.ok.injEq] at h
      exact .inr h.symm
    | some mailbox =>
      simp only [hhead, hmailbox, submitBatchWithRetry] at h
      split at h
      · rename_i hsupports
        exact .inl ⟨mailbox, ⟨firstItem, hhead, hmailbox, hsupports⟩, retryLoop_eq_ok.1 h⟩
      · exact .inr (Except.ok.inj h).symm

theorem trySubmitAsBatch_of_answers {mailbox : Mailbox Op} {r : BatchResult} (hasks : Asks P operations mailbox)
    (hanswers : Answers mailbox operations r) : trySubmitAsBatch P operations = .ok r := by
  obtain ⟨firstItem, hhead, hmailbox, hsupports⟩ := hasks
  simp only [trySubmitAsBatch, hhead, hmailbox, submitBatchWithRetry, hsupports, if_true]
  exact retryLoop_eq_ok.2 hanswers

/-! ## The batch -/

theorem submit_of_ok {r : BatchResult} (h : trySubmitAsBatch P operations = .ok r) :
    (submit P operations).map HandOff.op =
      (handleBatchResult P operations r).1.map HandOff.op ++ (handleBatchResult P operations r).2 := by
  simp [submit, h]

theorem submit_of_error {e : ChainCommunicationError} (h : trySubmitAsBatch P operations = .error e) :
    (submit P operations).map HandOff.op = operations := by
  simp [submit, h]

/-- **Batch submission loses nothing exactly when the result accounts for the batch.** For every batch and all answers:
every operation is handed to exactly one of the confirm queue (`update_sent_ops_state`) and serial submission
(`submit_single_operation`) if and only if the result that the mailbox ends with, if it is asked and answers, has an
outcome or lists every index of the batch as failed. -/
theorem submit_conserves_iff (P : PendingOperation Op) (operations : List Op) :
    ((submit P operations).map HandOff.op).Perm operations ↔
      ∀ mailbox r, Asks P operations mailbox → Answers mailbox operations r →
        r.outcome.isSome ∨ ∀ i < operations.length, i ∈ r.failedIndexes := by
  constructor
  · intro h mailbox r hasks hanswers
    rw [submit_of_ok (trySubmitAsBatch_of_answers hasks hanswers)] at h
    exact (handleBatchResult_perm r).1 h
  · intro h
    cases htry : trySubmitAsBatch P operations with
    | error e => rw [submit_of_error htry]
    | ok r =>
      rw [submit_of_ok htry, handleBatchResult_perm]
      rcases trySubmitAsBatch_cases htry with ⟨mailbox, hasks, hanswers⟩ | rfl
      · exact h mailbox r hasks hanswers
      · exact accounts_failed _

end Proofs

/-- a mailbox that reports neither an outcome nor a failure -/
def silentMailbox : Mailbox ℕ := ⟨true, fun _ _ => .ok ⟨none, []⟩⟩

def silentOperations : PendingOperation ℕ := ⟨fun _ => some silentMailbox, fun _ => some 1, fun _ => .Success⟩

/-- a batch of two operations with that answer is handed nowhere -/
theorem sent_without_outcome_lost :
    submit silentOperations [10, 11] = [] ∧ ¬ ((submit silentOperations [10, 11]).map HandOff.op).Perm [10, 11] := by
  decide

end Hyperlane.Relayer.Batching
