/-
The retry state of a pending message (agents/relayer/src/msg/pending_message.rs): what the operations on the message write
to the database, and what a restart makes of it.

The count, the deadline and the reason of a retry are one record, written together with a count of its own that old binaries
read. The status is written apart, by the queue that the message is pushed to next; a manual retry writes both at once.
Each operation makes one write, so a crash between two writes is a crash between two operations.

Times are nanoseconds, of the wall clock since the epoch.

- `maybeFromPersistedRetries`: the message after a restart.
- `run_consistent`: every record that a run leaves behind is readable, and agrees with its count.
- `restored_iff`: a restart restores the retry state unless the record has moved on while the status of a manual retry is
  still stored. `manual_attempt_forgotten`: the attempt after a manual retry that a crash undoes.
-/
import Hyperlane.Relayer.PendingOperation

namespace Hyperlane.Relayer.RetryState

/-! ## The model -/

def NANOS_PER_MILLI : ℕ := 10 ^ 6

def NANOS_PER_SEC : ℕ := 10 ^ 9

/-- a time after the epoch, or a duration; two of them add up to milliseconds that fit a `u64` -/
abbrev Time := { ns : ℕ // ns < 2 ^ 63 * NANOS_PER_MILLI }

/-- what an operation reads of its surroundings -/
structure Env where
  /-- `SystemTime::now()` -/
  wall : Time
  /-- `Instant::now()` -/
  monotonic : ℕ
  /-- `rand::random::<u64>()` -/
  random : UInt64

def PENDING_MESSAGE_RETRY_STATE_VERSION : ℕ := 1

structure PendingMessageRetryState where
  version : ℕ
  retryCount : UInt32
  nextAttemptAtMillis : Option ℕ
  retryDelayMillis : Option ℕ
  reason : Option ReprepareReason
deriving DecidableEq

namespace PendingMessageRetryState

def new (retryCount : UInt32) (nextAttemptAtMillis retryDelayMillis : Option ℕ) (reason : Option ReprepareReason) :
    PendingMessageRetryState :=
  ⟨PENDING_MESSAGE_RETRY_STATE_VERSION, retryCount, nextAttemptAtMillis, retryDelayMillis, reason⟩

/-- what `read_from` accepts -/
def readable (state : PendingMessageRetryState) : Bool :=
  state.version == PENDING_MESSAGE_RETRY_STATE_VERSION &&
    state.nextAttemptAtMillis.isSome == state.retryDelayMillis.isSome

end PendingMessageRetryState

/-- the keys of one message -/
structure Db where
  retryState : Option PendingMessageRetryState
  retryCount : Option UInt32
  status : Option PendingOperationStatus
deriving DecidableEq

namespace Db

def empty : Db := ⟨none, none, none⟩

/-- `store_pending_message_retry_state_by_message_id` -/
def storeRetryState (db : Db) (state : PendingMessageRetryState) : Db :=
  { db with retryState := some state, retryCount := some state.retryCount }

/-- `store_pending_message_retry_state_and_status_by_message_id` -/
def storeRetryStateAndStatus (db : Db) (state : PendingMessageRetryState) (status : PendingOperationStatus) : Db :=
  { db.storeRetryState state with status := some status }

end Db

structure PendingMessage where
  status : PendingOperationStatus
  maxRetries : UInt32
  numRetries : UInt32
  nextAttemptAfter : Option ℕ
deriving DecidableEq

def VALIDATOR_SIGNATURE_FAST_RETRY_INTERVAL : ℕ := 2

def VALIDATOR_SIGNATURE_FAST_RETRY_MAX : ℕ := 3

/-- the table of `calculate_msg_backoff`, in seconds -/
def backoffTable (numRetries maxRetries : ℕ) (random : UInt64) : Option ℕ :=
  let hour := 60 * 60
  if numRetries < 1 then none
  else if numRetries = 1 then some 5
  else if numRetries = 2 then some 10
  else if numRetries = 3 then some 30
  else if numRetries = 4 then some 60
  else if numRetries < 25 then some (60 * 3)
  else if numRetries < 40 then some (60 * 5 + (numRetries - 25) * 90)
  else if numRetries < 45 then some (60 * 30)
  else if numRetries < 50 then some (60 * 60)
  else if numRetries < maxRetries then some (max (2 * hour) ((numRetries - 49) * (2 * hour)) + random.toNat % (6 * hour))
  else some (10 * 7 * 24 * hour)

def calculateMsgBackoff (numRetries maxRetries : UInt32) (random : UInt64) (reason : Option ReprepareReason) : Option ℕ :=
  if reason = some .AwaitingValidatorSignatures then
    if 1 ≤ numRetries.toNat ∧ numRetries.toNat ≤ VALIDATOR_SIGNATURE_FAST_RETRY_MAX then
      some (VALIDATOR_SIGNATURE_FAST_RETRY_INTERVAL * NANOS_PER_SEC)
    else
      (backoffTable (numRetries.toNat - VALIDATOR_SIGNATURE_FAST_RETRY_MAX) maxRetries.toNat random).map (· * NANOS_PER_SEC)
  else (backoffTable numRetries.toNat maxRetries.toNat random).map (· * NANOS_PER_SEC)

/-- `try_into` of milliseconds -/
def tryMillis (ns : ℕ) : Option ℕ := if ns / NANOS_PER_MILLI < 2 ^ 64 then some (ns / NANOS_PER_MILLI) else none

/-- `persist_retry_state` -/
def persistRetryState (env : Env) (db : Db) (numRetries : UInt32) (delay : Option ℕ) (reason : Option ReprepareReason) : Db :=
  let nextAttemptAtMillis := delay.bind fun delay => tryMillis (env.wall.1 + delay)
  let retryDelayMillis := delay.bind tryMillis
  db.storeRetryState (.new numRetries nextAttemptAtMillis retryDelayMillis reason)

/-- the process and its database; the message is gone where a restart has skipped it -/
structure Node where
  db : Db
  message : Option PendingMessage
deriving DecidableEq

def saturatingSucc (n : UInt32) : UInt32 := if n = 0xFFFFFFFF then n else n + 1

def reprepareReason : PendingOperationStatus → Option ReprepareReason
  | .Retry reason => some reason
  | _ => none

/-- `inc_attempts` -/
def incAttempts (env : Env) (db : Db) (m : PendingMessage) (reason : Option ReprepareReason) : Node :=
  let numRetries := saturatingSucc m.numRetries
  let delay := calculateMsgBackoff numRetries m.maxRetries env.random reason
  { db := persistRetryState env db numRetries delay reason
    message := some { m with numRetries, nextAttemptAfter := delay.map (env.monotonic + ·) } }

/-- `set_next_attempt_after` and `delay_reprepare`: no attempt is counted -/
def delayAttempt (env : Env) (db : Db) (m : PendingMessage) (delay : Time) (reason : Option ReprepareReason) : Node :=
  { db := persistRetryState env db m.numRetries (some delay.1) reason
    message := some { m with nextAttemptAfter := some (env.monotonic + delay.1) } }

/-- `set_retries` -/
def setRetries (env : Env) (db : Db) (m : PendingMessage) (retries : UInt32) : Node :=
  let reason := reprepareReason m.status
  let delay := calculateMsgBackoff retries m.maxRetries env.random reason
  { db := persistRetryState env db retries delay reason
    message := some { m with numRetries := retries, nextAttemptAfter := delay.map (env.monotonic + ·) } }

/-- `reset_attempts`: a manual retry -/
def resetAttempts (db : Db) (m : PendingMessage) : Node :=
  { db := db.storeRetryStateAndStatus (.new 0 none none none) (.Retry .Manual)
    message := some { m with status := .Retry .Manual, numRetries := 0, nextAttemptAfter := none } }

/-- `set_status`: the status of a manual retry is already stored -/
def setStatus (db : Db) (m : PendingMessage) (status : PendingOperationStatus) : Node :=
  { db := if status = .Retry .Manual then db else { db with status := some status }
    message := some { m with status } }

/-! ## Restarts -/

def shouldSkip (retryCount maxRetries : UInt32) : Bool := maxRetries ≤ retryCount

/-- `get_retry_state`: a record that cannot be read counts as none -/
def getRetryState (db : Db) : Option PendingMessageRetryState := db.retryState.filter PendingMessageRetryState.readable

def reconcileRetryState (retryState : Option PendingMessageRetryState) (legacyNumRetries : UInt32) :
    UInt32 × Option PendingMessageRetryState :=
  match retryState with
  | none => (legacyNumRetries, none)
  | some state => if state.retryCount < legacyNumRetries then (legacyNumRetries, none) else (state.retryCount, some state)

/-- `restore_retry_deadline` -/
def restoreRetryDeadline (env : Env) (state : PendingMessageRetryState) : Option ℕ :=
  match state.nextAttemptAtMillis, state.retryDelayMillis with
  | some at_, some delay =>
    let deadline := at_ * NANOS_PER_MILLI
    if deadline < env.wall.1 then none
    else some (env.monotonic + min (deadline - env.wall.1) (delay * NANOS_PER_MILLI))
  | _, _ => none

/-- whether a manual retry is written anew, with a count of zero -/
def normalizes (status : PendingOperationStatus) (loaded : UInt32 × Option PendingMessageRetryState) : Bool :=
  status = .Retry .Manual && (loaded.1 ≠ 0 || loaded.2.any fun state => state.nextAttemptAtMillis.isSome)

/-- the retry state to go on with, after a manual retry has been normalized -/
def normalizeManualRetry (db : Db) (status : PendingOperationStatus) (loaded : UInt32 × Option PendingMessageRetryState) :
    Db × UInt32 × Option PendingMessageRetryState :=
  let normalized := PendingMessageRetryState.new 0 none none none
  if normalizes status loaded then (db.storeRetryStateAndStatus normalized status, 0, some normalized)
  else (db, loaded.1, loaded.2)

/-- the message with the retry state that was found, unless it is skipped -/
def resume (env : Env) (maxRetries : UInt32) (status : PendingOperationStatus) (numRetries : UInt32)
    (retryState : Option PendingMessageRetryState) : Option PendingMessage :=
  if shouldSkip numRetries maxRetries && status ≠ .Retry .Manual then none
  else
    let nextAttemptAfter := (retryState.bind (restoreRetryDeadline env)).or
      (if retryState.isSome || numRetries = 0 then none
      else (calculateMsgBackoff numRetries maxRetries env.random (reprepareReason status)).map (env.monotonic + ·))
    let status := match nextAttemptAfter, retryState.bind PendingMessageRetryState.reason with
      | some _, some reason => .Retry reason
      | _, _ => status
    some { status, maxRetries, numRetries, nextAttemptAfter }

def maybeFromPersistedRetries (env : Env) (db : Db) (maxRetries : UInt32) : Node :=
  let loaded := reconcileRetryState (getRetryState db) (db.retryCount.getD 0)
  let status := db.status.getD .FirstPrepareAttempt
  let (db, numRetries, retryState) := normalizeManualRetry db status loaded
  ⟨db, resume env maxRetries status numRetries retryState⟩

/-! ## Runs -/

inductive Operation where
  | onReprepare (reason : ReprepareReason)
  | onReconfirm
  | delayReprepare (delay : Time) (reason : ReprepareReason)
  | setNextAttemptAfter (delay : Time)
  | setRetries (retries : UInt32)
  | resetAttempts
  | setStatus (status : PendingOperationStatus)

def perform (env : Env) (db : Db) (m : PendingMessage) : Operation → Node
  | .onReprepare reason => incAttempts env db m (some reason)
  | .onReconfirm => incAttempts env db m none
  | .delayReprepare delay reason => delayAttempt env db m delay (some reason)
  | .setNextAttemptAfter delay => delayAttempt env db m delay none
  | .setRetries retries => setRetries env db m retries
  | .resetAttempts => resetAttempts db m
  | .setStatus status => setStatus db m status

inductive Event where
  | operation (operation : Operation)
  /-- a crash, and the load of the message after it -/
  | restart (maxRetries : UInt32)

def step (node : Node) (env : Env) : Event → Node
  | .operation operation =>
    match node.message with
    | none => node
    | some m => perform env node.db m operation
  | .restart maxRetries => maybeFromPersistedRetries env node.db maxRetries

/-- a run, from a database that knows nothing of the message -/
def run (message : Option PendingMessage) (events : List (Env × Event)) : Node :=
  events.foldl (fun node e => step node e.1 e.2) ⟨.empty, message⟩

/-! ## Records -/

/-- the record can be read, and its count is the one old binaries read -/
structure Consistent (db : Db) : Prop where
  mirror : db.retryCount = db.retryState.map PendingMessageRetryState.retryCount
  readable : ∀ state ∈ db.retryState, state.readable = true

variable {env : Env} {db : Db} {m : PendingMessage} {maxRetries : UInt32}

theorem consistent_store {state : PendingMessageRetryState} (h : state.readable = true) :
    Consistent (db.storeRetryState state) :=
  ⟨rfl, fun _ hstate => Option.mem_some.1 hstate ▸ h⟩

theorem Consistent.status (h : Consistent db) (status : Option PendingOperationStatus) :
    Consistent { db with status } := ⟨h.mirror, h.readable⟩

theorem tryMillis_isSome {n : ℕ} (h : n < 2 ^ 64 * NANOS_PER_MILLI) : (tryMillis n).isSome = true := by
  rw [tryMillis, if_pos ((Nat.div_lt_iff_lt_mul (by decide)).2 h)]
  rfl

/-- a deadline and its delay are written together, or not at all -/
theorem persist_consistent {numRetries : UInt32} {delay : Option ℕ} {reason : Option ReprepareReason}
    (h : ∀ d ∈ delay, d < 2 ^ 63 * NANOS_PER_MILLI) : Consistent (persistRetryState env db numRetries delay reason) := by
  refine consistent_store ?_
  cases delay with
  | none => rfl
  | some d =>
    have hd := h d rfl
    have hsum : env.wall.1 + d < 2 ^ 64 * NANOS_PER_MILLI := by
      have hwall := env.wall.2
      omega
    have hnext := tryMillis_isSome hsum
    have hdelay := tryMillis_isSome (n := d) (by omega)
    rw [PendingMessageRetryState.readable, PendingMessageRetryState.new, Option.bind_some, Option.bind_some, hnext, hdelay]
    rfl

/-- one row of the table -/
theorem row_lt {p : Prop} [Decidable p] {a bound : ℕ} {rest : Option ℕ} (h : p → a < bound)
    (hrest : ∀ secs ∈ rest, secs < bound) : ∀ secs ∈ (if p then some a else rest), secs < bound := by
  intro secs hsecs
  by_cases hp : p
  · rw [if_pos hp] at hsecs
    exact Option.some.inj hsecs ▸ h hp
  · rw [if_neg hp] at hsecs
    exact hrest secs hsecs

theorem backoffTable_lt {n max : UInt32} {k : ℕ} (hk : k ≤ n.toNat) {random : UInt64} :
    ∀ secs ∈ backoffTable k max.toNat random, secs < 2 ^ 46 := by
  have hn := n.toNat_lt
  have hrandom := Nat.mod_lt random.toNat (show 0 < 6 * (60 * 60) by decide)
  rw [backoffTable]
  by_cases hfirst : k < 1
  · rw [if_pos hfirst]
    exact fun _ hsecs => by cases hsecs
  · rw [if_neg hfirst]
    -- two rows grow with the count, the others are constants
    refine row_lt (fun _ => by decide) (row_lt (fun _ => by decide) (row_lt (fun _ => by decide)
      (row_lt (fun _ => by decide) (row_lt (fun _ => by decide) (row_lt (fun _ => by omega)
      (row_lt (fun _ => by decide) (row_lt (fun _ => by decide) (row_lt (fun _ => by omega) ?_))))))))
    exact fun _ hsecs => Option.some.inj hsecs ▸ by decide

theorem calculateMsgBackoff_lt {n max : UInt32} {random : UInt64} {reason : Option ReprepareReason} :
    ∀ d ∈ calculateMsgBackoff n max random reason, d < 2 ^ 63 * NANOS_PER_MILLI := by
  intro d hd
  rw [calculateMsgBackoff] at hd
  have htable : ∀ k ≤ n.toNat, d ∈ (backoffTable k max.toNat random).map (· * NANOS_PER_SEC) →
      d < 2 ^ 63 * NANOS_PER_MILLI := by
    intro k hk hmem
    obtain ⟨secs, hsecs, rfl⟩ := Option.map_eq_some_iff.1 hmem
    have hlt := backoffTable_lt hk secs hsecs
    rw [NANOS_PER_SEC, NANOS_PER_MILLI]
    omega
  split_ifs at hd with hreason hfast
  · obtain rfl := Option.some.inj hd
    decide
  · exact htable _ (Nat.sub_le _ _) hd
  · exact htable _ le_rfl hd

theorem perform_consistent (h : Consistent db) (operation : Operation) : Consistent (perform env db m operation).db := by
  cases operation with
  | onReprepare reason => exact persist_consistent calculateMsgBackoff_lt
  | onReconfirm => exact persist_consistent calculateMsgBackoff_lt
  | delayReprepare delay reason => exact persist_consistent fun d hd => Option.some.inj hd ▸ delay.2
  | setNextAttemptAfter delay => exact persist_consistent fun d hd => Option.some.inj hd ▸ delay.2
  | setRetries retries => exact persist_consistent calculateMsgBackoff_lt
  | resetAttempts => exact (consistent_store rfl).status _
  | setStatus status =>
    rw [perform, setStatus]
    dsimp only
    split
    · exact h
    · exact h.status _

theorem load_consistent (h : Consistent db) : Consistent (maybeFromPersistedRetries env db maxRetries).db := by
  rw [maybeFromPersistedRetries, normalizeManualRetry]
  dsimp only
  split
  · exact (consistent_store rfl).status _
  · exact h

theorem run_consistent (message : Option PendingMessage) (events : List (Env × Event)) :
    Consistent (run message events).db := by
  induction events using List.reverseRecOn with
  | nil => exact ⟨rfl, fun _ hstate => nomatch hstate⟩
  | append_singleton events e ih =>
    rw [run, List.foldl_append, List.foldl_cons, List.foldl_nil]
    obtain ⟨env, event⟩ := e
    cases event with
    | operation operation =>
      rw [step]
      split
      · exact ih
      · exact perform_consistent ih operation
    | restart maxRetries => exact load_consistent ih

/-! ## What a restart restores -/

/-- the last retry count that was persisted -/
def persistedCount (db : Db) : UInt32 := (db.retryState.map PendingMessageRetryState.retryCount).getD 0

/-- the budget is spent, and no manual retry is outstanding -/
def SkipDue (db : Db) (maxRetries : UInt32) : Prop :=
  maxRetries ≤ persistedCount db ∧ db.status ≠ some (.Retry .Manual)

/-- the deadline is neither later than the persisted one nor further away than the persisted delay, and there is one where the
persisted one is still ahead -/
structure DeadlineRestored (env : Env) (db : Db) (m : PendingMessage) : Prop where
  bounded : ∀ deadline ∈ m.nextAttemptAfter, ∃ state ∈ db.retryState,
    ∃ at_ ∈ state.nextAttemptAtMillis, ∃ delay ∈ state.retryDelayMillis, env.monotonic ≤ deadline ∧
      env.wall.1 + (deadline - env.monotonic) ≤ at_ * NANOS_PER_MILLI ∧
      deadline ≤ env.monotonic + delay * NANOS_PER_MILLI
  present : ∀ state ∈ db.retryState, ∀ at_ ∈ state.nextAttemptAtMillis,
    env.wall.1 < at_ * NANOS_PER_MILLI → m.nextAttemptAfter.isSome

/-- a restart finds the retry state that was persisted last -/
def Restored (env : Env) (db : Db) (maxRetries : UInt32) : Prop :=
  match (maybeFromPersistedRetries env db maxRetries).message with
  | none => SkipDue db maxRetries
  | some m => ¬SkipDue db maxRetries ∧ m.numRetries = persistedCount db ∧ DeadlineRestored env db m

/-- the status of a manual retry is still stored, and the record has moved on: to a count, or to a deadline that is still
ahead -/
def MovedOn (env : Env) (db : Db) : Prop :=
  db.status = some (.Retry .Manual) ∧ ∃ state ∈ db.retryState,
    state.retryCount ≠ 0 ∨ ∃ at_ ∈ state.nextAttemptAtMillis, env.wall.1 < at_ * NANOS_PER_MILLI

theorem Consistent.loaded (h : Consistent db) :
    reconcileRetryState (getRetryState db) (db.retryCount.getD 0) = (persistedCount db, db.retryState) := by
  rw [getRetryState, h.mirror, persistedCount]
  cases hstate : db.retryState with
  | none => rfl
  | some state =>
    rw [Option.filter_some_pos (h.readable state hstate), reconcileRetryState]
    exact if_neg (UInt32.lt_irrefl state.retryCount)

theorem restore_eq_some {state : PendingMessageRetryState} {deadline : ℕ} (h : restoreRetryDeadline env state = some deadline) :
    ∃ at_ ∈ state.nextAttemptAtMillis, ∃ delay ∈ state.retryDelayMillis, env.monotonic ≤ deadline ∧
      env.wall.1 + (deadline - env.monotonic) ≤ at_ * NANOS_PER_MILLI ∧
      deadline ≤ env.monotonic + delay * NANOS_PER_MILLI := by
  rw [restoreRetryDeadline] at h
  split at h
  next at_ delay hat hdelay =>
    dsimp only at h
    split_ifs at h with hpast
    obtain rfl := Option.some.inj h
    refine ⟨at_, hat, delay, hdelay, ?_⟩
    omega
  next => exact nomatch h

/-- a record that can be read has a delay with its deadline -/
theorem restore_isSome {state : PendingMessageRetryState} (h : state.readable = true) {at_ : ℕ}
    (hat : state.nextAttemptAtMillis = some at_) (hahead : env.wall.1 < at_ * NANOS_PER_MILLI) :
    (restoreRetryDeadline env state).isSome = true := by
  rw [PendingMessageRetryState.readable, Bool.and_eq_true, beq_iff_eq, beq_iff_eq, hat, Option.isSome_some] at h
  obtain ⟨delay, hdelay⟩ := Option.isSome_iff_exists.1 h.2.symm
  rw [restoreRetryDeadline, hat, hdelay]
  dsimp only
  rw [if_neg (by omega)]
  rfl

theorem resume_deadline {status : PendingOperationStatus} {numRetries : UInt32}
    {retryState : Option PendingMessageRetryState} (hm : resume env maxRetries status numRetries retryState = some m)
    (hcount : retryState = none → numRetries = 0) :
    m.numRetries = numRetries ∧ m.nextAttemptAfter = retryState.bind (restoreRetryDeadline env) := by
  rw [resume] at hm
  split at hm
  · exact nomatch hm
  · obtain rfl := Option.some.inj hm
    refine ⟨rfl, ?_⟩
    dsimp only
    have hnone : (retryState.isSome || decide (numRetries = 0)) = true := by
      cases retryState with
      | none => exact decide_eq_true (hcount rfl)
      | some state => rfl
    rw [if_pos hnone, Option.or_none]

theorem resume_eq_none {status : PendingOperationStatus} {numRetries : UInt32}
    {retryState : Option PendingMessageRetryState} :
    resume env maxRetries status numRetries retryState = none ↔ maxRetries ≤ numRetries ∧ status ≠ .Retry .Manual := by
  rw [resume, shouldSkip]
  split
  next h => exact ⟨fun _ => by simpa using h, fun _ => rfl⟩
  next h => exact ⟨nofun, fun hskip => absurd hskip (by simpa using h)⟩

theorem manual_iff : db.status.getD .FirstPrepareAttempt = .Retry .Manual ↔ db.status = some (.Retry .Manual) := by
  cases db.status with
  | none => exact ⟨nofun, nofun⟩
  | some status => exact ⟨congrArg some, Option.some.inj⟩

/-- the count of the record, where there is one -/
theorem persistedCount_eq {state : PendingMessageRetryState} (h : db.retryState = some state) :
    persistedCount db = state.retryCount := by
  rw [persistedCount, h]
  rfl

theorem normalizes_iff : normalizes (db.status.getD .FirstPrepareAttempt) (persistedCount db, db.retryState) = true ↔
    db.status = some (.Retry .Manual) ∧ ∃ state ∈ db.retryState,
      state.retryCount ≠ 0 ∨ state.nextAttemptAtMillis.isSome = true := by
  rw [normalizes, Bool.and_eq_true, decide_eq_true_eq, manual_iff, Bool.or_eq_true, decide_eq_true_eq]
  refine and_congr_right fun _ => ?_
  cases hstate : db.retryState with
  | none => simp [persistedCount, hstate]
  | some state => simp [persistedCount_eq hstate]

/-- what a restart goes on with -/
theorem load_message (h : Consistent db) : (maybeFromPersistedRetries env db maxRetries).message =
    if normalizes (db.status.getD .FirstPrepareAttempt) (persistedCount db, db.retryState) = true then
      resume env maxRetries (db.status.getD .FirstPrepareAttempt) 0 (some (.new 0 none none none))
    else resume env maxRetries (db.status.getD .FirstPrepareAttempt) (persistedCount db) db.retryState := by
  rw [maybeFromPersistedRetries]
  dsimp only
  rw [h.loaded, normalizeManualRetry]
  dsimp only
  split
  · rfl
  · rfl

/-- a restart restores the retry state if and only if the record has not moved on from a manual retry that is still stored as
the status -/
theorem restored_iff_of_consistent (h : Consistent db) : Restored env db maxRetries ↔ ¬MovedOn env db := by
  rw [Restored, load_message h]
  by_cases hnormalizes : normalizes (db.status.getD .FirstPrepareAttempt) (persistedCount db, db.retryState) = true
  · rw [if_pos hnormalizes]
    -- the manual retry starts anew, with no count and no deadline
    obtain ⟨hmanual, state, hstate, _⟩ := normalizes_iff.1 hnormalizes
    have hnotdue : ¬SkipDue db maxRetries := fun hdue => hdue.2 hmanual
    cases hm : resume env maxRetries (db.status.getD .FirstPrepareAttempt) 0 (some (.new 0 none none none)) with
    | none => exact absurd (manual_iff.2 hmanual) (resume_eq_none.1 hm).2
    | some m =>
      obtain ⟨hnum, hnext⟩ := resume_deadline hm nofun
      have hnext : m.nextAttemptAfter = none := hnext
      dsimp only
      rw [hnum, persistedCount_eq hstate]
      constructor
      · rintro ⟨_, hzero, hdeadline⟩ ⟨_, state', hstate', hmoved⟩
        obtain rfl := Option.some.inj (hstate.symm.trans hstate')
        rcases hmoved with hcount | ⟨at_, hat, hahead⟩
        · exact hcount hzero.symm
        · have hpresent := hdeadline.present state hstate at_ hat hahead
          rw [hnext] at hpresent
          exact nomatch hpresent
      · intro hmoved
        refine ⟨hnotdue, ?_, ⟨fun deadline hdeadline => ?_, fun state' hstate' at_ hat hahead => ?_⟩⟩
        · by_contra hcount
          exact hmoved ⟨hmanual, state, hstate, .inl (Ne.symm hcount)⟩
        · rw [hnext] at hdeadline
          exact nomatch hdeadline
        · exact absurd ⟨hmanual, state', hstate', .inr ⟨at_, hat, hahead⟩⟩ hmoved
  · rw [if_neg hnormalizes]
    have hnotmoved : ¬MovedOn env db := by
      rintro ⟨hmanual, state, hstate, hmoved⟩
      refine hnormalizes (normalizes_iff.2 ⟨hmanual, state, hstate, hmoved.imp_right ?_⟩)
      rintro ⟨at_, hat, _⟩
      rw [Option.mem_def.1 hat, Option.isSome_some]
    refine iff_of_true ?_ hnotmoved
    cases hm : resume env maxRetries (db.status.getD .FirstPrepareAttempt) (persistedCount db) db.retryState with
    | none =>
      obtain ⟨hdue, hmanual⟩ := resume_eq_none.1 hm
      exact ⟨hdue, fun hstatus => hmanual (manual_iff.2 hstatus)⟩
    | some m =>
      have hcount : db.retryState = none → persistedCount db = 0 := fun hnone => by rw [persistedCount, hnone]; rfl
      obtain ⟨hnum, hnext⟩ := resume_deadline hm hcount
      refine ⟨fun hdue => ?_, hnum, ⟨fun deadline hdeadline => ?_, fun state hstate at_ hat hahead => ?_⟩⟩
      · rw [resume_eq_none.2 ⟨hdue.1, fun hstatus => hdue.2 (manual_iff.1 hstatus)⟩] at hm
        exact nomatch hm
      · rw [hnext] at hdeadline
        obtain ⟨state, hstate, hrestored⟩ := Option.bind_eq_some_iff.1 hdeadline
        exact ⟨state, hstate, restore_eq_some hrestored⟩
      · rw [hnext, Option.mem_def.1 hstate]
        exact restore_isSome (h.readable state hstate) hat hahead

/-- for every run and every crash in it: what the restart finds is what was persisted last, if and only if the crash does not
come after an attempt that follows a manual retry and before the next status is stored -/
theorem retry_state_restored_iff (message : Option PendingMessage) (events : List (Env × Event)) (env : Env)
    (maxRetries : UInt32) :
    Restored env (run message events).db maxRetries ↔ ¬MovedOn env (run message events).db :=
  restored_iff_of_consistent (run_consistent message events)

/-- a second of monotonic time, long after the epoch -/
def sampleEnv : Env := ⟨⟨10 ^ 18, by decide⟩, NANOS_PER_SEC, 0⟩

/-- a manual retry, and an attempt that fails; the queue has not stored its status yet -/
def retryThenAttempt : List (Env × Event) :=
  [(sampleEnv, .operation .resetAttempts), (sampleEnv, .operation (.onReprepare .ErrorSubmitting))]

def afterAttempt : Node := run (some ⟨.FirstPrepareAttempt, 66, 0, none⟩) retryThenAttempt

/-- the attempt was persisted with its count and a deadline; after the crash the message has neither -/
theorem manual_attempt_forgotten : persistedCount afterAttempt.db = 1 ∧
    (maybeFromPersistedRetries sampleEnv afterAttempt.db 66).message = some ⟨.Retry .Manual, 66, 0, none⟩ ∧
    ¬Restored sampleEnv afterAttempt.db 66 := by
  refine ⟨by decide, by decide, fun h => ?_⟩
  have hmoved : MovedOn sampleEnv afterAttempt.db := ⟨by decide, _, rfl, .inl (by decide)⟩
  exact (restored_iff_of_consistent (run_consistent _ retryThenAttempt)).1 h hmoved

end Hyperlane.Relayer.RetryState
