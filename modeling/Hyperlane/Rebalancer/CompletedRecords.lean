/-
Completed rebalance records are final: the operations of `ActionTracker` that write statuses
(typescript/rebalancer/src/tracking/ActionTracker.ts), interleaved at their awaits.

Each access of a store is an await. `syncRebalanceIntents` and `syncRebalanceActions` decide what they write on
snapshots, and the store takes a write whatever has become of the record since. A write is overtaken when what it was
decided on no longer stands: the record it changes is not the one that was read, the completed amount of an expired
intent is not the one that was read, or the id it saves under is in use by then.

- `completed_final`: in a run without an overtaken write, a complete action or intent stays complete; an intent whose
  completed amounts reach its amount is complete or a task under way checks it; an intent that fails had not reached its
  amount at any moment before.
- `expiry_overtakes_completion`: a run in which an intent expires while its delivery is recorded.
-/
import Hyperlane.Core.Obligations
import Hyperlane.Rebalancer.ActionTracker

namespace Hyperlane.Rebalancer.Tracking

open Interleaving

/-- the stores, and whether a write was overtaken so far -/
structure Records where
  tracker : ActionTracker
  overtaken : Bool

/-! ## Programs -/

/-- a read of the stores -/
def query {α : Type} (q : ActionTracker → α) : Prog Records α := .read fun s => q s.tracker

/-- a write, with what it was decided on -/
def update (stands : ActionTracker → Bool) (change : ActionTracker → ActionTracker) : Prog Records Unit :=
  .write fun s => ⟨change s.tracker, s.overtaken || !stands s.tracker⟩

/-- `rebalanceIntentStore.save` under a new id -/
def saveIntent (intent : RebalanceIntent) : Prog Records Unit :=
  update (fun t => (t.intents.get? intent.id).isNone && t.actions.data.all fun a => a.intentId ≠ intent.id)
    fun t => { t with intents := t.intents.save intent }

/-- `rebalanceActionStore.save` under a new id -/
def saveAction (action : RebalanceAction) : Prog Records Unit :=
  update (fun t => (t.actions.get? action.id).isNone) fun t => { t with actions := t.actions.save action }

def completeIntent (intentId : ℕ) : Prog Records Unit := update (fun _ => true) (·.setIntent intentId .complete)

/-- no operation deletes a record, so the update of a record that was read finds one -/
def completeAction (action : RebalanceAction) : Prog Records Unit :=
  update (fun t => (t.actions.get? action.id).all fun a => a.intentId = action.intentId) (·.setAction action.id .complete)

def startIntent (intent : RebalanceIntent) : Prog Records Unit :=
  update (fun t => t.intents.get? intent.id = some intent) (·.setIntent intent.id .inProgress)

def failIntent (intent : RebalanceIntent) (completedAmount : ℕ) : Prog Records Unit :=
  update
    (fun t => t.intents.get? intent.id = some intent ∧ t.getCompletedAmountForIntent intent.id = completedAmount)
    (·.setIntent intent.id .failed)

def failAction (action : RebalanceAction) : Prog Records Unit :=
  update (fun t => t.actions.get? action.id = some action) (·.setAction action.id .failed)

def createRebalanceIntent (id origin destination amount : ℕ) (method : Option ExecutionMethod) (now : ℕ) :
    Prog Records Unit :=
  saveIntent ⟨id, .notStarted, origin, destination, amount, method, now⟩

def createRebalanceAction (id : ℕ) (type : ActionType) (intentId : ℕ) (messageId : Option ℕ)
    (origin destination amount now : ℕ) : Prog Records Unit := do
  saveAction ⟨id, .inProgress, type, intentId, messageId, origin, destination, amount, now⟩
  match ← query (·.intents.get? intentId) with
  | none => pure ()
  | some intent => if intent.status = .notStarted then startIntent intent else pure ()

def checkAndCompleteIntent (intentId : ℕ) : Prog Records Unit := do
  match ← query (·.intents.get? intentId) with
  | none => pure ()
  | some intent =>
    if intent.status = .complete then pure ()
    else
      let completedAmount ← query (·.getCompletedAmountForIntent intentId)
      if intent.amount ≤ completedAmount then completeIntent intentId else pure ()

/-- `false` when it throws: there is no such action -/
def completeRebalanceAction (id : ℕ) : Prog Records Bool := do
  match ← query (·.actions.get? id) with
  | none => pure false
  | some action =>
    completeAction action
    checkAndCompleteIntent action.intentId
    pure true

/-- one intent of the snapshot: completed, expired with its actions of the snapshot, or left -/
def syncIntent (intentTTL now : ℕ) (allInProgressActions : List RebalanceAction) (intent : RebalanceIntent) :
    Prog Records Unit := do
  let completedAmount ← query (·.getCompletedAmountForIntent intent.id)
  if intent.amount ≤ completedAmount then completeIntent intent.id
  else if intentTTL < now - intent.createdAt then
    failIntent intent completedAmount
    allInProgressActions.forM fun action => if action.intentId = intent.id then failAction action else pure ()
  else pure ()

def syncRebalanceIntents (intentTTL now : ℕ) : Prog Records Unit := do
  let inProgressIntents ← query fun t => t.intents.data.filter (·.status = .inProgress)
  let allInProgressActions ← query fun t => t.actions.data.filter (·.status = .inProgress)
  inProgressIntents.forM (syncIntent intentTTL now allInProgressActions)

/-- an inflight message of the explorer, with the id and the time that its recovery draws -/
structure Inflight where
  msg : ExplorerMessage
  uuid : ℕ
  now : ℕ

def recoverAction (m : Inflight) : Prog Records Unit := do
  let existing ← query (·.actions.get? m.msg.msgId)
  if existing.isSome then pure ()
  else
    saveIntent ⟨m.uuid, .inProgress, m.msg.origin, m.msg.destination, m.msg.amount, none, m.msg.sendOccurredAt.getD m.now⟩
    saveAction ⟨m.msg.msgId, .inProgress, .rebalanceMessage, m.uuid, some m.msg.msgId, m.msg.origin, m.msg.destination,
      m.msg.amount, m.msg.sendOccurredAt.getD m.now⟩

/-- the delivery checks of the actions of the snapshot -/
def completeDelivered (delivered : RebalanceAction → Bool) : List RebalanceAction → Prog Records Unit
  | [] => pure ()
  | action :: rest =>
    if action.messageId.isSome && delivered action then do
      if ← completeRebalanceAction action.id then completeDelivered delivered rest else pure ()
    else completeDelivered delivered rest

def syncRebalanceActions (inflightMessages : List Inflight) (delivered : RebalanceAction → Bool) : Prog Records Unit := do
  let allActions ← query (·.actions.data)
  inflightMessages.forM fun m =>
    if allActions.any fun a => a.messageId = some m.msg.msgId then pure () else recoverAction m
  let inProgressActions ← query fun t => t.actions.data.filter (·.status = .inProgress)
  completeDelivered delivered inProgressActions

inductive Op where
  | createIntent (id origin destination amount : ℕ) (method : Option ExecutionMethod) (now : ℕ)
  | createAction (id : ℕ) (type : ActionType) (intentId : ℕ) (messageId : Option ℕ) (origin destination amount now : ℕ)
  | completeAction (id : ℕ)
  | syncIntents (now : ℕ)
  /-- with what the explorer and the delivery checks answer -/
  | syncActions (inflightMessages : List Inflight) (delivered : RebalanceAction → Bool)

/-- any number of operations at a time; nobody else writes the stores -/
def machine (intentTTL : ℕ) : Machine Op Empty Records where
  program
    | .createIntent id origin destination amount method now =>
      createRebalanceIntent id origin destination amount method now
    | .createAction id type intentId messageId origin destination amount now =>
      createRebalanceAction id type intentId messageId origin destination amount now
    | .completeAction id => do
      let _ ← completeRebalanceAction id
    | .syncIntents now => syncRebalanceIntents intentTTL now
    | .syncActions inflightMessages delivered => syncRebalanceActions inflightMessages delivered
  ready _ _ := true
  bare _ := false
  interfere e := nomatch e

/-- the state after some events, from stores without tasks -/
def after (intentTTL : ℕ) (t : ActionTracker) (es : List (Event Op Empty)) : System Op Records :=
  (machine intentTTL).run ⟨⟨t, false⟩, none, []⟩ es

/-! ## What a write does -/

section Writes

variable {t t' t'' : ActionTracker}

/-- what an action counts towards an intent -/
def counted (intentId : ℕ) (a : RebalanceAction) : ℕ :=
  if a.intentId = intentId ∧ a.status = .complete ∧ (a.type = .inventoryDeposit ∨ a.type = .rebalanceMessage) then
    a.amount else 0

theorem completed_eq (intentId : ℕ) :
    t.getCompletedAmountForIntent intentId = (t.actions.data.map (counted intentId)).sum := by
  unfold ActionTracker.getCompletedAmountForIntent ActionTracker.getActionsForIntent
  induction t.actions.data with
  | nil => rfl
  | cons a l ih =>
    rw [List.map_cons, List.sum_cons, ← ih, counted]
    by_cases hid : a.intentId = intentId
    · by_cases hdone : a.status = .complete ∧ (a.type = .inventoryDeposit ∨ a.type = .rebalanceMessage)
      · simp [hid, hdone]
      · simp [hid, hdone]
    · simp [hid]

theorem completed_setAction (id intentId : ℕ) (status : RebalanceActionStatus) :
    (t.setAction id status).getCompletedAmountForIntent intentId =
      (t.actions.data.map fun a => counted intentId (if a.id = id then a.setStatus status else a)).sum := by
  rw [completed_eq, ActionTracker.setAction, KeyedStore.update, List.map_map]
  rfl

theorem counted_le_complete (intentId : ℕ) (a : RebalanceAction) :
    counted intentId a ≤ counted intentId (a.setStatus .complete) := by
  unfold counted RebalanceAction.setStatus
  split
  · rename_i h
    rw [if_pos ⟨h.1, rfl, h.2.2⟩]
  · exact Nat.zero_le _

theorem completed_complete (id intentId : ℕ) :
    t.getCompletedAmountForIntent intentId ≤ (t.setAction id .complete).getCompletedAmountForIntent intentId := by
  rw [completed_setAction, completed_eq]
  refine List.sum_le_sum fun a _ => ?_
  split
  · exact counted_le_complete intentId a
  · exact le_rfl

/-- completing an action counts towards its own intent only -/
theorem completed_complete_other {id intentId : ℕ} (h : ∀ a, t.actions.get? id = some a → a.intentId ≠ intentId) :
    (t.setAction id .complete).getCompletedAmountForIntent intentId = t.getCompletedAmountForIntent intentId := by
  rw [completed_setAction, completed_eq]
  refine congrArg _ (List.map_congr_left fun a ha => ?_)
  split
  · rename_i hid
    have hne := h a (KeyedStore.get?_eq_some.2 ⟨ha, hid⟩)
    simp [counted, RebalanceAction.setStatus, hne]
  · rfl

/-- an action that is not complete counts nothing, also when it fails -/
theorem completed_fail {a : RebalanceAction} (hget : t.actions.get? a.id = some a) (hstatus : a.status ≠ .complete)
    (intentId : ℕ) :
    (t.setAction a.id .failed).getCompletedAmountForIntent intentId = t.getCompletedAmountForIntent intentId := by
  obtain ⟨ha, -⟩ := KeyedStore.get?_eq_some.1 hget
  rw [completed_setAction, completed_eq]
  refine congrArg _ (List.map_congr_left fun b hb => ?_)
  split
  · rename_i hid
    obtain rfl := KeyedStore.eq_of_key hb ha hid
    simp [counted, RebalanceAction.setStatus, hstatus]
  · rfl

theorem completed_saveAction {a : RebalanceAction} (hnew : a.id ∉ t.actions.data.map RebalanceAction.id)
    (hstatus : a.status ≠ .complete) (intentId : ℕ) :
    ActionTracker.getCompletedAmountForIntent { t with actions := t.actions.save a } intentId =
      t.getCompletedAmountForIntent intentId := by
  rw [completed_eq, completed_eq, KeyedStore.data_save hnew, List.map_append, List.sum_append]
  simp [counted, hstatus]

@[simp]
theorem completed_intents (intents : RebalanceIntentStore) (intentId : ℕ) :
    ActionTracker.getCompletedAmountForIntent { t with intents := intents } intentId =
      t.getCompletedAmountForIntent intentId := rfl

@[simp]
theorem completed_setIntent (id intentId : ℕ) (status : RebalanceIntentStatus) :
    (t.setIntent id status).getCompletedAmountForIntent intentId = t.getCompletedAmountForIntent intentId := rfl

/-! ## The way records go -/

/-- what may become of an intent while the amount completed towards it is `completed` -/
structure IntentGoes (completed : ℕ) (i i' : RebalanceIntent) : Prop where
  amount : i'.amount = i.amount
  complete : i.status = .complete → i'.status = .complete
  failed : i'.status = .failed → i.status = .failed ∨ completed < i.amount

/-- records stay, what is complete stays so, completed amounts do not fall, and what fails had not reached its amount -/
structure Forward (t t' : ActionTracker) : Prop where
  action : ∀ id a, t.actions.get? id = some a →
    ∃ a', t'.actions.get? id = some a' ∧ (a.status = .complete → a'.status = .complete)
  intent : ∀ id i, t.intents.get? id = some i →
    ∃ i', t'.intents.get? id = some i' ∧ IntentGoes (t.getCompletedAmountForIntent id) i i'
  completed : ∀ id, t.getCompletedAmountForIntent id ≤ t'.getCompletedAmountForIntent id

theorem IntentGoes.refl (completed : ℕ) (i : RebalanceIntent) : IntentGoes completed i i := ⟨rfl, id, .inl⟩

theorem IntentGoes.trans {completed completed' : ℕ} {i i' i'' : RebalanceIntent} (h : IntentGoes completed i i')
    (h' : IntentGoes completed' i' i'') (hle : completed ≤ completed') : IntentGoes completed i i'' := by
  refine ⟨h'.amount.trans h.amount, fun hs => h'.complete (h.complete hs), fun hs => ?_⟩
  rcases h'.failed hs with hs' | hlt
  · exact h.failed hs'
  · exact .inr ((hle.trans_lt hlt).trans_eq h.amount)

theorem Forward.refl (t : ActionTracker) : Forward t t :=
  ⟨fun _ a ha => ⟨a, ha, id⟩, fun _ i hi => ⟨i, hi, .refl _ i⟩, fun _ => le_rfl⟩

theorem Forward.trans (h : Forward t t') (h' : Forward t' t'') : Forward t t'' := by
  refine ⟨fun id a ha => ?_, fun id i hi => ?_, fun id => (h.completed id).trans (h'.completed id)⟩
  · obtain ⟨a', ha', hkeep⟩ := h.action id a ha
    obtain ⟨a'', ha'', hkeep'⟩ := h'.action id a' ha'
    exact ⟨a'', ha'', fun hs => hkeep' (hkeep hs)⟩
  · obtain ⟨i', hi', hgoes⟩ := h.intent id i hi
    obtain ⟨i'', hi'', hgoes'⟩ := h'.intent id i' hi'
    exact ⟨i'', hi'', hgoes.trans hgoes' (h.completed id)⟩

/-- a write to the status of an intent -/
theorem forward_setIntent {id : ℕ} {status : RebalanceIntentStatus}
    (h : ∀ i, t.intents.get? id = some i → IntentGoes (t.getCompletedAmountForIntent id) i (i.setStatus status)) :
    Forward t (t.setIntent id status) := by
  refine ⟨fun _ a ha => ⟨a, ha, fun hs => hs⟩, fun k i hi => ?_, fun _ => le_rfl⟩
  rw [ActionTracker.setIntent, KeyedStore.get?_update]
  split
  · rename_i heq
    subst heq
    exact ⟨_, by rw [hi, Option.map_some], h i hi⟩
  · exact ⟨i, hi, .refl _ i⟩

/-- a write to the status of an action -/
theorem forward_setAction {id : ℕ} {status : RebalanceActionStatus}
    (h : ∀ a, t.actions.get? id = some a → a.status = .complete → status = .complete)
    (hcompleted : ∀ k, t.getCompletedAmountForIntent k ≤ (t.setAction id status).getCompletedAmountForIntent k) :
    Forward t (t.setAction id status) := by
  refine ⟨fun k a ha => ?_, fun _ i hi => ⟨i, hi, .refl _ i⟩, hcompleted⟩
  rw [ActionTracker.setAction, KeyedStore.get?_update]
  split
  · rename_i heq
    subst heq
    exact ⟨_, by rw [ha, Option.map_some], fun hs => h a ha hs⟩
  · exact ⟨a, ha, fun hs => hs⟩

theorem forward_saveIntent {i : RebalanceIntent} (hnew : i.id ∉ t.intents.data.map RebalanceIntent.id) :
    Forward t { t with intents := t.intents.save i } := by
  refine ⟨fun _ a ha => ⟨a, ha, fun hs => hs⟩, fun k j hj => ⟨j, ?_, .refl _ j⟩, fun _ => le_rfl⟩
  rw [KeyedStore.get?_save hnew, if_neg]
  · exact hj
  · rintro rfl
    exact nomatch (KeyedStore.get?_eq_none.2 hnew).symm.trans hj

theorem forward_saveAction {a : RebalanceAction} (hnew : a.id ∉ t.actions.data.map RebalanceAction.id)
    (hstatus : a.status ≠ .complete) : Forward t { t with actions := t.actions.save a } := by
  refine ⟨fun k b hb => ⟨b, ?_, fun hs => hs⟩, fun _ i hi => ⟨i, hi, .refl _ i⟩, fun k => ?_⟩
  · rw [KeyedStore.get?_save hnew, if_neg]
    · exact hb
    · rintro rfl
      exact nomatch (KeyedStore.get?_eq_none.2 hnew).symm.trans hb
  · rw [completed_saveAction hnew hstatus]

end Writes

/-! ## Every access goes forward -/

/-- unless a write is overtaken -/
def Onward (s s' : Records) : Prop := s'.overtaken = false → s.overtaken = false ∧ Forward s.tracker s'.tracker

theorem Onward.refl (s : Records) : Onward s s := fun h => ⟨h, .refl _⟩

theorem Onward.trans {a b c : Records} (h : Onward a b) (h' : Onward b c) : Onward a c := by
  intro hc
  obtain ⟨hb, hbc⟩ := h' hc
  obtain ⟨ha, hab⟩ := h hb
  exact ⟨ha, hab.trans hbc⟩

theorem query_steps {α : Type} (q : ActionTracker → α) : (query q).Steps Onward := Prog.steps_read .refl _

/-- a write that goes forward when what it was decided on stands -/
theorem update_steps {stands : ActionTracker → Bool} {change : ActionTracker → ActionTracker}
    (h : ∀ t, stands t = true → Forward t (change t)) : (update stands change).Steps Onward := by
  refine Prog.steps_write fun s hs => ?_
  simp only [Bool.or_eq_false_iff, Bool.not_eq_false'] at hs
  exact ⟨hs.1, h s.tracker hs.2⟩

theorem completeIntent_steps (intentId : ℕ) : (completeIntent intentId).Steps Onward :=
  update_steps fun _ _ => forward_setIntent fun _ _ => ⟨rfl, fun _ => rfl, fun h => nomatch h⟩

theorem completeAction_steps (action : RebalanceAction) : (completeAction action).Steps Onward :=
  update_steps fun _ _ => forward_setAction (fun _ _ _ => rfl) (completed_complete _)

theorem startIntent_steps {intent : RebalanceIntent} (h : intent.status = .notStarted) :
    (startIntent intent).Steps Onward := by
  refine update_steps fun t hstands => forward_setIntent fun i hi => ⟨rfl, fun hs => ?_, fun hs => nomatch hs⟩
  obtain rfl := Option.some.inj (hi.symm.trans (of_decide_eq_true hstands))
  exact nomatch h.symm.trans hs

/-- an intent expires while it is in progress and short of its amount -/
theorem failIntent_steps {intent : RebalanceIntent} {completedAmount : ℕ} (h : intent.status = .inProgress)
    (hlt : completedAmount < intent.amount) : (failIntent intent completedAmount).Steps Onward := by
  refine update_steps fun t hstands => ?_
  obtain ⟨hget, hcompleted⟩ := of_decide_eq_true hstands
  refine forward_setIntent fun i hi => ?_
  obtain rfl := Option.some.inj (hi.symm.trans hget)
  exact ⟨rfl, fun hs => (nomatch h.symm.trans hs), fun _ => .inr (hcompleted.trans_lt hlt)⟩

theorem failAction_steps {action : RebalanceAction} (h : action.status = .inProgress) :
    (failAction action).Steps Onward := by
  refine update_steps fun t hstands => ?_
  have hget := of_decide_eq_true hstands
  have hne : action.status ≠ .complete := by simp [h]
  refine forward_setAction (fun a ha hs => ?_) fun k => (completed_fail hget hne k).ge
  obtain rfl := Option.some.inj (ha.symm.trans hget)
  exact absurd hs hne

theorem saveIntent_steps (intent : RebalanceIntent) : (saveIntent intent).Steps Onward := by
  refine update_steps fun t hstands => forward_saveIntent (KeyedStore.get?_eq_none.1 ?_)
  simp only [Bool.and_eq_true, Option.isNone_iff_eq_none] at hstands
  exact hstands.1

theorem saveAction_steps {action : RebalanceAction} (h : action.status = .inProgress) :
    (saveAction action).Steps Onward := by
  refine update_steps fun t hstands => forward_saveAction (KeyedStore.get?_eq_none.1 ?_) (by simp [h])
  exact Option.isNone_iff_eq_none.1 hstands

theorem createRebalanceAction_steps (id : ℕ) (type : ActionType) (intentId : ℕ) (messageId : Option ℕ)
    (origin destination amount now : ℕ) :
    (createRebalanceAction id type intentId messageId origin destination amount now).Steps Onward := by
  refine (saveAction_steps rfl).bind fun _ => (query_steps _).bind fun read => ?_
  cases read with
  | none => trivial
  | some intent =>
    simp only
    split
    · rename_i hs
      exact startIntent_steps hs
    · trivial

theorem checkAndCompleteIntent_steps (intentId : ℕ) : (checkAndCompleteIntent intentId).Steps Onward := by
  refine (query_steps _).bind fun read => ?_
  cases read with
  | none => trivial
  | some intent =>
    simp only
    split
    · trivial
    · refine (query_steps _).bind fun completedAmount => ?_
      split
      · exact completeIntent_steps intentId
      · trivial

theorem completeRebalanceAction_steps (id : ℕ) : (completeRebalanceAction id).Steps Onward := by
  refine (query_steps _).bind fun read => ?_
  cases read with
  | none => trivial
  | some action =>
    exact (completeAction_steps action).bind fun _ => (checkAndCompleteIntent_steps _).bind fun _ => trivial

theorem syncIntent_steps {intentTTL now : ℕ} {actions : List RebalanceAction} {intent : RebalanceIntent}
    (hactions : ∀ a ∈ actions, a.status = .inProgress) (hs : intent.status = .inProgress) :
    (syncIntent intentTTL now actions intent).Steps Onward := by
  refine (query_steps _).bind fun completedAmount => ?_
  split
  · exact completeIntent_steps _
  · rename_i hlt
    split
    · refine (failIntent_steps hs (not_le.1 hlt)).bind fun _ => Prog.Steps.forM fun a ha => ?_
      split
      · exact failAction_steps (hactions a ha)
      · trivial
    · trivial

theorem syncRebalanceIntents_steps (intentTTL now : ℕ) : (syncRebalanceIntents intentTTL now).Steps Onward := by
  refine Prog.steps_read_bind .refl fun s => Prog.steps_read_bind .refl fun s' => ?_
  refine Prog.Steps.forM fun intent hintent => syncIntent_steps (fun a ha => ?_) ?_
  · simpa using (List.mem_filter.1 ha).2
  · simpa using (List.mem_filter.1 hintent).2

theorem recoverAction_steps (m : Inflight) : (recoverAction m).Steps Onward := by
  refine (query_steps _).bind fun existing => ?_
  split
  · trivial
  · exact (saveIntent_steps _).bind fun _ => saveAction_steps rfl

theorem completeDelivered_steps (delivered : RebalanceAction → Bool) (actions : List RebalanceAction) :
    (completeDelivered delivered actions).Steps Onward := by
  induction actions with
  | nil => trivial
  | cons action rest ih =>
    rw [completeDelivered]
    split
    · refine (completeRebalanceAction_steps action.id).bind fun done => ?_
      split
      · exact ih
      · trivial
    · exact ih

theorem syncRebalanceActions_steps (inflightMessages : List Inflight) (delivered : RebalanceAction → Bool) :
    (syncRebalanceActions inflightMessages delivered).Steps Onward := by
  refine (query_steps _).bind fun allActions => ?_
  refine (Prog.Steps.forM fun m _ => ?_).bind fun _ => (query_steps _).bind fun _ => completeDelivered_steps _ _
  split
  · trivial
  · exact recoverAction_steps m

theorem machine_stepwise (intentTTL : ℕ) : (machine intentTTL).Stepwise Onward where
  refl := .refl
  trans := .trans
  program op := by
    cases op with
    | createIntent => exact saveIntent_steps _
    | createAction => exact createRebalanceAction_steps _ _ _ _ _ _ _ _
    | completeAction id => exact (completeRebalanceAction_steps id).bind fun _ => trivial
    | syncIntents now => exact syncRebalanceIntents_steps intentTTL now
    | syncActions => exact syncRebalanceActions_steps _ _
  interfere e := nomatch e

/-! ## Who checks an intent -/

/-- an intent and its amount: the completed amounts reach it, and it is not complete -/
def Unchecked (k : ℕ × ℕ) (s : Records) : Prop :=
  s.overtaken = false ∧ ∃ i, s.tracker.intents.get? k.1 = some i ∧ i.amount = k.2 ∧ i.status ≠ .complete ∧
    0 < s.tracker.getCompletedAmountForIntent k.1 ∧ k.2 ≤ s.tracker.getCompletedAmountForIntent k.1

variable {k : ℕ × ℕ}

/-- **The check of an intent completes it if its amount is reached.** -/
theorem checkAndCompleteIntent_settles : (checkAndCompleteIntent k.1).Settles (Unchecked k) := by
  refine Prog.settles_read fun s hs => ?_
  obtain ⟨-, i, hi, hamount, hstatus, -⟩ := hs
  simp only [hi, if_neg hstatus]
  refine Prog.settles_read fun s' hs' => ?_
  obtain ⟨-, -, -, -, -, -, hreached⟩ := hs'
  rw [if_pos (hamount ▸ hreached)]
  refine Prog.settles_write fun s'' _ hafter => ?_
  obtain ⟨-, j, hj, -, hne, -⟩ := hafter
  simp only [ActionTracker.setIntent, KeyedStore.get?_update, if_true] at hj
  obtain ⟨j', -, rfl⟩ := Option.map_eq_some_iff.1 hj
  exact hne rfl

/-- a write after which nothing is unchecked that was not so before -/
theorem update_answers {stands : ActionTracker → Bool} {change : ActionTracker → ActionTracker}
    (h : ∀ t id, stands t = true → (change t).getCompletedAmountForIntent id ≤ t.getCompletedAmountForIntent id ∧
      ∀ i', (change t).intents.get? id = some i' → i'.status ≠ .complete → 0 < t.getCompletedAmountForIntent id →
        i'.amount ≤ t.getCompletedAmountForIntent id →
          ∃ i, t.intents.get? id = some i ∧ i.amount = i'.amount ∧ i.status ≠ .complete) :
    (update stands change).Answers Unchecked := by
  refine Prog.answers_write fun k s hs => ?_
  obtain ⟨hover, i', hi', hamount, hstatus, hpos, hreached⟩ := hs
  simp only [Bool.or_eq_false_iff, Bool.not_eq_false'] at hover
  obtain ⟨hle, hback⟩ := h s.tracker k.1 hover.2
  have hreached' := hreached.trans hle
  obtain ⟨i, hi, hamount', hstatus'⟩ := hback i' hi' hstatus (hpos.trans_le hle) (hamount.trans_le hreached')
  exact ⟨hover.1, i, hi, hamount'.trans hamount, hstatus', hpos.trans_le hle, hreached'⟩

/-- a write to the status of an intent that is not taken from complete, or is short of its amount -/
theorem setIntent_answers {stands : ActionTracker → Bool} {id : ℕ} {status : RebalanceIntentStatus}
    (h : ∀ t i, stands t = true → t.intents.get? id = some i → status ≠ .complete →
      i.status = .complete → t.getCompletedAmountForIntent id < i.amount) :
    (update stands (·.setIntent id status)).Answers Unchecked := by
  refine update_answers fun t k hstands => ⟨le_rfl, fun i' hi' hne _ hreached => ?_⟩
  rw [ActionTracker.setIntent, KeyedStore.get?_update] at hi'
  split at hi'
  · rename_i heq
    subst heq
    obtain ⟨i, hi, rfl⟩ := Option.map_eq_some_iff.1 hi'
    refine ⟨i, hi, rfl, fun hcomplete => ?_⟩
    exact absurd hreached (not_le.2 (h t i hstands hi hne hcomplete))
  · exact ⟨i', hi', rfl, hne⟩

/-- a write to the actions that completes nothing -/
theorem actions_answers {stands : ActionTracker → Bool} {change : ActionTracker → RebalanceActionStore}
    (h : ∀ t id, stands t = true → ActionTracker.getCompletedAmountForIntent { t with actions := change t } id ≤
      t.getCompletedAmountForIntent id) :
    (update stands fun t => { t with actions := change t }).Answers Unchecked :=
  update_answers fun t id hstands => ⟨h t id hstands, fun i' hi' hne _ _ => ⟨i', hi', rfl, hne⟩⟩

theorem completeIntent_answers (intentId : ℕ) : (completeIntent intentId).Answers Unchecked :=
  setIntent_answers fun _ _ _ _ hne => absurd rfl hne

theorem startIntent_answers {intent : RebalanceIntent} (h : intent.status = .notStarted) :
    (startIntent intent).Answers Unchecked := by
  refine setIntent_answers fun t i hstands hi _ hcomplete => ?_
  obtain rfl := Option.some.inj (hi.symm.trans (of_decide_eq_true hstands))
  exact nomatch h.symm.trans hcomplete

theorem failIntent_answers {intent : RebalanceIntent} {completedAmount : ℕ} (hlt : completedAmount < intent.amount) :
    (failIntent intent completedAmount).Answers Unchecked := by
  refine setIntent_answers fun t i hstands hi _ _ => ?_
  obtain ⟨hget, hcompleted⟩ := of_decide_eq_true hstands
  obtain rfl := Option.some.inj (hi.symm.trans hget)
  exact hcompleted.trans_lt hlt

theorem failAction_answers {action : RebalanceAction} (h : action.status = .inProgress) :
    (failAction action).Answers Unchecked :=
  actions_answers fun t id hstands => (completed_fail (of_decide_eq_true hstands) (by simp [h]) id).le

theorem saveAction_answers {action : RebalanceAction} (h : action.status = .inProgress) :
    (saveAction action).Answers Unchecked := by
  refine actions_answers fun t id hstands => (completed_saveAction (KeyedStore.get?_eq_none.1 ?_) (by simp [h]) id).le
  exact Option.isNone_iff_eq_none.1 hstands

/-- a new intent has no actions, so nothing is completed towards it -/
theorem saveIntent_answers (intent : RebalanceIntent) : (saveIntent intent).Answers Unchecked := by
  refine update_answers fun t id hstands => ⟨le_rfl, fun i' hi' hne hpos _ => ?_⟩
  simp only [Bool.and_eq_true, Option.isNone_iff_eq_none, List.all_eq_true, decide_eq_true_eq] at hstands
  obtain ⟨hnone, hactions⟩ := hstands
  rw [KeyedStore.get?_save (KeyedStore.get?_eq_none.1 hnone)] at hi'
  split at hi'
  · rename_i heq
    subst heq
    have hzero : t.getCompletedAmountForIntent intent.id = 0 := by
      rw [completed_eq]
      refine List.sum_eq_zero fun x hx => ?_
      obtain ⟨a, ha, rfl⟩ := List.mem_map.1 hx
      exact if_neg fun h => hactions a ha h.1
    exact absurd hzero hpos.ne'
  · exact ⟨i', hi', rfl, hne⟩

theorem checkAndCompleteIntent_answers (intentId : ℕ) : (checkAndCompleteIntent intentId).Answers Unchecked := by
  refine (Prog.answers_read _).bind fun read => ?_
  cases read with
  | none => trivial
  | some intent =>
    simp only
    split
    · trivial
    · refine (Prog.answers_read _).bind fun completedAmount => ?_
      split
      · exact completeIntent_answers intentId
      · trivial

/-- **Who completes an action checks its intent.** -/
theorem completeRebalanceAction_answers (id : ℕ) : (completeRebalanceAction id).Answers Unchecked := by
  refine (Prog.answers_read _).bind fun read => ?_
  cases read with
  | none => trivial
  | some action =>
    refine Prog.answers_write_bind ?_ fun k s hbefore hafter => ?_
    · exact (checkAndCompleteIntent_answers _).bind fun _ => trivial
    · obtain ⟨hover, i, hi, hamount, hstatus, hpos, hreached⟩ := hafter
      simp only [Bool.or_eq_false_iff, Bool.not_eq_false'] at hover hi hpos hreached
      have hk : k.1 = action.intentId := by
        by_contra hne
        have hother : ∀ a, s.tracker.actions.get? action.id = some a → a.intentId ≠ k.1 := by
          intro a ha heq
          have hall := hover.2
          rw [ha] at hall
          exact hne (heq.symm.trans (of_decide_eq_true hall))
        have hsame := completed_complete_other hother
        rw [hsame] at hpos hreached
        exact hbefore ⟨hover.1, i, hi, hamount, hstatus, hpos, hreached⟩
      rw [← hk]
      exact checkAndCompleteIntent_settles.bind

theorem createRebalanceAction_answers (id : ℕ) (type : ActionType) (intentId : ℕ) (messageId : Option ℕ)
    (origin destination amount now : ℕ) :
    (createRebalanceAction id type intentId messageId origin destination amount now).Answers Unchecked := by
  refine (saveAction_answers rfl).bind fun _ => (Prog.answers_read _).bind fun read => ?_
  cases read with
  | none => trivial
  | some intent =>
    simp only
    split
    · rename_i hs
      exact startIntent_answers hs
    · trivial

theorem syncIntent_answers {intentTTL now : ℕ} {actions : List RebalanceAction} {intent : RebalanceIntent}
    (hactions : ∀ a ∈ actions, a.status = .inProgress) :
    (syncIntent intentTTL now actions intent).Answers Unchecked := by
  refine (Prog.answers_read _).bind fun completedAmount => ?_
  split
  · exact completeIntent_answers _
  · rename_i hlt
    split
    · refine (failIntent_answers (not_le.1 hlt)).bind fun _ => Prog.Answers.forM fun a ha => ?_
      split
      · exact failAction_answers (hactions a ha)
      · trivial
    · trivial

theorem syncRebalanceIntents_answers (intentTTL now : ℕ) :
    (syncRebalanceIntents intentTTL now).Answers Unchecked := by
  refine (Prog.answers_read _).bind fun intents => Prog.answers_read_bind fun s => ?_
  refine Prog.Answers.forM fun intent _ => syncIntent_answers fun a ha => ?_
  simpa using (List.mem_filter.1 ha).2

theorem recoverAction_answers (m : Inflight) : (recoverAction m).Answers Unchecked := by
  refine (Prog.answers_read _).bind fun existing => ?_
  split
  · trivial
  · exact (saveIntent_answers _).bind fun _ => saveAction_answers rfl

theorem completeDelivered_answers (delivered : RebalanceAction → Bool) (actions : List RebalanceAction) :
    (completeDelivered delivered actions).Answers Unchecked := by
  induction actions with
  | nil => trivial
  | cons action rest ih =>
    rw [completeDelivered]
    split
    · refine (completeRebalanceAction_answers action.id).bind fun done => ?_
      split
      · exact ih
      · trivial
    · exact ih

theorem syncRebalanceActions_answers (inflightMessages : List Inflight) (delivered : RebalanceAction → Bool) :
    (syncRebalanceActions inflightMessages delivered).Answers Unchecked := by
  refine (Prog.answers_read _).bind fun allActions => ?_
  refine (Prog.Answers.forM fun m _ => ?_).bind fun _ =>
    (Prog.answers_read _).bind fun _ => completeDelivered_answers _ _
  split
  · trivial
  · exact recoverAction_answers m

theorem machine_accountable (intentTTL : ℕ) : (machine intentTTL).Accountable Unchecked where
  program op := by
    cases op with
    | createIntent => exact saveIntent_answers _
    | createAction => exact createRebalanceAction_answers _ _ _ _ _ _ _ _
    | completeAction id => exact (completeRebalanceAction_answers id).bind fun _ => trivial
    | syncIntents now => exact syncRebalanceIntents_answers intentTTL now
    | syncActions => exact syncRebalanceActions_answers _ _
  interfere e := nomatch e

/-! ## Completed records -/

/-- the intents whose completed amounts reach their amounts are complete -/
def Consistent (t : ActionTracker) : Prop :=
  ∀ i ∈ t.intents.data, 0 < t.getCompletedAmountForIntent i.id → i.amount ≤ t.getCompletedAmountForIntent i.id →
    i.status = .complete

instance (t : ActionTracker) : Decidable (Consistent t) := inferInstanceAs (Decidable (∀ i ∈ t.intents.data, _))

/-- what is complete in `t` is complete in `t'` -/
structure KeepsComplete (t t' : ActionTracker) : Prop where
  actions : ∀ id a, t.actions.get? id = some a → a.status = .complete →
    ∃ a', t'.actions.get? id = some a' ∧ a'.status = .complete
  intents : ∀ id i, t.intents.get? id = some i → i.status = .complete →
    ∃ i', t'.intents.get? id = some i' ∧ i'.status = .complete

/-- an intent of an amount fails from `t` to `t'` -/
def Fails (id amount : ℕ) (t t' : ActionTracker) : Prop :=
  (∃ i, t.intents.get? id = some i ∧ i.status ≠ .failed) ∧
    ∃ i', t'.intents.get? id = some i' ∧ i'.status = .failed ∧ i'.amount = amount

/-- the task checks the intent before it ends, for as long as its amount is reached and it is not complete -/
def Checks (task : Task Op Records) (i : RebalanceIntent) : Prop := task.program.Settles (Unchecked (i.id, i.amount))

theorem Forward.keepsComplete {t t' : ActionTracker} (h : Forward t t') : KeepsComplete t t' := by
  constructor
  · intro id a ha hs
    obtain ⟨a', ha', hkeep⟩ := h.action id a ha
    exact ⟨a', ha', hkeep hs⟩
  · intro id i hi hs
    obtain ⟨i', hi', hgoes⟩ := h.intent id i hi
    exact ⟨i', hi', hgoes.complete hs⟩

theorem Forward.lt_of_fails {t t' : ActionTracker} {id amount : ℕ} (h : Forward t t') (hfails : Fails id amount t t') :
    t.getCompletedAmountForIntent id < amount := by
  obtain ⟨⟨i, hi, hnot⟩, i', hi', hs', rfl⟩ := hfails
  obtain ⟨i'', hi'', hgoes⟩ := h.intent id i hi
  obtain rfl := Option.some.inj (hi'.symm.trans hi'')
  rw [hgoes.amount]
  exact (hgoes.failed hs').resolve_left hnot

/-- from one moment of a run to a later one, while no write was overtaken -/
theorem after_onward {intentTTL : ℕ} {t₀ : ActionTracker} {es es' : List (Event Op Empty)} (hes : es <+: es') :
    Onward (after intentTTL t₀ es).store (after intentTTL t₀ es').store :=
  Machine.run_steps_between (machine_stepwise intentTTL) (fun _ ht => absurd ht List.not_mem_nil) hes

theorem after_answered {intentTTL : ℕ} {t₀ : ActionTracker} (h₀ : Consistent t₀) (es : List (Event Op Empty)) :
    Machine.Answered Unchecked (after intentTTL t₀ es) := by
  refine Machine.run_answered (machine_accountable intentTTL) ⟨fun k hk => ?_, fun _ ht => absurd ht List.not_mem_nil⟩ es
  obtain ⟨-, i, hi, hamount, hne, hpos, hreached⟩ := hk
  obtain ⟨hmem, hid⟩ := KeyedStore.get?_eq_some.1 hi
  rw [← hid] at hpos hreached
  exact absurd (h₀ i hmem hpos (hamount.trans_le hreached)) hne

/-- **Completed records are final**, while no write is overtaken: what is complete stays complete; an intent whose
completed amounts reach its amount is complete or checked by a task under way; an intent that fails had not reached its
amount at any moment before. -/
theorem completed_final {intentTTL : ℕ} {t₀ : ActionTracker} (h₀ : Consistent t₀) {es : List (Event Op Empty)}
    (hrun : (after intentTTL t₀ es).store.overtaken = false) :
    (∀ es₁ es₂, es₁ <+: es₂ → es₂ <+: es →
      KeepsComplete (after intentTTL t₀ es₁).store.tracker (after intentTTL t₀ es₂).store.tracker) ∧
    (∀ es₁, es₁ <+: es → ∀ i ∈ (after intentTTL t₀ es₁).store.tracker.intents.data,
      0 < (after intentTTL t₀ es₁).store.tracker.getCompletedAmountForIntent i.id →
      i.amount ≤ (after intentTTL t₀ es₁).store.tracker.getCompletedAmountForIntent i.id →
        i.status = .complete ∨
          ∃ task ∈ (after intentTTL t₀ es₁).tasks, task.program.finished = false ∧ Checks task i) ∧
    (∀ es₁ es₂ e, es₁ <+: es₂ → es₂ ++ [e] <+: es → ∀ id amount,
      Fails id amount (after intentTTL t₀ es₂).store.tracker (after intentTTL t₀ (es₂ ++ [e])).store.tracker →
        (after intentTTL t₀ es₁).store.tracker.getCompletedAmountForIntent id < amount) := by
  have honward : ∀ es₁ es₂, es₁ <+: es₂ → es₂ <+: es →
      Forward (after intentTTL t₀ es₁).store.tracker (after intentTTL t₀ es₂).store.tracker := by
    intro es₁ es₂ h h'
    obtain ⟨hover, -⟩ := after_onward h' hrun
    exact (after_onward h hover).2
  refine ⟨fun es₁ es₂ h h' => (honward es₁ es₂ h h').keepsComplete, fun es₁ h i hi hpos hreached => ?_,
    fun es₁ es₂ e h h' id amount hfails => ?_⟩
  · by_cases hs : i.status = .complete
    · exact .inl hs
    · obtain ⟨hover, -⟩ := after_onward h hrun
      obtain ⟨task, htask, hsettles⟩ := (after_answered h₀ es₁).settled (i.id, i.amount)
        ⟨hover, i, KeyedStore.get?_eq_some.2 ⟨hi, rfl⟩, rfl, hs, hpos, hreached⟩
      exact .inr ⟨task, htask, hsettles.unfinished, hsettles⟩
  · have hstep := honward es₂ (es₂ ++ [e]) (List.prefix_append es₂ [e]) h'
    have hbefore := honward es₁ es₂ h ((List.prefix_append es₂ [e]).trans h')
    calc (after intentTTL t₀ es₁).store.tracker.getCompletedAmountForIntent id
        ≤ (after intentTTL t₀ es₂).store.tracker.getCompletedAmountForIntent id := hbefore.completed id
      _ < amount := hstep.lt_of_fails hfails

/-- an intent of 100 in progress, and the deposit that serves it -/
def depositUnderWay : ActionTracker where
  intents := ⟨[⟨1, .inProgress, 1, 2, 100, some .inventory, 0⟩], by decide⟩
  actions := ⟨[⟨10, .inProgress, .inventoryDeposit, 1, some 7, 2, 1, 100, 0⟩], by decide⟩

/-- the deposit is found delivered while an intent that has not expired is looked at -/
def deliveredInTime : List (Event Op Empty) :=
  [.start (.syncIntents 50), .start (.syncActions [] fun _ => true), .advance 0, .advance 0, .advance 1, .advance 1,
    .advance 1, .advance 1, .advance 0, .advance 1, .advance 1, .advance 1, .advance 0]

theorem deposit_stays_complete :
    (after 100 depositUnderWay deliveredInTime).store.overtaken = false ∧
      (∀ es₁ es₂, es₁ <+: es₂ → es₂ <+: deliveredInTime → KeepsComplete (after 100 depositUnderWay es₁).store.tracker
        (after 100 depositUnderWay es₂).store.tracker) ∧
      (after 100 depositUnderWay deliveredInTime).store.tracker.intents.data.map RebalanceIntent.status = [.complete] :=
  ⟨by decide, (completed_final (by decide) (by decide)).1, by decide⟩

/-- the intent expires on snapshots from before the delivery of its deposit -/
def expiryDuringDelivery : List (Event Op Empty) :=
  [.start (.syncIntents 200), .start (.completeAction 10), .advance 0, .advance 0, .advance 0, .advance 1, .advance 1,
    .advance 0, .advance 0]

/-- the statuses of the intents and of the actions, and what is completed towards the first intent -/
def statuses (es : List (Event Op Empty)) : List RebalanceIntentStatus × List RebalanceActionStatus × ℕ :=
  let t := (after 100 depositUnderWay es).store.tracker
  (t.intents.data.map RebalanceIntent.status, t.actions.data.map RebalanceAction.status, t.getCompletedAmountForIntent 1)

/-- The amount is reached while the intent is in progress, then the intent fails, and then the complete action fails. -/
theorem expiry_overtakes_completion :
    Consistent depositUnderWay ∧ statuses (expiryDuringDelivery.take 7) = ([.inProgress], [.complete], 100) ∧
      statuses (expiryDuringDelivery.take 8) = ([.failed], [.complete], 100) ∧
      statuses expiryDuringDelivery = ([.failed], [.failed], 0) := by
  decide

end Hyperlane.Rebalancer.Tracking
