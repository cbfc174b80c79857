/-
The single active intent of the inventory rebalancer, and what the deposits for an intent add up to
(typescript/rebalancer/src/core/InventoryRebalancer.ts, src/tracking/ActionTracker.ts).

An intent with a movement on its way is left out of the partially fulfilled ones, so a rebalance that meets it starts a
second intent; in a run in which no rebalance meets one, there is at most one.

- `Steady`: what a step does to the open intents and to what is deposited for them.
- `step_good`, `run_good`: in every run, the deposits for an intent stay within its amount and one local unit.
- `step_single`, `run_single`: in a run without such a rebalance, at most one intent is active.
-/
import Hyperlane.Core.Rounding
import Hyperlane.Rebalancer.InventoryCycle

namespace Hyperlane.Rebalancer.InventoryCycle

open ActionTracker
open Tracking (Inflight)

/-! ## Deposits -/

/-- what the deposits executed for an intent add up to, whatever has become of them -/
def executed (t : ActionTracker) (intentId : ℕ) : ℕ :=
  (((t.getActionsForIntent intentId).filter fun a => a.type = .inventoryDeposit).map RebalanceAction.amount).sum

/-- an intent that has not ended -/
def Open (i : RebalanceIntent) : Prop := i.status = .notStarted ∨ i.status = .inProgress

/-- an intent of the inventory rebalancer whose amount is not yet fully delivered -/
def Active (t : ActionTracker) (i : RebalanceIntent) : Prop :=
  i ∈ t.intents.data ∧ i.executionMethod = some .inventory ∧ Open i ∧ t.amountFor i.id .complete .inventoryDeposit < i.amount

section Amounts

variable {t : ActionTracker} {intentId : ℕ}

/-- what an action counts towards the deposits of an intent in a status -/
def countedIn (intentId : ℕ) (status : RebalanceActionStatus) (a : RebalanceAction) : ℕ :=
  if a.intentId = intentId ∧ a.status = status ∧ a.type = .inventoryDeposit then a.amount else 0

theorem countedIn_movement {a : RebalanceAction} (h : a.type = .inventoryMovement) {status : RebalanceActionStatus} :
    countedIn intentId status a = 0 := by
  refine if_neg fun hc => ?_
  rw [h] at hc
  nomatch hc.2.2

/-- what an action counts towards the deposits of an intent -/
def countedAny (intentId : ℕ) (a : RebalanceAction) : ℕ :=
  if a.intentId = intentId ∧ a.type = .inventoryDeposit then a.amount else 0

theorem amountFor_sum (status : RebalanceActionStatus) :
    t.amountFor intentId status .inventoryDeposit = (t.actions.data.map (countedIn intentId status)).sum := by
  unfold amountFor amountOf getActionsForIntent
  induction t.actions.data with
  | nil => rfl
  | cons a l ih =>
    rw [List.map_cons, List.sum_cons, ← ih, countedIn]
    by_cases hid : a.intentId = intentId
    · by_cases hkind : a.status = status ∧ a.type = .inventoryDeposit
      · simp [hid, hkind]
      · simp [hid, hkind]
    · simp [hid]

theorem executed_sum : executed t intentId = (t.actions.data.map (countedAny intentId)).sum := by
  unfold executed getActionsForIntent
  induction t.actions.data with
  | nil => rfl
  | cons a l ih =>
    rw [List.map_cons, List.sum_cons, ← ih, countedAny]
    by_cases hid : a.intentId = intentId
    · by_cases hkind : a.type = .inventoryDeposit
      · simp [hid, hkind]
      · simp [hid, hkind]
    · simp [hid]

theorem executed_split :
    executed t intentId = t.amountFor intentId .complete .inventoryDeposit + t.amountFor intentId .inProgress .inventoryDeposit +
      t.amountFor intentId .failed .inventoryDeposit := by
  rw [executed_sum, amountFor_sum, amountFor_sum, amountFor_sum]
  induction t.actions.data with
  | nil => rfl
  | cons a l ih =>
    have hone : countedAny intentId a =
        countedIn intentId .complete a + countedIn intentId .inProgress a + countedIn intentId .failed a := by
      unfold countedAny countedIn
      cases a.status <;> simp
    simp only [List.map_cons, List.sum_cons, ih, hone]
    omega

/-- the sum of what the actions count after one of them has changed its status -/
theorem sum_setAction (g : RebalanceAction → ℕ) (id : ℕ) (status : RebalanceActionStatus) :
    ((t.setAction id status).actions.data.map g).sum =
      (t.actions.data.map fun a => g (if a.id = id then a.setStatus status else a)).sum := by
  rw [ActionTracker.setAction, KeyedStore.update, List.map_map]
  rfl

@[simp]
theorem executed_setAction (id : ℕ) (status : RebalanceActionStatus) :
    executed (t.setAction id status) intentId = executed t intentId := by
  rw [executed_sum, executed_sum, sum_setAction]
  refine congrArg List.sum (List.map_congr_left fun a _ => ?_)
  split
  · rfl
  · rfl

@[simp]
theorem executed_setIntent (id : ℕ) (status : RebalanceIntentStatus) :
    executed (t.setIntent id status) intentId = executed t intentId := rfl

theorem executed_of_actions {t' : ActionTracker} (h : t'.actions = t.actions) : executed t' intentId = executed t intentId := by
  rw [executed_sum, executed_sum, h]

theorem amountFor_of_actions {t' : ActionTracker} (h : t'.actions = t.actions) (status : RebalanceActionStatus) :
    t'.amountFor intentId status .inventoryDeposit = t.amountFor intentId status .inventoryDeposit := by
  rw [amountFor_sum, amountFor_sum, h]

theorem executed_save {a : RebalanceAction} (hnew : a.id ∉ t.actions.data.map RebalanceAction.id) (intents : RebalanceIntentStore) :
    executed { intents := intents, actions := t.actions.save a } intentId = executed t intentId + countedAny intentId a := by
  rw [executed_sum, executed_sum, KeyedStore.data_save hnew, List.map_append, List.sum_append, List.map_singleton,
    List.sum_singleton]

theorem amountFor_saveAction {a : RebalanceAction} (hnew : a.id ∉ t.actions.data.map RebalanceAction.id)
    (intents : RebalanceIntentStore) (status : RebalanceActionStatus) :
    amountFor { intents := intents, actions := t.actions.save a } intentId status .inventoryDeposit =
      t.amountFor intentId status .inventoryDeposit + countedIn intentId status a := by
  rw [amountFor_sum, amountFor_sum, KeyedStore.data_save hnew, List.map_append, List.sum_append, List.map_singleton,
    List.sum_singleton]

end Amounts

/-! ## What a step does to open intents -/

/-- an open intent was open before, nothing that was delivered for it is lost, and no deposit of it has failed -/
structure Continues (t t' : ActionTracker) (i i' : RebalanceIntent) : Prop where
  id : i'.id = i.id
  amount : i'.amount = i.amount
  destination : i'.destination = i.destination
  method : i.executionMethod = some .inventory
  stays : Open i' → Open i ∧
    t.amountFor i.id .complete .inventoryDeposit ≤ t'.amountFor i.id .complete .inventoryDeposit ∧
    t'.amountFor i.id .failed .inventoryDeposit ≤ t.amountFor i.id .failed .inventoryDeposit

/-- actions stay what they are, and every inventory intent continues one that was there -/
structure Steady (t t' : ActionTracker) : Prop where
  actions : ∀ a ∈ t.actions.data, ∃ b ∈ t'.actions.data, b.id = a.id ∧ b.type = a.type ∧ b.intentId = a.intentId
  intents : ∀ i' ∈ t'.intents.data, i'.executionMethod = some .inventory → ∃ i ∈ t.intents.data, Continues t t' i i'

theorem Continues.of_actions {t t' : ActionTracker} (h : t'.actions = t.actions) {i i' : RebalanceIntent}
    (hmethod : i.executionMethod = some .inventory) (hsame : i' = i ∨ ∃ s, i' = i.setStatus s)
    (hopen : Open i' → Open i) : Continues t t' i i' := by
  have hstays : Open i' → Open i ∧
      t.amountFor i.id .complete .inventoryDeposit ≤ t'.amountFor i.id .complete .inventoryDeposit ∧
      t'.amountFor i.id .failed .inventoryDeposit ≤ t.amountFor i.id .failed .inventoryDeposit :=
    fun ho => ⟨hopen ho, (amountFor_of_actions h _).ge, (amountFor_of_actions h _).le⟩
  rcases hsame with rfl | ⟨s, rfl⟩
  · exact ⟨rfl, rfl, rfl, hmethod, hstays⟩
  · exact ⟨rfl, rfl, rfl, hmethod, hstays⟩

theorem Continues.trans {t t' t'' : ActionTracker} {i i' i'' : RebalanceIntent} (h : Continues t t' i i')
    (h' : Continues t' t'' i' i'') : Continues t t'' i i'' := by
  refine ⟨h'.id.trans h.id, h'.amount.trans h.amount, h'.destination.trans h.destination, h.method, fun hopen => ?_⟩
  obtain ⟨hopen', hcomplete', hfailed'⟩ := h'.stays hopen
  obtain ⟨hopen'', hcomplete, hfailed⟩ := h.stays hopen'
  rw [h.id] at hcomplete' hfailed'
  exact ⟨hopen'', hcomplete.trans hcomplete', hfailed'.trans hfailed⟩

namespace Steady

variable {t t' t'' : ActionTracker}

theorem of_same (h : t' = t) : Steady t t' := by
  subst h
  exact ⟨fun a ha => ⟨a, ha, rfl, rfl, rfl⟩, fun i hi hmethod => ⟨i, hi, .of_actions rfl hmethod (.inl rfl) id⟩⟩

theorem trans (h : Steady t t') (h' : Steady t' t'') : Steady t t'' := by
  refine ⟨fun a ha => ?_, fun i'' hi'' hmethod => ?_⟩
  · obtain ⟨b, hb, hid, htype, hintent⟩ := h.actions a ha
    obtain ⟨c, hc, hid', htype', hintent'⟩ := h'.actions b hb
    exact ⟨c, hc, hid'.trans hid, htype'.trans htype, hintent'.trans hintent⟩
  · obtain ⟨i', hi', hcontinues'⟩ := h'.intents i'' hi'' hmethod
    obtain ⟨i, hi, hcontinues⟩ := h.intents i' hi' hcontinues'.method
    exact ⟨i, hi, hcontinues.trans hcontinues'⟩

/-- the action of an id is what it was before -/
theorem same (h : Steady t t') {a b : RebalanceAction} (ha : a ∈ t.actions.data) (hb : b ∈ t'.actions.data) (hid : b.id = a.id) :
    b.type = a.type ∧ b.intentId = a.intentId := by
  obtain ⟨c, hc, hcid, hkind⟩ := h.actions a ha
  rwa [KeyedStore.eq_of_key hb hc (hid.trans hcid.symm)]

/-- a change of the status of an intent that does not open it -/
theorem setIntent (id : ℕ) {status : RebalanceIntentStatus}
    (h : ∀ i ∈ t.intents.data, i.id = id → Open (i.setStatus status) → Open i) : Steady t (t.setIntent id status) := by
  refine ⟨fun a ha => ⟨a, ha, rfl, rfl, rfl⟩, fun i' hi' hmethod => ?_⟩
  rw [ActionTracker.setIntent, KeyedStore.mem_update] at hi'
  rcases hi' with ⟨hi', -⟩ | ⟨i, hi, hid, rfl⟩
  · exact ⟨i', hi', .of_actions (setIntent_actions id status) hmethod (.inl rfl) fun ho => ho⟩
  · have hmethod' : i.executionMethod = some .inventory := hmethod
    exact ⟨i, hi, .of_actions (setIntent_actions id status) hmethod' (.inr ⟨status, rfl⟩) (h i hi hid)⟩

/-- an intent that ends -/
theorem endIntent (id : ℕ) {status : RebalanceIntentStatus} (h : status ≠ .notStarted ∧ status ≠ .inProgress) :
    Steady t (t.setIntent id status) := setIntent id fun _ _ _ hopen => absurd hopen (not_or.2 h)

theorem startIntent (id : ℕ) : Steady t (t.startIntent id) := by
  rw [ActionTracker.startIntent]
  split
  next => exact of_same rfl
  next i hget =>
    split
    next hstatus =>
      refine setIntent id fun j hj hid _ => ?_
      obtain ⟨hi, hiid⟩ := KeyedStore.get?_eq_some.1 hget
      rw [KeyedStore.eq_of_key hj hi (hid.trans hiid.symm)]
      exact .inl hstatus
    next => exact of_same rfl

theorem checkAndCompleteIntent (id : ℕ) : Steady t (t.checkAndCompleteIntent id) := by
  rw [ActionTracker.checkAndCompleteIntent]
  split
  next => exact of_same rfl
  next =>
    split
    next => exact of_same rfl
    next =>
      split
      next => exact endIntent id (by decide)
      next => exact of_same rfl

/-- a change of the status of an action that costs no open intent anything -/
theorem setAction {id : ℕ} {status : RebalanceActionStatus}
    (h : ∀ i ∈ t.intents.data, i.executionMethod = some .inventory → Open i →
      t.amountFor i.id .complete .inventoryDeposit ≤ (t.setAction id status).amountFor i.id .complete .inventoryDeposit ∧
        (t.setAction id status).amountFor i.id .failed .inventoryDeposit ≤ t.amountFor i.id .failed .inventoryDeposit) :
    Steady t (t.setAction id status) := by
  refine ⟨fun a ha => ?_, fun i hi hmethod => ⟨i, hi, rfl, rfl, rfl, hmethod, fun hopen => ⟨hopen, h i hi hmethod hopen⟩⟩⟩
  rw [ActionTracker.setAction]
  by_cases hid : a.id = id
  · refine ⟨a.setStatus status, ?_, rfl, rfl, rfl⟩
    rw [KeyedStore.mem_update]
    exact .inr ⟨a, ha, hid, rfl⟩
  · refine ⟨a, ?_, rfl, rfl, rfl⟩
    rw [KeyedStore.mem_update]
    exact .inl ⟨ha, hid⟩

theorem complete (id : ℕ) : Steady t (t.setAction id .complete) := by
  refine setAction fun i _ _ _ => ?_
  rw [amountFor_sum, amountFor_sum, amountFor_sum, amountFor_sum, sum_setAction, sum_setAction]
  constructor
  · refine List.sum_le_sum fun a _ => ?_
    split
    · unfold countedIn RebalanceAction.setStatus
      split
      next h => rw [if_pos ⟨h.1, rfl, h.2.2⟩]
      next => exact Nat.zero_le _
    · exact le_rfl
  · refine List.sum_le_sum fun a _ => ?_
    split
    · rw [countedIn, if_neg fun h => nomatch h.2.1]
      exact Nat.zero_le _
    · exact le_rfl

/-- an action fails that counts for no open intent -/
theorem fail {id : ℕ} (h : ∀ i ∈ t.intents.data, i.executionMethod = some .inventory → Open i → ∀ a ∈ t.actions.data,
    a.id = id → ¬(a.intentId = i.id ∧ a.type = .inventoryDeposit)) : Steady t (t.setAction id .failed) := by
  refine setAction fun i hi hmethod hopen => ?_
  have hsame (status : RebalanceActionStatus) : (t.setAction id .failed).amountFor i.id status .inventoryDeposit =
      t.amountFor i.id status .inventoryDeposit := by
    rw [amountFor_sum, amountFor_sum, sum_setAction]
    refine congrArg List.sum (List.map_congr_left fun a ha => ?_)
    split
    next hid =>
      have hnot := h i hi hmethod hopen a ha hid
      rw [countedIn, countedIn, if_neg fun hc => hnot ⟨hc.1, hc.2.2⟩, if_neg fun hc => hnot ⟨hc.1, hc.2.2⟩]
    next => rfl
  exact ⟨(hsame .complete).ge, (hsame .failed).le⟩

theorem completeAction (a : RebalanceAction) : Steady t (completeAction t a) := by
  rw [InventoryCycle.completeAction, completeRebalanceAction]
  cases t.actions.get? a.id with
  | none => exact of_same rfl
  | some action => exact (complete a.id).trans (checkAndCompleteIntent action.intentId)

/-- a new action -/
theorem save {a : RebalanceAction} (hnew : a.id ∉ t.actions.data.map RebalanceAction.id) (hstatus : a.status = .inProgress) :
    Steady t { t with actions := t.actions.save a } := by
  refine ⟨fun b hb => ⟨b, (KeyedStore.mem_save hnew).2 (.inl hb), rfl, rfl, rfl⟩, fun i hi hmethod =>
    ⟨i, hi, rfl, rfl, rfl, hmethod, fun hopen => ⟨hopen, ?_, ?_⟩⟩⟩
  · rw [amountFor_saveAction hnew]
    exact Nat.le_add_right _ _
  · rw [amountFor_saveAction hnew, countedIn, if_neg fun h => by rw [hstatus] at h; nomatch h.2.1]
    exact le_rfl

theorem createRebalanceAction {id : ℕ} (hnew : id ∉ t.actions.data.map RebalanceAction.id) (type : ActionType) (intentId : ℕ)
    (messageId : Option ℕ) (origin destination amount now : ℕ) :
    Steady t (t.createRebalanceAction id type intentId messageId origin destination amount now) :=
  (save hnew rfl).trans (startIntent intentId)

theorem recoverAction (msg : ExplorerMessage) (uuid now : ℕ) : Steady t (t.recoverAction msg uuid now) := by
  rw [ActionTracker.recoverAction]
  split
  next => exact of_same rfl
  next hget =>
    have hnew := KeyedStore.get?_eq_none.1 hget
    refine ⟨fun b hb => ⟨b, (KeyedStore.mem_save hnew).2 (.inl hb), rfl, rfl, rfl⟩, fun i hi hmethod => ?_⟩
    have hold : i ∈ t.intents.data := by
      refine (KeyedStore.mem_of_mem_save hi).resolve_right ?_
      rintro rfl
      nomatch hmethod
    refine ⟨i, hold, rfl, rfl, rfl, hmethod, fun hopen => ⟨hopen, ?_, ?_⟩⟩
    · rw [amountFor_saveAction hnew]
      exact Nat.le_add_right _ _
    · rw [amountFor_saveAction hnew, countedIn, if_neg fun h => nomatch h.2.1]
      exact le_rfl

end Steady

/-- a step without a deposit -/
structure Quiet (t t' : ActionTracker) : Prop extends Steady t t' where
  executed : ∀ id, executed t' id = executed t id

namespace Quiet

variable {t t' t'' : ActionTracker}

theorem of_same (h : t' = t) : Quiet t t' := ⟨.of_same h, fun _ => h ▸ rfl⟩

theorem trans (h : Quiet t t') (h' : Quiet t' t'') : Quiet t t'' :=
  ⟨h.toSteady.trans h'.toSteady, fun id => (h'.executed id).trans (h.executed id)⟩

theorem endIntent (id : ℕ) {status : RebalanceIntentStatus} (h : status ≠ .notStarted ∧ status ≠ .inProgress) :
    Quiet t (t.setIntent id status) := ⟨.endIntent id h, fun _ => rfl⟩

theorem completeAction (a : RebalanceAction) : Quiet t (completeAction t a) := by
  refine ⟨.completeAction a, fun id => ?_⟩
  rw [InventoryCycle.completeAction, completeRebalanceAction]
  cases t.actions.get? a.id with
  | none => rfl
  | some action => exact (executed_of_actions (checkAndCompleteIntent_actions _)).trans (executed_setAction a.id .complete)

theorem fail {id : ℕ} (h : ∀ i ∈ t.intents.data, i.executionMethod = some .inventory → Open i → ∀ a ∈ t.actions.data,
    a.id = id → ¬(a.intentId = i.id ∧ a.type = .inventoryDeposit)) : Quiet t (t.setAction id .failed) :=
  ⟨.fail h, fun _ => executed_setAction id .failed⟩

theorem createRebalanceAction {id : ℕ} (hnew : id ∉ t.actions.data.map RebalanceAction.id) {type : ActionType}
    (htype : type ≠ .inventoryDeposit) (intentId : ℕ) (messageId : Option ℕ) (origin destination amount now : ℕ) :
    Quiet t (t.createRebalanceAction id type intentId messageId origin destination amount now) := by
  refine ⟨.createRebalanceAction hnew type intentId messageId origin destination amount now, fun k => ?_⟩
  rw [ActionTracker.createRebalanceAction, executed_of_actions (startIntent_actions intentId), executed_save hnew, countedAny,
    if_neg fun h => htype h.2, Nat.add_zero]

theorem recoverAction (msg : ExplorerMessage) (uuid now : ℕ) : Quiet t (t.recoverAction msg uuid now) := by
  refine ⟨.recoverAction msg uuid now, fun k => ?_⟩
  rw [ActionTracker.recoverAction]
  split
  next => rfl
  next hget =>
    rw [executed_save (KeyedStore.get?_eq_none.1 hget), countedAny, if_neg fun h => nomatch h.2]
    rfl

/-! ### Synchronisation -/

/-- movements of the actions of an earlier state fail -/
theorem failMovement (h : Quiet t t') {a : RebalanceAction} (ha : a ∈ t.actions.data) (htype : a.type = .inventoryMovement) :
    Quiet t' (t'.setAction a.id .failed) := by
  refine fail fun i _ _ _ b hb hid hcounts => ?_
  rw [(h.same ha hb hid).1, htype] at hcounts
  nomatch hcounts.2

/-- an intent that has failed, and actions of it -/
theorem failIntent (h : Quiet t t') {id : ℕ} {actions : List RebalanceAction}
    (hactions : ∀ a ∈ actions, a ∈ t.actions.data ∧ a.intentId = id) :
    Quiet t' (actions.foldl (fun t a => t.setAction a.id .failed) (t'.setIntent id .failed)) := by
  have hfailed : Quiet t' (t'.setIntent id .failed) := endIntent id (by decide)
  refine hfailed.trans (List.foldlRecOn _ _ (of_same rfl) fun u hu a ha => hu.trans (fail fun i hi hmethod hopen b hb hid => ?_))
  rintro ⟨hintent, -⟩
  obtain ⟨ha, haid⟩ := hactions a ha
  have hclosed : i.id = id := by
    rw [← hintent, (((h.trans hfailed).trans hu).same ha hb hid).2, haid]
  obtain ⟨j, hj, hcontinues⟩ := hu.intents i hi hmethod
  have hjopen := (hcontinues.stays hopen).1
  rw [setIntent, KeyedStore.mem_update] at hj
  rcases hj with ⟨-, hne⟩ | ⟨k, -, -, rfl⟩
  · exact hne (hcontinues.id.symm.trans hclosed)
  · rcases hjopen with heq | heq
    · cases heq
    · cases heq

theorem syncIntent (h : Quiet t t') (now intentTTL : ℕ) (intent : RebalanceIntent) :
    Quiet t' (syncIntent now intentTTL (t.actions.data.filter fun a => a.status = .inProgress) t' intent) := by
  rw [InventoryCycle.syncIntent]
  split
  next => exact endIntent intent.id (by decide)
  next =>
    split
    next =>
      refine h.failIntent fun a ha => ?_
      rw [List.mem_filter, List.mem_filter, decide_eq_true_eq] at ha
      exact ⟨ha.1.1, of_decide_eq_true ha.2⟩
    next => exact of_same rfl

theorem syncRebalanceIntents (now intentTTL : ℕ) : Quiet t (syncRebalanceIntents now t intentTTL) :=
  List.foldlRecOn _ _ (of_same rfl) fun _ h intent _ => h.trans (h.syncIntent now intentTTL intent)

theorem syncRebalanceActions (inflightMessages : List Inflight) (delivered : RebalanceAction → Bool) :
    Quiet t (syncRebalanceActions t inflightMessages delivered) := by
  have hrecovered : Quiet t (inflightMessages.foldl
      (fun t' m => if t.actions.data.any fun a => a.messageId = some m.msg.msgId then t'
        else t'.recoverAction m.msg m.uuid m.now) t) := by
    refine List.foldlRecOn _ _ (of_same rfl) fun u hu m _ => ?_
    split
    · exact hu
    · exact hu.trans (recoverAction m.msg m.uuid m.now)
  refine List.foldlRecOn _ _ hrecovered fun u hu a _ => ?_
  split
  · exact hu.trans (completeAction a)
  · exact hu

/-- the movements, whose actions are among those of an earlier state -/
theorem syncMovement {s : State} (h : Quiet t s.tracker) (answers : ℕ → Option BridgeStatus) (now : ℕ) {a : RebalanceAction}
    (ha : a ∈ t.actions.data) (htype : a.type = .inventoryMovement) :
    Quiet s.tracker (syncMovement answers now s a).tracker ∧ (syncMovement answers now s a).executing = s.executing := by
  rw [InventoryCycle.syncMovement]
  split
  · exact ⟨completeAction a, rfl⟩
  · exact ⟨h.failMovement ha htype, rfl⟩
  · exact ⟨of_same rfl, rfl⟩
  · exact ⟨of_same rfl, rfl⟩
  · exact ⟨of_same rfl, rfl⟩

theorem syncInventoryMovementActions (s : State) (answers : ℕ → Option BridgeStatus) (now : ℕ) :
    Quiet s.tracker (syncInventoryMovementActions answers now s).tracker ∧
      (syncInventoryMovementActions answers now s).executing = s.executing := by
  rw [InventoryCycle.syncInventoryMovementActions]
  refine List.foldlRecOn (motive := fun s' : State => Quiet s.tracker s'.tracker ∧ s'.executing = s.executing) _ _
    ⟨of_same rfl, rfl⟩ fun s' h a ha => ?_
  rw [List.mem_filter, decide_eq_true_eq] at ha
  obtain ⟨hquiet, hexecuting⟩ := h.1.syncMovement answers now ha.1 ha.2.2
  exact ⟨h.1.trans hquiet, hexecuting.trans h.2⟩

end Quiet

/-! ## The partially fulfilled intents -/

/-- only movements have failed -/
structure OnlyMovements (t t' : ActionTracker) : Prop extends Quiet t t' where
  intents_eq : t'.intents = t.intents
  deposits : ∀ id status, t'.amountFor id status .inventoryDeposit = t.amountFor id status .inventoryDeposit
  inProgress : ∀ a ∈ t'.actions.data, a.status = .inProgress → a ∈ t.actions.data

namespace OnlyMovements

variable {t t' t'' : ActionTracker}

theorem refl (t : ActionTracker) : OnlyMovements t t := ⟨.of_same rfl, rfl, fun _ _ => rfl, fun _ ha _ => ha⟩

theorem trans (h : OnlyMovements t t') (h' : OnlyMovements t' t'') : OnlyMovements t t'' :=
  ⟨h.toQuiet.trans h'.toQuiet, h'.intents_eq.trans h.intents_eq,
    fun id status => (h'.deposits id status).trans (h.deposits id status),
    fun a ha hstatus => h.inProgress a (h'.inProgress a ha hstatus) hstatus⟩

theorem failMovement (h : OnlyMovements t t') {a : RebalanceAction} (ha : a ∈ t.actions.data)
    (htype : a.type = .inventoryMovement) : OnlyMovements t' (t'.setAction a.id .failed) := by
  refine ⟨h.toQuiet.failMovement ha htype, rfl, fun id status => ?_, fun b hb hstatus => ?_⟩
  · rw [amountFor_sum, amountFor_sum, sum_setAction]
    refine congrArg List.sum (List.map_congr_left fun b hb => ?_)
    split
    next hid =>
      have hmovement : b.type = .inventoryMovement := (h.same ha hb hid).1.trans htype
      exact (countedIn_movement (a := b.setStatus .failed) hmovement).trans (countedIn_movement hmovement).symm
    next => rfl
  · rw [setAction, KeyedStore.mem_update] at hb
    rcases hb with ⟨hb, -⟩ | ⟨c, -, -, rfl⟩
    · exact hb
    · cases hstatus

theorem failMovements {stale : List RebalanceAction}
    (hstale : ∀ a ∈ stale, a ∈ t.actions.data ∧ a.type = .inventoryMovement) : OnlyMovements t (failMovements t stale) :=
  List.foldlRecOn stale _ (refl t) fun _ h a ha => h.trans (h.failMovement (hstale a ha).1 (hstale a ha).2)

/-- a movement that blocks an intent blocked it before -/
theorem blocking (h : OnlyMovements t t') {movements : ℕ → MovementInfo} {now intentId : ℕ}
    (hblocked : hasBlockingInflightMovement movements now t' intentId = true) :
    hasBlockingInflightMovement movements now t intentId = true := by
  rw [hasBlockingInflightMovement, List.any_eq_true] at hblocked ⊢
  obtain ⟨a, ha, hstale⟩ := hblocked
  refine ⟨a, ?_, hstale⟩
  rw [inflightMovements, getActionsForIntent, List.mem_filter, List.mem_filter, decide_eq_true_eq, decide_eq_true_eq] at ha ⊢
  obtain ⟨⟨ha, hid⟩, hstatus, htype⟩ := ha
  exact ⟨⟨h.inProgress a ha hstatus, hid⟩, hstatus, htype⟩

end OnlyMovements

/-- what a partial intent says of its intent -/
structure Describes (t : ActionTracker) (p : PartialInventoryIntent) : Prop where
  method : p.intent.executionMethod = some .inventory
  remaining : p.remaining = (p.intent.amount : ℤ) - t.amountFor p.intent.id .complete .inventoryDeposit -
    t.amountFor p.intent.id .inProgress .inventoryDeposit
  settled : p.hasInflightDeposit = false → t.amountFor p.intent.id .inProgress .inventoryDeposit = 0 ∧ 0 < p.remaining

/-- an intent that no movement on its way blocks -/
def Unblocked (movements : ℕ → MovementInfo) (now : ℕ) (t : ActionTracker) (i : RebalanceIntent) : Prop :=
  hasBlockingInflightMovement movements now t i.id = false

section Partial

variable {t t' : ActionTracker} (movements : ℕ → MovementInfo) (now : ℕ)

theorem partialIntent_tracker (intent : RebalanceIntent) : OnlyMovements t (partialIntent movements now t intent).1 := by
  rw [partialIntent]
  split
  next => exact .refl t
  next =>
    split
    next => exact .refl t
    next =>
      refine .failMovements fun a ha => ?_
      have hflight := (List.mem_filter.1 ha).1
      rw [inflightMovements, getActionsForIntent, List.mem_filter, List.mem_filter, decide_eq_true_eq] at hflight
      exact ⟨hflight.1.1, (of_decide_eq_true hflight.2).2⟩

theorem partialIntent_describes (h : OnlyMovements t t') {intent : RebalanceIntent} {p : PartialInventoryIntent}
    (hp : p ∈ (partialIntent movements now t' intent).2) : p.intent = intent ∧ Describes t p := by
  rw [partialIntent] at hp
  split at hp
  next => exact absurd hp List.not_mem_nil
  next hmethod =>
    split at hp
    next => exact absurd hp List.not_mem_nil
    next =>
      dsimp only at hp
      split at hp
      next hsome =>
        obtain rfl := List.mem_singleton.1 hp
        have hcomplete := h.deposits intent.id .complete
        have hinProgress := h.deposits intent.id .inProgress
        unfold amountFor at hcomplete hinProgress
        rw [hcomplete, hinProgress] at hsome ⊢
        refine ⟨rfl, not_not.1 hmethod, rfl, fun hnone => ?_⟩
        have hzero := of_decide_eq_false hnone
        exact ⟨Nat.eq_zero_of_not_pos hzero, hsome.resolve_right hzero⟩
      next => exact absurd hp List.not_mem_nil

theorem partialIntent_active (h : OnlyMovements t t') {intent : RebalanceIntent}
    (hmethod : intent.executionMethod = some .inventory) (hfree : Unblocked movements now t intent)
    (hactive : t.amountFor intent.id .complete .inventoryDeposit < intent.amount) :
    (partialIntent movements now t' intent).2 ≠ [] := by
  have hfree' : ¬hasBlockingInflightMovement movements now t' intent.id = true := fun hblocked => by
    rw [Unblocked, h.blocking hblocked] at hfree
    nomatch hfree
  have hcomplete := h.deposits intent.id .complete
  have hinProgress := h.deposits intent.id .inProgress
  unfold amountFor at hcomplete hinProgress hactive
  rw [partialIntent, if_neg (not_not.2 hmethod), if_neg hfree']
  dsimp only
  rw [hcomplete, hinProgress, if_pos (by omega)]
  exact List.cons_ne_nil _ _

theorem partialIntents_tracker (h : OnlyMovements t t') (intents : List RebalanceIntent) :
    OnlyMovements t (partialIntents movements now t' intents).1 := by
  induction intents generalizing t' with
  | nil => exact h
  | cons intent intents ih => exact ih (h.trans (partialIntent_tracker movements now intent))

theorem partialIntents_describes (h : OnlyMovements t t') {intents : List RebalanceIntent} {p : PartialInventoryIntent}
    (hp : p ∈ (partialIntents movements now t' intents).2) : p.intent ∈ intents ∧ Describes t p := by
  induction intents generalizing t' with
  | nil => exact absurd hp List.not_mem_nil
  | cons intent intents ih =>
    rcases List.mem_append.1 hp with hfound | hlater
    · obtain ⟨heq, hdescribes⟩ := partialIntent_describes movements now h hfound
      exact ⟨heq ▸ List.mem_cons_self, hdescribes⟩
    · obtain ⟨hmem, hdescribes⟩ := ih (h.trans (partialIntent_tracker movements now intent)) hlater
      exact ⟨List.mem_cons_of_mem intent hmem, hdescribes⟩

theorem partialIntents_active (h : OnlyMovements t t') {intents : List RebalanceIntent} {i : RebalanceIntent} (hi : i ∈ intents)
    (hmethod : i.executionMethod = some .inventory) (hfree : Unblocked movements now t i)
    (hactive : t.amountFor i.id .complete .inventoryDeposit < i.amount) :
    (partialIntents movements now t' intents).2 ≠ [] := by
  induction intents generalizing t' with
  | nil => exact absurd hi List.not_mem_nil
  | cons intent intents ih =>
    rw [partialIntents]
    dsimp only
    intro hempty
    obtain ⟨hfound, hlater⟩ := List.append_eq_nil_iff.1 hempty
    rcases List.mem_cons.1 hi with rfl | hmem
    · exact partialIntent_active movements now h hmethod hfree hactive hfound
    · exact ih (h.trans (partialIntent_tracker movements now intent)) hmem hlater

end Partial

/-! ## The invariants -/

/-- the deposits for each inventory intent stay within its amount and one local unit of their chain -/
def DepositsBounded (scale : ℕ → NormalizedScale) (t : ActionTracker) : Prop :=
  ∀ i ∈ t.intents.data, i.executionMethod = some .inventory →
    executed t i.id * (scale i.destination).denominator <
      i.amount * (scale i.destination).denominator + (scale i.destination).numerator

/-- the route under way fits in what is left of its intent -/
def Fits (t : ActionTracker) (e : Executing) : Prop :=
  ∀ i ∈ t.intents.data, i.executionMethod = some .inventory → i.id = e.intent.id →
    i.destination = e.intent.destination ∧ executed t i.id + e.amount ≤ i.amount

structure Good (scale : ℕ → NormalizedScale) (s : State) : Prop where
  bounded : DepositsBounded scale s.tracker
  /-- no deposit of an open intent has failed -/
  clean : ∀ i ∈ s.tracker.intents.data, i.executionMethod = some .inventory → Open i →
    s.tracker.amountFor i.id .failed .inventoryDeposit = 0
  fits : ∀ e, s.executing = some e → Fits s.tracker e

/-- at most one intent is active -/
def AtMostOneActive (t : ActionTracker) : Prop := ∀ i j, Active t i → Active t j → i = j

section Invariants

variable {scale : ℕ → NormalizedScale} {intentTTL : ℕ} {s s' : State}

theorem Steady.clean {t t' : ActionTracker} (h : Steady t t') (hclean : ∀ i ∈ t.intents.data, i.executionMethod = some .inventory →
    Open i → t.amountFor i.id .failed .inventoryDeposit = 0) (i' : RebalanceIntent) (hi' : i' ∈ t'.intents.data)
    (hmethod : i'.executionMethod = some .inventory) (hopen : Open i') : t'.amountFor i'.id .failed .inventoryDeposit = 0 := by
  obtain ⟨i, hi, hcontinues⟩ := h.intents i' hi' hmethod
  obtain ⟨hopen', -, hfailed⟩ := hcontinues.stays hopen
  rw [hcontinues.id]
  exact Nat.le_zero.1 (hfailed.trans (hclean i hi hcontinues.method hopen').le)

/-- an intent that is active was so before -/
theorem Steady.active {t t' : ActionTracker} (h : Steady t t') {i' : RebalanceIntent} (hactive : Active t' i') :
    ∃ i, Active t i ∧ i.id = i'.id := by
  obtain ⟨hi', hmethod, hopen, hlt⟩ := hactive
  obtain ⟨i, hi, hcontinues⟩ := h.intents i' hi' hmethod
  obtain ⟨hopen', hcomplete, -⟩ := hcontinues.stays hopen
  rw [hcontinues.id, hcontinues.amount] at hlt
  exact ⟨i, ⟨hi, hcontinues.method, hopen', hcomplete.trans_lt hlt⟩, hcontinues.id.symm⟩

theorem Steady.single {t t' : ActionTracker} (h : Steady t t') (hsingle : AtMostOneActive t) : AtMostOneActive t' := by
  intro i' j' hi' hj'
  obtain ⟨i, hi, hid⟩ := h.active hi'
  obtain ⟨j, hj, hjd⟩ := h.active hj'
  have hsame : i'.id = j'.id := by rw [← hid, ← hjd, hsingle i j hi hj]
  exact KeyedStore.eq_of_key hi'.1 hj'.1 hsame

theorem Quiet.fits {t t' : ActionTracker} (h : Quiet t t') {e : Executing} (hfits : Fits t e) : Fits t' e := by
  intro i' hi' hmethod hid
  obtain ⟨i, hi, hcontinues⟩ := h.intents i' hi' hmethod
  obtain ⟨hdestination, hle⟩ := hfits i hi hcontinues.method (hcontinues.id.symm.trans hid)
  rw [hcontinues.destination, hcontinues.id, hcontinues.amount, h.executed]
  exact ⟨hdestination, hle⟩

theorem Quiet.bounded {t t' : ActionTracker} (h : Quiet t t') (hbounded : DepositsBounded scale t) : DepositsBounded scale t' := by
  intro i' hi' hmethod
  obtain ⟨i, hi, hcontinues⟩ := h.intents i' hi' hmethod
  rw [hcontinues.id, hcontinues.destination, hcontinues.amount, h.executed]
  exact hbounded i hi hcontinues.method

theorem Good.quiet (h : Good scale s) (hquiet : Quiet s.tracker s'.tracker)
    (hexecuting : s'.executing = none ∨ s'.executing = s.executing) : Good scale s' := by
  refine ⟨hquiet.bounded h.bounded, hquiet.clean h.clean, fun e he => hquiet.fits ?_⟩
  rcases hexecuting with hnone | hsame
  · rw [hnone] at he
    nomatch he
  · exact h.fits e (hsame.symm.trans he)

/-! ## Starting -/

theorem mem_activeIntents {t : ActionTracker} {i : RebalanceIntent} :
    i ∈ t.intents.data.filter (fun i => i.status = .inProgress) ++ t.intents.data.filter (fun i => i.status = .notStarted) ↔
      i ∈ t.intents.data ∧ Open i := by
  rw [List.mem_append, List.mem_filter, List.mem_filter, decide_eq_true_eq, decide_eq_true_eq, ← and_or_left, Open, or_comm]

theorem executed_fresh {t : ActionTracker} {id : ℕ} (h : id ∉ t.actions.data.map RebalanceAction.intentId) :
    executed t id = 0 ∧ ∀ status, t.amountFor id status .inventoryDeposit = 0 := by
  have hother : ∀ a ∈ t.actions.data, a.intentId ≠ id := fun a ha heq => h (heq ▸ List.mem_map_of_mem ha)
  constructor
  · rw [executed_sum]
    refine List.sum_eq_zero fun x hx => ?_
    obtain ⟨a, ha, rfl⟩ := List.mem_map.1 hx
    rw [countedAny, if_neg fun hc => hother a ha hc.1]
  · intro status
    rw [amountFor_sum]
    refine List.sum_eq_zero fun x hx => ?_
    obtain ⟨a, ha, rfl⟩ := List.mem_map.1 hx
    rw [countedIn, if_neg fun hc => hother a ha hc.1]

/-- a rebalance that finds no partial intent and has a route -/
structure Creates (routes : List InventoryRoute) (id now : ℕ) (s s' : State) (t : ActionTracker) (route : InventoryRoute) : Prop where
  head : routes.head? = some route
  tracker : OnlyMovements s.tracker t
  none_active : ∀ i, Active s.tracker i → ¬Unblocked s.movements now s.tracker i
  newIntent : id ∉ t.intents.data.map RebalanceIntent.id
  newActions : id ∉ t.actions.data.map RebalanceAction.intentId
  after : s' = { s with
    tracker := t.createRebalanceIntent id route.origin route.destination route.amount (some .inventory) now
    executing := some ⟨⟨id, .notStarted, route.origin, route.destination, route.amount, some .inventory, now⟩, route.amount⟩ }

/-- a rebalance that goes on with a partial intent -/
structure Goes (s s' : State) (t : ActionTracker) (p : PartialInventoryIntent) : Prop where
  tracker : OnlyMovements s.tracker t
  mem : p.intent ∈ s.tracker.intents.data
  isOpen : Open p.intent
  describes : Describes s.tracker p
  idle : p.hasInflightDeposit = false
  after : s' = { s with tracker := t, executing := some ⟨p.intent, p.remaining.toNat⟩ }

/-- what the first part of a rebalance does: nothing, go on with an intent, or create one -/
theorem start_cases {routes : List InventoryRoute} {id now : ℕ} (h : startRebalance routes id now s = some s') :
    (OnlyMovements s.tracker s'.tracker ∧ s'.executing = s.executing) ∨ (∃ t p, Goes s s' t p) ∨
      ∃ t route, Creates routes id now s s' t route := by
  have htracker := partialIntents_tracker s.movements now (.refl s.tracker)
    (s.tracker.intents.data.filter (fun i => i.status = .inProgress) ++
      s.tracker.intents.data.filter fun i => i.status = .notStarted)
  rw [startRebalance] at h
  dsimp only at h
  split at h
  next p _ hactive =>
    have hp : p ∈ (getPartiallyFulfilledInventoryIntents s.movements now s.tracker).2 := hactive ▸ List.mem_cons_self
    obtain ⟨hmem, hdescribes⟩ := partialIntents_describes s.movements now (.refl s.tracker) hp
    obtain ⟨hstored, hopen⟩ := mem_activeIntents.1 hmem
    split at h
    next =>
      obtain rfl := Option.some.inj h
      exact .inl ⟨htracker, rfl⟩
    next hidle =>
      obtain rfl := Option.some.inj h
      exact .inr (.inl ⟨_, p, htracker, hstored, hopen, hdescribes, Bool.eq_false_of_not_eq_true hidle, rfl⟩)
  next hactive =>
    split at h
    next =>
      obtain rfl := Option.some.inj h
      exact .inl ⟨htracker, rfl⟩
    next route _ =>
      split at h
      next hfresh =>
        obtain rfl := Option.some.inj h
        refine .inr (.inr ⟨_, route, rfl, htracker, fun i hi hfree => ?_, hfresh.1, hfresh.2, rfl⟩)
        obtain ⟨hstored, hmethod, hopen, hlt⟩ := hi
        exact partialIntents_active s.movements now (.refl s.tracker) (mem_activeIntents.2 ⟨hstored, hopen⟩) hmethod hfree hlt
          hactive
      next => nomatch h

theorem Goes.good {t : ActionTracker} {p : PartialInventoryIntent} (h : Goes s s' t p) (hgood : Good scale s) : Good scale s' := by
  obtain ⟨htracker, hmem, hopen, hdescribes, hidle, rfl⟩ := h
  refine ⟨htracker.bounded hgood.bounded, htracker.clean hgood.clean, fun e he => htracker.toQuiet.fits ?_⟩
  obtain rfl := Option.some.inj he
  intro i hi hmethod hid
  obtain rfl := KeyedStore.eq_of_key hi hmem hid
  obtain ⟨hnone, hpos⟩ := hdescribes.settled hidle
  have hclean := hgood.clean p.intent hi hmethod hopen
  have hremaining := hdescribes.remaining
  refine ⟨rfl, ?_⟩
  rw [executed_split, hnone, hclean]
  dsimp only
  omega

theorem Creates.good {routes : List InventoryRoute} {id now : ℕ} {t : ActionTracker} {route : InventoryRoute}
    (h : Creates routes id now s s' t route) (hgood : Good scale s) : Good scale s' := by
  obtain ⟨-, htracker, -, hnew, hfresh, rfl⟩ := h
  obtain ⟨hzero, hnone⟩ := executed_fresh hfresh
  have hquiet : Good scale { s with tracker := t } := hgood.quiet htracker.toQuiet (.inr rfl)
  have hmem {i : RebalanceIntent} (hi : i ∈ (t.createRebalanceIntent id route.origin route.destination route.amount
      (some .inventory) now).intents.data) :
      i ∈ t.intents.data ∨ i = ⟨id, .notStarted, route.origin, route.destination, route.amount, some .inventory, now⟩ :=
    KeyedStore.mem_of_mem_save hi
  refine ⟨fun i hi hmethod => ?_, fun i hi hmethod hopen => ?_, fun e he => ?_⟩
  · rcases hmem hi with hold | rfl
    · exact hquiet.bounded i hold hmethod
    · have hpos := (scale route.destination).numerator_pos
      change executed t id * _ < _
      rw [hzero, Nat.zero_mul]
      exact Nat.add_pos_right _ hpos
  · rcases hmem hi with hold | rfl
    · exact hquiet.clean i hold hmethod hopen
    · exact hnone .failed
  · obtain rfl := Option.some.inj he
    intro i hi hmethod hid
    rcases hmem hi with hold | rfl
    · exact absurd (List.mem_map.2 ⟨i, hold, hid⟩) hnew
    · refine ⟨rfl, ?_⟩
      change executed t id + route.amount ≤ route.amount
      rw [hzero, Nat.zero_add]

/-! ## Executing -/

/-- a whole deposit rounds up by less than one local unit -/
theorem whole_lt (scale : NormalizedScale) (amount : ℕ) :
    messageAmountFromLocal (minLocalAmountForMessage amount scale) scale * scale.denominator <
      amount * scale.denominator + scale.numerator :=
  (Rounding.down_mul_le scale.numerator scale.denominator _).trans_lt (Rounding.up_mul_lt scale.numerator_pos)

/-- a partial deposit does not reach the amount -/
theorem aligned_lt {scale : NormalizedScale} {amount available : ℕ} (h : ¬minLocalAmountForMessage amount scale ≤ available) :
    messageAmountFromLocal available scale * scale.denominator < amount * scale.denominator + scale.numerator := by
  have hle : messageAmountFromLocal available scale * scale.denominator ≤ available * scale.numerator :=
    Rounding.down_mul_le scale.numerator scale.denominator available
  have hlt : ¬amount * scale.denominator ≤ available * scale.numerator := fun h' =>
    h ((Rounding.up_le_iff scale.numerator_pos).2 h')
  omega

/-- a deposit for an intent -/
structure Deposits (e : Executing) (limit : ℕ → Prop) (s s' : State) : Prop where
  executing : s'.executing = s.executing
  action : ∃ id messageId amount now, id ∉ s.tracker.actions.data.map RebalanceAction.id ∧ limit amount ∧
    s'.tracker = s.tracker.createRebalanceAction id .inventoryDeposit e.intent.id messageId e.intent.destination e.intent.origin
      amount now

/-- no deposit -/
def Rests (s s' : State) : Prop := Quiet s.tracker s'.tracker ∧ s'.executing = s.executing

theorem Rests.refl (s : State) : Rests s s := ⟨.of_same rfl, rfl⟩

theorem createAction_cases {id : ℕ} {type : ActionType} {intentId : ℕ} {messageId : Option ℕ}
    {origin destination amount now : ℕ}
    (h : createAction id type intentId messageId origin destination amount now s = some s') :
    id ∉ s.tracker.actions.data.map RebalanceAction.id ∧ s'.executing = s.executing ∧
      s'.tracker = s.tracker.createRebalanceAction id type intentId messageId origin destination amount now := by
  rw [createAction] at h
  split at h
  next => nomatch h
  next hnew =>
    obtain rfl := Option.some.inj h
    exact ⟨hnew, rfl, rfl⟩

theorem executeInventoryMovements_rests {intent : RebalanceIntent} {now : ℕ} {movements : List Movement}
    (h : executeInventoryMovements intent now s movements = some s') : Rests s s' := by
  induction movements generalizing s with
  | nil =>
    obtain rfl := Option.some.inj h
    exact .refl s
  | cons m movements ih =>
    obtain ⟨u, hu, hrest⟩ := Option.bind_eq_some_iff.1 h
    obtain ⟨hnew, hexecuting, htracker⟩ := createAction_cases hu
    obtain ⟨hquiet, hexecuting'⟩ := ih hrest
    have hfirst : Quiet s.tracker u.tracker := htracker ▸ .createRebalanceAction hnew (by decide) _ _ _ _ _ _
    exact ⟨hfirst.trans hquiet, hexecuting'.trans hexecuting⟩

theorem executeTransferRemote_cases {env : Environment} {e : Executing} {amount now : ℕ} {limit : ℕ → Prop} (hlimit : limit amount)
    (h : executeTransferRemote env e.intent amount now s = some s') : Rests s s' ∨ Deposits e limit s s' := by
  rw [executeTransferRemote] at h
  split at h
  next =>
    obtain rfl := Option.some.inj h
    exact .inl (.refl s)
  next receipt _ =>
    obtain ⟨hnew, hexecuting, htracker⟩ := createAction_cases h
    exact .inr ⟨hexecuting, receipt.actionId, receipt.messageId, amount, now, hnew, hlimit, htracker⟩

/-- an amount that is below another and one local unit of a chain -/
def Within (scale : NormalizedScale) (amount deposit : ℕ) : Prop :=
  deposit * scale.denominator < amount * scale.denominator + scale.numerator

/-- what the second part of a rebalance does: one deposit at most, within the amount of its route -/
theorem executeRoute_cases {env : Environment} {now : ℕ} {e : Executing}
    (h : executeRoute scale env now e.intent e.amount s = some s') :
    Rests s s' ∨ Deposits e (Within (scale e.intent.destination) e.amount) s s' := by
  rw [executeRoute] at h
  dsimp only at h
  split at h
  next =>
    obtain rfl := Option.some.inj h
    exact .inl (.refl s)
  next costs _ =>
    split at h
    next =>
      obtain rfl := Option.some.inj h
      exact .inl (.refl s)
    next available _ =>
      split at h
      next =>
        obtain rfl := Option.some.inj h
        exact .inl ⟨.endIntent e.intent.id (by decide), rfl⟩
      next =>
        split at h
        next => exact executeTransferRemote_cases (whole_lt _ _) h
        next hshort =>
          split at h
          next => exact executeTransferRemote_cases (aligned_lt hshort) h
          next => exact .inl (executeInventoryMovements_rests h)

theorem Deposits.steady {e : Executing} {limit : ℕ → Prop} (h : Deposits e limit s s') : Steady s.tracker s'.tracker := by
  obtain ⟨id, messageId, amount, now, hnew, -, htracker⟩ := h.action
  rw [htracker]
  exact .createRebalanceAction hnew _ _ _ _ _ _ _

theorem Deposits.good {e : Executing} (h : Deposits e (Within (scale e.intent.destination) e.amount) s s')
    (hgood : Good scale s) (hfits : Fits s.tracker e) (hidle : s.executing = none) : Good scale s' := by
  obtain ⟨id, messageId, amount, now, hnew, hlimit, htracker⟩ := h.action
  have hsteady := h.steady
  refine ⟨fun i' hi' hmethod => ?_, hsteady.clean hgood.clean, fun e' he' => ?_⟩
  · obtain ⟨i, hi, hcontinues⟩ := hsteady.intents i' hi' hmethod
    rw [hcontinues.id, hcontinues.destination, hcontinues.amount, htracker, createRebalanceAction,
      executed_of_actions (startIntent_actions _), executed_save hnew, countedAny]
    dsimp only
    split
    next hown =>
      obtain ⟨hdestination, hle⟩ := hfits i hi hcontinues.method hown.1.symm
      rw [Within, ← hdestination] at hlimit
      calc (executed s.tracker i.id + amount) * (scale i.destination).denominator
          = executed s.tracker i.id * (scale i.destination).denominator + amount * (scale i.destination).denominator :=
            Nat.add_mul _ _ _
        _ < executed s.tracker i.id * (scale i.destination).denominator +
            (e.amount * (scale i.destination).denominator + (scale i.destination).numerator) :=
            Nat.add_lt_add_left hlimit _
        _ = (executed s.tracker i.id + e.amount) * (scale i.destination).denominator + (scale i.destination).numerator := by
            ring
        _ ≤ i.amount * (scale i.destination).denominator + (scale i.destination).numerator :=
            Nat.add_le_add_right (Nat.mul_le_mul_right _ hle) _
    next => exact hgood.bounded i hi hcontinues.method
  · rw [h.executing, hidle] at he'
    nomatch he'

/-! ## Runs -/

theorem step_good {op : Step} (hgood : Good scale s) (h : step scale intentTTL s op = some s') : Good scale s' := by
  cases op with
  | start routes id now =>
    rw [step] at h
    split at h
    next => nomatch h
    next =>
      rcases start_cases h with ⟨htracker, hexecuting⟩ | ⟨_, _, hgoes⟩ | ⟨_, _, hcreates⟩
      · exact hgood.quiet htracker.toQuiet (.inr hexecuting)
      · exact hgoes.good hgood
      · exact hcreates.good hgood
  | execute env now =>
    rw [step] at h
    split at h
    next => nomatch h
    next e he =>
      have hidle : Good scale { s with executing := none } := hgood.quiet (.of_same rfl) (.inl rfl)
      rcases executeRoute_cases h with ⟨hquiet, hexecuting⟩ | hdeposits
      · exact hidle.quiet hquiet (.inr hexecuting)
      · exact hdeposits.good hidle (hgood.fits e he) rfl
  | syncRebalanceIntents now =>
    obtain rfl := Option.some.inj h
    exact hgood.quiet (.syncRebalanceIntents now intentTTL) (.inr rfl)
  | syncRebalanceActions inflightMessages delivered =>
    obtain rfl := Option.some.inj h
    exact hgood.quiet (.syncRebalanceActions inflightMessages delivered) (.inr rfl)
  | syncInventoryMovementActions answers now =>
    obtain rfl := Option.some.inj h
    obtain ⟨hquiet, hexecuting⟩ := Quiet.syncInventoryMovementActions s answers now
    exact hgood.quiet hquiet (.inr hexecuting)

theorem good_initial : Good scale State.initial :=
  ⟨fun _ hi => absurd hi List.not_mem_nil, fun _ hi => absurd hi List.not_mem_nil, fun _ he => nomatch he⟩

theorem run_good {steps : List Step} (h : Good scale s) (hrun : run scale intentTTL s steps = some s') : Good scale s' := by
  induction steps generalizing s with
  | nil =>
    obtain rfl := Option.some.inj hrun
    exact h
  | cons op steps ih =>
    rw [run] at hrun
    obtain ⟨next, hstep, hrest⟩ := Option.bind_eq_some_iff.1 hrun
    exact ih (step_good h hstep) hrest

/-! ## The single active intent -/

/-- no rebalance that may create an intent meets an active one with a movement on its way -/
def Clear (s : State) : Step → Prop
  | .start routes _ now =>
    ∀ route, routes.head? = some route → 0 < route.amount → ∀ i, Active s.tracker i → Unblocked s.movements now s.tracker i
  | _ => True

/-- every step of a run is clear -/
def AllClear (scale : ℕ → NormalizedScale) (intentTTL : ℕ) (s : State) : List Step → Prop
  | [] => True
  | op :: steps => Clear s op ∧ ∀ s', step scale intentTTL s op = some s' → AllClear scale intentTTL s' steps

/-- an intent that is active once a route has got one was there before, or is the new one -/
theorem Creates.active {routes : List InventoryRoute} {id now : ℕ} {t : ActionTracker} {route : InventoryRoute}
    (h : Creates routes id now s s' t route) {i : RebalanceIntent} (hi : Active s'.tracker i) :
    Active t i ∨ i.id = id ∧ 0 < route.amount := by
  obtain ⟨-, -, -, -, -, rfl⟩ := h
  obtain ⟨hstored, hmethod, hopen, hlt⟩ := hi
  rcases KeyedStore.mem_of_mem_save hstored with hold | rfl
  · exact .inl ⟨hold, hmethod, hopen, hlt⟩
  · exact .inr ⟨rfl, (Nat.zero_le _).trans_lt hlt⟩

/-- a clear rebalance that creates an intent finds none active, or its own is not -/
theorem Creates.single {routes : List InventoryRoute} {id now : ℕ} {t : ActionTracker} {route : InventoryRoute}
    (h : Creates routes id now s s' t route) (hclear : Clear s (.start routes id now)) (hsingle : AtMostOneActive s.tracker) :
    AtMostOneActive s'.tracker := by
  have hold (hpos : 0 < route.amount) {i : RebalanceIntent} (hi : Active t i) : False := by
    obtain ⟨j, hj, -⟩ := h.tracker.active hi
    exact h.none_active j hj (hclear route h.head hpos j hj)
  intro i j hi hj
  rcases h.active hi with hi' | ⟨hid, hpos⟩
  · rcases h.active hj with hj' | ⟨-, hpos⟩
    · exact h.tracker.single hsingle i j hi' hj'
    · exact (hold hpos hi').elim
  · rcases h.active hj with hj' | ⟨hjd, -⟩
    · exact (hold hpos hj').elim
    · exact KeyedStore.eq_of_key hi.1 hj.1 (hid.trans hjd.symm)

theorem step_single {op : Step} (hclear : Clear s op) (hsingle : AtMostOneActive s.tracker)
    (h : step scale intentTTL s op = some s') : AtMostOneActive s'.tracker := by
  cases op with
  | start routes id now =>
    rw [step] at h
    split at h
    next => nomatch h
    next =>
      rcases start_cases h with ⟨htracker, -⟩ | ⟨_, _, hgoes⟩ | ⟨_, _, hcreates⟩
      · exact htracker.single hsingle
      · rw [hgoes.after]
        exact hgoes.tracker.single hsingle
      · exact hcreates.single hclear hsingle
  | execute env now =>
    rw [step] at h
    split at h
    next => nomatch h
    next e _ =>
      rcases executeRoute_cases h with ⟨hquiet, -⟩ | hdeposits
      · exact hquiet.single hsingle
      · exact hdeposits.steady.single hsingle
  | syncRebalanceIntents now =>
    obtain rfl := Option.some.inj h
    exact (Quiet.syncRebalanceIntents now intentTTL).single hsingle
  | syncRebalanceActions inflightMessages delivered =>
    obtain rfl := Option.some.inj h
    exact (Quiet.syncRebalanceActions inflightMessages delivered).single hsingle
  | syncInventoryMovementActions answers now =>
    obtain rfl := Option.some.inj h
    exact (Quiet.syncInventoryMovementActions s answers now).1.single hsingle

theorem run_single {steps : List Step} (hclear : AllClear scale intentTTL s steps) (hsingle : AtMostOneActive s.tracker)
    (hrun : run scale intentTTL s steps = some s') : AtMostOneActive s'.tracker := by
  induction steps generalizing s with
  | nil =>
    obtain rfl := Option.some.inj hrun
    exact hsingle
  | cons op steps ih =>
    rw [run] at hrun
    obtain ⟨next, hstep, hrest⟩ := Option.bind_eq_some_iff.1 hrun
    exact ih (hclear.2 next hstep) (step_single hclear.1 hsingle hstep) hrest

/-- the deposits for an intent stay within its amount and one local unit, and as long as no rebalance that may create an
intent meets an active one with a movement on its way, at most one is active -/
theorem single_active_intent {steps : List Step} (hrun : run scale intentTTL .initial steps = some s) :
    DepositsBounded scale s.tracker ∧ (AllClear scale intentTTL .initial steps → AtMostOneActive s.tracker) :=
  ⟨(run_good good_initial hrun).bounded, fun hclear => run_single hclear (fun _ _ hi => nomatch hi.1) hrun⟩

end Invariants

/-- a local unit of a chain is a canonical unit -/
def unitScale : ℕ → NormalizedScale := fun _ => ⟨1, 1, Nat.one_pos, Nat.one_pos⟩

/-- a destination without inventory, to which a bridge moves some -/
def emptyDestination : Environment := ⟨some ⟨1, 0⟩, true, 0, .insufficientBalance, none, [⟨1, 3, 100⟩]⟩

/-- the movement of the first route is on its way when the next one comes -/
def overlapping : List Step := [.start [⟨1, 2, 100⟩] 1 0, .execute emptyDestination 0, .start [⟨3, 2, 50⟩] 2 1]

/-- the movement of the first route has arrived when the next one comes -/
def consecutive : List Step :=
  [.start [⟨1, 2, 100⟩] 1 0, .execute emptyDestination 0, .syncInventoryMovementActions (fun _ => some .complete) 1,
    .start [⟨3, 2, 50⟩] 2 2]

theorem consecutive_single : ∃ s, run unitScale 600000 .initial consecutive = some s ∧
    (DepositsBounded unitScale s.tracker ∧ AtMostOneActive s.tracker) := by
  refine ⟨_, rfl, ?_⟩
  obtain ⟨hbounded, hsingle⟩ := @single_active_intent unitScale 600000 _ consecutive rfl
  refine ⟨hbounded, hsingle ?_⟩
  refine ⟨fun _ _ _ i hi => absurd hi.1 List.not_mem_nil, fun s₁ h₁ => ?_⟩
  obtain rfl := Option.some.inj h₁
  refine ⟨trivial, fun s₂ h₂ => ?_⟩
  obtain rfl := Option.some.inj h₂
  refine ⟨trivial, fun s₃ h₃ => ?_⟩
  obtain rfl := Option.some.inj h₃
  refine ⟨fun _ _ _ i hi => ?_, fun _ _ => trivial⟩
  obtain rfl := List.mem_singleton.1 hi.1
  rfl

theorem overlapping_not_single : ¬∀ (scale : ℕ → NormalizedScale) (intentTTL : ℕ) (steps : List Step) (s : State),
    run scale intentTTL .initial steps = some s → DepositsBounded scale s.tracker ∧ AtMostOneActive s.tracker := by
  intro h
  obtain ⟨-, hsingle⟩ := h unitScale 600000 overlapping _ rfl
  have hsame := hsingle ⟨1, .inProgress, 1, 2, 100, some .inventory, 0⟩ ⟨2, .notStarted, 3, 2, 50, some .inventory, 1⟩
    ⟨by decide, rfl, .inr rfl, by decide⟩ ⟨by decide, rfl, .inl rfl, by decide⟩
  exact absurd hsame (by decide)

end Hyperlane.Rebalancer.InventoryCycle
