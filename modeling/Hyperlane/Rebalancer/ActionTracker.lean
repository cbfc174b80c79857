/-
The records of the rebalancer: `ActionTracker` (typescript/rebalancer/src/tracking/ActionTracker.ts) with its in-memory
stores, and `InflightContextAdapter`, which turns them into the context of a strategy.

Here every operation runs from its start to its end; chains are their domain ids.

- `simulatePendingRebalances_apply`: the simulation is a sum of one adjustment for each pending rebalance.
- `amountFor_save`, `amountFor_complete`: what a new action and a completed one do to the amounts of the intents.
-/
import Hyperlane.Core.KeyedStore

namespace Hyperlane.Rebalancer

/-! ## Records -/

inductive RebalanceIntentStatus where
  | notStarted
  | inProgress
  | complete
  | cancelled
  | failed
deriving DecidableEq

inductive RebalanceActionStatus where
  | inProgress
  | complete
  | failed
deriving DecidableEq

inductive ExecutionMethod where
  | movableCollateral
  | inventory
deriving DecidableEq

inductive ActionType where
  | rebalanceMessage
  | inventoryMovement
  | inventoryDeposit
deriving DecidableEq

structure RebalanceIntent where
  id : ℕ
  status : RebalanceIntentStatus
  origin : ℕ
  destination : ℕ
  amount : ℕ
  executionMethod : Option ExecutionMethod
  createdAt : ℕ
deriving DecidableEq

structure RebalanceAction where
  id : ℕ
  status : RebalanceActionStatus
  type : ActionType
  intentId : ℕ
  messageId : Option ℕ
  origin : ℕ
  destination : ℕ
  amount : ℕ
  createdAt : ℕ
deriving DecidableEq

def RebalanceIntent.setStatus (status : RebalanceIntentStatus) (i : RebalanceIntent) : RebalanceIntent :=
  { i with status := status }

def RebalanceAction.setStatus (status : RebalanceActionStatus) (a : RebalanceAction) : RebalanceAction :=
  { a with status := status }

@[simp]
theorem RebalanceIntent.setStatus_id (status : RebalanceIntentStatus) (i : RebalanceIntent) :
    (i.setStatus status).id = i.id := rfl

@[simp]
theorem RebalanceAction.setStatus_id (status : RebalanceActionStatus) (a : RebalanceAction) :
    (a.setStatus status).id = a.id := rfl

abbrev RebalanceIntentStore := KeyedStore RebalanceIntent RebalanceIntent.id

abbrev RebalanceActionStore := KeyedStore RebalanceAction RebalanceAction.id

structure ActionTracker where
  intents : RebalanceIntentStore
  actions : RebalanceActionStore

/-- a message of the explorer: what the tracker reads of it, with the amount of its body; no time while the block of its
origin is not indexed -/
structure ExplorerMessage where
  msgId : ℕ
  origin : ℕ
  destination : ℕ
  amount : ℕ
  sendOccurredAt : Option ℕ
deriving DecidableEq

/-- an intent as the strategies see it -/
structure RouteWithContext where
  origin : ℕ
  destination : ℕ
  amount : ℕ
  deliveredAmount : ℕ
  awaitingDeliveryAmount : ℕ
  executionMethod : Option ExecutionMethod
deriving DecidableEq

namespace ActionTracker

def empty : ActionTracker := ⟨.empty, .empty⟩

/-! ## Operations -/

/-- `store.update(id, { status })` on intents -/
def setIntent (t : ActionTracker) (id : ℕ) (status : RebalanceIntentStatus) : ActionTracker :=
  { t with intents := t.intents.update id (RebalanceIntent.setStatus status) (RebalanceIntent.setStatus_id status) }

/-- `store.update(id, { status })` on actions -/
def setAction (t : ActionTracker) (id : ℕ) (status : RebalanceActionStatus) : ActionTracker :=
  { t with actions := t.actions.update id (RebalanceAction.setStatus status) (RebalanceAction.setStatus_id status) }

def getActiveRebalanceIntents (t : ActionTracker) : List RebalanceIntent :=
  t.intents.data.filter fun i => i.status = .inProgress

def getActionsForIntent (t : ActionTracker) (intentId : ℕ) : List RebalanceAction :=
  t.actions.data.filter fun a => a.intentId = intentId

/-- the sum of the amounts of actions of a status and type -/
def amountOf (actions : List RebalanceAction) (status : RebalanceActionStatus) (type : ActionType) : ℕ :=
  ((actions.filter fun a => a.status = status ∧ a.type = type).map RebalanceAction.amount).sum

/-- `getCompletedAmountForIntent` -/
def getCompletedAmountForIntent (t : ActionTracker) (intentId : ℕ) : ℕ :=
  (((t.getActionsForIntent intentId).filter fun a =>
    a.status = .complete ∧ (a.type = .inventoryDeposit ∨ a.type = .rebalanceMessage)).map RebalanceAction.amount).sum

def createRebalanceIntent (t : ActionTracker) (id origin destination amount : ℕ) (method : Option ExecutionMethod)
    (now : ℕ) : ActionTracker :=
  { t with intents := t.intents.save ⟨id, .notStarted, origin, destination, amount, method, now⟩ }

/-- the transition of the parent intent in `createRebalanceAction` -/
def startIntent (t : ActionTracker) (intentId : ℕ) : ActionTracker :=
  match t.intents.get? intentId with
  | none => t
  | some intent => if intent.status = .notStarted then t.setIntent intentId .inProgress else t

def createRebalanceAction (t : ActionTracker) (id : ℕ) (type : ActionType) (intentId : ℕ) (messageId : Option ℕ)
    (origin destination amount now : ℕ) : ActionTracker :=
  startIntent
    { t with actions := t.actions.save ⟨id, .inProgress, type, intentId, messageId, origin, destination, amount, now⟩ }
    intentId

def checkAndCompleteIntent (t : ActionTracker) (intentId : ℕ) : ActionTracker :=
  match t.intents.get? intentId with
  | none => t
  | some intent =>
    if intent.status = .complete then t
    else if intent.amount ≤ t.getCompletedAmountForIntent intentId then t.setIntent intentId .complete
    else t

/-- `completeRebalanceAction`, which throws without the action -/
def completeRebalanceAction (t : ActionTracker) (id : ℕ) : Option ActionTracker :=
  (t.actions.get? id).map fun action => (t.setAction id .complete).checkAndCompleteIntent action.intentId

/-- `recoverAction`: an intent of its own, without an execution method, and a `rebalance_message` under the message's id -/
def recoverAction (t : ActionTracker) (msg : ExplorerMessage) (uuid now : ℕ) : ActionTracker :=
  match t.actions.get? msg.msgId with
  | some _ => t
  | none =>
    { intents := t.intents.save ⟨uuid, .inProgress, msg.origin, msg.destination, msg.amount, none,
        msg.sendOccurredAt.getD now⟩
      actions := t.actions.save ⟨msg.msgId, .inProgress, .rebalanceMessage, uuid, some msg.msgId, msg.origin,
        msg.destination, msg.amount, msg.sendOccurredAt.getD now⟩ }

/-- `getInflightContext`: the amounts of the actions are read for inventory intents only -/
def routeOf (t : ActionTracker) (intent : RebalanceIntent) : RouteWithContext :=
  { origin := intent.origin
    destination := intent.destination
    amount := intent.amount
    deliveredAmount :=
      if intent.executionMethod = some .inventory then
        amountOf (t.getActionsForIntent intent.id) .complete .inventoryDeposit else 0
    awaitingDeliveryAmount :=
      if intent.executionMethod = some .inventory then
        amountOf (t.getActionsForIntent intent.id) .inProgress .inventoryDeposit else 0
    executionMethod := intent.executionMethod }

/-- the `pendingRebalances` of `getInflightContext` -/
def pendingRebalances (t : ActionTracker) : List RouteWithContext := t.getActiveRebalanceIntents.map t.routeOf

end ActionTracker

/-! ## The simulation -/

/-- what one pending rebalance adds to a chain in `simulatePendingRebalances` -/
def simulateRebalance (simulated : ℕ → ℤ) (r : RouteWithContext) : ℕ → ℤ :=
  if r.executionMethod = some .inventory then
    let destinationAdjustment : ℤ := r.amount - r.deliveredAmount - r.awaitingDeliveryAmount
    let afterDestination :=
      if 0 < destinationAdjustment then
        Function.update simulated r.destination (simulated r.destination + destinationAdjustment)
      else simulated
    let originAdjustment : ℤ := r.amount - r.deliveredAmount
    if 0 < originAdjustment then
      Function.update afterDestination r.origin (afterDestination r.origin - originAdjustment)
    else afterDestination
  else Function.update simulated r.destination (simulated r.destination + r.amount)

/-- `BaseStrategy.simulatePendingRebalances` -/
def simulatePendingRebalances (rawBalances : ℕ → ℤ) (pendingRebalances : List RouteWithContext) : ℕ → ℤ :=
  pendingRebalances.foldl simulateRebalance rawBalances

/-! ## What the operations change -/

/-- an amount on a chain -/
def onChain (chain : ℕ) (x : ℤ) (c : ℕ) : ℤ := if c = chain then x else 0

theorem update_add (b : ℕ → ℤ) (chain : ℕ) (x : ℤ) (c : ℕ) :
    Function.update b chain (b chain + x) c = b c + onChain chain x c := by
  unfold onChain
  rcases eq_or_ne c chain with rfl | hne
  · rw [Function.update_self, if_pos rfl]
  · rw [Function.update_of_ne hne, if_neg hne, add_zero]

@[simp]
theorem onChain_zero (chain c : ℕ) : onChain chain 0 c = 0 := ite_self _

/-- what one pending rebalance adds to a chain -/
def adjust (r : RouteWithContext) (c : ℕ) : ℤ :=
  if r.executionMethod = some .inventory then
    onChain r.destination (max 0 (r.amount - r.deliveredAmount - r.awaitingDeliveryAmount : ℤ)) c -
      onChain r.origin (max 0 (r.amount - r.deliveredAmount : ℤ)) c
  else onChain r.destination r.amount c

theorem simulateRebalance_apply (b : ℕ → ℤ) (r : RouteWithContext) (c : ℕ) :
    simulateRebalance b r c = b c + adjust r c := by
  unfold simulateRebalance adjust
  split
  · have hsub : ∀ (b : ℕ → ℤ) (x : ℤ), (if 0 < x then Function.update b r.origin (b r.origin - x) else b) c =
        b c - onChain r.origin (max 0 x) c := by
      intro b x
      split
      · rename_i hpos
        have hneg := update_add b r.origin (-x) c
        rw [← sub_eq_add_neg] at hneg
        rw [hneg, max_eq_right hpos.le]
        unfold onChain
        split <;> ring
      · rename_i hpos
        rw [max_eq_left (not_lt.1 hpos), onChain_zero, sub_zero]
    have hadd : ∀ x : ℤ, (if 0 < x then Function.update b r.destination (b r.destination + x) else b) c =
        b c + onChain r.destination (max 0 x) c := by
      intro x
      split
      · rename_i hpos
        rw [update_add, max_eq_right hpos.le]
      · rename_i hpos
        rw [max_eq_left (not_lt.1 hpos), onChain_zero, add_zero]
    rw [hsub, hadd, add_sub_assoc]
  · exact update_add b _ _ c

/-- the simulation adds up what each pending rebalance adds -/
theorem simulatePendingRebalances_apply (b : ℕ → ℤ) (routes : List RouteWithContext) (c : ℕ) :
    simulatePendingRebalances b routes c = b c + (routes.map fun r => adjust r c).sum := by
  induction routes generalizing b with
  | nil => simp [simulatePendingRebalances]
  | cons r routes ih =>
    have hfold := ih (simulateRebalance b r)
    unfold simulatePendingRebalances at hfold ⊢
    rw [List.foldl_cons, hfold, simulateRebalance_apply, List.map_cons, List.sum_cons, add_assoc]

/-- a sum over a part of a list -/
theorem sum_map_filter {α : Type} (l : List α) (p : α → Prop) [DecidablePred p] (g : α → ℤ) :
    ((l.filter fun x => p x).map g).sum = (l.map fun x => if p x then g x else 0).sum := by
  induction l with
  | nil => rfl
  | cons x l ih =>
    rw [List.map_cons, List.sum_cons, ← ih]
    by_cases h : p x
    · rw [List.filter_cons_of_pos (by simpa using h), List.map_cons, List.sum_cons, if_pos h]
    · rw [List.filter_cons_of_neg (by simpa using h), if_neg h, zero_add]

namespace ActionTracker

variable {t : ActionTracker} {i : RebalanceIntent} {a : RebalanceAction}

@[simp]
theorem setIntent_actions (id : ℕ) (status : RebalanceIntentStatus) : (t.setIntent id status).actions = t.actions := rfl

@[simp]
theorem setAction_intents (id : ℕ) (status : RebalanceActionStatus) : (t.setAction id status).intents = t.intents := rfl

@[simp]
theorem startIntent_actions (id : ℕ) : (t.startIntent id).actions = t.actions := by
  unfold startIntent
  split
  · rfl
  · split <;> rfl

@[simp]
theorem checkAndCompleteIntent_actions (id : ℕ) : (t.checkAndCompleteIntent id).actions = t.actions := by
  unfold checkAndCompleteIntent
  split
  · rfl
  · split
    · rfl
    · split <;> rfl

/-- the amount of the actions of an intent, of a status and type -/
def amountFor (t : ActionTracker) (intentId : ℕ) (status : RebalanceActionStatus) (type : ActionType) : ℕ :=
  amountOf (t.getActionsForIntent intentId) status type

/-- as one sum over all actions -/
theorem amountFor_eq (intentId : ℕ) (status : RebalanceActionStatus) (type : ActionType) :
    (t.amountFor intentId status type : ℤ) =
      (t.actions.data.map fun a => if a.intentId = intentId ∧ a.status = status ∧ a.type = type then (a.amount : ℤ)
        else 0).sum := by
  have hcast : ∀ l : List RebalanceAction, ((l.map RebalanceAction.amount).sum : ℤ) =
      (l.map fun a => (a.amount : ℤ)).sum := by
    intro l
    rw [Nat.cast_list_sum, List.map_map]
    rfl
  unfold amountFor amountOf getActionsForIntent
  rw [hcast, List.filter_filter, ← sum_map_filter]
  congr 2
  refine List.filter_congr fun a _ => ?_
  rw [Bool.eq_iff_iff]
  simp only [Bool.and_eq_true, decide_eq_true_eq]
  tauto

theorem getCompletedAmountForIntent_eq (intentId : ℕ) :
    t.getCompletedAmountForIntent intentId =
      t.amountFor intentId .complete .inventoryDeposit + t.amountFor intentId .complete .rebalanceMessage := by
  unfold getCompletedAmountForIntent amountFor amountOf
  induction t.getActionsForIntent intentId with
  | nil => rfl
  | cons a l ih =>
    simp only [List.filter_cons]
    cases hs : a.status <;> cases ht : a.type <;> simp_all <;> omega

/-- a new action adds its amount to its own status and type -/
theorem amountFor_save {tracker : ActionTracker} (hnew : a.id ∉ tracker.actions.data.map RebalanceAction.id) (intentId : ℕ)
    (status : RebalanceActionStatus) (type : ActionType) :
    amountFor { tracker with actions := tracker.actions.save a } intentId status type =
      tracker.amountFor intentId status type +
        if a.intentId = intentId ∧ a.status = status ∧ a.type = type then a.amount else 0 := by
  apply Nat.cast_injective (R := ℤ)
  rw [Nat.cast_add, Nat.cast_ite, amountFor_eq, amountFor_eq, KeyedStore.sum_save hnew, Nat.cast_zero]

/-- completing an action moves its amount -/
theorem amountFor_complete (ha : a ∈ t.actions.data) (hstatus : a.status = .inProgress) (intentId : ℕ)
    (type : ActionType) :
    (t.setAction a.id .complete).amountFor intentId .complete type =
        t.amountFor intentId .complete type + (if a.intentId = intentId ∧ a.type = type then a.amount else 0) ∧
      t.amountFor intentId .inProgress type =
        (t.setAction a.id .complete).amountFor intentId .inProgress type +
          if a.intentId = intentId ∧ a.type = type then a.amount else 0 := by
  constructor
  · apply Nat.cast_injective (R := ℤ)
    rw [Nat.cast_add, Nat.cast_ite, amountFor_eq, amountFor_eq, setAction, KeyedStore.sum_update ha]
    simp [RebalanceAction.setStatus, hstatus]
  · apply Nat.cast_injective (R := ℤ)
    rw [Nat.cast_add, Nat.cast_ite, amountFor_eq, amountFor_eq, setAction, KeyedStore.sum_update ha]
    simp [RebalanceAction.setStatus, hstatus]

/-- completing an action of another intent -/
theorem amountFor_setAction_other (ha : a ∈ t.actions.data) {intentId : ℕ} (hne : a.intentId ≠ intentId)
    (s status : RebalanceActionStatus) (type : ActionType) :
    (t.setAction a.id s).amountFor intentId status type = t.amountFor intentId status type := by
  apply Nat.cast_injective (R := ℤ)
  rw [amountFor_eq, amountFor_eq, setAction, KeyedStore.sum_update ha]
  simp [RebalanceAction.setStatus, hne]

@[simp]
theorem amountFor_setIntent (id : ℕ) (s : RebalanceIntentStatus) (intentId : ℕ) (status : RebalanceActionStatus)
    (type : ActionType) : (t.setIntent id s).amountFor intentId status type = t.amountFor intentId status type := rfl

end ActionTracker

end Hyperlane.Rebalancer
