/-
The cycles of the inventory rebalancer: `InventoryRebalancer.rebalance` and `executeRoute`
(typescript/rebalancer/src/core/InventoryRebalancer.ts) with the parts of `ActionTracker` that they go by: the partially
fulfilled intents, and the synchronisation of intents, actions and movements.

A rebalance is two steps, up to the call of `executeRoute` and from it on; every other operation runs from its start to
its end. What balances, probes, bridges and the chains answer is free.
-/
import Hyperlane.Rebalancer.CompletedRecords
import Hyperlane.Rebalancer.Execution

namespace Hyperlane.Rebalancer.InventoryCycle

open ActionTracker
open Tracking (Inflight)

/-! ## The state -/

inductive LastBridgeStatus where
  | pending
  | notFound
deriving DecidableEq

/-- the fields of an action that only movements have -/
structure MovementInfo where
  lastBridgeStatus : Option LastBridgeStatus
  nonPendingSince : Option ℕ
deriving DecidableEq

/-- what `executeRoute` is called with: an intent, and a canonical amount -/
structure Executing where
  intent : RebalanceIntent
  amount : ℕ
deriving DecidableEq

structure State where
  tracker : ActionTracker
  movements : ℕ → MovementInfo
  /-- the route under way -/
  executing : Option Executing

def State.setMovement (s : State) (id : ℕ) (info : MovementInfo) : State :=
  { s with movements := Function.update s.movements id info }

def State.initial : State := ⟨.empty, fun _ => ⟨none, none⟩, none⟩

structure InventoryRoute where
  origin : ℕ
  destination : ℕ
  amount : ℕ
deriving DecidableEq

/-! ## Partially fulfilled intents -/

def DEFAULT_MOVEMENT_STALENESS_MS : ℕ := 30 * 60 * 1000

structure PartialInventoryIntent where
  intent : RebalanceIntent
  completedAmount : ℕ
  remaining : ℤ
  hasInflightDeposit : Bool
deriving DecidableEq

section Tracker

variable (movements : ℕ → MovementInfo) (now : ℕ) (t : ActionTracker)

def inflightMovements (intentId : ℕ) : List RebalanceAction :=
  (t.getActionsForIntent intentId).filter fun a => a.status = .inProgress ∧ a.type = .inventoryMovement

def isStale (a : RebalanceAction) : Bool :=
  (movements a.id).lastBridgeStatus ≠ some .pending ∧
    DEFAULT_MOVEMENT_STALENESS_MS ≤ now - (movements a.id).nonPendingSince.getD a.createdAt

def hasBlockingInflightMovement (intentId : ℕ) : Bool :=
  (inflightMovements t intentId).any fun a => !isStale movements now a

/-- `failRebalanceAction` of each -/
def failMovements (t : ActionTracker) (stale : List RebalanceAction) : ActionTracker :=
  stale.foldl (fun t a => t.setAction a.id .failed) t

/-- one turn of the loop of `getPartiallyFulfilledInventoryIntents` -/
def partialIntent (intent : RebalanceIntent) : ActionTracker × List PartialInventoryIntent :=
  if intent.executionMethod ≠ some .inventory then (t, [])
  else if hasBlockingInflightMovement movements now t intent.id then (t, [])
  else
    let actions := t.getActionsForIntent intent.id
    let staleMovements := (inflightMovements t intent.id).filter (isStale movements now)
    let completedAmount := amountOf actions .complete .inventoryDeposit
    let inflightAmount := amountOf actions .inProgress .inventoryDeposit
    let remaining : ℤ := intent.amount - completedAmount - inflightAmount
    (failMovements t staleMovements,
      if 0 < remaining ∨ 0 < inflightAmount then [⟨intent, completedAmount, remaining, 0 < inflightAmount⟩] else [])

def partialIntents (t : ActionTracker) : List RebalanceIntent → ActionTracker × List PartialInventoryIntent
  | [] => (t, [])
  | intent :: intents =>
    let (t, found) := partialIntent movements now t intent
    let (t, later) := partialIntents t intents
    (t, found ++ later)

def getPartiallyFulfilledInventoryIntents : ActionTracker × List PartialInventoryIntent :=
  partialIntents movements now t
    (t.intents.data.filter (fun i => i.status = .inProgress) ++ t.intents.data.filter fun i => i.status = .notStarted)

/-! ## Synchronisation -/

/-- one turn of the loop of `syncRebalanceIntents` -/
def syncIntent (intentTTL : ℕ) (allInProgressActions : List RebalanceAction) (t : ActionTracker) (intent : RebalanceIntent) :
    ActionTracker :=
  if intent.amount ≤ t.getCompletedAmountForIntent intent.id then t.setIntent intent.id .complete
  else if intentTTL < now - intent.createdAt then
    (allInProgressActions.filter fun a => a.intentId = intent.id).foldl (fun t a => t.setAction a.id .failed)
      (t.setIntent intent.id .failed)
  else t

def syncRebalanceIntents (intentTTL : ℕ) : ActionTracker :=
  (t.intents.data.filter fun i => i.status = .inProgress).foldl
    (syncIntent now intentTTL (t.actions.data.filter fun a => a.status = .inProgress)) t

/-- `completeRebalanceAction` of an action that is there -/
def completeAction (t : ActionTracker) (a : RebalanceAction) : ActionTracker := (t.completeRebalanceAction a.id).getD t

def syncRebalanceActions (inflightMessages : List Inflight) (delivered : RebalanceAction → Bool) : ActionTracker :=
  let recovered := inflightMessages.foldl
    (fun t' m => if t.actions.data.any fun a => a.messageId = some m.msg.msgId then t'
      else t'.recoverAction m.msg m.uuid m.now) t
  (recovered.actions.data.filter fun a => a.status = .inProgress).foldl
    (fun t' a => if a.messageId.isSome && delivered a then completeAction t' a else t') recovered

end Tracker

/-- an answer of a bridge -/
inductive BridgeStatus where
  | complete
  | failed
  | pending
  | notFound
deriving DecidableEq

/-- one turn of the loop of `syncInventoryMovementActions`; no answer where the bridge cannot be asked -/
def syncMovement (answers : ℕ → Option BridgeStatus) (now : ℕ) (s : State) (action : RebalanceAction) : State :=
  match answers action.id with
  | some .complete => { s with tracker := completeAction s.tracker action }
  | some .failed => { s with tracker := s.tracker.setAction action.id .failed }
  | some .pending => s.setMovement action.id ⟨some .pending, none⟩
  | some .notFound => s.setMovement action.id ⟨some .notFound, some ((s.movements action.id).nonPendingSince.getD now)⟩
  | none => s

def syncInventoryMovementActions (answers : ℕ → Option BridgeStatus) (now : ℕ) (s : State) : State :=
  (s.tracker.actions.data.filter fun a => a.status = .inProgress ∧ a.type = .inventoryMovement).foldl
    (syncMovement answers now) s

/-! ## Rebalancing -/

/-- `rebalance` and `continueIntent`, up to `executeRoute`; `none` if the id of a new intent is not new -/
def startRebalance (routes : List InventoryRoute) (id now : ℕ) (s : State) : Option State :=
  let (tracker, active) := getPartiallyFulfilledInventoryIntents s.movements now s.tracker
  match active with
  | p :: _ =>
    if p.hasInflightDeposit then some { s with tracker := tracker }
    else some { s with tracker := tracker, executing := some ⟨p.intent, p.remaining.toNat⟩ }
  | [] =>
    match routes with
    | [] => some { s with tracker := tracker }
    | route :: _ =>
      if id ∉ tracker.intents.data.map RebalanceIntent.id ∧ id ∉ tracker.actions.data.map RebalanceAction.intentId then
        some
          { s with
            tracker := tracker.createRebalanceIntent id route.origin route.destination route.amount (some .inventory) now
            executing := some ⟨⟨id, .notStarted, route.origin, route.destination, route.amount, some .inventory, now⟩,
              route.amount⟩ }
      else none

/-- the probe of the fee-aware maximum -/
inductive MaxTransferProbe where
  | amount (amount : ℕ)
  | insufficientBalance
  | failed

structure TransferCosts where
  minViableTransfer : ℕ
  maxTransferable : ℕ

/-- a movement that the bridge has taken -/
structure Movement where
  actionId : ℕ
  origin : ℕ
  inputRequired : ℕ

/-- a transfer that is confirmed -/
structure TransferReceipt where
  actionId : ℕ
  messageId : Option ℕ

/-- what `executeRoute` meets; `none` where it throws -/
structure Environment where
  costs : Option TransferCosts
  isNative : Bool
  availableInventory : ℕ
  probe : MaxTransferProbe
  transfer : Option TransferReceipt
  movements : List Movement

def maxTransferable (env : Environment) (costs : TransferCosts) (requestedLocalAmount : ℕ) : Option ℕ :=
  if env.isNative then some costs.maxTransferable
  else if env.availableInventory = 0 then some 0
  else
    match env.probe with
    | .amount feeAware => some (if feeAware < requestedLocalAmount then feeAware else requestedLocalAmount)
    | .insufficientBalance => some 0
    | .failed => none

/-- `createRebalanceAction`; `none` if the id is not new -/
def createAction (id : ℕ) (type : ActionType) (intentId : ℕ) (messageId : Option ℕ) (origin destination amount now : ℕ)
    (s : State) : Option State :=
  if id ∈ s.tracker.actions.data.map RebalanceAction.id then none
  else
    let s := s.setMovement id ⟨none, none⟩
    some { s with tracker := s.tracker.createRebalanceAction id type intentId messageId origin destination amount now }

/-- `executeTransferRemote`, whose route is swapped -/
def executeTransferRemote (env : Environment) (intent : RebalanceIntent) (fulfilledCanonicalAmount now : ℕ) (s : State) :
    Option State :=
  match env.transfer with
  | none => some s
  | some receipt =>
    createAction receipt.actionId .inventoryDeposit intent.id receipt.messageId intent.destination intent.origin
      fulfilledCanonicalAmount now s

/-- the movements to the destination that succeed -/
def executeInventoryMovements (intent : RebalanceIntent) (now : ℕ) (s : State) (movements : List Movement) : Option State :=
  movements.foldlM (fun s m => createAction m.actionId .inventoryMovement intent.id none m.origin intent.destination
    m.inputRequired now s) s

def executeRoute (scale : ℕ → NormalizedScale) (env : Environment) (now : ℕ) (intent : RebalanceIntent) (amount : ℕ)
    (s : State) : Option State :=
  let sourceToken := scale intent.destination
  let requestedLocalAmount := minLocalAmountForMessage amount sourceToken
  match env.costs with
  | none => some s
  | some costs =>
    match maxTransferable env costs requestedLocalAmount with
    | none => some s
    | some maxTransferable =>
      let aligned := messageAmountFromLocal maxTransferable sourceToken
      if requestedLocalAmount < costs.minViableTransfer then
        some { s with tracker := s.tracker.setIntent intent.id .complete }
      else if requestedLocalAmount ≤ maxTransferable then
        executeTransferRemote env intent (messageAmountFromLocal requestedLocalAmount sourceToken) now s
      else if 0 < maxTransferable ∧ costs.minViableTransfer ≤ maxTransferable ∧ aligned ≠ 0 then
        executeTransferRemote env intent aligned now s
      else executeInventoryMovements intent now s env.movements

/-! ## Runs -/

inductive Step where
  /-- `rebalance`, with the id of the intent that it may create -/
  | start (routes : List InventoryRoute) (id now : ℕ)
  | execute (env : Environment) (now : ℕ)
  | syncRebalanceIntents (now : ℕ)
  /-- with what the explorer and the delivery checks answer -/
  | syncRebalanceActions (inflightMessages : List Inflight) (delivered : RebalanceAction → Bool)
  | syncInventoryMovementActions (answers : ℕ → Option BridgeStatus) (now : ℕ)

/-- one step; `none` if it cannot happen -/
def step (scale : ℕ → NormalizedScale) (intentTTL : ℕ) (s : State) : Step → Option State
  | .start routes id now => if s.executing.isSome then none else startRebalance routes id now s
  | .execute env now =>
    match s.executing with
    | none => none
    | some e => executeRoute scale env now e.intent e.amount { s with executing := none }
  | .syncRebalanceIntents now => some { s with tracker := syncRebalanceIntents now s.tracker intentTTL }
  | .syncRebalanceActions inflightMessages delivered =>
    some { s with tracker := syncRebalanceActions s.tracker inflightMessages delivered }
  | .syncInventoryMovementActions answers now => some (syncInventoryMovementActions answers now s)

def run (scale : ℕ → NormalizedScale) (intentTTL : ℕ) (s : State) : List Step → Option State
  | [] => some s
  | op :: steps => (step scale intentTTL s op).bind fun s' => run scale intentTTL s' steps

end Hyperlane.Rebalancer.InventoryCycle
