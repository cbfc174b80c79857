/-
Carrying out rebalances: what `InventoryRebalancer.executeRoute` and the movable collateral `Rebalancer`
(typescript/rebalancer/src/core) do to the routers of the chains and to the tracker, one intent among many.

Amounts and router balances are in the canonical unit. An inventory deposit is a transfer from the deficit chain to the
surplus chain, against the direction of its intent; a movable collateral send leaves its origin at once.

- `Good`: the router balances differ from the first ones by what the actions did (`happened`); each intent's status fits
  its actions (`GoodIntent`).
- `Good.touch`: a change to one intent and its actions is checked on this intent alone.
- `step_good`, `run_good`: the invariant holds in every run.
-/
import Hyperlane.Rebalancer.ActionTracker

namespace Hyperlane.Rebalancer

open ActionTracker

/-! ## Amounts -/

/-- the scale of a token, between its local and the canonical unit -/
structure NormalizedScale where
  numerator : ℕ
  denominator : ℕ
  numerator_pos : 0 < numerator
  denominator_pos : 0 < denominator

/-- `normalizeToCanonical` -/
def messageAmountFromLocal (localAmount : ℕ) (scale : NormalizedScale) : ℕ :=
  localAmount * scale.numerator / scale.denominator

/-- `denormalizeToLocal`, which rounds up -/
def minLocalAmountForMessage (messageAmount : ℕ) (scale : NormalizedScale) : ℕ :=
  (messageAmount * scale.denominator + scale.numerator - 1) / scale.numerator

/-- the canonical amount that a send of an amount moves -/
def canonicalAmount (scale : NormalizedScale) (amount : ℕ) : ℕ :=
  messageAmountFromLocal (minLocalAmountForMessage amount scale) scale

/-! ## The chains and the tracker -/

structure World where
  /-- the balance of each chain's router -/
  balances : ℕ → ℤ
  tracker : ActionTracker

inductive Step where
  /-- a route of a strategy becomes an intent -/
  | create (id origin destination amount : ℕ) (method : ExecutionMethod) (now : ℕ)
  /-- `executeRoute`: a deposit on the deficit chain, the destination of the intent -/
  | deposit (intentId actionId messageId amount now : ℕ)
  /-- `executeRoute`: a movement between inventories over an external bridge; no router is involved -/
  | move (intentId actionId origin destination amount now : ℕ)
  /-- a movable collateral rebalance is sent from the origin of the intent -/
  | send (intentId actionId messageId now : ℕ)
  /-- the message of an action is delivered, or its movement arrives, and the action is completed -/
  | settle (actionId : ℕ)

/-- the ids of a new action are new -/
def Fresh (t : ActionTracker) (actionId : ℕ) (messageId : Option ℕ) : Prop :=
  actionId ∉ t.actions.data.map RebalanceAction.id ∧
    ∀ m, messageId = some m → m ∉ t.actions.data.filterMap RebalanceAction.messageId

instance (t : ActionTracker) (actionId : ℕ) : (messageId : Option ℕ) → Decidable (Fresh t actionId messageId)
  | none => decidable_of_iff (actionId ∉ t.actions.data.map RebalanceAction.id) (by simp [Fresh])
  | some m => decidable_of_iff (actionId ∉ t.actions.data.map RebalanceAction.id ∧
      m ∉ t.actions.data.filterMap RebalanceAction.messageId) (by simp [Fresh])

/-- the deposits of an intent so far -/
def deposited (t : ActionTracker) (intentId : ℕ) : ℕ :=
  t.amountFor intentId .complete .inventoryDeposit + t.amountFor intentId .inProgress .inventoryDeposit

/-- what the arrival of an action does to the router of its destination: a deposit's message takes collateral out, a
movable collateral rebalance brings it -/
def arrival (a : RebalanceAction) : ℤ :=
  match a.type with
  | .inventoryDeposit => -a.amount
  | .rebalanceMessage => a.amount
  | .inventoryMovement => 0

/-- one step; `none` if it cannot happen -/
def step (scale : ℕ → NormalizedScale) (w : World) : Step → Option World
  | .create id origin destination amount method now =>
    if id ∉ w.tracker.intents.data.map RebalanceIntent.id then
      some { w with tracker := w.tracker.createRebalanceIntent id origin destination amount (some method) now }
    else none
  | .deposit intentId actionId messageId amount now =>
    match w.tracker.intents.get? intentId with
    | none => none
    | some i =>
      if i.executionMethod = some .inventory ∧ Fresh w.tracker actionId (some messageId) ∧
          deposited w.tracker intentId + amount ≤ i.amount then
        some
          { balances := Function.update w.balances i.destination (w.balances i.destination + amount)
            tracker := w.tracker.createRebalanceAction actionId .inventoryDeposit intentId (some messageId) i.destination
              i.origin amount now }
      else none
  | .move intentId actionId origin destination amount now =>
    match w.tracker.intents.get? intentId with
    | none => none
    | some i =>
      if i.executionMethod = some .inventory ∧ Fresh w.tracker actionId none then
        some { w with tracker :=
          w.tracker.createRebalanceAction actionId .inventoryMovement intentId none origin destination amount now }
      else none
  | .send intentId actionId messageId now =>
    match w.tracker.intents.get? intentId with
    | none => none
    | some i =>
      if i.executionMethod = some .movableCollateral ∧ i.status = .notStarted ∧
          Fresh w.tracker actionId (some messageId) then
        some
          { balances := Function.update w.balances i.origin
              (w.balances i.origin + -(canonicalAmount (scale i.origin) i.amount : ℤ))
            tracker := w.tracker.createRebalanceAction actionId .rebalanceMessage intentId (some messageId) i.origin
              i.destination (canonicalAmount (scale i.origin) i.amount) now }
      else none
  | .settle actionId =>
    match w.tracker.actions.get? actionId with
    | none => none
    | some a =>
      if a.status = .inProgress then
        (w.tracker.completeRebalanceAction actionId).map fun tracker =>
          { balances := Function.update w.balances a.destination (w.balances a.destination + arrival a)
            tracker := tracker }
      else none

/-- the send moves the amount of its intent: the origin's token can represent it -/
def Exact (scale : ℕ → NormalizedScale) (w : World) : Step → Prop
  | .send intentId _ _ _ => ∀ i, w.tracker.intents.get? intentId = some i →
      canonicalAmount (scale i.origin) i.amount = i.amount
  | _ => True

def run (scale : ℕ → NormalizedScale) (w : World) : List Step → Option World
  | [] => some w
  | s :: steps =>
    match step scale w s with
    | none => none
    | some w' => run scale w' steps

/-- every send of a run is exact -/
def AllExact (scale : ℕ → NormalizedScale) (w : World) : List Step → Prop
  | [] => True
  | s :: steps => Exact scale w s ∧ ∀ w', step scale w s = some w' → AllExact scale w' steps

/-! ## Intents and their actions -/

/-- what the actions of an intent did to a chain -/
def happened (t : ActionTracker) (i : RebalanceIntent) (c : ℕ) : ℤ :=
  onChain i.destination (t.amountFor i.id .complete .inventoryDeposit + t.amountFor i.id .inProgress .inventoryDeposit +
      t.amountFor i.id .complete .rebalanceMessage : ℤ) c -
    onChain i.origin (t.amountFor i.id .complete .inventoryDeposit + t.amountFor i.id .inProgress .rebalanceMessage +
      t.amountFor i.id .complete .rebalanceMessage : ℤ) c

/-- the status and the actions of an inventory intent -/
structure InventoryIntent (t : ActionTracker) (i : RebalanceIntent) : Prop where
  messages : t.amountFor i.id .inProgress .rebalanceMessage = 0 ∧ t.amountFor i.id .complete .rebalanceMessage = 0
  bounded : deposited t i.id ≤ i.amount
  complete : i.status = .complete → t.amountFor i.id .complete .inventoryDeposit = i.amount

/-- the status and the actions of a movable collateral intent -/
structure MovableIntent (t : ActionTracker) (i : RebalanceIntent) : Prop where
  deposits : t.amountFor i.id .inProgress .inventoryDeposit = 0 ∧ t.amountFor i.id .complete .inventoryDeposit = 0
  inProgress : i.status = .inProgress →
    t.amountFor i.id .inProgress .rebalanceMessage = i.amount ∧ t.amountFor i.id .complete .rebalanceMessage = 0
  complete : i.status = .complete →
    t.amountFor i.id .inProgress .rebalanceMessage = 0 ∧ t.amountFor i.id .complete .rebalanceMessage = i.amount

structure GoodIntent (t : ActionTracker) (i : RebalanceIntent) : Prop where
  status : i.status = .notStarted ∨ i.status = .inProgress ∨ i.status = .complete
  idle : i.status = .notStarted → ∀ a ∈ t.actions.data, a.intentId ≠ i.id
  inventory : i.executionMethod = some .inventory → InventoryIntent t i
  movable : i.executionMethod ≠ some .inventory → MovableIntent t i

/-- an intent without actions has no amounts -/
theorem amountFor_idle {t : ActionTracker} {id : ℕ} (h : ∀ a ∈ t.actions.data, a.intentId ≠ id)
    (status : RebalanceActionStatus) (type : ActionType) : t.amountFor id status type = 0 := by
  have hnone : t.getActionsForIntent id = [] := by
    rw [getActionsForIntent, List.filter_eq_nil_iff]
    intro a ha
    simpa using h a ha
  rw [amountFor, hnone]
  rfl

/-! ## Changing one intent -/

/-- the intent after the first action, and after an action is completed -/
def started (i : RebalanceIntent) : RebalanceIntent := if i.status = .notStarted then i.setStatus .inProgress else i

def checked (t : ActionTracker) (i : RebalanceIntent) : RebalanceIntent :=
  if i.status = .complete then i
  else if i.amount ≤ t.getCompletedAmountForIntent i.id then i.setStatus .complete else i

/-- of the intents, only the status of one changes -/
structure Restatus (t t' : ActionTracker) (i i' : RebalanceIntent) : Prop where
  same : i' = i ∨ ∃ s, i' = i.setStatus s
  mem : ∀ j, j ∈ t'.intents.data ↔ (j ∈ t.intents.data ∧ j.id ≠ i.id) ∨ j = i'
  sum : ∀ g : RebalanceIntent → ℤ, (t'.intents.data.map g).sum = (t.intents.data.map g).sum + (g i' - g i)

section Touched

variable {t t' : ActionTracker} {i i' : RebalanceIntent} {B₀ : ℕ → ℤ} {w : World}

theorem restatus_refl (hi : i ∈ t.intents.data) (h : t'.intents = t.intents) : Restatus t t' i i := by
  refine ⟨.inl rfl, fun j => ?_, fun g => by rw [h, sub_self, add_zero]⟩
  rw [h]
  constructor
  · intro hj
    by_cases hid : j.id = i.id
    · exact .inr (KeyedStore.eq_of_key hj hi hid)
    · exact .inl ⟨hj, hid⟩
  · rintro (⟨hj, -⟩ | rfl)
    · exact hj
    · exact hi

theorem restatus_set (hi : i ∈ t.intents.data) (h : t'.intents = t.intents) (s : RebalanceIntentStatus) :
    Restatus t (t'.setIntent i.id s) i (i.setStatus s) := by
  refine ⟨.inr ⟨s, rfl⟩, fun j => ?_, fun g => ?_⟩
  · rw [setIntent, h, KeyedStore.mem_update]
    constructor
    · rintro (hj | ⟨k, hk, hid, rfl⟩)
      · exact .inl hj
      · rw [KeyedStore.eq_of_key hk hi hid]
        exact .inr rfl
    · rintro (hj | rfl)
      · exact .inl hj
      · exact .inr ⟨i, hi, rfl, rfl⟩
  · rw [setIntent, h, KeyedStore.sum_update hi]

theorem restatus_start (t' : ActionTracker) (hi : i ∈ t.intents.data) (h : t'.intents = t.intents) :
    Restatus t (t'.startIntent i.id) i (started i) := by
  have hget : t'.intents.get? i.id = some i := by
    rw [h]
    exact KeyedStore.get?_eq_some.2 ⟨hi, rfl⟩
  simp only [startIntent, hget, started]
  split
  · exact restatus_set hi h _
  · exact restatus_refl hi h

theorem restatus_check (t' : ActionTracker) (hi : i ∈ t.intents.data) (h : t'.intents = t.intents) :
    Restatus t (t'.checkAndCompleteIntent i.id) i (checked t' i) := by
  have hget : t'.intents.get? i.id = some i := by
    rw [h]
    exact KeyedStore.get?_eq_some.2 ⟨hi, rfl⟩
  simp only [checkAndCompleteIntent, hget, checked]
  split
  · exact restatus_refl hi h
  · split
    · exact restatus_set hi h _
    · exact restatus_refl hi h

/-- an action does what its intent says -/
structure Serves (i : RebalanceIntent) (a : RebalanceAction) : Prop where
  deposit : a.type = .inventoryDeposit → i.executionMethod = some .inventory ∧ a.destination = i.origin
  movement : a.type = .inventoryMovement → i.executionMethod = some .inventory
  message : a.type = .rebalanceMessage →
    i.executionMethod ≠ some .inventory ∧ a.destination = i.destination ∧ a.amount = i.amount
  messageId : a.messageId = none ↔ a.type = .inventoryMovement

theorem Serves.of_same {a : RebalanceAction} (h : Serves i a) (hsame : i' = i ∨ ∃ s, i' = i.setStatus s) : Serves i' a := by
  rcases hsame with rfl | ⟨s, rfl⟩
  · exact h
  · exact ⟨h.deposit, h.movement, h.message, h.messageId⟩

/-- the invariant: the router balances are the first ones, changed by what the actions did -/
structure Good (B₀ : ℕ → ℤ) (w : World) : Prop where
  intents : ∀ i ∈ w.tracker.intents.data, GoodIntent w.tracker i
  actions : ∀ a ∈ w.tracker.actions.data, ∃ i ∈ w.tracker.intents.data, i.id = a.intentId ∧ Serves i a
  messages : (w.tracker.actions.data.filterMap RebalanceAction.messageId).Nodup
  balances : ∀ c, w.balances c = B₀ c + (w.tracker.intents.data.map fun i => happened w.tracker i c).sum

theorem happened_same (hsame : i' = i ∨ ∃ s, i' = i.setStatus s) (c : ℕ) : happened t i' c = happened t i c := by
  rcases hsame with rfl | ⟨s, rfl⟩
  · rfl
  · rfl

/-- intents whose actions and amounts do not change stay good -/
theorem GoodIntent.frame (h : GoodIntent t i)
    (hamounts : ∀ s type, t'.amountFor i.id s type = t.amountFor i.id s type)
    (hactions : ∀ a ∈ t'.actions.data, a.intentId = i.id → ∃ b ∈ t.actions.data, b.intentId = i.id) : GoodIntent t' i := by
  refine ⟨h.status, fun hs a ha heq => ?_, fun hm => ?_, fun hm => ?_⟩
  · obtain ⟨b, hb, hid⟩ := hactions a ha heq
    exact h.idle hs b hb hid
  · obtain ⟨hmessages, hbounded, hcomplete⟩ := h.inventory hm
    refine ⟨?_, ?_, ?_⟩
    · simpa only [hamounts] using hmessages
    · simpa only [deposited, hamounts] using hbounded
    · simpa only [hamounts] using hcomplete
  · obtain ⟨hdeposits, hopen, hcomplete⟩ := h.movable hm
    refine ⟨?_, ?_, ?_⟩
    · simpa only [hamounts] using hdeposits
    · simpa only [hamounts] using hopen
    · simpa only [hamounts] using hcomplete

/-- a change to one intent and its actions keeps the invariant if it does for this intent -/
theorem Good.touch (h : Good B₀ w) (hi : i ∈ w.tracker.intents.data) (hr : Restatus w.tracker t' i i')
    (hgood : GoodIntent t' i')
    (hamounts : ∀ id, id ≠ i.id → ∀ s type, t'.amountFor id s type = w.tracker.amountFor id s type)
    (hactions : ∀ a ∈ t'.actions.data, (∃ b ∈ w.tracker.actions.data, b.intentId = a.intentId ∧ ∀ j, Serves j b → Serves j a) ∨
      a.intentId = i.id ∧ Serves i a)
    (hmessages : (t'.actions.data.filterMap RebalanceAction.messageId).Nodup) {b : ℕ → ℤ}
    (hbalances : ∀ c, b c = w.balances c + (happened t' i c - happened w.tracker i c)) : Good B₀ ⟨b, t'⟩ := by
  have hid : i'.id = i.id := by
    rcases hr.same with rfl | ⟨s, rfl⟩
    · rfl
    · rfl
  refine ⟨?_, ?_, hmessages, ?_⟩
  · intro j hj
    rcases (hr.mem j).1 hj with ⟨hj, hne⟩ | rfl
    · refine (h.intents j hj).frame (hamounts j.id hne) fun a ha heq => ?_
      rcases hactions a ha with ⟨old, hold, hsame, -⟩ | ⟨hown, -⟩
      · exact ⟨old, hold, hsame.trans heq⟩
      · exact absurd (heq.symm.trans hown) hne
    · exact hgood
  · intro a ha
    rcases hactions a ha with ⟨old, hold, hsame, hserves⟩ | ⟨hown, hserves⟩
    · obtain ⟨j, hj, hjid, hj'⟩ := h.actions old hold
      by_cases hji : j.id = i.id
      · obtain rfl := KeyedStore.eq_of_key hj hi hji
        exact ⟨i', (hr.mem i').2 (.inr rfl), hid.trans (hjid.trans hsame), (hserves j hj').of_same hr.same⟩
      · exact ⟨j, (hr.mem j).2 (.inl ⟨hj, hji⟩), hjid.trans hsame, hserves j hj'⟩
    · exact ⟨i', (hr.mem i').2 (.inr rfl), hid.trans hown.symm, hserves.of_same hr.same⟩
  · intro c
    have hoff : (w.tracker.intents.data.map fun j => happened t' j c).sum =
        (w.tracker.intents.data.map fun j => happened w.tracker j c).sum + (happened t' i c - happened w.tracker i c) :=
      KeyedStore.sum_congr_off hi fun j _ hne => by simp only [happened, hamounts j.id hne]
    calc b c = w.balances c + (happened t' i c - happened w.tracker i c) := hbalances c
      _ = B₀ c + ((w.tracker.intents.data.map fun j => happened w.tracker j c).sum +
            (happened t' i c - happened w.tracker i c)) := by rw [h.balances c, add_assoc]
      _ = B₀ c + (t'.intents.data.map fun j => happened t' j c).sum := by
            rw [← hoff, hr.sum fun j => happened t' j c, happened_same hr.same, sub_self, add_zero]

/-! ## One step -/

theorem Good.idle_of_new (h : Good B₀ w) {id : ℕ} (hnew : id ∉ w.tracker.intents.data.map RebalanceIntent.id) :
    ∀ a ∈ w.tracker.actions.data, a.intentId ≠ id := by
  intro a ha heq
  obtain ⟨i, hi, hid, -⟩ := h.actions a ha
  exact hnew (List.mem_map.2 ⟨i, hi, hid.trans heq⟩)

/-- an intent without actions is good before it is started -/
theorem goodIntent_idle (hs : i.status = .notStarted) (h : ∀ a ∈ t.actions.data, a.intentId ≠ i.id) : GoodIntent t i := by
  have hzero := amountFor_idle h
  refine ⟨.inl hs, fun _ => h, fun _ => ⟨⟨hzero _ _, hzero _ _⟩, ?_, ?_⟩, fun _ => ⟨⟨hzero _ _, hzero _ _⟩, ?_, ?_⟩⟩
  · simp [deposited, hzero]
  · simp [hs]
  · simp [hs]
  · simp [hs]

/-- a new intent has done nothing -/
theorem Good.create (h : Good B₀ w) (hs : i.status = .notStarted)
    (hnew : i.id ∉ w.tracker.intents.data.map RebalanceIntent.id) :
    Good B₀ { w with tracker := { w.tracker with intents := w.tracker.intents.save i } } := by
  have hidle := h.idle_of_new hnew
  refine ⟨?_, ?_, h.messages, ?_⟩
  · intro j hj
    rcases (KeyedStore.mem_save hnew).1 hj with hj | rfl
    · exact (h.intents j hj).frame (fun _ _ => rfl) fun a ha heq => ⟨a, ha, heq⟩
    · exact goodIntent_idle hs hidle
  · intro a ha
    obtain ⟨j, hj, hid, hserves⟩ := h.actions a ha
    exact ⟨j, (KeyedStore.mem_save hnew).2 (.inl hj), hid, hserves⟩
  · intro c
    have hzero : happened w.tracker i c = 0 := by simp [happened, amountFor_idle hidle]
    rw [KeyedStore.sum_save hnew]
    exact (h.balances c).trans (by rw [← add_zero (List.sum _), ← hzero]; rfl)

/-- the store of the actions after a new one -/
theorem messages_save {a : RebalanceAction} (h : (t.actions.data.filterMap RebalanceAction.messageId).Nodup)
    (hfresh : Fresh t a.id a.messageId) : ((t.actions.save a).data.filterMap RebalanceAction.messageId).Nodup := by
  rw [KeyedStore.data_save hfresh.1, List.filterMap_append]
  cases hm : a.messageId with
  | none => simpa [hm] using h
  | some m =>
    have hnew := hfresh.2 m hm
    simp only [List.filterMap_cons, hm, List.filterMap_nil]
    refine h.append (List.nodup_singleton m) fun k hk hk' => ?_
    exact hnew (List.mem_singleton.1 hk' ▸ hk)

/-- a new action of an intent: what remains to be seen is the intent itself and the router balances -/
theorem Good.act (h : Good B₀ w) (hi : i ∈ w.tracker.intents.data) {a : RebalanceAction} (hid : a.intentId = i.id)
    (hfresh : Fresh w.tracker a.id a.messageId) (hserves : Serves i a)
    (hgood : GoodIntent { w.tracker with actions := w.tracker.actions.save a } (started i)) {b : ℕ → ℤ}
    (hbalances : ∀ c, b c = w.balances c +
      (happened { w.tracker with actions := w.tracker.actions.save a } i c - happened w.tracker i c)) :
    Good B₀ ⟨b, startIntent { w.tracker with actions := w.tracker.actions.save a } i.id⟩ := by
  have hr : Restatus w.tracker (startIntent { w.tracker with actions := w.tracker.actions.save a } i.id) i (started i) :=
    restatus_start { w.tracker with actions := w.tracker.actions.save a } hi rfl
  have hdata : ∀ id s type,
      (startIntent { w.tracker with actions := w.tracker.actions.save a } i.id).amountFor id s type =
        amountFor { w.tracker with actions := w.tracker.actions.save a } id s type := by
    intro id s type
    simp only [amountFor, getActionsForIntent, startIntent_actions]
  refine h.touch hi hr ?_ ?_ ?_ ?_ ?_
  · refine hgood.frame (hdata _) fun b hb heq => ?_
    rw [startIntent_actions] at hb
    exact ⟨b, hb, heq⟩
  · intro id hne s type
    rw [hdata, amountFor_save hfresh.1, if_neg fun hsame => hne (hsame.1.symm.trans hid), Nat.add_zero]
  · intro b hb
    rw [startIntent_actions] at hb
    rcases (KeyedStore.mem_save hfresh.1).1 hb with hb | rfl
    · exact .inl ⟨b, hb, rfl, fun _ hj => hj⟩
    · exact .inr ⟨hid, hserves⟩
  · rw [startIntent_actions]
    exact messages_save h.messages hfresh
  · intro c
    rw [hbalances c]
    simp only [happened, hdata]

theorem started_id : (started i).id = i.id := by
  unfold started
  split
  · rfl
  · rfl

theorem started_amount : (started i).amount = i.amount := by
  unfold started
  split
  · rfl
  · rfl

theorem started_method : (started i).executionMethod = i.executionMethod := by
  unfold started
  split
  · rfl
  · rfl

theorem started_ne : (started i).status ≠ .notStarted := by
  unfold started
  split
  · simp [RebalanceIntent.setStatus]
  · assumption

theorem started_complete (h : (started i).status = .complete) : i.status = .complete := by
  unfold started at h
  split at h
  · cases h
  · exact h

theorem GoodIntent.started_status (h : GoodIntent t i) :
    (started i).status = .notStarted ∨ (started i).status = .inProgress ∨ (started i).status = .complete := by
  unfold started
  split
  · exact .inr (.inl rfl)
  · exact h.status

/-- an inventory intent stays good with a new action that fits into its amount -/
theorem GoodIntent.start_inventory (h : GoodIntent t i) (hm : i.executionMethod = some .inventory)
    (hmessages : t'.amountFor i.id .inProgress .rebalanceMessage = 0 ∧ t'.amountFor i.id .complete .rebalanceMessage = 0)
    (hbounded : deposited t' i.id ≤ i.amount)
    (hdelivered : t'.amountFor i.id .complete .inventoryDeposit = t.amountFor i.id .complete .inventoryDeposit) :
    GoodIntent t' (started i) := by
  refine ⟨h.started_status, fun hs => absurd hs started_ne, fun _ => ?_, fun hne => ?_⟩
  · refine ⟨by rwa [started_id], by rwa [started_id, started_amount], fun hs => ?_⟩
    rw [started_id, started_amount, hdelivered]
    exact (h.inventory hm).complete (started_complete hs)
  · rw [started_method] at hne
    exact absurd hm hne

end Touched

theorem step_create {B₀ : ℕ → ℤ} {w w' : World} {scale : ℕ → NormalizedScale} {id origin destination amount now : ℕ}
    {method : ExecutionMethod} (h : Good B₀ w)
    (hstep : step scale w (.create id origin destination amount method now) = some w') : Good B₀ w' := by
  simp only [step] at hstep
  split at hstep
  · rename_i hnew
    cases hstep
    exact h.create rfl hnew
  · cases hstep

theorem step_deposit {B₀ : ℕ → ℤ} {w w' : World} {scale : ℕ → NormalizedScale}
    {intentId actionId messageId amount now : ℕ} (h : Good B₀ w)
    (hstep : step scale w (.deposit intentId actionId messageId amount now) = some w') : Good B₀ w' := by
  simp only [step] at hstep
  cases hget : w.tracker.intents.get? intentId with
  | none => simp [hget] at hstep
  | some i =>
    obtain ⟨hi, rfl⟩ := KeyedStore.get?_eq_some.1 hget
    simp only [hget] at hstep
    split at hstep
    · rename_i hguard
      obtain ⟨hm, hfresh, hroom⟩ := hguard
      cases hstep
      obtain ⟨hmessages, -, -⟩ := (h.intents i hi).inventory hm
      have hsave := amountFor_save (a := ⟨actionId, .inProgress, .inventoryDeposit, i.id, some messageId, i.destination,
        i.origin, amount, now⟩) hfresh.1 i.id
      refine h.act hi rfl hfresh ⟨fun _ => ⟨hm, rfl⟩, fun _ => hm, by simp, by simp⟩ ?_ ?_
      · refine (h.intents i hi).start_inventory hm ?_ ?_ ?_
        · simpa [hsave] using hmessages
        · simp only [deposited, hsave]
          simp only [deposited] at hroom
          simp
          omega
        · simp [hsave]
      · intro c
        rw [update_add]
        simp only [happened, hsave, onChain]
        split_ifs <;> simp_all
    · cases hstep

theorem step_move {B₀ : ℕ → ℤ} {w w' : World} {scale : ℕ → NormalizedScale}
    {intentId actionId origin destination amount now : ℕ} (h : Good B₀ w)
    (hstep : step scale w (.move intentId actionId origin destination amount now) = some w') : Good B₀ w' := by
  simp only [step] at hstep
  cases hget : w.tracker.intents.get? intentId with
  | none => simp [hget] at hstep
  | some i =>
    obtain ⟨hi, rfl⟩ := KeyedStore.get?_eq_some.1 hget
    simp only [hget] at hstep
    split at hstep
    · rename_i hguard
      obtain ⟨hm, hfresh⟩ := hguard
      cases hstep
      obtain ⟨hmessages, hbounded, -⟩ := (h.intents i hi).inventory hm
      have hsave := amountFor_save (a := ⟨actionId, .inProgress, .inventoryMovement, i.id, none, origin, destination,
        amount, now⟩) hfresh.1 i.id
      refine h.act hi rfl hfresh ⟨by simp, fun _ => hm, by simp, by simp⟩ ?_ ?_
      · refine (h.intents i hi).start_inventory hm ?_ ?_ ?_
        · simpa [hsave] using hmessages
        · simpa [deposited, hsave] using hbounded
        · simp [hsave]
      · intro c
        simp [happened, hsave]
    · cases hstep

section Settle

variable {t t' : ActionTracker} {i : RebalanceIntent} {a : RebalanceAction} {B₀ : ℕ → ℤ} {w w' : World}

theorem checked_same : checked t i = i ∨ ∃ s, checked t i = i.setStatus s := by
  unfold checked
  split
  · exact .inl rfl
  · split
    · exact .inr ⟨_, rfl⟩
    · exact .inl rfl

theorem checked_id : (checked t i).id = i.id := by
  rcases checked_same (t := t) (i := i) with h | ⟨s, h⟩
  · rw [h]
  · rw [h]
    rfl

theorem checked_amount : (checked t i).amount = i.amount := by
  rcases checked_same (t := t) (i := i) with h | ⟨s, h⟩
  · rw [h]
  · rw [h]
    rfl

theorem checked_method : (checked t i).executionMethod = i.executionMethod := by
  rcases checked_same (t := t) (i := i) with h | ⟨s, h⟩
  · rw [h]
  · rw [h]
    rfl

/-- a started intent stays so, or is completed by its amounts -/
theorem checked_status (t' : ActionTracker) (h : GoodIntent t i) (hne : i.status ≠ .notStarted) :
    ((checked t' i).status = .inProgress ∧ i.status = .inProgress ∧ t'.getCompletedAmountForIntent i.id < i.amount) ∨
      ((checked t' i).status = .complete ∧
        (i.status = .complete ∨ i.status = .inProgress ∧ i.amount ≤ t'.getCompletedAmountForIntent i.id)) := by
  unfold checked
  rcases h.status with hs | hs | hs
  · exact absurd hs hne
  · rw [if_neg (by simp [hs])]
    split
    · rename_i hle
      exact .inr ⟨rfl, .inr ⟨hs, hle⟩⟩
    · rename_i hlt
      exact .inl ⟨hs, hs, not_le.1 hlt⟩
  · rw [if_pos hs]
    exact .inr ⟨hs, .inl hs⟩

/-- an inventory intent whose deposits are delivered stays good -/
theorem GoodIntent.check_inventory (h : GoodIntent t i) (hne : i.status ≠ .notStarted)
    (hm : i.executionMethod = some .inventory)
    (hmessages : t'.amountFor i.id .inProgress .rebalanceMessage = 0 ∧ t'.amountFor i.id .complete .rebalanceMessage = 0)
    (hbounded : deposited t' i.id ≤ i.amount)
    (hkeep : i.status = .complete → t'.amountFor i.id .complete .inventoryDeposit = i.amount) :
    GoodIntent t' (checked t' i) := by
  have hstatus := checked_status t' h hne
  refine ⟨?_, fun hs => ?_, fun _ => ?_, fun heq => ?_⟩
  · rcases hstatus with ⟨hs, -⟩ | ⟨hs, -⟩
    · exact .inr (.inl hs)
    · exact .inr (.inr hs)
  · rcases hstatus with ⟨hs', -⟩ | ⟨hs', -⟩
    · rw [hs'] at hs
      cases hs
    · rw [hs'] at hs
      cases hs
  · refine ⟨by rwa [checked_id], by rwa [checked_id, checked_amount], fun hs => ?_⟩
    rw [checked_id, checked_amount]
    rcases hstatus with ⟨hs', -⟩ | ⟨-, hdone | ⟨-, hge⟩⟩
    · rw [hs'] at hs
      cases hs
    · exact hkeep hdone
    · rw [getCompletedAmountForIntent_eq, hmessages.2] at hge
      unfold deposited at hbounded
      omega
  · rw [checked_method] at heq
    exact absurd hm heq

/-- completing an action leaves every message id -/
theorem messages_setAction (id : ℕ) (s : RebalanceActionStatus) :
    (t.setAction id s).actions.data.filterMap RebalanceAction.messageId =
      t.actions.data.filterMap RebalanceAction.messageId := by
  rw [setAction, KeyedStore.update, List.filterMap_map]
  refine List.filterMap_congr fun a _ => ?_
  simp only [Function.comp_apply]
  split
  · rfl
  · rfl

/-- an action completes; its intent and the balances remain to be seen -/
theorem Good.settle (h : Good B₀ w) (ha : a ∈ w.tracker.actions.data) (hi : i ∈ w.tracker.intents.data)
    (hid : i.id = a.intentId)
    (hgood : GoodIntent (w.tracker.setAction a.id .complete) (checked (w.tracker.setAction a.id .complete) i)) {b : ℕ → ℤ}
    (hbalances : ∀ c, b c = w.balances c +
      (happened (w.tracker.setAction a.id .complete) i c - happened w.tracker i c)) :
    Good B₀ ⟨b, (w.tracker.setAction a.id .complete).checkAndCompleteIntent i.id⟩ := by
  have hr := restatus_check (t := w.tracker) (w.tracker.setAction a.id .complete) hi rfl
  have hdata : ∀ id s type,
      ((w.tracker.setAction a.id .complete).checkAndCompleteIntent i.id).amountFor id s type =
        (w.tracker.setAction a.id .complete).amountFor id s type := by
    intro id s type
    simp only [amountFor, getActionsForIntent, checkAndCompleteIntent_actions]
  refine h.touch hi hr ?_ ?_ ?_ ?_ ?_
  · refine hgood.frame (hdata _) fun b hb heq => ?_
    rw [checkAndCompleteIntent_actions] at hb
    exact ⟨b, hb, heq⟩
  · intro id hne s type
    rw [hdata]
    exact amountFor_setAction_other ha (fun heq => hne (heq.symm.trans hid.symm)) _ s type
  · intro b hb
    rw [checkAndCompleteIntent_actions, setAction, KeyedStore.mem_update] at hb
    rcases hb with ⟨hb, -⟩ | ⟨y, hy, -, rfl⟩
    · exact .inl ⟨b, hb, rfl, fun _ hj => hj⟩
    · exact .inl ⟨y, hy, rfl, fun j hj => ⟨hj.deposit, hj.movement, hj.message, hj.messageId⟩⟩
  · rw [checkAndCompleteIntent_actions, messages_setAction]
    exact h.messages
  · intro c
    rw [hbalances c]
    simp only [happened, hdata]

/-- the parts of a settling step -/
theorem step_settle_cases {scale : ℕ → NormalizedScale} {actionId : ℕ} (hstep : step scale w (.settle actionId) = some w') :
    ∃ a ∈ w.tracker.actions.data, a.id = actionId ∧ a.status = .inProgress ∧
      w' = ⟨Function.update w.balances a.destination (w.balances a.destination + arrival a),
        (w.tracker.setAction a.id .complete).checkAndCompleteIntent a.intentId⟩ := by
  simp only [step] at hstep
  cases hget : w.tracker.actions.get? actionId with
  | none => simp [hget] at hstep
  | some a =>
    simp only [hget, completeRebalanceAction, Option.map_some] at hstep
    obtain ⟨ha, rfl⟩ := KeyedStore.get?_eq_some.1 hget
    split at hstep
    · rename_i hs
      exact ⟨a, ha, rfl, hs, (Option.some.inj hstep).symm⟩
    · cases hstep

theorem step_settle {scale : ℕ → NormalizedScale} {actionId : ℕ} (h : Good B₀ w)
    (hstep : step scale w (.settle actionId) = some w') : Good B₀ w' := by
  obtain ⟨a, ha, -, hs, rfl⟩ := step_settle_cases hstep
  obtain ⟨i, hi, hid, hserves⟩ := h.actions a ha
  have hgood := h.intents i hi
  have hne : i.status ≠ .notStarted := fun hidle => hgood.idle hidle a ha hid.symm
  have hsums := amountFor_complete ha hs i.id
  simp only [hid.symm, true_and] at hsums ⊢
  have hdeposit := hsums .inventoryDeposit
  have hmessage := hsums .rebalanceMessage
  cases htype : a.type with
  | inventoryDeposit =>
    obtain ⟨hm, hdest⟩ := hserves.deposit htype
    obtain ⟨hmessages, hbounded, hdone⟩ := hgood.inventory hm
    simp only [htype, reduceCtorEq, if_true, if_false, Nat.add_zero] at hdeposit hmessage
    unfold deposited at hbounded
    refine h.settle ha hi hid (hgood.check_inventory hne hm ?_ ?_ ?_) ?_
    · omega
    · unfold deposited
      omega
    · intro hcomplete
      have := hdone hcomplete
      omega
    · intro c
      rw [update_add]
      simp only [happened, arrival, htype, hdest, hmessage, onChain, hdeposit]
      split_ifs <;> push_cast <;> ring
  | inventoryMovement =>
    have hm := hserves.movement htype
    obtain ⟨hmessages, hbounded, hdone⟩ := hgood.inventory hm
    simp only [htype, reduceCtorEq, if_false, Nat.add_zero] at hdeposit hmessage
    unfold deposited at hbounded
    refine h.settle ha hi hid (hgood.check_inventory hne hm ?_ ?_ ?_) ?_
    · omega
    · unfold deposited
      omega
    · intro hcomplete
      have := hdone hcomplete
      omega
    · intro c
      rw [update_add]
      simp [happened, arrival, htype, hmessage, hdeposit]
  | rebalanceMessage =>
    obtain ⟨hm, hdest, hamount⟩ := hserves.message htype
    obtain ⟨hdeposits, hopen, hdone⟩ := hgood.movable hm
    simp only [htype, reduceCtorEq, if_true, if_false, Nat.add_zero] at hdeposit hmessage
    have hstatus := checked_status (w.tracker.setAction a.id .complete) hgood hne
    rw [getCompletedAmountForIntent_eq] at hstatus
    have hall : (checked (w.tracker.setAction a.id .complete) i).status = .complete ∧
        (w.tracker.setAction a.id .complete).amountFor i.id .inProgress .rebalanceMessage = 0 ∧
        (w.tracker.setAction a.id .complete).amountFor i.id .complete .rebalanceMessage = i.amount := by
      rcases hstatus with ⟨-, hin, hlt⟩ | ⟨hc, hcomplete | ⟨hin, -⟩⟩
      · have := hopen hin
        omega
      · have := hdone hcomplete
        exact ⟨hc, by omega, by omega⟩
      · have := hopen hin
        exact ⟨hc, by omega, by omega⟩
    obtain ⟨hc, hsent, harrived⟩ := hall
    refine h.settle ha hi hid ⟨.inr (.inr hc), fun heq => ?_, fun heq => ?_, fun _ => ⟨?_, ?_, ?_⟩⟩ ?_
    · rw [hc] at heq
      cases heq
    · rw [checked_method] at heq
      exact absurd heq hm
    · rw [checked_id]
      omega
    · intro heq
      rw [hc] at heq
      cases heq
    · intro _
      rw [checked_id, checked_amount]
      exact ⟨hsent, harrived⟩
    · intro c
      rw [update_add]
      simp only [happened, arrival, htype, hdest, hmessage, onChain, hdeposit]
      split_ifs <;> push_cast <;> ring

end Settle

theorem step_send {B₀ : ℕ → ℤ} {w w' : World} {scale : ℕ → NormalizedScale} {intentId actionId messageId now : ℕ}
    (h : Good B₀ w) (hexact : Exact scale w (.send intentId actionId messageId now))
    (hstep : step scale w (.send intentId actionId messageId now) = some w') : Good B₀ w' := by
  simp only [step] at hstep
  cases hget : w.tracker.intents.get? intentId with
  | none => simp [hget] at hstep
  | some i =>
    obtain ⟨hi, rfl⟩ := KeyedStore.get?_eq_some.1 hget
    have hamount := hexact i hget
    simp only [hget] at hstep
    split at hstep
    · rename_i hguard
      obtain ⟨hm, hs, hfresh⟩ := hguard
      cases hstep
      have hzero := amountFor_idle ((h.intents i hi).idle hs)
      have hmethod : i.executionMethod ≠ some .inventory := by simp [hm]
      have hsave := amountFor_save (a := ⟨actionId, .inProgress, .rebalanceMessage, i.id, some messageId, i.origin,
        i.destination, canonicalAmount (scale i.origin) i.amount, now⟩) hfresh.1 i.id
      refine h.act hi rfl hfresh ⟨by simp, by simp, fun _ => ⟨hmethod, rfl, hamount⟩,
        by simp⟩ ?_ ?_
      · refine ⟨(h.intents i hi).started_status, fun heq => absurd heq started_ne, fun heq => ?_, fun _ => ⟨?_, ?_, ?_⟩⟩
        · rw [started_method] at heq
          exact absurd heq hmethod
        · simp [started_id, hsave, hzero]
        · intro _
          rw [started_id, started_amount, hsave, hsave, hzero, hzero]
          simp [hamount]
        · intro hdone
          rw [started_complete hdone] at hs
          cases hs
      · intro c
        rw [update_add]
        simp only [happened, hsave, hzero, onChain]
        split_ifs <;> simp_all
    · cases hstep

/-! ## Runs -/

theorem step_good {B₀ : ℕ → ℤ} {w w' : World} {scale : ℕ → NormalizedScale} {s : Step} (h : Good B₀ w)
    (hexact : Exact scale w s) (hstep : step scale w s = some w') : Good B₀ w' := by
  cases s with
  | create => exact step_create h hstep
  | deposit => exact step_deposit h hstep
  | move => exact step_move h hstep
  | send => exact step_send h hexact hstep
  | settle => exact step_settle h hstep

theorem run_good {B₀ : ℕ → ℤ} {w w' : World} {scale : ℕ → NormalizedScale} {steps : List Step} (h : Good B₀ w)
    (hexact : AllExact scale w steps) (hrun : run scale w steps = some w') : Good B₀ w' := by
  induction steps generalizing w with
  | nil =>
    cases hrun
    exact h
  | cons s steps ih =>
    rw [run] at hrun
    cases hstep : step scale w s with
    | none => simp [hstep] at hrun
    | some next =>
      simp only [hstep] at hrun
      exact ih (step_good h hexact.1 hstep) (hexact.2 next hstep) hrun

theorem good_empty (B₀ : ℕ → ℤ) : Good B₀ ⟨B₀, .empty⟩ := by
  refine ⟨?_, ?_, List.nodup_nil, fun c => ?_⟩
  · simp [ActionTracker.empty, KeyedStore.empty]
  · simp [ActionTracker.empty, KeyedStore.empty]
  · simp [ActionTracker.empty, KeyedStore.empty]

end Hyperlane.Rebalancer
