/-
What the rebalancer simulates and what the chains will hold: `simulatePendingRebalances` over the context of the tracker
(typescript/rebalancer/src/strategy/BaseStrategy.ts, tracking/InflightContextAdapter.ts), and after a restart
(`recoverAction` of tracking/ActionTracker.ts).

- `GoodIntent.balance`: what has happened and what is still to come of an intent is its full effect.
- `simulated_planned`: the simulated balances are the first ones with every started intent carried out in full.
- `recovered_simulated`: a recovered message is simulated as a movable collateral send, whatever it is.
- `simulation_predicts`: the two claims about the simulation; the second fails for every deposit in flight.
-/
import Hyperlane.Rebalancer.Execution

namespace Hyperlane.Rebalancer

open ActionTracker

/-! ## The simulation and the future -/

/-- the balances that a strategy works with -/
def simulated (w : World) : ℕ → ℤ := simulatePendingRebalances w.balances w.tracker.pendingRebalances

/-- the balances once everything in flight has arrived -/
def eventual (w : World) (c : ℕ) : ℤ :=
  w.balances c + (w.tracker.actions.data.map fun a => if a.status = .inProgress then onChain a.destination (arrival a) c else 0).sum

/-- the message of an action -/
def messageOf (a : RebalanceAction) (messageId : ℕ) : ExplorerMessage :=
  ⟨messageId, a.origin, a.destination, a.amount, some a.createdAt⟩

/-- the messages in flight -/
def inflightMessages (t : ActionTracker) : List ExplorerMessage :=
  t.actions.data.filterMap fun a => if a.status = .inProgress then a.messageId.map (messageOf a) else none

/-- the loop of `initialize`, with a new id for the intent of each message -/
def recoverAll (t : ActionTracker) (messages : List (ExplorerMessage × ℕ)) (now : ℕ) : ActionTracker :=
  messages.foldl (fun t p => t.recoverAction p.1 p.2 now) t

/-- a restart: an empty tracker, and `recoverAction` of every message in flight -/
def restart (w : World) (uuids : List ℕ) (now : ℕ) : World :=
  { w with tracker := recoverAll .empty ((inflightMessages w.tracker).zip uuids) now }

/-- the step is not the first action of its intent -/
def Continues (w : World) : Step → Prop
  | .deposit intentId _ _ _ _ | .move intentId _ _ _ _ _ | .send intentId _ _ _ =>
    ∀ i, w.tracker.intents.get? intentId = some i → i.status ≠ .notStarted
  | .create .. | .settle _ => True

/-! ## What is planned -/

/-- an intent carried out in full, if it is started -/
def planned (i : RebalanceIntent) (c : ℕ) : ℤ :=
  if i.status = .notStarted then 0 else onChain i.destination i.amount c - onChain i.origin i.amount c

/-- what the strategies are told is still to come of an intent -/
def pending (t : ActionTracker) (i : RebalanceIntent) (c : ℕ) : ℤ :=
  if i.status = .inProgress then adjust (t.routeOf i) c else 0

theorem pending_inventory {t : ActionTracker} {i : RebalanceIntent} (hs : i.status = .inProgress)
    (hm : i.executionMethod = some .inventory) (c : ℕ) : pending t i c =
      onChain i.destination (max 0 (i.amount - t.amountFor i.id .complete .inventoryDeposit -
          t.amountFor i.id .inProgress .inventoryDeposit : ℤ)) c -
        onChain i.origin (max 0 (i.amount - t.amountFor i.id .complete .inventoryDeposit : ℤ)) c := by
  simp [pending, adjust, routeOf, amountFor, hs, hm]

theorem pending_movable {t : ActionTracker} {i : RebalanceIntent} (hs : i.status = .inProgress)
    (hm : i.executionMethod ≠ some .inventory) (c : ℕ) : pending t i c = onChain i.destination i.amount c := by
  simp [pending, adjust, routeOf, hs, hm]

/-- what has happened and what is to come of an intent is its full effect -/
theorem GoodIntent.balance {t : ActionTracker} {i : RebalanceIntent} (h : GoodIntent t i) (c : ℕ) :
    happened t i c + pending t i c = planned i c := by
  rcases h.status with hs | hs | hs
  · simp [happened, pending, planned, hs, amountFor_idle (h.idle hs)]
  · by_cases hm : i.executionMethod = some .inventory
    · obtain ⟨⟨hsent, harrived⟩, hbounded, -⟩ := h.inventory hm
      unfold deposited at hbounded
      rw [pending_inventory hs hm, max_eq_right (by omega), max_eq_right (by omega)]
      simp only [happened, planned, hs, hsent, harrived, reduceCtorEq, if_false, onChain]
      split_ifs <;> push_cast <;> ring
    · obtain ⟨⟨hawaiting, hdelivered⟩, hopen, -⟩ := h.movable hm
      obtain ⟨hsent, harrived⟩ := hopen hs
      simp only [pending_movable hs hm, happened, planned, hs, hawaiting, hdelivered, hsent, harrived, reduceCtorEq,
        if_false, onChain]
      split_ifs <;> push_cast <;> ring
  · have hnone : pending t i c = 0 := by simp [pending, hs]
    by_cases hm : i.executionMethod = some .inventory
    · obtain ⟨⟨hsent, harrived⟩, hbounded, hdone⟩ := h.inventory hm
      have hdelivered := hdone hs
      have hawaiting : t.amountFor i.id .inProgress .inventoryDeposit = 0 := by
        unfold deposited at hbounded
        omega
      simp [hnone, happened, planned, hs, hsent, harrived, hawaiting, hdelivered]
    · obtain ⟨⟨hawaiting, hdelivered⟩, -, hdone⟩ := h.movable hm
      obtain ⟨hsent, harrived⟩ := hdone hs
      simp [hnone, happened, planned, hs, hawaiting, hdelivered, hsent, harrived]

/-! ## The simulation over a run -/

/-- the simulation as a sum over the intents -/
theorem simulate_pending (b : ℕ → ℤ) (t : ActionTracker) (c : ℕ) :
    simulatePendingRebalances b t.pendingRebalances c = b c + (t.intents.data.map fun i => pending t i c).sum := by
  rw [simulatePendingRebalances_apply, pendingRebalances, List.map_map, getActiveRebalanceIntents, sum_map_filter]
  rfl

/-- every started intent is simulated as carried out in full, whatever its actions did so far -/
theorem simulated_planned {B₀ : ℕ → ℤ} {w : World} (h : Good B₀ w) (c : ℕ) :
    simulated w c = B₀ c + (w.tracker.intents.data.map fun i => planned i c).sum := by
  have hsum : (w.tracker.intents.data.map fun i => planned i c) =
      w.tracker.intents.data.map fun i => happened w.tracker i c + pending w.tracker i c :=
    List.map_congr_left fun i hi => ((h.intents i hi).balance c).symm
  calc simulated w c = w.balances c + (w.tracker.intents.data.map fun i => pending w.tracker i c).sum :=
        simulate_pending _ _ _
    _ = B₀ c + ((w.tracker.intents.data.map fun i => happened w.tracker i c).sum +
          (w.tracker.intents.data.map fun i => pending w.tracker i c).sum) := by rw [h.balances c, add_assoc]
    _ = B₀ c + (w.tracker.intents.data.map fun i => planned i c).sum := by rw [hsum, List.sum_map_add]

theorem planned_started {i : RebalanceIntent} (h : i.status ≠ .notStarted) (c : ℕ) : planned (started i) c = planned i c := by
  rw [started, if_neg h]

theorem planned_checked {t : ActionTracker} {i : RebalanceIntent} (h : i.status ≠ .notStarted) (c : ℕ) :
    planned (checked t i) c = planned i c := by
  unfold checked
  split
  · rfl
  · split
    · simp [planned, RebalanceIntent.setStatus, h]
    · rfl

/-- the first action apart, no step changes what is planned -/
theorem step_planned {B₀ : ℕ → ℤ} {w w' : World} {scale : ℕ → NormalizedScale} {s : Step} (h : Good B₀ w)
    (hcontinues : Continues w s) (hstep : step scale w s = some w') (c : ℕ) :
    (w'.tracker.intents.data.map fun i => planned i c).sum = (w.tracker.intents.data.map fun i => planned i c).sum := by
  have hact : ∀ (i : RebalanceIntent) (a : RebalanceAction), i ∈ w.tracker.intents.data → i.status ≠ .notStarted →
      ((startIntent { w.tracker with actions := w.tracker.actions.save a } i.id).intents.data.map fun i => planned i c).sum =
        (w.tracker.intents.data.map fun i => planned i c).sum := by
    intro i a hi hs
    have hr := restatus_start { w.tracker with actions := w.tracker.actions.save a } hi rfl
    rw [hr.sum, planned_started hs, sub_self, add_zero]
  cases s with
  | create id origin destination amount method now =>
    simp only [step] at hstep
    split at hstep
    · rename_i hnew
      cases hstep
      simp only [createRebalanceIntent]
      rw [KeyedStore.sum_save hnew]
      simp [planned]
    · cases hstep
  | deposit intentId actionId messageId amount now =>
    simp only [step] at hstep
    cases hget : w.tracker.intents.get? intentId with
    | none => simp [hget] at hstep
    | some i =>
      obtain ⟨hi, rfl⟩ := KeyedStore.get?_eq_some.1 hget
      simp only [hget] at hstep
      split at hstep
      · cases hstep
        exact hact i _ hi (hcontinues i hget)
      · cases hstep
  | move intentId actionId origin destination amount now =>
    simp only [step] at hstep
    cases hget : w.tracker.intents.get? intentId with
    | none => simp [hget] at hstep
    | some i =>
      obtain ⟨hi, rfl⟩ := KeyedStore.get?_eq_some.1 hget
      simp only [hget] at hstep
      split at hstep
      · cases hstep
        exact hact i _ hi (hcontinues i hget)
      · cases hstep
  | send intentId actionId messageId now =>
    simp only [step] at hstep
    cases hget : w.tracker.intents.get? intentId with
    | none => simp [hget] at hstep
    | some i =>
      obtain ⟨hi, rfl⟩ := KeyedStore.get?_eq_some.1 hget
      simp only [hget] at hstep
      split at hstep
      · cases hstep
        exact hact i _ hi (hcontinues i hget)
      · cases hstep
  | settle actionId =>
    obtain ⟨a, ha, -, -, rfl⟩ := step_settle_cases hstep
    obtain ⟨i, hi, hid, -⟩ := h.actions a ha
    have hs : i.status ≠ .notStarted := fun hidle => (h.intents i hi).idle hidle a ha hid.symm
    have hr := restatus_check (t := w.tracker) (w.tracker.setAction a.id .complete) hi rfl
    rw [← hid, hr.sum, planned_checked hs, sub_self, add_zero]

/-- the simulated balances stay the same at every step but the first action of an intent -/
theorem step_simulated {B₀ : ℕ → ℤ} {w w' : World} {scale : ℕ → NormalizedScale} {s : Step} (h : Good B₀ w)
    (hexact : Exact scale w s) (hcontinues : Continues w s) (hstep : step scale w s = some w') :
    simulated w' = simulated w := by
  funext c
  rw [simulated_planned (step_good h hexact hstep), simulated_planned h, step_planned h hcontinues hstep]

/-! ## After a restart -/

/-- an intent as `recoverAction` makes it -/
def Recovered (t : ActionTracker) : Prop := ∀ i ∈ t.intents.data, i.status = .inProgress ∧ i.executionMethod = none

theorem recovered_pending {t : ActionTracker} (h : Recovered t) (b : ℕ → ℤ) (c : ℕ) :
    simulatePendingRebalances b t.pendingRebalances c =
      b c + (t.intents.data.map fun i => onChain i.destination i.amount c).sum := by
  rw [simulate_pending]
  congr 2
  refine List.map_congr_left fun i hi => ?_
  obtain ⟨hs, hm⟩ := h i hi
  exact pending_movable hs (by simp [hm]) c

/-- recovered messages are simulated as movable collateral on its way to their destination -/
theorem recovered_simulated {t : ActionTracker} (now : ℕ) {messages : List (ExplorerMessage × ℕ)} (h : Recovered t)
    (hids : (messages.map fun p => p.1.msgId).Nodup) (huuids : (messages.map Prod.snd).Nodup)
    (hnew : ∀ p ∈ messages, p.1.msgId ∉ t.actions.data.map RebalanceAction.id)
    (hnewUuid : ∀ p ∈ messages, p.2 ∉ t.intents.data.map RebalanceIntent.id) (b : ℕ → ℤ) (c : ℕ) :
    simulatePendingRebalances b (recoverAll t messages now).pendingRebalances c =
      b c + ((t.intents.data.map fun i => onChain i.destination i.amount c).sum +
        (messages.map fun p => onChain p.1.destination p.1.amount c).sum) := by
  induction messages generalizing t with
  | nil =>
    rw [List.map_nil, List.sum_nil, add_zero]
    exact recovered_pending h b c
  | cons p messages ih =>
    rw [List.map_cons, List.nodup_cons] at hids huuids
    have hnone : t.actions.get? p.1.msgId = none := KeyedStore.get?_eq_none.2 (hnew p List.mem_cons_self)
    have hfresh := hnewUuid p List.mem_cons_self
    have hfreshAction := hnew p List.mem_cons_self
    have hrecover : t.recoverAction p.1 p.2 now = ⟨t.intents.save ⟨p.2, .inProgress, p.1.origin, p.1.destination,
        p.1.amount, none, p.1.sendOccurredAt.getD now⟩, t.actions.save ⟨p.1.msgId, .inProgress, .rebalanceMessage, p.2,
        some p.1.msgId, p.1.origin, p.1.destination, p.1.amount, p.1.sendOccurredAt.getD now⟩⟩ := by
      simp only [recoverAction, hnone]
    have hstep := ih (t := t.recoverAction p.1 p.2 now) ?_ hids.2 huuids.2 ?_ ?_
    · unfold recoverAll at hstep ⊢
      rw [List.foldl_cons, hstep, hrecover, KeyedStore.sum_save hfresh, List.map_cons, List.sum_cons]
      ring
    · intro i hi
      rw [hrecover, KeyedStore.mem_save hfresh] at hi
      rcases hi with hi | rfl
      · exact h i hi
      · exact ⟨rfl, rfl⟩
    · intro q hq hmem
      rw [hrecover, KeyedStore.data_save hfreshAction, List.map_append, List.mem_append] at hmem
      rcases hmem with hmem | hmem
      · exact hnew q (List.mem_cons_of_mem _ hq) hmem
      · refine hids.1 ?_
        rw [List.map_singleton, List.mem_singleton] at hmem
        exact List.mem_map.2 ⟨q, hq, hmem⟩
    · intro q hq hmem
      rw [hrecover, KeyedStore.data_save hfresh, List.map_append, List.mem_append] at hmem
      rcases hmem with hmem | hmem
      · exact hnewUuid q (List.mem_cons_of_mem _ hq) hmem
      · refine huuids.1 ?_
        rw [List.map_singleton, List.mem_singleton] at hmem
        exact List.mem_map.2 ⟨q, hq, hmem⟩

/-- the ids of the messages in flight are ids of messages of actions -/
theorem inflightMessages_ids (actions : List RebalanceAction) :
    ((actions.filterMap fun a => if a.status = .inProgress then a.messageId.map (messageOf a) else none).map
      ExplorerMessage.msgId).Sublist (actions.filterMap RebalanceAction.messageId) := by
  induction actions with
  | nil => exact .slnil
  | cons a actions ih =>
    by_cases hs : a.status = .inProgress
    · cases hm : a.messageId with
      | none => simpa [hs, hm] using ih
      | some m => simpa [hs, hm, messageOf] using ih
    · cases hm : a.messageId with
      | none => simpa [hs, hm] using ih
      | some m => simpa [hs, hm] using ih.trans (List.sublist_cons_self m _)

/-- the amounts of the messages in flight, as a sum over the actions -/
theorem inflightMessages_sum (actions : List RebalanceAction) (c : ℕ) :
    ((actions.filterMap fun a => if a.status = .inProgress then a.messageId.map (messageOf a) else none).map
        fun m => onChain m.destination m.amount c).sum =
      (actions.map fun a => if a.status = .inProgress ∧ a.messageId ≠ none then onChain a.destination a.amount c
        else 0).sum := by
  induction actions with
  | nil => rfl
  | cons a actions ih =>
    rw [List.map_cons, List.sum_cons, ← ih]
    by_cases hs : a.status = .inProgress
    · cases hm : a.messageId with
      | none => simp [hs, hm]
      | some m => simp [hs, hm, messageOf]
    · simp [hs]

/-- what is simulated after a restart -/
theorem restart_simulated {B₀ : ℕ → ℤ} {w : World} (h : Good B₀ w) {uuids : List ℕ} (huuids : uuids.Nodup)
    (hlen : uuids.length = (inflightMessages w.tracker).length) (now c : ℕ) :
    simulated (restart w uuids now) c = w.balances c +
      (w.tracker.actions.data.map fun a =>
        if a.status = .inProgress ∧ a.messageId ≠ none then onChain a.destination a.amount c else 0).sum := by
  have hzip : ((inflightMessages w.tracker).zip uuids).map Prod.fst = inflightMessages w.tracker :=
    List.map_fst_zip hlen.ge
  have hids : (((inflightMessages w.tracker).zip uuids).map fun p => p.1.msgId).Nodup := by
    have hfst := congrArg (List.map ExplorerMessage.msgId) hzip
    rw [List.map_map] at hfst
    change (((inflightMessages w.tracker).zip uuids).map (ExplorerMessage.msgId ∘ Prod.fst)).Nodup
    rw [hfst]
    exact (inflightMessages_ids _).nodup h.messages
  have hsnd : (((inflightMessages w.tracker).zip uuids).map Prod.snd).Nodup := by
    rw [List.map_snd_zip hlen.le]
    exact huuids
  have hrecovered := recovered_simulated (t := .empty) now
    (by simp [Recovered, ActionTracker.empty, KeyedStore.empty]) hids hsnd
    (by simp [ActionTracker.empty, KeyedStore.empty]) (by simp [ActionTracker.empty, KeyedStore.empty]) w.balances c
  have hmessages : (((inflightMessages w.tracker).zip uuids).map fun p => onChain p.1.destination p.1.amount c) =
      (inflightMessages w.tracker).map fun m => onChain m.destination m.amount c := by
    have hmap := congrArg (List.map fun m : ExplorerMessage => onChain m.destination m.amount c) hzip
    rwa [List.map_map] at hmap
  unfold simulated restart
  rw [hrecovered, hmessages, inflightMessages, inflightMessages_sum]
  simp [ActionTracker.empty, KeyedStore.empty]

/-- the simulation after a restart is off by twice each deposit in flight -/
theorem restart_difference {B₀ : ℕ → ℤ} {w : World} (h : Good B₀ w) {uuids : List ℕ} (huuids : uuids.Nodup)
    (hlen : uuids.length = (inflightMessages w.tracker).length) (now c : ℕ) :
    simulated (restart w uuids now) c - eventual w c =
      (w.tracker.actions.data.map fun a =>
        if a.status = .inProgress ∧ a.type = .inventoryDeposit then onChain a.destination (2 * a.amount) c else 0).sum := by
  rw [restart_simulated h huuids hlen, eventual, add_sub_add_left_eq_sub, sub_eq_iff_eq_add, ← List.sum_map_add]
  congr 1
  refine List.map_congr_left fun a ha => ?_
  obtain ⟨i, -, -, hserves⟩ := h.actions a ha
  by_cases hs : a.status = .inProgress
  · cases htype : a.type with
    | inventoryDeposit =>
      have hm : a.messageId ≠ none := fun hm => by
        have hmovement := hserves.messageId.1 hm
        rw [htype] at hmovement
        cases hmovement
      simp only [hs, hm, arrival, htype, onChain, ne_eq, not_false_eq_true, and_self, if_true]
      split_ifs <;> ring
    | inventoryMovement => simp [hs, hserves.messageId.2 htype, arrival, htype]
    | rebalanceMessage =>
      have hm : a.messageId ≠ none := fun hm => by
        have hmovement := hserves.messageId.1 hm
        rw [htype] at hmovement
        cases hmovement
      simp [hs, hm, arrival, htype]
  · simp [hs]

theorem restart_predicts_iff {B₀ : ℕ → ℤ} {w : World} (h : Good B₀ w) {uuids : List ℕ} (huuids : uuids.Nodup)
    (hlen : uuids.length = (inflightMessages w.tracker).length) (now : ℕ) :
    simulated (restart w uuids now) = eventual w ↔
      ∀ a ∈ w.tracker.actions.data, a.status = .inProgress → a.type = .inventoryDeposit → a.amount = 0 := by
  have hdiff := restart_difference h huuids hlen now
  constructor
  · intro heq a ha hs htype
    have hzero := hdiff a.destination
    rw [heq, sub_self] at hzero
    have hle := List.single_le_sum (l := w.tracker.actions.data.map fun b =>
        if b.status = .inProgress ∧ b.type = .inventoryDeposit then onChain b.destination (2 * b.amount) a.destination
        else 0) ?_ _ (List.mem_map_of_mem ha)
    · rw [← hzero, if_pos ⟨hs, htype⟩, onChain, if_pos rfl] at hle
      omega
    · intro x hx
      obtain ⟨b, -, rfl⟩ := List.mem_map.1 hx
      unfold onChain
      split_ifs <;> positivity
  · intro hnone
    funext c
    have hzero : (w.tracker.actions.data.map fun a =>
        if a.status = .inProgress ∧ a.type = .inventoryDeposit then onChain a.destination (2 * a.amount) c else 0) =
        w.tracker.actions.data.map fun _ => (0 : ℤ) := by
      refine List.map_congr_left fun a ha => ?_
      split_ifs with hboth
      · simp [hnone a ha hboth.1 hboth.2]
      · rfl
    have hsum := hdiff c
    rw [hzero] at hsum
    simp only [List.map_const', List.sum_replicate, smul_zero] at hsum
    exact sub_eq_zero.1 hsum

/-- **The simulation predicts what is delivered, but for deposits recovered after a restart.** In every run from an empty
tracker in which each movable collateral send moves the amount of its intent, with any interleaving of any number of
intents: the simulated balances are the first ones with every started intent carried out in full, and no step but the
first action of an intent changes them; after a restart that recovers every message in flight they are what the chains
will hold once everything is delivered if and only if no inventory deposit is in flight. -/
theorem simulation_predicts (scale : ℕ → NormalizedScale) (B₀ : ℕ → ℤ) (steps : List Step) (w : World)
    (hrun : run scale ⟨B₀, .empty⟩ steps = some w) (hexact : AllExact scale ⟨B₀, .empty⟩ steps) :
    (∀ c, simulated w c = B₀ c + (w.tracker.intents.data.map fun i => planned i c).sum) ∧
    (∀ s w', Exact scale w s → Continues w s → step scale w s = some w' → simulated w' = simulated w) ∧
    ∀ (uuids : List ℕ) (now : ℕ), uuids.Nodup → uuids.length = (inflightMessages w.tracker).length →
      (simulated (restart w uuids now) = eventual w ↔
        ∀ a ∈ w.tracker.actions.data, a.status = .inProgress → a.type = .inventoryDeposit → a.amount = 0) := by
  have h := run_good (good_empty B₀) hexact hrun
  refine ⟨simulated_planned h, fun s w' hs hc hstep => step_simulated h hs hc hstep, fun uuids now huuids hlen => ?_⟩
  exact restart_predicts_iff h huuids hlen now

def identityScale : NormalizedScale := ⟨1, 1, Nat.one_pos, Nat.one_pos⟩

/-- an inventory intent from chain 1 to chain 2, with a deposit on chain 2 whose message is in flight -/
def depositInFlight : List Step := [.create 7 1 2 100 .inventory 0, .deposit 7 20 30 60 0]

/-- the deposit is delivered -/
def depositDelivered : List Step := depositInFlight ++ [.settle 20]

def firstBalances : ℕ → ℤ := fun c => if c = 1 then 200 else 50

/-- before and after the delivery 100 is simulated from chain 1 to chain 2 -/
theorem deposit_simulated : ∃ w, run (fun _ => identityScale) ⟨firstBalances, .empty⟩ depositDelivered = some w ∧
    simulated w 1 = 100 ∧ simulated w 2 = 150 := by
  refine ⟨_, rfl, ?_, ?_⟩
  · have h := (simulation_predicts (fun _ => identityScale) firstBalances depositDelivered _ rfl
      ⟨trivial, fun _ _ => ⟨trivial, fun _ _ => ⟨trivial, fun _ _ => trivial⟩⟩⟩).1 1
    exact h.trans (by decide)
  · have h := (simulation_predicts (fun _ => identityScale) firstBalances depositDelivered _ rfl
      ⟨trivial, fun _ _ => ⟨trivial, fun _ _ => ⟨trivial, fun _ _ => trivial⟩⟩⟩).1 2
    exact h.trans (by decide)

/-- after a restart the deposit of 60 in flight to chain 1 is simulated as 60 more there; its delivery takes 60 -/
theorem recovered_deposit_mispredicted :
    ∃ w, run (fun _ => identityScale) ⟨firstBalances, .empty⟩ depositInFlight = some w ∧
      simulated (restart w [9] 0) 1 = 260 ∧ eventual w 1 = 140 := by
  exact ⟨_, rfl, by decide, by decide⟩

end Hyperlane.Rebalancer
