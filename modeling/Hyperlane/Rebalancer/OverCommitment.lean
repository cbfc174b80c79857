/-
When the routes of one cycle stay within what the chains hold (typescript/rebalancer/src/strategy).

A strategy takes from a chain at most what it expects there beyond what it leaves there, and it expects the raw balance with
what is on its way. So it stays within the raw balance of a chain, less what the strategies before it gave away, if what is on
its way to the chain and what was given away of it are together no more than what it leaves there. Where they are more, it
plans with more than the chain has, and `filterRoutes` holds the raw balance against each of its routes alone.

- `sortedDeltas_surplus`: the surpluses, in terms of raw balances and amounts in flight.
- `Covers.within`: one strategy.
- `getRebalancingRoutes_within`: a strategy, or a composite.
-/
import Hyperlane.Rebalancer.RouteMatching

namespace Hyperlane.Rebalancer

/-- the sum of the amounts of the transfers to a chain -/
def transfersTo (chain : ℕ) (transfers : List Route) : ℤ :=
  ((transfers.filter fun t => t.destination = chain).map Route.amount).sum

/-- what pending rebalances bring to a chain -/
def pendingTo (chain : ℕ) (pending : List PendingRebalance) : ℤ :=
  (pending.map fun r => adjust r.toRouteWithContext chain).sum

namespace Strategy

variable (s : Strategy)

/-- a pending rebalance over the bridge that the strategy would use -/
def ownPending (r : PendingRebalance) : Bool :=
  (s.usesConfiguredBridge r.origin r.destination r.bridge r.externalBridge).toOption.getD false

/-- what is on its way to a chain, as far as the strategy looks at it: pending rebalances bring, pending transfers take, and
routes that are proposed do both -/
def onItsWay (ctx : InflightContext) (chain : ℕ) : ℤ :=
  match s.rule with
  | .collateralDeficit _ =>
    pendingTo chain (ctx.pendingRebalances.filter s.ownPending) - transfersTo chain ctx.pendingTransfers
  | _ => pendingTo chain ctx.pendingRebalances - transfersTo chain ctx.pendingTransfers -
      amountFrom chain ctx.proposedRebalances + amountTo chain ctx.proposedRebalances

/-- what the strategy leaves on a chain: its part of the total, its minimum, or nothing -/
def leaves (rawBalances : RawBalances) (ctx : InflightContext) (chain : ℕ) : ℤ :=
  match s.rule with
  | .weighted config => s.weightedTarget config (simulatedBalances rawBalances ctx) chain
  | .minAmount config =>
    ((s.minAndTarget (config chain) (s.chains.map (simulatedBalances rawBalances ctx)).sum chain).toOption.map
      Prod.fst).getD 0
  | .collateralDeficit _ => 0

/-- what is on its way to a chain, and what was given away of it, are together no more than what is left on it -/
def Covers (rawBalances : RawBalances) (ctx : InflightContext) (given : List StrategyRoute) : Prop :=
  ∀ chain ∈ s.chains, s.onItsWay ctx chain + amountFrom chain given ≤ s.leaves rawBalances ctx chain

instance (rawBalances : RawBalances) (ctx : InflightContext) (given : List StrategyRoute) :
    Decidable (s.Covers rawBalances ctx given) :=
  inferInstanceAs (Decidable (∀ chain ∈ s.chains,
    s.onItsWay ctx chain + amountFrom chain given ≤ s.leaves rawBalances ctx chain))

end Strategy

/-- each strategy covers what it is handed: the routes of those before it are proposed to it, and given away -/
def CompositeCovers (rawBalances : RawBalances) (ctx : InflightContext) : List StrategyRoute → List Strategy → Prop
  | _, [] => True
  | accumulated, s :: strategies =>
    let seen := { ctx with proposedRebalances := accumulated }
    s.Covers rawBalances seen accumulated ∧ ∀ routes, s.getRebalancingRoutes rawBalances seen = .ok routes →
      CompositeCovers rawBalances ctx (accumulated ++ routes) strategies

def IStrategy.Covers (rawBalances : RawBalances) (ctx : InflightContext) : IStrategy → Prop
  | .single s => s.Covers rawBalances ctx []
  | .composite strategies _ => CompositeCovers rawBalances ctx [] strategies

/-! ## Expected balances -/

theorem reserveCollateral_apply (b : ℕ → ℤ) (transfers : List Route) (chain : ℕ) :
    reserveCollateral b transfers chain = b chain - transfersTo chain transfers := by
  induction transfers generalizing b with
  | nil => simp [reserveCollateral, transfersTo]
  | cons t transfers ih =>
    have hfold := ih (Function.update b t.destination (b t.destination - t.amount))
    unfold reserveCollateral at hfold ⊢
    rw [List.foldl_cons, hfold, transfersTo, transfersTo]
    by_cases ht : t.destination = chain
    · rw [List.filter_cons_of_pos (by simpa using ht), List.map_cons, List.sum_cons, ← ht, Function.update_self]
      ring
    · rw [List.filter_cons_of_neg (by simpa using ht), Function.update_of_ne (Ne.symm ht)]

theorem simulateRebalances_apply (b : ℕ → ℤ) (pending : List PendingRebalance) (proposed : List StrategyRoute)
    (chain : ℕ) : simulateRebalances b pending proposed chain =
      b chain + pendingTo chain pending - amountFrom chain proposed + amountTo chain proposed := by
  rw [simulateRebalances, simulateProposedRebalances_apply, simulatePendingRebalances_apply, List.map_map, pendingTo]
  rfl

namespace Strategy

theorem keepWhere_eq {R : Type} {keeps : R → Except StrategyError Bool} {rs kept : List R} (h : keepWhere keeps rs = .ok kept) :
    kept = rs.filter fun r => (keeps r).toOption.getD false := by
  induction rs generalizing kept with
  | nil =>
    cases h
    rfl
  | cons r rs ih =>
    obtain ⟨keep, hkeep, h⟩ := Outcome.bind_eq_ok.1 h
    obtain ⟨others, hothers, h⟩ := Outcome.bind_eq_ok.1 h
    cases h
    rw [ih hothers]
    cases keep with
    | true => rw [List.filter_cons_of_pos (by rw [hkeep]; rfl), if_pos rfl]
    | false => rw [List.filter_cons_of_neg (by rw [hkeep]; exact Bool.false_ne_true), if_neg Bool.false_ne_true]

variable {s : Strategy} {rawBalances : RawBalances} {ctx : InflightContext}

/-- `CollateralDeficitStrategy` leaves nothing on a chain, and fills it up to its buffer -/
theorem collateralStanding_measures {buffer : ℕ → ℚ} {b : ℕ → ℤ} {c : ℕ} {here : Standing}
    (hrule : s.rule = .collateralDeficit buffer) (h : s.collateralStanding buffer b c = .ok here) : ∃ floor target,
      s.floorAndTarget b c = .ok (floor, target) ∧ Measures (b c) floor target here := by
  obtain ⟨token, htoken, h⟩ := Outcome.bind_eq_ok.1 h
  obtain ⟨bufferWei, hbuffer, h⟩ := Outcome.bind_eq_ok.1 h
  refine ⟨0, bufferWei, ?_, ?_⟩
  · rw [floorAndTarget, hrule]
    dsimp only
    rw [htoken, Outcome.ok_bind, hbuffer, Outcome.ok_bind]
    rfl
  · split at h
    · cases h
      exact neg_add_eq_sub _ _
    · split at h
      · cases h
        exact (sub_zero _).symm
      · cases h
        trivial

theorem leaves_of_bounds {floor target : ℤ} {chain : ℕ}
    (h : s.floorAndTarget (simulatedBalances rawBalances ctx) chain = .ok (floor, target)) :
    s.leaves rawBalances ctx chain = floor := by
  rw [floorAndTarget] at h
  rw [leaves]
  cases hrule : s.rule with
  | weighted config =>
    rw [hrule] at h
    exact (Prod.mk.inj (Except.ok.inj h)).1
  | minAmount config =>
    rw [hrule] at h
    dsimp only at h ⊢
    rw [h]
    rfl
  | collateralDeficit buffer =>
    rw [hrule] at h
    obtain ⟨token, -, h⟩ := Outcome.bind_eq_ok.1 h
    obtain ⟨bufferWei, -, h⟩ := Outcome.bind_eq_ok.1 h
    exact (Prod.mk.inj (Except.ok.inj h)).1

/-- the balances that a strategy expects, other than `CollateralDeficitStrategy` -/
theorem simulatedBalances_eq (hs : s.Balances) (chain : ℕ) :
    simulatedBalances rawBalances ctx chain = rawBalances.balance chain + s.onItsWay ctx chain := by
  rw [simulatedBalances, simulateRebalances_apply, reserveCollateral_apply, onItsWay]
  split
  next buffer hrule => exact absurd hrule (hs buffer)
  · ring

/-- the surpluses of `CollateralDeficitStrategy` are over nothing -/
theorem collateral_categorized {buffer : ℕ → ℚ} (hrule : s.rule = .collateralDeficit buffer) {ss ds : List Delta}
    (h : s.sortedDeltas rawBalances ctx = .ok (ss, ds)) : ∃ surpluses deficits,
      ss = sortSurplusesWithOriginPreference ctx.pendingTransfers (scaleDeficits surpluses deficits) surpluses ∧
      Categorized s.chains
        (simulateRebalances (reserveCollateral rawBalances.balance ctx.pendingTransfers)
          (ctx.pendingRebalances.filter s.ownPending) [])
        (s.floorAndTarget (simulateRebalances (reserveCollateral rawBalances.balance ctx.pendingTransfers)
          (ctx.pendingRebalances.filter s.ownPending) [])) surpluses deficits := by
  rw [sortedDeltas, hrule] at h
  obtain ⟨⟨surpluses, deficits⟩, hfound, h⟩ := Outcome.bind_eq_ok.1 h
  cases h
  refine ⟨surpluses, deficits, rfl, ?_⟩
  rw [getCategorizedBalances, hrule] at hfound
  obtain ⟨pending, hpending, hfound⟩ := Outcome.bind_eq_ok.1 hfound
  obtain ⟨proposed, hproposed, hfound⟩ := Outcome.bind_eq_ok.1 hfound
  obtain rfl := keepWhere_eq hpending
  obtain rfl := keepWhere_eq hproposed
  exact categorize_categorized s.nodup (fun c here hc => collateralStanding_measures hrule hc) hfound

/-- **The surpluses of a strategy**: the raw balances with what is on its way, less what the strategy leaves -/
theorem sortedDeltas_surplus {ss ds : List Delta} (h : s.sortedDeltas rawBalances ctx = .ok (ss, ds)) :
    (∀ x ∈ ss, x.owner ∈ s.chains ∧
      x.amount = rawBalances.balance x.owner + s.onItsWay ctx x.owner - s.leaves rawBalances ctx x.owner) ∧
    (ss.map Share.owner).Nodup := by
  by_cases hs : s.Balances
  · obtain ⟨surpluses, deficits, hfound, rfl, -⟩ := sortedDeltas_eq hs h
    have hcategorized := getCategorizedBalances_categorized hs hfound
    refine ⟨fun x hx => ?_, ((sortByAmount_perm _).map _).nodup_iff.2 hcategorized.surplus_nodup⟩
    obtain ⟨hmem, floor, target, hbounds, hamount⟩ := hcategorized.surplus x ((sortByAmount_perm _).mem_iff.1 hx)
    rw [leaves_of_bounds hbounds, ← simulatedBalances_eq hs]
    exact ⟨hmem, hamount⟩
  · obtain ⟨buffer, hrule⟩ : ∃ buffer, s.rule = .collateralDeficit buffer := by
      by_contra hnot
      exact hs fun buffer hrule => hnot ⟨buffer, hrule⟩
    obtain ⟨surpluses, deficits, rfl, hcategorized⟩ := collateral_categorized hrule h
    have hperm : (sortSurplusesWithOriginPreference ctx.pendingTransfers (scaleDeficits surpluses deficits) surpluses).Perm
        surpluses := List.perm_insertionSort _ _
    refine ⟨fun x hx => ?_, (hperm.map _).nodup_iff.2 hcategorized.surplus_nodup⟩
    obtain ⟨hmem, floor, target, hbounds, hamount⟩ := hcategorized.surplus x (hperm.mem_iff.1 hx)
    rw [floorAndTarget, hrule] at hbounds
    obtain ⟨token, -, hbounds⟩ := Outcome.bind_eq_ok.1 hbounds
    obtain ⟨bufferWei, -, hbounds⟩ := Outcome.bind_eq_ok.1 hbounds
    obtain ⟨rfl, -⟩ := Prod.mk.inj (Except.ok.inj hbounds)
    refine ⟨hmem, ?_⟩
    rw [hamount, simulateRebalances_apply, reserveCollateral_apply, onItsWay, leaves, hrule]
    simp only [amountFrom, amountTo, List.filter_nil, List.map_nil, List.sum_nil]
    ring

/-! ## Strategies -/

/-- **One strategy** takes from a chain what is there and was not given away before. -/
theorem Covers.within {given routes : List StrategyRoute} (hcovers : s.Covers rawBalances ctx given)
    (h : s.getRebalancingRoutes rawBalances ctx = .ok routes) {chain : ℕ}
    (hgiven : amountFrom chain given ≤ rawBalances.balance chain) :
    amountFrom chain (given ++ routes) ≤ rawBalances.balance chain := by
  have hcommits := amountFrom_getRebalancingRoutes h chain
  obtain ⟨-, -, h⟩ := Outcome.bind_eq_ok.1 h
  obtain ⟨⟨surpluses, deficits⟩, hsorted, -⟩ := Outcome.bind_eq_ok.1 h
  obtain ⟨hsurplus, hnodup⟩ := sortedDeltas_surplus hsorted
  have hheld : held chain surpluses ≤ rawBalances.balance chain - amountFrom chain given := by
    refine held_le hnodup (sub_nonneg.2 hgiven) fun x hx howner => ?_
    obtain ⟨hmem, hamount⟩ := hsurplus x hx
    have hcovered := hcovers x.owner hmem
    rw [howner] at hamount hcovered
    omega
  have hle : s.commits rawBalances ctx chain ≤ held chain surpluses := commits_le hsorted chain
  rw [amountFrom_append, hcommits]
  omega

end Strategy

variable {rawBalances : RawBalances} {ctx : InflightContext}

/-- the strategies of a composite, after routes that stay within the raw balance -/
theorem CompositeCovers.within {strategies : List Strategy} {accumulated routes : List StrategyRoute}
    (hcovers : CompositeCovers rawBalances ctx accumulated strategies)
    (h : compositeRoutes rawBalances ctx accumulated strategies = .ok routes) {chain : ℕ}
    (hgiven : amountFrom chain accumulated ≤ rawBalances.balance chain) :
    amountFrom chain (accumulated ++ routes) ≤ rawBalances.balance chain := by
  induction strategies generalizing accumulated routes with
  | nil =>
    cases h
    rw [List.append_nil]
    exact hgiven
  | cons s strategies ih =>
    obtain ⟨here, hhere, h⟩ := Outcome.bind_eq_ok.1 h
    obtain ⟨later, hlater, h⟩ := Outcome.bind_eq_ok.1 h
    cases h
    obtain ⟨hfirst, hrest⟩ := hcovers
    have hwithin := ih (hrest here hhere) hlater (hfirst.within hhere hgiven)
    rw [List.append_assoc] at hwithin
    exact hwithin

end Hyperlane.Rebalancer
