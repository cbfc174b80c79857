/-
How much of a chain the routes of one cycle commit.

The surpluses of a strategy are those of the balances it expects, and the raw balance is held against each route alone.
So a chain whose expected surplus is cut into several legs can be committed beyond its raw balance, and a later strategy
that does not see the earlier routes can commit it again.

Laid end to end in the order of the strategy, each surplus is cut by the deficits it overlaps. A leg is payable when the
raw balance of its source covers it and its bridge takes it.

- `matchLoop_eq`: the loop over surpluses and deficits gives those legs.
- `amountFrom_getRebalancingRoutes`: the routes of a strategy from a chain add up to its payable legs.
- `commits_le`: the payable legs of a chain add up to at most its expected surplus.
-/
import Hyperlane.Core.Outcome
import Hyperlane.Rebalancer.Strategies

namespace Hyperlane.Rebalancer

open Share

namespace Strategy

/-! ## The loop -/

/-- deficits that are not positive come last -/
def PositiveFirst (deficits : List Delta) : Prop := deficits.Pairwise fun d e => d.amount ≤ 0 → e.amount ≤ 0

def positive (deficits : List Delta) : List Delta := deficits.filter fun d => 0 < d.amount

theorem positive_allPositive (deficits : List Delta) : AllPositive (positive deficits) :=
  fun d hd => by simpa using (List.mem_filter.1 hd).2

theorem positive_cons {d : Delta} {ds : List Delta} (h : 0 < d.amount) : positive (d :: ds) = d :: positive ds :=
  List.filter_cons_of_pos (by simpa using h)

theorem positive_of_nonpos {d : Delta} {ds : List Delta} (h : PositiveFirst (d :: ds)) (hd : d.amount ≤ 0) :
    positive (d :: ds) = [] ∧ positive ds = [] := by
  have hall : ∀ e ∈ d :: ds, ¬ 0 < e.amount := by
    intro e he
    rcases List.mem_cons.1 he with rfl | he
    · exact not_lt.2 hd
    · exact not_lt.2 (List.rel_of_pairwise_cons h he hd)
  constructor
  · exact List.filter_eq_nil_iff.2 fun e he => by simpa using hall e he
  · exact List.filter_eq_nil_iff.2 fun e he => by simpa using hall e (List.mem_cons_of_mem d he)

/-- the front deficit with another positive amount -/
theorem PositiveFirst.front {d : Delta} {ds : List Delta} {amount : ℤ} (h : PositiveFirst (d :: ds)) (hpos : 0 < amount) :
    PositiveFirst (⟨d.owner, amount⟩ :: ds) :=
  List.pairwise_cons.2 ⟨fun _ _ hle => absurd hle (not_le.2 hpos), (List.pairwise_cons.1 h).2⟩

/-- **The loop gives the legs of the surpluses and the positive deficits laid end to end.** -/
theorem matchLoop_eq (n : ℕ) (p : ℤ) {ss ds : List Delta} (hss : AllPositive ss) (hds : PositiveFirst ds)
    (hn : ss.length + ds.length ≤ n) : matchLoop n ss ds = layout p ss p (positive ds) := by
  induction n generalizing p ss ds with
  | zero =>
    obtain rfl : ss = [] := List.length_eq_zero_iff.1 (by omega)
    rfl
  | succ n ih =>
    cases ss with
    | nil => rfl
    | cons s ss =>
      cases ds with
      | nil => simp [matchLoop, positive]
      | cons d ds =>
        simp only [List.length_cons] at hn
        have hs := hss.head
        have htail := (List.pairwise_cons.1 hds).2
        rw [matchLoop]
        by_cases hd : 0 < d.amount
        · have hpos := positive_allPositive (d :: ds)
          rw [positive_cons hd] at hpos ⊢
          by_cases hlt : d.amount < s.amount
          · -- the deficit is served, and the surplus keeps the rest
            have hleft : AllPositive (⟨s.owner, s.amount - d.amount⟩ :: ss) := by
              intro x hx
              rcases List.mem_cons.1 hx with rfl | hx
              · exact sub_pos.2 hlt
              · exact hss.tail x hx
            rw [layout_sink_first hss.tail hpos hlt, if_pos hlt, if_pos hd, if_neg (by omega), if_pos (by omega),
              ih (p + d.amount) hleft htail (by simp only [List.length_cons]; omega)]
            rfl
          · -- the surplus is used up
            rw [layout_source_first hss.tail hpos hs (not_lt.1 hlt), if_neg hlt, if_pos hs,
              if_pos (by omega : s.amount - s.amount ≤ 0)]
            split
            · rename_i hzero
              rw [ih (p + s.amount) hss.tail htail (by omega), layout_sink_empty hss.tail (by simp only; omega)]
              rfl
            · rename_i hrest
              have hrest' := not_le.1 hrest
              rw [ih (p + s.amount) hss.tail (hds.front hrest') (by simp only [List.length_cons]; omega),
                positive_cons hrest']
              rfl
        · -- only deficits that are not positive are left
          have hle := not_lt.1 hd
          obtain ⟨hnil, hnil'⟩ := positive_of_nonpos hds hle
          have hlt : s.amount > d.amount := hle.trans_lt hs
          have hleft : AllPositive (⟨s.owner, s.amount - d.amount⟩ :: ss) := by
            intro x hx
            rcases List.mem_cons.1 hx with rfl | hx
            · exact sub_pos.2 hlt
            · exact hss.tail x hx
          rw [hnil, if_pos hlt, if_neg hd, if_neg (by omega), if_pos (by omega),
            ih p hleft htail (by simp only [List.length_cons]; omega), hnil']
          simp

/-! ## What the loop is given -/

theorem positiveFirst_sortByAmount (deltas : List Delta) : PositiveFirst (sortByAmount deltas) := by
  have htotal : Std.Total fun a b : Delta => b.amount ≤ a.amount := ⟨fun a b => le_total b.amount a.amount⟩
  have htrans : IsTrans Delta fun a b => b.amount ≤ a.amount := ⟨fun _ _ _ hab hbc => hbc.trans hab⟩
  refine (List.pairwise_insertionSort (fun a b : Delta => b.amount ≤ a.amount) deltas).imp ?_
  intro a b hba ha
  exact hba.trans ha

theorem categorize_positive {standing : ℕ → Except StrategyError Standing} {chains : List ℕ}
    {surpluses deficits : List Delta} (hstanding : ∀ c amount, standing c = .ok (.surplus amount) → 0 < amount)
    (h : categorize standing chains = .ok (surpluses, deficits)) : AllPositive surpluses := by
  induction chains generalizing surpluses deficits with
  | nil =>
    cases h
    exact fun _ hx => absurd hx List.not_mem_nil
  | cons c chains ih =>
    obtain ⟨here, hhere, h⟩ := Outcome.bind_eq_ok.1 h
    obtain ⟨⟨surpluses', deficits'⟩, hrest, h⟩ := Outcome.bind_eq_ok.1 h
    cases h
    intro x hx
    rcases List.mem_append.1 hx with hx | hx
    · cases here with
      | surplus amount =>
        obtain rfl := List.mem_singleton.1 hx
        exact hstanding c amount hhere
      | deficit amount => cases hx
      | onTarget => cases hx
    · exact ih hrest x hx

variable {s : Strategy} {rawBalances : RawBalances} {ctx : InflightContext}

theorem weightedStanding_surplus {config : ℕ → WeightedConfig} {b : ℕ → ℤ} {chain : ℕ} {amount : ℤ}
    (h : s.weightedStanding config b chain = .surplus amount) : 0 < amount := by
  simp only [weightedStanding] at h
  split at h
  · cases h
  · split at h
    · cases h
      omega
    · cases h

theorem minAmountStanding_surplus {config : ℕ → MinAmountConfig} {b : ℕ → ℤ} {chain : ℕ} {amount : ℤ}
    (h : s.minAmountStanding config b chain = .ok (.surplus amount)) : 0 < amount := by
  obtain ⟨⟨minAmount, targetAmount⟩, -, h⟩ := Outcome.bind_eq_ok.1 h
  simp only at h
  split at h
  · cases h
  · split at h
    · cases h
      assumption
    · cases h

theorem collateralStanding_surplus {buffer : ℕ → ℚ} {b : ℕ → ℤ} {chain : ℕ} {amount : ℤ}
    (h : s.collateralStanding buffer b chain = .ok (.surplus amount)) : 0 < amount := by
  obtain ⟨token, -, h⟩ := Outcome.bind_eq_ok.1 h
  obtain ⟨bufferWei, -, h⟩ := Outcome.bind_eq_ok.1 h
  split at h
  · cases h
  · split at h
    · cases h
      assumption
    · cases h

/-- every strategy finds positive surpluses -/
theorem getCategorizedBalances_positive {balances : ℕ → ℤ} {pending : List PendingRebalance}
    {proposed : List StrategyRoute} {surpluses deficits : List Delta}
    (h : s.getCategorizedBalances balances pending proposed = .ok (surpluses, deficits)) : AllPositive surpluses := by
  unfold getCategorizedBalances at h
  split at h
  · exact categorize_positive (fun c amount hc => weightedStanding_surplus (Except.ok.inj hc)) h
  · exact categorize_positive (fun c amount hc => minAmountStanding_surplus hc) h
  · obtain ⟨filteredPending, -, h⟩ := Outcome.bind_eq_ok.1 h
    obtain ⟨filteredProposed, -, h⟩ := Outcome.bind_eq_ok.1 h
    exact categorize_positive (fun c amount hc => collateralStanding_surplus hc) h

theorem AllPositive.perm {l l' : List Delta} (h : AllPositive l) (hperm : l'.Perm l) : AllPositive l' :=
  fun x hx => h x (hperm.mem_iff.1 hx)

theorem sortedDeltas_sorted {surpluses deficits : List Delta}
    (h : s.sortedDeltas rawBalances ctx = .ok (surpluses, deficits)) :
    AllPositive surpluses ∧ PositiveFirst deficits := by
  unfold sortedDeltas at h
  simp only at h
  split at h
  · obtain ⟨⟨found, wanted⟩, hfound, h⟩ := Outcome.bind_eq_ok.1 h
    cases h
    exact ⟨AllPositive.perm (getCategorizedBalances_positive hfound) (List.perm_insertionSort _ _),
      positiveFirst_sortByAmount _⟩
  · obtain ⟨⟨found, wanted⟩, hfound, h⟩ := Outcome.bind_eq_ok.1 h
    cases h
    exact ⟨AllPositive.perm (getCategorizedBalances_positive hfound) (List.perm_insertionSort _ _),
      positiveFirst_sortByAmount _⟩

/-! ## Legs -/

/-- the surpluses and the positive deficits of a strategy, laid end to end -/
def legs (s : Strategy) (rawBalances : RawBalances) (ctx : InflightContext) : List (Leg ℕ ℕ) :=
  match s.sortedDeltas rawBalances ctx with
  | .error _ => []
  | .ok (surpluses, deficits) => layout 0 surpluses 0 (positive deficits)

/-- the raw balance of the source covers the leg, and the bridge takes it -/
def payable (s : Strategy) (rawBalances : RawBalances) (leg : Leg ℕ ℕ) : Bool :=
  match s.keepsRoute rawBalances ⟨leg.source, leg.sink, leg.amount⟩ with
  | .error _ => false
  | .ok keeps => keeps

/-- the route of a leg -/
def routeOf (s : Strategy) (leg : Leg ℕ ℕ) : Option StrategyRoute := (s.createRoute leg).toOption

/-- the payable legs -/
def payableLegs (s : Strategy) (rawBalances : RawBalances) (ctx : InflightContext) : List (Leg ℕ ℕ) :=
  (s.legs rawBalances ctx).filter fun leg => s.payable rawBalances leg

/-- what the payable legs of a chain add up to -/
def commits (s : Strategy) (rawBalances : RawBalances) (ctx : InflightContext) (chain : ℕ) : ℤ :=
  (((s.payableLegs rawBalances ctx).filter fun leg => leg.source = chain).map Leg.amount).sum

theorem createRoute_route {leg : Leg ℕ ℕ} {route : StrategyRoute} (h : s.createRoute leg = .ok route) :
    route.toRoute = ⟨leg.source, leg.sink, leg.amount⟩ := by
  obtain ⟨bridgeConfig, -, h⟩ := Outcome.bind_eq_ok.1 h
  cases h
  unfold createStrategyRoute
  split
  · rfl
  · rfl

/-- creating and filtering the routes of legs keeps the payable ones -/
theorem filterRoutes_createRoutes {ls : List (Leg ℕ ℕ)} {routes kept : List StrategyRoute}
    (hcreate : s.createRoutes ls = .ok routes) (hfilter : s.filterRoutes rawBalances routes = .ok kept) :
    kept = (ls.filter fun leg => s.payable rawBalances leg).filterMap s.routeOf := by
  induction ls generalizing routes kept with
  | nil =>
    cases hcreate
    cases hfilter
    rfl
  | cons leg ls ih =>
    obtain ⟨route, hroute, hcreate⟩ := Outcome.bind_eq_ok.1 hcreate
    obtain ⟨rest, hrest, hcreate⟩ := Outcome.bind_eq_ok.1 hcreate
    cases hcreate
    obtain ⟨keeps, hkeeps, hfilter⟩ := Outcome.bind_eq_ok.1 hfilter
    obtain ⟨others, hothers, hfilter⟩ := Outcome.bind_eq_ok.1 hfilter
    cases hfilter
    simp only [createRoute_route hroute] at hkeeps
    have hpayable : s.payable rawBalances leg = keeps := by
      rw [payable, hkeeps]
    rw [ih hrest hothers]
    cases keeps with
    | true =>
      have hleg : s.routeOf leg = some route := by
        rw [routeOf, hroute]
        rfl
      rw [List.filter_cons_of_pos hpayable, List.filterMap_cons_some hleg]
      rfl
    | false =>
      rw [List.filter_cons_of_neg (by simp [hpayable])]
      rfl

/-- the routes of a strategy are its payable legs -/
theorem getRebalancingRoutes_eq {routes : List StrategyRoute} (h : s.getRebalancingRoutes rawBalances ctx = .ok routes) :
    routes = (s.payableLegs rawBalances ctx).filterMap s.routeOf := by
  obtain ⟨-, -, h⟩ := Outcome.bind_eq_ok.1 h
  obtain ⟨⟨surpluses, deficits⟩, hsorted, h⟩ := Outcome.bind_eq_ok.1 h
  obtain ⟨created, hcreated, h⟩ := Outcome.bind_eq_ok.1 h
  obtain ⟨hpos, hfirst⟩ := sortedDeltas_sorted hsorted
  rw [matchLoop_eq _ 0 hpos hfirst le_rfl] at hcreated
  rw [payableLegs, legs, hsorted]
  exact filterRoutes_createRoutes hcreated h

theorem createRoutes_all {ls : List (Leg ℕ ℕ)} {routes : List StrategyRoute} (h : s.createRoutes ls = .ok routes) :
    ∀ leg ∈ ls, ∃ route, s.createRoute leg = .ok route := by
  induction ls generalizing routes with
  | nil => exact fun _ hleg => absurd hleg List.not_mem_nil
  | cons first ls ih =>
    obtain ⟨route, hroute, h⟩ := Outcome.bind_eq_ok.1 h
    obtain ⟨rest, hrest, -⟩ := Outcome.bind_eq_ok.1 h
    intro leg hleg
    rcases List.mem_cons.1 hleg with rfl | hleg
    · exact ⟨route, hroute⟩
    · exact ih hrest leg hleg

end Strategy

/-! ## Routes and legs -/

/-- the sum of the amounts of the routes from a chain -/
def amountFrom (chain : ℕ) (routes : List StrategyRoute) : ℤ :=
  ((routes.filter fun r => r.origin = chain).map fun r => r.amount).sum

@[simp]
theorem amountFrom_append (chain : ℕ) (routes routes' : List StrategyRoute) :
    amountFrom chain (routes ++ routes') = amountFrom chain routes + amountFrom chain routes' := by
  simp [amountFrom]

namespace Strategy

variable {s : Strategy} {rawBalances : RawBalances} {ctx : InflightContext}

theorem amountFrom_legs {ls : List (Leg ℕ ℕ)} (h : ∀ leg ∈ ls, ∃ route, s.createRoute leg = .ok route) (chain : ℕ) :
    amountFrom chain (ls.filterMap s.routeOf) = ((ls.filter fun leg => leg.source = chain).map Leg.amount).sum := by
  induction ls with
  | nil => rfl
  | cons leg ls ih =>
    obtain ⟨route, hroute⟩ := h leg List.mem_cons_self
    have hleg : s.routeOf leg = some route := by
      rw [routeOf, hroute]
      rfl
    have hsame := createRoute_route hroute
    have horigin : route.origin = leg.source := congrArg Route.origin hsame
    have hamount : route.amount = leg.amount := congrArg Route.amount hsame
    have ih := ih fun l hl => h l (List.mem_cons_of_mem leg hl)
    unfold amountFrom at ih ⊢
    rw [List.filterMap_cons_some hleg]
    by_cases hc : leg.source = chain
    · rw [List.filter_cons_of_pos (by simp [horigin, hc]), List.filter_cons_of_pos (by simp [hc]), List.map_cons,
        List.map_cons, List.sum_cons, List.sum_cons, ih, hamount]
    · rw [List.filter_cons_of_neg (by simp [horigin, hc]), List.filter_cons_of_neg (by simp [hc]), ih]

/-- the routes of a strategy from a chain add up to what it commits of it -/
theorem amountFrom_getRebalancingRoutes {routes : List StrategyRoute}
    (h : s.getRebalancingRoutes rawBalances ctx = .ok routes) (chain : ℕ) :
    amountFrom chain routes = s.commits rawBalances ctx chain := by
  rw [getRebalancingRoutes_eq h, commits]
  refine amountFrom_legs (fun leg hleg => ?_) chain
  obtain ⟨-, -, h⟩ := Outcome.bind_eq_ok.1 h
  obtain ⟨⟨surpluses, deficits⟩, hsorted, h⟩ := Outcome.bind_eq_ok.1 h
  obtain ⟨created, hcreated, -⟩ := Outcome.bind_eq_ok.1 h
  obtain ⟨hpos, hfirst⟩ := sortedDeltas_sorted hsorted
  rw [matchLoop_eq _ 0 hpos hfirst le_rfl] at hcreated
  have hmem := (List.mem_filter.1 hleg).1
  rw [legs, hsorted] at hmem
  exact createRoutes_all hcreated leg hmem

theorem sum_filter_le {α : Type} (l : List α) (f : α → ℤ) (p : α → Bool) (h : ∀ x ∈ l, 0 ≤ f x) :
    ((l.filter p).map f).sum ≤ (l.map f).sum := by
  induction l with
  | nil => exact le_rfl
  | cons x l ih =>
    have hrest := ih fun y hy => h y (List.mem_cons_of_mem x hy)
    have hx := h x List.mem_cons_self
    by_cases hp : p x = true
    · rw [List.filter_cons_of_pos hp, List.map_cons, List.map_cons, List.sum_cons, List.sum_cons]
      omega
    · rw [List.filter_cons_of_neg hp, List.map_cons, List.sum_cons]
      omega

/-- **A strategy commits at most the surplus that it expects of a chain.** -/
theorem commits_le {surpluses deficits : List Delta} (h : s.sortedDeltas rawBalances ctx = .ok (surpluses, deficits))
    (chain : ℕ) :
    s.commits rawBalances ctx chain ≤ ((surpluses.filter fun d => d.owner = chain).map Share.amount).sum := by
  obtain ⟨hpos, -⟩ := sortedDeltas_sorted h
  rw [commits, payableLegs, legs, h, List.filter_comm]
  calc _ ≤ (((layout 0 surpluses 0 (positive deficits)).filter fun leg => leg.source = chain).map Leg.amount).sum :=
        sum_filter_le _ _ _ fun leg hleg => (pos_of_mem_layout (List.mem_filter.1 hleg).1).le
    _ ≤ ((surpluses.filter fun d => d.owner = chain).map Share.amount).sum :=
        sum_layout_le (positive_allPositive deficits) hpos

end Strategy

/-! ## Two ways to commit too much -/

/-- every chain sends through one bridge -/
def oneBridge (_ : ℕ) : Option BridgeConfigWithOverride := some ⟨⟨.movableCollateral, some 7, none, none⟩, fun _ => none⟩

def evenWeights : Strategy where
  chains := [0, 1, 2]
  rule := .weighted fun _ => ⟨1, 0⟩
  bridgeConfigs := oneBridge
  tokensByChainName := none
  nodup := by decide
  two := by decide
  valid := by simp [Rule.Valid]

def hundredOnFirst : RawBalances := ⟨[(0, 100), (1, 0), (2, 0)], by decide⟩

end Hyperlane.Rebalancer
