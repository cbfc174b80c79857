/-
The strategies of the rebalancer (typescript/rebalancer/src/strategy): `BaseStrategy` with its three strategies, and
`CompositeStrategy`.

A strategy looks at balances as it expects them to be: the raw balances, less what pending transfers will take, with the
pending rebalances and the routes of earlier strategies as if they had happened. It sorts the chains into surpluses and
deficits, scales the deficits down to the surpluses, moves surpluses to deficits from the largest on, and drops the
routes that the raw balance of their origin does not cover or that their bridge does not take.

Chains are their domain ids; a map of balances is a function with 0 where the map has nothing. An error is what the code
throws.
-/
import Hyperlane.Core.Layout
import Hyperlane.Rebalancer.Execution

namespace Hyperlane.Rebalancer

/-! ## Configuration -/

inductive StrategyError where
  | chainsMismatch
  | balanceNotFound (chain : ℕ)
  | balanceNegative (chain : ℕ)
  | bridgeNotConfigured (chain : ℕ)
  | tokenNotFound (chain : ℕ)
  | amountNegative
deriving DecidableEq

inductive ExecutionType where
  | movableCollateral
  | inventory
deriving DecidableEq

inductive ExternalBridgeType where
  | liFi
deriving DecidableEq

structure BridgeConfig where
  executionType : ExecutionType
  bridge : Option ℕ
  externalBridge : Option ExternalBridgeType
  bridgeMinAcceptedAmount : Option ℚ

/-- what an override says of each field -/
structure PartialBridgeConfig where
  executionType : Option ExecutionType
  bridge : Option ℕ
  externalBridge : Option ExternalBridgeType
  bridgeMinAcceptedAmount : Option ℚ

structure BridgeConfigWithOverride extends BridgeConfig where
  override : ℕ → Option PartialBridgeConfig

/-- the fields of the override over those of the base -/
def BridgeConfig.spread (base : BridgeConfig) (o : PartialBridgeConfig) : BridgeConfig where
  executionType := o.executionType.getD base.executionType
  bridge := o.bridge.or base.bridge
  externalBridge := o.externalBridge.or base.externalBridge
  bridgeMinAcceptedAmount := o.bridgeMinAcceptedAmount.or base.bridgeMinAcceptedAmount

def getBridgeConfig (bridges : ℕ → Option BridgeConfigWithOverride) (fromChain toChain : ℕ) :
    Except StrategyError BridgeConfig :=
  match bridges fromChain with
  | none => .error (.bridgeNotConfigured fromChain)
  | some fromConfig =>
    match fromConfig.override toChain with
    | none => .ok fromConfig.toBridgeConfig
    | some o => .ok (fromConfig.toBridgeConfig.spread o)

structure Token where
  decimals : ℕ
  scale : NormalizedScale

/-- digits beyond the decimals of the token are cut off -/
def toWei (amount : ℚ) (decimals : ℕ) : ℤ :=
  if 0 ≤ amount then ⌊amount * 10 ^ decimals⌋ else -⌊-amount * 10 ^ decimals⌋

def normalizeConfiguredAmount (amount : ℚ) (token : Token) : Except StrategyError ℤ :=
  if toWei amount token.decimals < 0 then .error .amountNegative
  else .ok (messageAmountFromLocal (toWei amount token.decimals).toNat token.scale)

inductive RebalancerMinAmountType where
  | absolute
  | relative
deriving DecidableEq

structure WeightedConfig where
  weight : ℕ
  tolerance : ℕ

structure MinAmountConfig where
  type : RebalancerMinAmountType
  min : ℚ
  target : ℚ

/-- the three strategies, with what they are configured with for each chain -/
inductive Rule where
  | weighted (config : ℕ → WeightedConfig)
  | minAmount (config : ℕ → MinAmountConfig)
  | collateralDeficit (buffer : ℕ → ℚ)

/-- what the constructors of the strategies check -/
def Rule.Valid (chains : List ℕ) : Rule → Prop
  | .weighted config => (∀ c ∈ chains, (config c).tolerance ≤ 100) ∧ 0 < (chains.map fun c => (config c).weight).sum
  | .minAmount config => ∀ c ∈ chains, 0 ≤ (config c).min ∧ (config c).min ≤ (config c).target
  | .collateralDeficit _ => True

structure Strategy where
  chains : List ℕ
  rule : Rule
  bridgeConfigs : ℕ → Option BridgeConfigWithOverride
  tokensByChainName : Option (ℕ → Option Token)
  nodup : chains.Nodup
  two : 2 ≤ chains.length
  valid : rule.Valid chains

/-! ## Balances and routes -/

structure RawBalances where
  entries : List (ℕ × ℤ)
  nodup : (entries.map Prod.fst).Nodup

/-- `rawBalances[chain] ?? 0n` -/
def RawBalances.balance (b : RawBalances) (chain : ℕ) : ℤ := (b.entries.lookup chain).getD 0

structure Route where
  origin : ℕ
  destination : ℕ
  amount : ℤ
deriving DecidableEq

structure StrategyRoute extends Route where
  executionType : ExecutionType
  bridge : Option ℕ
  externalBridge : Option ExternalBridgeType
deriving DecidableEq

/-- a pending rebalance, with its bridge unless it was recovered without -/
structure PendingRebalance extends RouteWithContext where
  bridge : Option ℕ
  externalBridge : Option ExternalBridgeType
deriving DecidableEq

structure InflightContext where
  pendingRebalances : List PendingRebalance
  pendingTransfers : List Route
  proposedRebalances : List StrategyRoute

def createStrategyRoute (bridgeConfig : BridgeConfig) (origin destination : ℕ) (amount : ℤ) : StrategyRoute :=
  match bridgeConfig.executionType with
  | .inventory => ⟨⟨origin, destination, amount⟩, .inventory, none, bridgeConfig.externalBridge⟩
  | .movableCollateral => ⟨⟨origin, destination, amount⟩, .movableCollateral, bridgeConfig.bridge, none⟩

/-- `BaseStrategy.reserveCollateral` -/
def reserveCollateral (rawBalances : ℕ → ℤ) (pendingTransfers : List Route) : ℕ → ℤ :=
  pendingTransfers.foldl
    (fun reserved t => Function.update reserved t.destination (reserved t.destination - t.amount)) rawBalances

/-- `BaseStrategy.simulateProposedRebalances` -/
def simulateProposedRebalances (rawBalances : ℕ → ℤ) (proposedRebalances : List StrategyRoute) : ℕ → ℤ :=
  proposedRebalances.foldl
    (fun simulated r =>
      let taken := Function.update simulated r.origin (simulated r.origin - r.amount)
      Function.update taken r.destination (taken r.destination + r.amount))
    rawBalances

/-- pending and then proposed rebalances, as if they had happened -/
def simulateRebalances (rawBalances : ℕ → ℤ) (pending : List PendingRebalance) (proposed : List StrategyRoute) : ℕ → ℤ :=
  simulateProposedRebalances
    (simulatePendingRebalances rawBalances (pending.map PendingRebalance.toRouteWithContext)) proposed

namespace Strategy

variable (s : Strategy)

def validateRawBalances (rawBalances : RawBalances) : Except StrategyError Unit :=
  if s.chains.length ≠ rawBalances.entries.length then .error .chainsMismatch
  else s.chains.forM fun chain =>
    match rawBalances.entries.lookup chain with
    | none => .error (.balanceNotFound chain)
    | some balance => if balance < 0 then .error (.balanceNegative chain) else .ok ()

def getTokenByChainName (chainName : ℕ) : Except StrategyError Token :=
  match s.tokensByChainName.bind fun tokens => tokens chainName with
  | none => .error (.tokenNotFound chainName)
  | some token => .ok token

/-! ## Surpluses and deficits -/

/-- the surplus or the deficit of a chain -/
abbrev Delta := Share ℕ

inductive Standing where
  | deficit (amount : ℤ)
  | surplus (amount : ℤ)
  | onTarget
deriving DecidableEq

/-- `WeightedStrategy`: a chain against its part of the total -/
def weightedStanding (config : ℕ → WeightedConfig) (simulatedBalances : ℕ → ℤ) (chain : ℕ) : Standing :=
  let total := (s.chains.map simulatedBalances).sum
  let totalWeight : ℤ := (s.chains.map fun c => (config c).weight).sum
  let target := (total * (config chain).weight).tdiv totalWeight
  let toleranceAmount := (target * (config chain).tolerance).tdiv 100
  let balance := simulatedBalances chain
  if balance < target - toleranceAmount then .deficit (target - balance)
  else if balance > target then .surplus (balance - target)
  else .onTarget

/-- `MinAmountStrategy`: the minimum and the target of a chain -/
def minAndTarget (config : MinAmountConfig) (totalCollateral : ℤ) (chain : ℕ) : Except StrategyError (ℤ × ℤ) :=
  match config.type with
  | .absolute => do
    let token ← s.getTokenByChainName chain
    let minAmount ← normalizeConfiguredAmount config.min token
    let targetAmount ← normalizeConfiguredAmount config.target token
    return (minAmount, targetAmount)
  | .relative => .ok (⌊totalCollateral * config.min⌋, ⌊totalCollateral * config.target⌋)

def minAmountStanding (config : ℕ → MinAmountConfig) (simulatedBalances : ℕ → ℤ) (chain : ℕ) :
    Except StrategyError Standing := do
  let totalCollateral := (s.chains.map simulatedBalances).sum
  let (minAmount, targetAmount) ← s.minAndTarget (config chain) totalCollateral chain
  let balance := simulatedBalances chain
  if balance < minAmount then return .deficit (targetAmount - balance)
  else if balance - minAmount > 0 then return .surplus (balance - minAmount)
  else return .onTarget

/-- `CollateralDeficitStrategy`: a negative balance is a deficit, with the buffer -/
def collateralStanding (buffer : ℕ → ℚ) (simulatedBalances : ℕ → ℤ) (chain : ℕ) : Except StrategyError Standing := do
  let balance := simulatedBalances chain
  let token ← s.getTokenByChainName chain
  let bufferWei ← normalizeConfiguredAmount (buffer chain) token
  if balance < 0 then return .deficit (-balance + bufferWei)
  else if balance > 0 then return .surplus balance
  else return .onTarget

/-- a filter whose test can throw -/
def keepWhere {R : Type} (keeps : R → Except StrategyError Bool) : List R → Except StrategyError (List R)
  | [] => .ok []
  | r :: rest => do
    let keep ← keeps r
    let others ← keepWhere keeps rest
    return if keep then r :: others else others

/-- `filterByConfiguredBridges`, for one rebalance; one that was recovered has no bridge -/
def usesConfiguredBridge (origin destination : ℕ) (bridge : Option ℕ) (externalBridge : Option ExternalBridgeType) :
    Except StrategyError Bool := do
  let bridgeConfig ← getBridgeConfig s.bridgeConfigs origin destination
  match bridge, externalBridge with
  | some bridge, _ => return bridgeConfig.executionType = .movableCollateral ∧ bridgeConfig.bridge = some bridge
  | none, some external => return bridgeConfig.executionType = .inventory ∧ bridgeConfig.externalBridge = some external
  | none, none => return true

def surplusOf : ℕ × Standing → Option Delta
  | (chain, .surplus amount) => some ⟨chain, amount⟩
  | _ => none

def deficitOf : ℕ × Standing → Option Delta
  | (chain, .deficit amount) => some ⟨chain, amount⟩
  | _ => none

/-- the surpluses and the deficits, in the order of the chains -/
def categorize (standing : ℕ → Except StrategyError Standing) : List ℕ → Except StrategyError (List Delta × List Delta)
  | [] => .ok ([], [])
  | chain :: chains => do
    let here ← standing chain
    let (surpluses, deficits) ← categorize standing chains
    return ((surplusOf (chain, here)).toList ++ surpluses, (deficitOf (chain, here)).toList ++ deficits)

def getCategorizedBalances (balances : ℕ → ℤ) (pendingRebalances : List PendingRebalance)
    (proposedRebalances : List StrategyRoute) : Except StrategyError (List Delta × List Delta) :=
  match s.rule with
  | .weighted config =>
    let simulatedBalances := simulateRebalances balances pendingRebalances proposedRebalances
    categorize (fun chain => .ok (s.weightedStanding config simulatedBalances chain)) s.chains
  | .minAmount config =>
    let simulatedBalances := simulateRebalances balances pendingRebalances proposedRebalances
    categorize (s.minAmountStanding config simulatedBalances) s.chains
  | .collateralDeficit buffer => do
    let filteredPending ← keepWhere
      (fun r => s.usesConfiguredBridge r.origin r.destination r.bridge r.externalBridge) pendingRebalances
    let filteredProposed ← keepWhere
      (fun r => s.usesConfiguredBridge r.origin r.destination r.bridge r.externalBridge) proposedRebalances
    let simulatedBalances := simulateRebalances balances filteredPending filteredProposed
    categorize (s.collateralStanding buffer simulatedBalances) s.chains

def totalOf (deltas : List Delta) : ℤ := (deltas.map Share.amount).sum

/-- deficits beyond the surpluses are scaled down to them -/
def scaleDeficits (surpluses deficits : List Delta) : List Delta :=
  if totalOf surpluses < totalOf deficits then
    deficits.map fun d => ⟨d.owner, (d.amount * totalOf surpluses).tdiv (totalOf deficits)⟩
  else deficits

/-- the larger amount first; equal amounts stay in their order -/
def sortByAmount (deltas : List Delta) : List Delta := deltas.insertionSort fun a b => b.amount ≤ a.amount

/-- the origin of a pending transfer to a chain in deficit -/
def isOrigin (pendingTransfers : List Route) (deficits : List Delta) (chain : ℕ) : Bool :=
  pendingTransfers.any fun t => t.origin = chain ∧ t.destination ∈ deficits.map Share.owner

/-- `sortSurplusesWithOriginPreference` -/
def sortSurplusesWithOriginPreference (pendingTransfers : List Route) (deficits surpluses : List Delta) : List Delta :=
  surpluses.insertionSort fun a b =>
    if isOrigin pendingTransfers deficits a.owner = isOrigin pendingTransfers deficits b.owner then b.amount ≤ a.amount
    else isOrigin pendingTransfers deficits a.owner = true

/-! ## Routes -/

/-- the `while` loop over the sorted surpluses and deficits; each turn takes one of them off -/
def matchLoop : ℕ → List Delta → List Delta → List (Leg ℕ ℕ)
  | n + 1, surplus :: surpluses, deficit :: deficits =>
    let transferAmount := if surplus.amount > deficit.amount then deficit.amount else surplus.amount
    let deficitLeft := deficit.amount - transferAmount
    let surplusLeft := surplus.amount - transferAmount
    (if 0 < transferAmount then [⟨surplus.owner, deficit.owner, transferAmount⟩] else []) ++
      matchLoop n (if surplusLeft ≤ 0 then surpluses else ⟨surplus.owner, surplusLeft⟩ :: surpluses)
        (if deficitLeft ≤ 0 then deficits else ⟨deficit.owner, deficitLeft⟩ :: deficits)
  | _, _, _ => []

def createRoute (leg : Leg ℕ ℕ) : Except StrategyError StrategyRoute := do
  let bridgeConfig ← getBridgeConfig s.bridgeConfigs leg.source leg.sink
  return createStrategyRoute bridgeConfig leg.source leg.sink leg.amount

def createRoutes : List (Leg ℕ ℕ) → Except StrategyError (List StrategyRoute)
  | [] => .ok []
  | leg :: legs => do
    let route ← s.createRoute leg
    let routes ← createRoutes legs
    return route :: routes

/-- `filterRoutes`, for one route -/
def keepsRoute (actualBalances : RawBalances) (route : Route) : Except StrategyError Bool :=
  if actualBalances.balance route.origin < route.amount then .ok false
  else
    match s.tokensByChainName.bind fun tokens => tokens route.origin with
    | none => .ok true
    | some token => do
      let bridgeConfig ← getBridgeConfig s.bridgeConfigs route.origin route.destination
      match bridgeConfig.bridgeMinAcceptedAmount with
      | none => return true
      | some bridgeMin =>
        let minAmount ← normalizeConfiguredAmount bridgeMin token
        return minAmount ≤ route.amount

def filterRoutes (actualBalances : RawBalances) (routes : List StrategyRoute) :
    Except StrategyError (List StrategyRoute) :=
  keepWhere (fun route => s.keepsRoute actualBalances route.toRoute) routes

/-- the sorted surpluses and the sorted, scaled deficits -/
def sortedDeltas (rawBalances : RawBalances) (ctx : InflightContext) : Except StrategyError (List Delta × List Delta) := do
  let effectiveBalances := reserveCollateral rawBalances.balance ctx.pendingTransfers
  match s.rule with
  | .collateralDeficit _ =>
    -- the override passes no proposed rebalances on
    let (surpluses, deficits) ← s.getCategorizedBalances effectiveBalances ctx.pendingRebalances []
    let scaled := scaleDeficits surpluses deficits
    return (sortSurplusesWithOriginPreference ctx.pendingTransfers scaled surpluses, sortByAmount scaled)
  | _ =>
    let (surpluses, deficits) ← s.getCategorizedBalances effectiveBalances ctx.pendingRebalances ctx.proposedRebalances
    return (sortByAmount surpluses, sortByAmount (scaleDeficits surpluses deficits))

def getRebalancingRoutes (rawBalances : RawBalances) (ctx : InflightContext) :
    Except StrategyError (List StrategyRoute) := do
  s.validateRawBalances rawBalances
  let (surpluses, deficits) ← s.sortedDeltas rawBalances ctx
  let routes ← s.createRoutes (matchLoop (surpluses.length + deficits.length) surpluses deficits)
  s.filterRoutes rawBalances routes

end Strategy

/-- `CompositeStrategy.getRebalancingRoutes`: each strategy sees the routes of those before it -/
def compositeRoutes (rawBalances : RawBalances) (ctx : InflightContext) :
    List StrategyRoute → List Strategy → Except StrategyError (List StrategyRoute)
  | _, [] => .ok []
  | accumulated, s :: strategies => do
    let routes ← s.getRebalancingRoutes rawBalances { ctx with proposedRebalances := accumulated }
    let later ← compositeRoutes rawBalances ctx (accumulated ++ routes) strategies
    return routes ++ later

/-- what `StrategyFactory` creates -/
inductive IStrategy where
  | single (s : Strategy)
  | composite (strategies : List Strategy) (two : 2 ≤ strategies.length)

def IStrategy.getRebalancingRoutes (rawBalances : RawBalances) (ctx : InflightContext) :
    IStrategy → Except StrategyError (List StrategyRoute)
  | .single s => s.getRebalancingRoutes rawBalances ctx
  | .composite strategies _ => compositeRoutes rawBalances ctx [] strategies

end Hyperlane.Rebalancer
