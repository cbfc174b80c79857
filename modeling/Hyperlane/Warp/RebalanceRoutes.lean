/-
Routes and rebalance authority of `MovableCollateralRouter` (contracts/token/libs/MovableCollateralRouter.sol) and of
`CrossCollateralRouter` (contracts/token/CrossCollateralRouter.sol), over `Router` (contracts/client/Router.sol).

A domain's routes are its remote router and, for the second contract, its cross-collateral routers. Its rebalance
authority is the recipient, the bridges and the rebalance targets the owner set for it. Both contracts run over one
storage; `Contract` selects the overrides. A call that reverts changes nothing.

Left out: what the routes are used for, gas, events, and the text of a revert without data.
-/
import Mathlib.Tactic

namespace Hyperlane.Warp.RebalanceRoutes

/-- `EnumerableMapExtended.UintToBytes32Map`: a key that is not there reads zero -/
structure UintToBytes32Map where
  keys : Finset ℕ
  values : ℕ → ℕ
  zero : ∀ k, k ∉ keys → values k = 0

namespace UintToBytes32Map

def empty : UintToBytes32Map := ⟨∅, fun _ => 0, fun _ _ => rfl⟩

def set (map : UintToBytes32Map) (key value : ℕ) : UintToBytes32Map where
  keys := insert key map.keys
  values := Function.update map.values key value
  zero k hk := by
    rw [Finset.mem_insert, not_or] at hk
    rw [Function.update_of_ne hk.1, map.zero k hk.2]

def remove (map : UintToBytes32Map) (key : ℕ) : UintToBytes32Map where
  keys := map.keys.erase key
  values := Function.update map.values key 0
  zero k hk := by
    by_cases h : k = key
    · rw [h, Function.update_self]
    · rw [Function.update_of_ne h]
      exact map.zero k fun hmem => hk (Finset.mem_erase.2 ⟨h, hmem⟩)

def tryGet (map : UintToBytes32Map) (key : ℕ) : Bool × ℕ := (decide (key ∈ map.keys), map.values key)

end UintToBytes32Map

inductive Contract where
  | MovableCollateralRouter
  | CrossCollateralRouter
deriving DecidableEq

structure Storage where
  owner : ℕ
  _routers : UintToBytes32Map
  /-- `allowed.recipient` -/
  recipient : ℕ → ℕ
  /-- `allowed.bridges` -/
  bridges : ℕ → Finset ℕ
  _crossCollateralRouters : ℕ → Finset ℕ
  _crossCollateralDomains : Finset ℕ
  _rebalanceTargets : ℕ → Finset ℕ

def deployed (owner : ℕ) : Storage :=
  ⟨owner, .empty, fun _ => 0, fun _ => ∅, fun _ => ∅, ∅, fun _ => ∅⟩

/-! ## Router -/

def routers (s : Storage) (domain : ℕ) : ℕ := (s._routers.tryGet domain).2

def _domainNotFoundError (domain : ℕ) : String := "No router enrolled for domain: " ++ toString domain

def _mustHaveRemoteRouter (s : Storage) (domain : ℕ) : Except String ℕ :=
  let (contained, router) := s._routers.tryGet domain
  if contained then .ok router else .error (_domainNotFoundError domain)

def _enrollRemoteRouter (s : Storage) (domain router : ℕ) : Storage :=
  { s with _routers := s._routers.set domain router }

def enrollRemoteRouters (s : Storage) (domains addresses : List ℕ) : Except String Storage :=
  if domains.length = addresses.length then
    .ok ((domains.zip addresses).foldl (fun s e => _enrollRemoteRouter s e.1 e.2) s)
  else .error "!length"

namespace Router

def _unenrollRemoteRouter (s : Storage) (domain : ℕ) : Except String Storage :=
  if domain ∈ s._routers.keys then .ok { s with _routers := s._routers.remove domain }
  else .error (_domainNotFoundError domain)

end Router

/-! ## MovableCollateralRouter -/

variable (k : Contract)

/-- the second contract counts its cross-collateral routers too -/
def _MovableCollateralRouter_hasRebalanceRoutes (s : Storage) (domain : ℕ) : Bool :=
  match k with
  | .MovableCollateralRouter => routers s domain != 0
  | .CrossCollateralRouter => routers s domain != 0 || decide (0 < (s._crossCollateralRouters domain).card)

def _clearRebalanceState (s : Storage) (domain : ℕ) : Storage :=
  { s with recipient := Function.update s.recipient domain 0
           bridges := Function.update s.bridges domain ∅ }

/-- what follows the loss of a route -/
def clearUnrouted (s : Storage) (domain : ℕ) : Storage :=
  if !_MovableCollateralRouter_hasRebalanceRoutes k s domain then _clearRebalanceState s domain else s

def _unenrollRemoteRouter (s : Storage) (domain : ℕ) : Except String Storage := do
  let s ← Router._unenrollRemoteRouter s domain
  .ok (clearUnrouted k s domain)

def unenrollRemoteRouters (s : Storage) (domains : List ℕ) : Except String Storage :=
  domains.foldlM (_unenrollRemoteRouter k) s

/-- `CrossCollateralRouter._requireEnrolledRouter` -/
def _requireEnrolledRouter (s : Storage) (domain : ℕ) : Except String Unit :=
  if routers s domain ≠ 0 ∨ 0 < (s._crossCollateralRouters domain).card then .ok ()
  else .error "CCR: domain has no routers"

/-- the guard of `setRecipient` and `addBridge`, which the second contract overrides -/
def checkDomain (s : Storage) (domain : ℕ) : Except String Unit :=
  match k with
  | .MovableCollateralRouter => do
    let _ ← _mustHaveRemoteRouter s domain
    .ok ()
  | .CrossCollateralRouter => _requireEnrolledRouter s domain

def setRecipient (s : Storage) (domain recipient : ℕ) : Except String Storage := do
  checkDomain k s domain
  .ok { s with recipient := Function.update s.recipient domain recipient }

def removeRecipient (s : Storage) (domain : ℕ) : Storage :=
  { s with recipient := Function.update s.recipient domain 0 }

def _addBridge (s : Storage) (domain bridge : ℕ) : Storage :=
  { s with bridges := Function.update s.bridges domain (insert bridge (s.bridges domain)) }

def addBridge (s : Storage) (domain bridge : ℕ) : Except String Storage := do
  checkDomain k s domain
  .ok (_addBridge s domain bridge)

/-- The override (contracts/token/HypERC20Collateral.sol) revokes the token approval of a bridge that no domain with a
remote router uses any more; `revokes` says whether the token lets it. -/
def _removeBridge (s : Storage) (domain bridge : ℕ) (revokes : Bool) : Except String Storage :=
  let s' := { s with bridges := Function.update s.bridges domain ((s.bridges domain).erase bridge) }
  match k with
  | .MovableCollateralRouter => .ok s'
  | .CrossCollateralRouter =>
    if ∃ d ∈ s'._routers.keys, bridge ∈ s'.bridges d then .ok s'
    else if revokes then .ok s'
    else .error "SafeERC20: ERC20 operation did not succeed"

/-! ## CrossCollateralRouter -/

def enrollCrossCollateralRouter (s : Storage) (domain router : ℕ) : Storage :=
  if router ∈ s._crossCollateralRouters domain then s
  else
    { s with
      _crossCollateralRouters :=
        Function.update s._crossCollateralRouters domain (insert router (s._crossCollateralRouters domain))
      _crossCollateralDomains := insert domain s._crossCollateralDomains }

def enrollCrossCollateralRouters (s : Storage) (domains routers : List ℕ) : Except String Storage :=
  if domains.length = routers.length then
    .ok ((domains.zip routers).foldl (fun s e => enrollCrossCollateralRouter s e.1 e.2) s)
  else .error "CCR: length mismatch"

def unenrollCrossCollateralRouter (s : Storage) (domain router : ℕ) : Storage :=
  if router ∈ s._crossCollateralRouters domain then
    let s := { s with
      _crossCollateralRouters :=
        Function.update s._crossCollateralRouters domain ((s._crossCollateralRouters domain).erase router) }
    if (s._crossCollateralRouters domain).card = 0 then
      clearUnrouted k { s with _crossCollateralDomains := s._crossCollateralDomains.erase domain } domain
    else s
  else s

def unenrollCrossCollateralRouters (s : Storage) (domains routers : List ℕ) : Except String Storage :=
  if domains.length = routers.length then
    .ok ((domains.zip routers).foldl (fun s e => unenrollCrossCollateralRouter k s e.1 e.2) s)
  else .error "CCR: length mismatch"

def addRebalanceTarget (s : Storage) (domain target : ℕ) : Storage :=
  { s with _rebalanceTargets := Function.update s._rebalanceTargets domain (insert target (s._rebalanceTargets domain)) }

def removeRebalanceTarget (s : Storage) (domain target : ℕ) : Storage :=
  { s with
    _rebalanceTargets := Function.update s._rebalanceTargets domain ((s._rebalanceTargets domain).erase target) }

/-- the zero address is never a valid target -/
def isRebalanceTarget (s : Storage) (domain target : ℕ) : Bool :=
  target != 0 && (target == routers s domain || decide (target ∈ s._rebalanceTargets domain))

/-! ## Calls -/

inductive Operation where
  | enrollRemoteRouter (domain router : ℕ)
  | enrollRemoteRouters (domains addresses : List ℕ)
  | unenrollRemoteRouter (domain : ℕ)
  | unenrollRemoteRouters (domains : List ℕ)
  | enrollCrossCollateralRouters (domains routers : List ℕ)
  | unenrollCrossCollateralRouters (domains routers : List ℕ)
  | setRecipient (domain recipient : ℕ)
  | removeRecipient (domain : ℕ)
  | addBridge (domain bridge : ℕ)
  | removeBridge (domain bridge : ℕ) (revokes : Bool)
  | addRebalanceTarget (domain target : ℕ)
  | removeRebalanceTarget (domain target : ℕ)

/-- a function of the second contract; the first one has no such selector -/
def crossCollateral (x : Except String Storage) : Except String Storage :=
  match k with
  | .MovableCollateralRouter => .error ""
  | .CrossCollateralRouter => x

/-- an operation, after `onlyOwner` -/
def execute (s : Storage) : Operation → Except String Storage
  | .enrollRemoteRouter domain router => .ok (_enrollRemoteRouter s domain router)
  | .enrollRemoteRouters domains addresses => enrollRemoteRouters s domains addresses
  | .unenrollRemoteRouter domain => _unenrollRemoteRouter k s domain
  | .unenrollRemoteRouters domains => unenrollRemoteRouters k s domains
  | .enrollCrossCollateralRouters domains routers => crossCollateral k (enrollCrossCollateralRouters s domains routers)
  | .unenrollCrossCollateralRouters domains routers =>
    crossCollateral k (unenrollCrossCollateralRouters k s domains routers)
  | .setRecipient domain recipient => setRecipient k s domain recipient
  | .removeRecipient domain => .ok (removeRecipient s domain)
  | .addBridge domain bridge => addBridge k s domain bridge
  | .removeBridge domain bridge revokes => _removeBridge k s domain bridge revokes
  | .addRebalanceTarget domain target => crossCollateral k (.ok (addRebalanceTarget s domain target))
  | .removeRebalanceTarget domain target => crossCollateral k (.ok (removeRebalanceTarget s domain target))

structure Call where
  sender : ℕ
  operation : Operation

def Call.call (c : Call) (s : Storage) : Except String Storage :=
  if c.sender = s.owner then execute k s c.operation else .error "Ownable: caller is not the owner"

def step (s : Storage) (c : Call) : Storage :=
  match c.call k s with
  | .ok s' => s'
  | .error _ => s

/-- the storage before the first call and after each one -/
def states (s : Storage) (calls : List Call) : List Storage := calls.scanl (step k) s

end Hyperlane.Warp.RebalanceRoutes
