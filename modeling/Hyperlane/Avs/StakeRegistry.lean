/-
The stake registry of the validator set (contracts/avs/ECDSAStakeRegistry.sol and ECDSAStakeRegistryStorage.sol).

Weights, signing keys, the total weight and the threshold are kept as histories by block number, whose operations are a
parameter (`Core.Checkpoints`). `block.number` belongs to the transaction. What a call sees of other contracts comes
with the call: the shares that the delegation manager reports, and whether an address has code. `registerOperatorToAVS`
and `deregisterOperatorFromAVS` of the service manager are foreign calls and may call the registry again; they come after
all writes. Events are left out, and so is `_stakeExpiry`, which nothing reads. `initializer`, `onlyOwner` and
`transferOwnership` stand for OpenZeppelin's `Initializable` and `OwnableUpgradeable`, as documented.
-/
import Hyperlane.Core.Checkpoints
import Hyperlane.Core.Reentrancy

namespace Hyperlane.Avs

open Hyperlane.Checkpoints Hyperlane.Reentrancy

abbrev Address := Fin (2 ^ 160)

scoped instance neZero_address : NeZero (2 ^ 160) := ⟨by decide⟩

inductive Error where
  | NotSorted
  | InvalidQuorum
  | LengthMismatch
  | InvalidLength
  | InvalidSignature
  | InvalidReferenceBlock
  | InvalidSignedWeight
  | InsufficientSignedStake
  | MustUpdateAllOperators
  | OperatorAlreadyRegistered
  | OperatorNotRegistered
  | InvalidOwner
  | InvalidServiceManager
  | ServiceManagerAlreadySet
  | require (reason : String)
  | panic (code : ℕ)
  /-- a library refused a checkpoint -/
  | checkpoint
deriving DecidableEq

/-- `if (condition) revert error();` -/
def revertIf (condition : Prop) [Decidable condition] (error : Error) : Except Error Unit :=
  if condition then .error error else .ok ()

structure StrategyParams where
  strategy : Address
  /-- `uint96` -/
  multiplier : ℕ

def BPS : ℕ := 10000

/-! ## Checked arithmetic and conversions -/

def checked (x : ℕ) : Except Error ℕ := if x < 2 ^ 256 then .ok x else .error (.panic 0x11)

def checkedInt (x : ℤ) : Except Error ℤ :=
  if -2 ^ 255 ≤ x ∧ x < 2 ^ 255 then .ok x else .error (.panic 0x11)

/-- `int256(x)` -/
def int256 (x : ℕ) : ℤ := if x < 2 ^ 255 then x else (x : ℤ) - 2 ^ 256

/-- `uint256(x)` -/
def uint256 (x : ℤ) : ℕ := (x % 2 ^ 256).toNat

/-- `address(uint160(x))` -/
def toAddress (x : ℕ) : Address := ⟨x % 2 ^ 160, Nat.mod_lt _ (by decide)⟩

/-! ## State -/

structure Registry (H : Type) where
  initialized : Bool
  owner : Address
  totalOperators : ℕ
  strategies : List StrategyParams
  minimumWeight : ℕ
  serviceManager : Address
  operatorSigningKeyHistory : Address → H
  totalWeightHistory : H
  thresholdWeightHistory : H
  operatorWeightHistory : Address → H
  operatorRegistered : Address → Bool

/-- what a call sees of its caller and of other contracts -/
structure View where
  sender : Address
  hasCode : Address → Bool
  getOperatorShares : Address → List Address → List ℕ

variable {H : Type}

def fresh (C : History H) : Registry H where
  initialized := false
  owner := 0
  totalOperators := 0
  strategies := []
  minimumWeight := 0
  serviceManager := 0
  operatorSigningKeyHistory _ := C.empty
  totalWeightHistory := C.empty
  thresholdWeightHistory := C.empty
  operatorWeightHistory _ := C.empty
  operatorRegistered _ := false

variable (C : History H) (now : ℕ) (v : View)

/-- `History.push` in the current block -/
def push (h : H) (value : ℕ) : Except Error H :=
  match C.push now value h with
  | some h' => .ok h'
  | none => .error .checkpoint

/-! ## Weights -/

/-- the loop of `getOperatorWeight` -/
def weigh : List StrategyParams → List ℕ → ℕ → Except Error ℕ
  | [], _, weight => .ok weight
  | _ :: _, [], _ => .error (.panic 0x32)
  | p :: strategyParams, share :: shares, weight => do
    let product ← checked (share * p.multiplier)
    let weight ← checked (weight + product)
    weigh strategyParams shares weight

def getOperatorWeight (r : Registry H) (operator : Address) : Except Error ℕ := do
  let shares := v.getOperatorShares operator (r.strategies.map StrategyParams.strategy)
  let weight ← weigh r.strategies shares 0
  let weight := weight / BPS
  if r.minimumWeight ≤ weight then .ok weight else .ok 0

def updateOperatorWeight (r : Registry H) (operator : Address) : Except Error (ℤ × Registry H) := do
  let history := r.operatorWeightHistory operator
  let oldWeight := C.latest history
  if r.operatorRegistered operator = false then
    let delta ← checkedInt (0 - int256 oldWeight)
    if delta = 0 then
      return (delta, r)
    else
      let history ← push C now history 0
      return (delta, { r with operatorWeightHistory := Function.update r.operatorWeightHistory operator history })
  else
    let newWeight ← getOperatorWeight v r operator
    let delta ← checkedInt (int256 newWeight - int256 oldWeight)
    if delta = 0 then
      return (delta, r)
    else
      let history ← push C now history newWeight
      return (delta, { r with operatorWeightHistory := Function.update r.operatorWeightHistory operator history })

def updateTotalWeight (r : Registry H) (delta : ℤ) : Except Error (Registry H) := do
  let oldTotalWeight := C.latest r.totalWeightHistory
  let newWeight ← checkedInt (int256 oldTotalWeight + delta)
  let newTotalWeight := uint256 newWeight
  let history ← push C now r.totalWeightHistory newTotalWeight
  return { r with totalWeightHistory := history }

/-- the loop of `_updateOperators` -/
def updateOperatorWeights : List Address → ℤ → Registry H → Except Error (ℤ × Registry H)
  | [], delta, r => .ok (delta, r)
  | operator :: operators, delta, r => do
    let (change, r) ← updateOperatorWeight C now v r operator
    let delta ← checkedInt (delta + change)
    updateOperatorWeights operators delta r

def updateOperators (r : Registry H) (operators : List Address) : Except Error (Registry H) := do
  let (delta, r) ← updateOperatorWeights C now v operators 0 r
  updateTotalWeight C now r delta

/-! ## Settings -/

def updateStakeThreshold (r : Registry H) (thresholdWeight : ℕ) : Except Error (Registry H) := do
  let history ← push C now r.thresholdWeightHistory thresholdWeight
  return { r with thresholdWeightHistory := history }

/-- the loop of `_isValidQuorum` -/
def quorumMultiplier : List StrategyParams → Address → ℕ → Except Error ℕ
  | [], _, totalMultiplier => .ok totalMultiplier
  | p :: strategies, lastStrategy, totalMultiplier => do
    revertIf (p.strategy ≤ lastStrategy) .NotSorted
    let totalMultiplier ← checked (totalMultiplier + p.multiplier)
    quorumMultiplier strategies p.strategy totalMultiplier

def isValidQuorum (quorum : List StrategyParams) : Except Error Bool := do
  let totalMultiplier ← quorumMultiplier quorum 0 0
  return totalMultiplier = BPS

def updateQuorumConfig (r : Registry H) (newQuorum : List StrategyParams) : Except Error (Registry H) := do
  if (← isValidQuorum newQuorum) then
    return { r with strategies := newQuorum }
  else .error .InvalidQuorum

def configure (r : Registry H) (serviceManager : Address) (thresholdWeight : ℕ) (quorum : List StrategyParams) :
    Except Error (Registry H) := do
  revertIf (serviceManager = 0 ∨ v.hasCode serviceManager = false) .InvalidServiceManager
  revertIf (r.serviceManager ≠ 0) .ServiceManagerAlreadySet
  let r := { r with serviceManager := serviceManager }
  let r ← updateStakeThreshold C now r thresholdWeight
  updateQuorumConfig r quorum

def initializer (r : Registry H) : Except Error (Registry H) := do
  revertIf (r.initialized = true) (.require "Initializable: contract is already initialized")
  return { r with initialized := true }

def onlyOwner (r : Registry H) : Except Error Unit :=
  revertIf (r.owner ≠ v.sender) (.require "Ownable: caller is not the owner")

/-! ## Operators -/

def updateOperatorSigningKey (r : Registry H) (operator newSigningKey : Address) : Except Error (Registry H) := do
  let history := r.operatorSigningKeyHistory operator
  let oldSigningKey := toAddress (C.latest history)
  if newSigningKey = oldSigningKey then
    return r
  else
    let history ← push C now history newSigningKey.val
    return { r with operatorSigningKeyHistory := Function.update r.operatorSigningKeyHistory operator history }

/-- `_registerOperatorWithSig` up to the call of the service manager -/
def registerOperatorWithSig (r : Registry H) (operator signingKey : Address) : Except Error (Registry H) := do
  revertIf (r.operatorRegistered operator = true) .OperatorAlreadyRegistered
  let totalOperators ← checked (r.totalOperators + 1)
  let r := { r with
    totalOperators := totalOperators
    operatorRegistered := Function.update r.operatorRegistered operator true }
  let (delta, r) ← updateOperatorWeight C now v r operator
  let r ← updateTotalWeight C now r delta
  updateOperatorSigningKey C now r operator signingKey

/-- `_deregisterOperator` up to the call of the service manager -/
def deregisterOperator (r : Registry H) (operator : Address) : Except Error (Registry H) := do
  revertIf (r.operatorRegistered operator = false) .OperatorNotRegistered
  revertIf (r.totalOperators = 0) (.panic 0x11)
  let r := { r with
    totalOperators := r.totalOperators - 1
    operatorRegistered := Function.update r.operatorRegistered operator false }
  let (delta, r) ← updateOperatorWeight C now v r operator
  updateTotalWeight C now r delta

/-! ## The contract -/

inductive Op where
  /-- `initialize` -/
  | init (serviceManager : Address) (thresholdWeight : ℕ) (quorum : List StrategyParams)
  | initializeOwner (owner : Address)
  | configure (serviceManager : Address) (thresholdWeight : ℕ) (quorum : List StrategyParams)
  | registerOperatorWithSignature (signingKey : Address)
  | deregisterOperator
  | updateOperatorSigningKey (newSigningKey : Address)
  | updateOperators (operators : List Address)
  | updateQuorumConfig (quorum : List StrategyParams) (operators : List Address)
  | updateMinimumWeight (newMinimumWeight : ℕ) (operators : List Address)
  | updateStakeThreshold (thresholdWeight : ℕ)
  | updateOperatorsForQuorum (operatorsPerQuorum : List (List Address))
  | transferOwnership (newOwner : Address)
  | renounceOwnership

/-- what an entry point does to the registry, up to a call of the service manager -/
def Op.step (r : Registry H) : Op → Except Error (Registry H)
  | .init serviceManager thresholdWeight quorum => do
    let r ← initializer r
    Avs.configure C now v { r with owner := v.sender } serviceManager thresholdWeight quorum
  | .initializeOwner owner => do
    let r ← initializer r
    revertIf (owner = 0) .InvalidOwner
    return { r with owner := owner }
  | .configure serviceManager thresholdWeight quorum => do
    onlyOwner v r
    Avs.configure C now v r serviceManager thresholdWeight quorum
  | .registerOperatorWithSignature signingKey => registerOperatorWithSig C now v r v.sender signingKey
  | .deregisterOperator => Avs.deregisterOperator C now v r v.sender
  | .updateOperatorSigningKey newSigningKey => do
    revertIf (r.operatorRegistered v.sender = false) .OperatorNotRegistered
    Avs.updateOperatorSigningKey C now r v.sender newSigningKey
  | .updateOperators operators => Avs.updateOperators C now v r operators
  | .updateQuorumConfig quorum operators => do
    onlyOwner v r
    let r ← Avs.updateQuorumConfig r quorum
    Avs.updateOperators C now v r operators
  | .updateMinimumWeight newMinimumWeight operators => do
    onlyOwner v r
    Avs.updateOperators C now v { r with minimumWeight := newMinimumWeight } operators
  | .updateStakeThreshold thresholdWeight => do
    onlyOwner v r
    Avs.updateStakeThreshold C now r thresholdWeight
  | .updateOperatorsForQuorum operatorsPerQuorum =>
    match operatorsPerQuorum with
    | [] => .error (.panic 0x32)
    | operators :: _ => do
      revertIf (operators.length ≠ r.totalOperators) .MustUpdateAllOperators
      Avs.updateOperators C now v r operators
  | .transferOwnership newOwner => do
    onlyOwner v r
    revertIf (newOwner = 0) (.require "Ownable: new owner is the zero address")
    return { r with owner := newOwner }
  | .renounceOwnership => do
    onlyOwner v r
    return { r with owner := 0 }

/-- the entry points that end with a call of the service manager -/
def Op.callsServiceManager : Op → Bool
  | .registerOperatorWithSignature _ => true
  | .deregisterOperator => true
  | _ => false

def body (call : View × Op) : Body (Registry H) :=
  let step := fun r => (call.2.step C now call.1 r).toOption
  if call.2.callsServiceManager then .interact step fun _ _ => .finish some else .finish step

/-! ## Signatures -/

section Signatures

variable {Digest Signature : Type} (isValidSignatureNow : Address → Digest → Signature → Bool)

/-- the checkpoint of the reference block, which must be over -/
def atReference (h : H) (referenceBlock : ℕ) : Except Error ℕ := do
  revertIf (now ≤ referenceBlock) .InvalidReferenceBlock
  return C.lookup h referenceBlock

def getOperatorSigningKey (r : Registry H) (operator : Address) (referenceBlock : ℕ) : Except Error Address := do
  let key ← atReference C now (r.operatorSigningKeyHistory operator) referenceBlock
  return toAddress key

def validateSignaturesLength (signersLength signaturesLength : ℕ) : Except Error Unit := do
  revertIf (signersLength ≠ signaturesLength) .LengthMismatch
  revertIf (signersLength = 0) .InvalidLength

/-- the loop of `_checkSignatures` -/
def checkSigners (r : Registry H) (dataHash : Digest) (referenceBlock : ℕ) :
    List (Address × Signature) → Address → ℕ → Except Error ℕ
  | [], _, signedWeight => .ok signedWeight
  | (currentOperator, signature) :: signers, lastOperator, signedWeight => do
    let signer ← getOperatorSigningKey C now r currentOperator referenceBlock
    revertIf (currentOperator ≤ lastOperator) .NotSorted
    revertIf (isValidSignatureNow signer dataHash signature = false) .InvalidSignature
    let operatorWeight ← atReference C now (r.operatorWeightHistory currentOperator) referenceBlock
    let signedWeight ← checked (signedWeight + operatorWeight)
    checkSigners r dataHash referenceBlock signers currentOperator signedWeight

def validateThresholdStake (r : Registry H) (signedWeight referenceBlock : ℕ) : Except Error Unit := do
  let totalWeight ← atReference C now r.totalWeightHistory referenceBlock
  revertIf (totalWeight < signedWeight) .InvalidSignedWeight
  let thresholdStake ← atReference C now r.thresholdWeightHistory referenceBlock
  revertIf (signedWeight < thresholdStake) .InsufficientSignedStake

def checkSignatures (r : Registry H) (dataHash : Digest) (operators : List Address) (signatures : List Signature)
    (referenceBlock : ℕ) : Except Error Unit := do
  validateSignaturesLength operators.length signatures.length
  let signedWeight ← checkSigners C now isValidSignatureNow r dataHash referenceBlock (operators.zip signatures) 0 0
  validateThresholdStake C now r signedWeight referenceBlock

end Signatures

end Hyperlane.Avs
