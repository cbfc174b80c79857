/-
The service manager of the validator set with its registry (contracts/avs/HyperlaneServiceManager.sol,
ECDSAServiceManagerBase.sol and contracts/libs/EnumerableMapEnrollment.sol).

An operator enrols into challengers, which may then freeze it. It leaves a challenger in two steps, and the second one
waits for the number of blocks that the challenger asks for. Leaving the registry completes all of them.

Both contracts are one system: `deregisterOperator` of the registry calls the service manager, which completes the
unenrollments before the foreign call of the AVS directory. `deregisterOperatorFromAVS` itself only answers the registry
and is part of that operation. The slasher and the AVS directory are foreign code. The map of enrollments is a parameter
(`Core.EnumerableMap`), with addresses for keys. Events, payments and metadata are left out.
-/
import Hyperlane.Avs.StakeRegistry
import Hyperlane.Core.Bytes
import Hyperlane.Core.EnumerableMap

namespace Hyperlane.Avs

open Hyperlane.Checkpoints Hyperlane.Reentrancy Hyperlane.Bytes

/-! ## Enrollments -/

inductive EnrollmentStatus where
  | UNENROLLED
  | ENROLLED
  | PENDING_UNENROLLMENT
deriving DecidableEq

structure Enrollment where
  status : EnrollmentStatus
  /-- `uint248` -/
  unenrollmentStartBlock : ℕ
deriving DecidableEq

/-- `uint8(status)` -/
def EnrollmentStatus.toByte : EnrollmentStatus → UInt8
  | .UNENROLLED => 0
  | .ENROLLED => 1
  | .PENDING_UNENROLLMENT => 2

/-- `EnrollmentStatus(status)` -/
def EnrollmentStatus.ofByte (status : UInt8) : Except Error EnrollmentStatus :=
  if status = 0 then .ok .UNENROLLED
  else if status = 1 then .ok .ENROLLED
  else if status = 2 then .ok .PENDING_UNENROLLMENT
  else .error (.panic 0x21)

def encode (enrollment : Enrollment) : Word 32 :=
  ⟨enrollment.status.toByte :: be 31 enrollment.unenrollmentStartBlock, by simp⟩

def decode (encoded : Word 32) : Except Error Enrollment := do
  let status ← EnrollmentStatus.ofByte (encoded.1.headD 0)
  return ⟨status, ofBe encoded.1.tail⟩

variable {H M : Type}

/-! ## State -/

/-- a view of the challengers, too; a call that reverts has no answer -/
structure ManagerView extends View where
  challengeDelayBlocks : Address → Option ℕ

structure System (H M : Type) where
  registry : Registry H
  enrolledChallengers : Address → M
  slasher : Address
  owner : Address

variable (C : History H) (E : EnumerableMap.Ops M Address (Word 32)) (manager : Address) (now : ℕ) (v : ManagerView)

/-- the value of a missing key is decoded, too -/
def tryGet (s : System H M) (operator challenger : Address) : Except Error (Bool × Enrollment) :=
  match E.tryGet (s.enrolledChallengers operator) challenger with
  | some value => do
    let enrollment ← decode value
    return (true, enrollment)
  | none => do
    let enrollment ← decode (.filled 32 0)
    return (false, enrollment)

def setEnrollments (s : System H M) (operator : Address) (map : M) : System H M :=
  { s with enrolledChallengers := Function.update s.enrolledChallengers operator map }

/-! ## Functions -/

/-- `challenger.challengeDelayBlocks()` -/
def challengeDelay (challenger : Address) : Except Error ℕ :=
  match v.challengeDelayBlocks challenger with
  | some blocks => .ok blocks
  | none => .error (.require "")

def enrollIntoChallenger (s : System H M) (challenger : Address) : Except Error (System H M) := do
  let (added, map) := E.set (s.enrolledChallengers v.sender) challenger (encode ⟨.ENROLLED, 0⟩)
  revertIf (added = false) (.require "")
  return setEnrollments s v.sender map

def startUnenrollment (s : System H M) (challenger : Address) : Except Error (System H M) := do
  let (found, enrollment) ← tryGet E s v.sender challenger
  revertIf (¬(found = true ∧ enrollment.status = .ENROLLED))
    (.require "HyperlaneServiceManager: challenger isn't enrolled")
  let (_, map) := E.set (s.enrolledChallengers v.sender) challenger (encode ⟨.PENDING_UNENROLLMENT, now % 2 ^ 248⟩)
  -- asked for the event only
  let _ ← challengeDelay v challenger
  return setEnrollments s v.sender map

def completeUnenrollment (operator : Address) (s : System H M) (challenger : Address) : Except Error (System H M) := do
  let (found, enrollment) ← tryGet E s operator challenger
  revertIf (¬(found = true ∧ enrollment.status = .PENDING_UNENROLLMENT))
    (.require "HyperlaneServiceManager: Invalid unenrollment")
  let delay ← challengeDelay v challenger
  let deadline ← checked (enrollment.unenrollmentStartBlock + delay)
  revertIf (now < deadline) (.require "HyperlaneServiceManager: Invalid unenrollment")
  return setEnrollments s operator (E.remove (s.enrolledChallengers operator) challenger).2

def completeUnenrollments (operator : Address) (s : System H M) (challengers : List Address) :
    Except Error (System H M) :=
  challengers.foldlM (completeUnenrollment E now v operator) s

/-- the modifier `onlyEnrolledChallenger` -/
def onlyEnrolledChallenger (s : System H M) (operator : Address) : Except Error Unit := do
  let (found, _) ← tryGet E s operator v.sender
  revertIf (found = false) (.require "HyperlaneServiceManager: Operator not enrolled in challenger")

/-- an entry point of the registry, and what the service manager does when an operator leaves -/
def registryStep (s : System H M) (op : Op) : Except Error (System H M) := do
  let registry ← op.step C now v.toView s.registry
  let s := { s with registry := registry }
  match op with
  | .deregisterOperator =>
    if registry.serviceManager = manager then
      completeUnenrollments E now v v.sender s (E.keys (s.enrolledChallengers v.sender))
    else return s
  | _ => return s

/-! ## The system -/

inductive SystemOp where
  | registry (op : Op)
  | enrollIntoChallenger (challenger : Address)
  | enrollIntoChallengers (challengers : List Address)
  | startUnenrollment (challenger : Address)
  | startUnenrollments (challengers : List Address)
  | completeUnenrollment (challenger : Address)
  | completeUnenrollments (challengers : List Address)
  | freezeOperator (operator : Address)
  | setSlasher (slasher : Address)

/-- what an entry point does, up to its foreign call -/
def SystemOp.step (s : System H M) : SystemOp → Except Error (System H M)
  | .registry op => registryStep C E manager now v s op
  | .enrollIntoChallenger challenger => Avs.enrollIntoChallenger E v s challenger
  | .enrollIntoChallengers challengers => challengers.foldlM (Avs.enrollIntoChallenger E v) s
  | .startUnenrollment challenger => Avs.startUnenrollment E now v s challenger
  | .startUnenrollments challengers => challengers.foldlM (Avs.startUnenrollment E now v) s
  | .completeUnenrollment challenger => Avs.completeUnenrollment E now v v.sender s challenger
  | .completeUnenrollments challengers => Avs.completeUnenrollments E now v v.sender s challengers
  | .freezeOperator operator => do
    onlyEnrolledChallenger E v s operator
    return s
  | .setSlasher slasher => do
    revertIf (s.owner ≠ v.sender) (.require "Ownable: caller is not the owner")
    return { s with slasher := slasher }

/-- a call of the AVS directory or of the slasher follows -/
def SystemOp.callsOut : SystemOp → Bool
  | .registry op => op.callsServiceManager
  | .freezeOperator _ => true
  | _ => false

def systemBody (call : ManagerView × SystemOp) : Body (System H M) :=
  let step := fun s => (call.2.step C E manager now call.1 s).toOption
  if call.2.callsOut then .interact step fun _ _ => .finish some else .finish step

end Hyperlane.Avs
