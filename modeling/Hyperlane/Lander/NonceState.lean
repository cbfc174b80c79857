/-
The nonces of an EVM signer: `NonceManagerState` (lander/src/adapter/chains/ethereum/nonce).

The store keeps, per signer, the finalized and the upper nonce, the transaction a nonce was given to and the nonce a
transaction was given, each under its own key. Every function below is a program over that store, one access for one key
read or written. `assign_next_nonce` and `update_boundary_nonces_from_chain` hold `boundary_update_lock`;
`validate_assigned_nonce` and `overwrite_upper_nonce` do not.

A transaction id is never the default id, which marks a nonce as free; an absent entry reads the same.
-/
import Hyperlane.Core.Bytes
import Hyperlane.Core.Interleaving

namespace Hyperlane.Lander

open Interleaving (Prog)

abbrev U256 := Fin (2 ^ 256)

namespace U256

def MAX : U256 := Fin.last (2 ^ 256 - 1)

/-- `saturating_add(U256::one())` -/
def succ (n : U256) : U256 := if h : n.val + 1 < 2 ^ 256 then ⟨n.val + 1, h⟩ else n

/-- `saturating_sub(U256::one())` -/
def pred (n : U256) : U256 := ⟨n.val - 1, by omega⟩

/-- `checked_sub(U256::one())` -/
def checkedPred (n : U256) : Option U256 := if n.val = 0 then none else some n.pred

theorem le_succ (n : U256) : n ≤ n.succ := by
  rw [succ]
  split
  · exact Nat.le_succ n.val
  · exact le_rfl

theorem succ_val {n : U256} (h : n.val + 1 < 2 ^ 256) : n.succ.val = n.val + 1 := by rw [succ, dif_pos h]

theorem val_lt_of_ne_max {n : U256} (h : n ≠ MAX) : n.val + 1 < 2 ^ 256 := by
  have hne : n.val ≠ 2 ^ 256 - 1 := fun he => h (Fin.ext he)
  omega

theorem lt_succ {n : U256} (h : n ≠ MAX) : n < n.succ := by
  rw [Fin.lt_def, succ_val (val_lt_of_ne_max h)]
  exact Nat.lt_succ_self _

theorem succ_le {n m : U256} (h : n < m) : n.succ ≤ m := by
  rw [Fin.le_def, succ_val (lt_of_le_of_lt (Nat.succ_le_of_lt h) m.2)]
  exact Nat.succ_le_of_lt h

theorem checkedPred_ne_max {n f : U256} (h : n.checkedPred = some f) : f ≠ MAX := by
  rw [checkedPred] at h
  split at h
  · exact nomatch h
  next hn =>
    obtain rfl := Option.some.inj h
    intro he
    have hval : n.val - 1 = 2 ^ 256 - 1 := congrArg Fin.val he
    have hlt := n.2
    omega

end U256

/-- the reason of a drop plays no part -/
inductive TransactionStatus where
  | PendingInclusion
  | Mempool
  | Included
  | Finalized
  | Dropped
deriving DecidableEq

inductive NonceStatus where
  | Freed
  | Taken
  | Committed
deriving DecidableEq

def calculateNonceStatus : TransactionStatus → NonceStatus
  | .PendingInclusion | .Mempool | .Included => .Taken
  | .Finalized => .Committed
  | .Dropped => .Freed

/-- both ends belong to the range -/
structure ReorgedNonceRange where
  start : U256
  stop : U256
deriving DecidableEq

structure NonceStore (Uuid : Type) where
  finalizedNonce : Option U256
  finalizedNoncePresent : Option Bool
  upperNonce : Option U256
  reorgedNonceRange : Option ReorgedNonceRange
  transactionUuidByNonce : U256 → Option Uuid
  nonceByTransactionUuid : Uuid → Option U256
  transactions : Uuid → Option TransactionStatus

variable {Uuid : Type}

abbrev Db (Uuid : Type) := Prog (NonceStore Uuid)

namespace NonceStore

def empty : NonceStore Uuid := ⟨none, none, none, none, fun _ => none, fun _ => none, fun _ => none⟩

/-- `retrieve_finalized_nonce_by_signer_address` -/
def finalized (s : NonceStore Uuid) : Option U256 :=
  if s.finalizedNoncePresent = some false then none else s.finalizedNonce

def upper (s : NonceStore Uuid) : U256 := s.upperNonce.getD 0

end NonceStore

/-! ## The keys of the store -/

def getFinalizedNonce : Db Uuid (Option U256) := do
  let present ← Prog.read fun s => s.finalizedNoncePresent
  if present = some false then pure none else Prog.read fun s => s.finalizedNonce

def setFinalizedNonce (nonce : U256) : Db Uuid Unit := do
  Prog.write fun s => { s with finalizedNonce := some nonce }
  Prog.write fun s => { s with finalizedNoncePresent := some true }

def clearFinalizedNonce : Db Uuid Unit := Prog.write fun s => { s with finalizedNoncePresent := some false }

def getUpperNonce : Db Uuid U256 := Prog.read fun s => s.upper

def setUpperNonce (nonce : U256) : Db Uuid Unit := Prog.write fun s => { s with upperNonce := some nonce }

def getReorgedNonceRange : Db Uuid (Option ReorgedNonceRange) := Prog.read fun s => s.reorgedNonceRange

def storeReorgedNonceRange (range : Option ReorgedNonceRange) : Db Uuid Unit :=
  Prog.write fun s => { s with reorgedNonceRange := range }

def getTrackedTxUuid (nonce : U256) : Db Uuid (Option Uuid) := Prog.read fun s => s.transactionUuidByNonce nonce

def getTrackedTx (uuid : Uuid) : Db Uuid (Option TransactionStatus) := Prog.read fun s => s.transactions uuid

def clearTrackedTxUuid (nonce : U256) : Db Uuid Unit :=
  Prog.write fun s => { s with transactionUuidByNonce := Function.update s.transactionUuidByNonce nonce none }

def getTxNonce (uuid : Uuid) : Db Uuid (Option U256) := Prog.read fun s => s.nonceByTransactionUuid uuid

/-- `store_nonce_by_transaction_uuid` -/
def storeNonce [DecidableEq Uuid] (uuid : Uuid) (nonce : U256) : Db Uuid Unit :=
  Prog.write fun s => { s with nonceByTransactionUuid := Function.update s.nonceByTransactionUuid uuid (some nonce) }

/-- the largest nonce stands for none -/
def clearTrackedTxNonce [DecidableEq Uuid] (uuid : Uuid) : Db Uuid Unit := storeNonce uuid U256.MAX

def setTrackedTxUuid [DecidableEq Uuid] (nonce : U256) (uuid : Uuid) : Db Uuid Unit := do
  Prog.write fun s => { s with transactionUuidByNonce := Function.update s.transactionUuidByNonce nonce (some uuid) }
  storeNonce uuid nonce

/-! ## Calculating the nonce of a transaction -/

inductive NonceAction where
  | Assign (nonce : U256)
  | AssignNext (oldNonce : Option U256)

/-- `status` and `txNonce` are what the caller's copy of the transaction says -/
def validateAssignedNonce (txUuid : Uuid) (status : TransactionStatus) (txNonce : Option U256) :
    Db Uuid NonceAction := do
  let stored ← getTxNonce txUuid
  let dbNonce := stored.filter fun nonce => nonce ≠ U256.MAX
  match dbNonce, txNonce with
  | none, _ => pure (.AssignNext none)
  -- the stored nonce goes before the one of the transaction
  | some nonce, _ =>
    let finalizedNonce ← getFinalizedNonce
    match calculateNonceStatus status with
    | .Freed => pure (.AssignNext (some nonce))
    | .Taken =>
      if finalizedNonce.any fun f => nonce ≤ f then pure (.AssignNext (some nonce)) else pure (.Assign nonce)
    | .Committed => pure (.Assign nonce)

/-- untracked, tracked by a transaction that does not exist, or by a dropped one -/
def nonceAvailable (nonce : U256) : Db Uuid Bool := do
  match ← getTrackedTxUuid nonce with
  | none => pure true
  | some uuid =>
    match ← getTrackedTx uuid with
    | none => pure true
    | some status => pure (calculateNonceStatus status == .Freed)

/-- the loop of `identify_next_nonce`, with the number of nonces left below the upper one -/
def scanFreeNonce : ℕ → U256 → Db Uuid U256
  | 0, nonce => pure nonce
  | k + 1, nonce => do
    if ← nonceAvailable nonce then pure nonce else scanFreeNonce k nonce.succ

def identifyNextNonce (finalizedNonce : Option U256) (upperNonce : U256) : Db Uuid U256 :=
  let scanStart := finalizedNonce.elim 0 U256.succ
  scanFreeNonce (upperNonce.val - scanStart.val) scanStart

/-- the old nonce is cleared only when it is tracked for this transaction -/
def clearOldNonce [DecidableEq Uuid] (txUuid : Uuid) : Option U256 → Db Uuid Unit
  | none => pure ()
  | some nonce => do
    let tracked ← getTrackedTxUuid nonce
    if tracked = some txUuid then do
      clearTrackedTxUuid nonce
      clearTrackedTxNonce txUuid
    else pure ()

def assignNextNonceBody [DecidableEq Uuid] (txUuid : Uuid) (oldNonce : Option U256) : Db Uuid U256 := do
  clearOldNonce txUuid oldNonce
  let finalizedNonce ← getFinalizedNonce
  let upperNonce ← getUpperNonce
  let nextNonce ← identifyNextNonce finalizedNonce upperNonce
  if nextNonce = upperNonce then setUpperNonce nextNonce.succ else pure ()
  setTrackedTxUuid nextNonce txUuid
  pure nextNonce

def assignNextNonce [DecidableEq Uuid] (txUuid : Uuid) (oldNonce : Option U256) : Db Uuid U256 :=
  Prog.locked (assignNextNonceBody txUuid oldNonce)

def calculateNextNonce [DecidableEq Uuid] (txUuid : Uuid) (status : TransactionStatus) (txNonce : Option U256) :
    Db Uuid U256 := do
  match ← validateAssignedNonce txUuid status txNonce with
  | .Assign nonce => pure nonce
  | .AssignNext oldNonce => assignNextNonce txUuid oldNonce

/-! ## Following the chain -/

/-- the loop of `trim_freed_upper_nonces`, with the number of nonces left above the floor -/
def scanTrim : ℕ → U256 → Db Uuid U256
  | 0, trimmed => pure trimmed
  | k + 1, trimmed => do
    if ← nonceAvailable trimmed.pred then scanTrim k trimmed.pred else pure trimmed

def trimFreedUpperNonces (finalizedNonce : Option U256) (upperNonce : U256) : Db Uuid U256 := do
  let floor := finalizedNonce.elim 0 U256.succ
  let trimmed ← scanTrim (upperNonce.val - floor.val) upperNonce
  if trimmed ≠ upperNonce then setUpperNonce trimmed else pure ()
  pure trimmed

/-- a finalized nonce below the stored one: the nonces in between are stored before it -/
def recordRegression (finalizedNonce oldFinalizedNonce : Option U256) (existing : Option ReorgedNonceRange) :
    Db Uuid (Option ReorgedNonceRange) :=
  match oldFinalizedNonce.filter fun old => finalizedNonce.all fun new => new < old with
  | none => pure existing
  | some old => do
    let observed : ReorgedNonceRange := ⟨finalizedNonce.elim 0 U256.succ, old⟩
    let merged := existing.elim observed fun e => ⟨min e.start observed.start, max e.stop observed.stop⟩
    storeReorgedNonceRange (some merged)
    pure (some merged)

def storeFinalizedNonce : Option U256 → Db Uuid Unit
  | some nonce => setFinalizedNonce nonce
  | none => clearFinalizedNonce

/-- the upper nonce follows a finalized nonce that has passed it -/
def raiseUpperNonce (finalizedNonce : Option U256) : Db Uuid U256 := do
  let upperNonce ← getUpperNonce
  match finalizedNonce.filter fun nonce => upperNonce ≤ nonce with
  | some nonce => do
    setUpperNonce nonce.succ
    pure nonce.succ
  | none => pure upperNonce

def clearRecovered : Option ReorgedNonceRange → Db Uuid Unit
  | some _ => storeReorgedNonceRange none
  | none => pure ()

def updateBoundaryNoncesBody (finalizedNonce : Option U256) : Db Uuid Unit := do
  let oldFinalizedNonce ← getFinalizedNonce
  let existing ← getReorgedNonceRange
  let pending ← recordRegression finalizedNonce oldFinalizedNonce existing
  let recovered := pending.filter fun range => finalizedNonce.any fun nonce => range.stop ≤ nonce
  storeFinalizedNonce finalizedNonce
  let upperNonce ← raiseUpperNonce finalizedNonce
  let _ ← trimFreedUpperNonces finalizedNonce upperNonce
  clearRecovered recovered

def updateBoundaryNoncesFromChain (finalizedNonce : Option U256) : Db Uuid Unit :=
  Prog.locked (updateBoundaryNoncesBody finalizedNonce)

/-- `update_boundaries_immediately`: the provider tells the next nonce -/
def updateBoundaries (nextNonce : U256) : Db Uuid Unit := updateBoundaryNoncesFromChain nextNonce.checkedPred

/-! ## The operator's reset -/

inductive OverwriteError where
  | higherThanCurrentUpper (desired upper : U256)
  | notAboveFinalized (desired finalized : U256)

/-- every nonce of the range and its transaction are cleared -/
def clearNonces [DecidableEq Uuid] : ℕ → U256 → Db Uuid Unit
  | 0, _ => pure ()
  | k + 1, nonce => do
    match ← getTrackedTxUuid nonce with
    | none => clearNonces k nonce.succ
    | some uuid => do
      clearTrackedTxUuid nonce
      clearTrackedTxNonce uuid
      clearNonces k nonce.succ

/-- checked against the boundaries as they were read -/
def checkDesired (finalizedNonce : Option U256) (upperNonce desired : U256) : Except OverwriteError Unit :=
  if upperNonce ≤ desired then .error (.higherThanCurrentUpper desired upperNonce)
  else match finalizedNonce with
    | some finalized => if desired ≤ finalized then .error (.notAboveFinalized desired finalized) else .ok ()
    | none => .ok ()

def overwriteUpperNonce [DecidableEq Uuid] (desiredNonce : Option (Fin (2 ^ 64))) :
    Db Uuid (Except OverwriteError U256) := do
  let finalizedNonce ← getFinalizedNonce
  let desired := desiredNonce.elim (finalizedNonce.elim 0 U256.succ) fun n => ⟨n.val, by omega⟩
  let upperNonce ← getUpperNonce
  match checkDesired finalizedNonce upperNonce desired with
  | .error e => pure (.error e)
  | .ok _ => do
    setUpperNonce desired
    clearNonces (upperNonce.val - desired.val) desired
    pure (.ok desired)

end Hyperlane.Lander
