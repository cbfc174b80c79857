/-
ISMs that a hook of the origin chain has told the ids of its messages (contracts/isms/hook/AbstractMessageIdAuthorizedIsm.sol
with OPStackIsm.sol, ArbL2ToL1Ism.sol, ERC5164Ism.sol and CCIPIsm.sol, and contracts/libs/LibBit.sol).

The hook's call brings ether for the recipient; `verify` hands it over. Amount and mark of a message are packed in one
word. The bridges are foreign code: what they answer (`crossChainSender`) comes with the call, and what the recipient and
the Arbitrum outbox do is a foreign call of `Core.ForeignCode`. `native` are the ether balances of everybody; `history`
is what happened and was not undone.

- `clearBit_setBit`, `setBit_sub`, `isBitSet_setBit`: the packing.
-/
import Hyperlane.Core.ForeignCode
import Hyperlane.Mailbox.Operations

namespace Hyperlane.MessageIdIsm

open Hyperlane.Bytes Hyperlane.ForeignCode Hyperlane.ForeignCode.Code
open Hyperlane.Mailbox (Address Bytes32 TypeCasts.bytes32ToAddress Message.recipientAddress calldata)

abbrev Uint256 := BitVec 256

/-! ## Bits -/

namespace LibBit

def setBit (value : Uint256) (index : ℕ) : Uint256 := value ||| BitVec.twoPow 256 index

def clearBit (value : Uint256) (index : ℕ) : Uint256 := value &&& ~~~ BitVec.twoPow 256 index

def isBitSet (value : Uint256) (index : ℕ) : Bool := (value >>> index) &&& 1 == 1

end LibBit

open LibBit

def VERIFIED_MASK_INDEX : ℕ := 255

/-- verified, and nothing to hand over -/
def mark : Uint256 := BitVec.twoPow 256 VERIFIED_MASK_INDEX

theorem isBitSet_eq (value : Uint256) (index : ℕ) : isBitSet value index = value.getLsbD index := by
  unfold isBitSet
  have hone : (value >>> index) &&& 1 = 1 ↔ value.getLsbD index = true := by
    constructor
    · intro h
      have hbit := congrArg (fun w : Uint256 => w.getLsbD 0) h
      simpa using hbit
    · intro h
      refine BitVec.eq_of_getLsbD_eq fun i _ => ?_
      by_cases hi : i = 0
      · simp [hi, h]
      · simp [BitVec.getLsbD_one, hi]
  rw [Bool.eq_iff_iff, beq_iff_eq, hone]

theorem getLsbD_mark (i : ℕ) : mark.getLsbD i = decide (i = 255) := by
  rw [mark, BitVec.getLsbD_twoPow, VERIFIED_MASK_INDEX]
  simp [eq_comm]

/-- an amount does not reach the bit of the mark -/
theorem getLsbD_amount {value : Uint256} (h : value.toNat < 2 ^ VERIFIED_MASK_INDEX) : value.getLsbD 255 = false :=
  Nat.testBit_lt_two_pow h

section Packing

variable {value : Uint256}

theorem clearBit_setBit (h : value.toNat < 2 ^ VERIFIED_MASK_INDEX) :
    clearBit (setBit value VERIFIED_MASK_INDEX) VERIFIED_MASK_INDEX = value := by
  refine BitVec.eq_of_getLsbD_eq fun i hi => ?_
  change ((value ||| mark) &&& ~~~ mark).getLsbD i = value.getLsbD i
  rw [BitVec.getLsbD_and, BitVec.getLsbD_or, BitVec.getLsbD_not, getLsbD_mark]
  by_cases h255 : i = 255
  · rw [h255, getLsbD_amount h]
    simp
  · simp [h255, hi]

theorem clearBit_mark : clearBit mark VERIFIED_MASK_INDEX = 0 := BitVec.and_not_self _

theorem clearBit_zero : clearBit 0 VERIFIED_MASK_INDEX = 0 := BitVec.zero_and

/-- what is left when the amount is taken out is the mark -/
theorem setBit_sub (h : value.toNat < 2 ^ VERIFIED_MASK_INDEX) : setBit value VERIFIED_MASK_INDEX - value = mark := by
  have hdisjoint : value &&& mark = 0 := by
    refine BitVec.eq_of_getLsbD_eq fun i hi => ?_
    rw [BitVec.getLsbD_and, getLsbD_mark]
    by_cases h255 : i = 255
    · rw [h255, getLsbD_amount h]
      simp
    · simp [h255]
  change (value ||| mark) - value = mark
  rw [← BitVec.add_eq_or_of_and_eq_zero _ _ hdisjoint, BitVec.add_comm, BitVec.add_sub_cancel]

theorem isBitSet_setBit (value : Uint256) : isBitSet (setBit value VERIFIED_MASK_INDEX) VERIFIED_MASK_INDEX = true := by
  rw [isBitSet_eq]
  change (value ||| mark).getLsbD 255 = true
  rw [BitVec.getLsbD_or, getLsbD_mark]
  simp

theorem isBitSet_mark : isBitSet mark VERIFIED_MASK_INDEX = true := by
  rw [isBitSet_eq]
  exact getLsbD_mark 255

theorem isBitSet_zero : isBitSet 0 VERIFIED_MASK_INDEX = false := by
  rw [isBitSet_eq]
  exact BitVec.getLsbD_zero

theorem le_setBit (value : Uint256) : value ≤ setBit value VERIFIED_MASK_INDEX := by
  rw [BitVec.le_def]
  change value.toNat ≤ (value ||| mark).toNat
  rw [BitVec.toNat_or]
  exact Nat.left_le_or

end Packing

/-! ## State -/

/-- a call of the ISM, and what `_crossChainSender` answers in it; `none` where that reverts -/
structure Call where
  sender : Address
  value : Uint256
  crossChainSender : Option Address
deriving DecidableEq

/-- the arguments of `executeTransaction` of the Arbitrum outbox, as decoded from the metadata -/
structure OutboxCall where
  proof : List Bytes32
  index : ℕ
  l2Sender : Address
  toAddress : Address
  l2Block : ℕ
  l1Block : ℕ
  l2Timestamp : ℕ
  value : ℕ
  data : List UInt8
deriving DecidableEq

structure Any2EVMMessage where
  sourceChainSelector : UInt64
  sender : List UInt8
  data : List UInt8

inductive Event where
  | ReceivedMessage (call : Call) (messageId : Bytes32) (msgValue : Uint256)
  /-- `sendValue` of `_releaseValueToRecipient` -/
  | released (messageId : Bytes32) (recipient : Address) (msgValue : Uint256)
  | executeTransaction (call : OutboxCall)
  /-- ether that somebody else sends -/
  | paid (src dst : Address) (amount : ℕ)
deriving DecidableEq

structure State where
  initialized : Bool
  authorizedHook : Bytes32
  verifiedMessages : Bytes32 → Uint256
  native : Address → ℕ
  history : List Event

/-- the contracts that derive from the abstract one, with their immutable data -/
inductive Variant where
  | OPStackIsm
  | ArbL2ToL1Ism
  | ERC5164Ism (executor : Address)
  | CCIPIsm (router : Address) (ccipOrigin : UInt64)

structure Config where
  /-- the address of the ISM -/
  ism : Address
  variant : Variant
  keccak : List UInt8 → Bytes32

/-- a foreign call answers nothing that is looked at -/
abbrev Program (α : Type) : Type := Code State Unit String α

namespace State

def pay (s : State) (src dst : Address) (amount : ℕ) : State :=
  let native := Function.update s.native src (s.native src - amount)
  { s with native := Function.update native dst (native dst + amount) }

/-- somebody else sends ether -/
def receive (s : State) (src dst : Address) (amount : ℕ) : State :=
  { s.pay src dst amount with history := s.history ++ [.paid src dst amount] }

def isVerified (c : Config) (s : State) (message : List UInt8) : Bool :=
  isBitSet (s.verifiedMessages (c.keccak message)) VERIFIED_MASK_INDEX

end State

/-! ## Authorization -/

/-- the bridge says that the hook sent the call -/
def sentByHook (hook : Bytes32) (call : Call) : Except String Bool := do
  let sender ← calldata call.crossChainSender
  let hook ← TypeCasts.bytes32ToAddress hook
  return sender = hook

def OPStackIsm.isAuthorized (hook : Bytes32) (call : Call) : Except String Bool := sentByHook hook call

def ArbL2ToL1Ism.isAuthorized (hook : Bytes32) (call : Call) : Except String Bool := sentByHook hook call

def ERC5164Ism.isAuthorized (executor : Address) (call : Call) : Except String Bool := .ok (call.sender = executor)

def CCIPIsm.isAuthorized (router : Address) (call : Call) : Except String Bool := .ok (call.sender = router)

def isAuthorized (c : Config) (hook : Bytes32) (call : Call) : Except String Bool :=
  match c.variant with
  | .OPStackIsm => OPStackIsm.isAuthorized hook call
  | .ArbL2ToL1Ism => ArbL2ToL1Ism.isAuthorized hook call
  | .ERC5164Ism executor => ERC5164Ism.isAuthorized executor call
  | .CCIPIsm router _ => CCIPIsm.isAuthorized router call

/-! ## Entry points -/

/-- the call hands over its ether, which the caller must have -/
def receiveValue (c : Config) (call : Call) : Program Unit := do
  let s ← read id
  require (call.value.toNat ≤ s.native call.sender) ""
  write fun s => s.receive call.sender c.ism call.value.toNat

def setAuthorizedHook (hook : Bytes32) : Program Unit := do
  let s ← read id
  require (s.initialized = false) "Initializable: contract is already initialized"
  require (hook ≠ Word.filled 32 0) "AbstractMessageIdAuthorizedIsm: invalid authorized hook"
  write fun s => { s with initialized := true, authorizedHook := hook }

def preVerifyMessage (c : Config) (call : Call) (messageId : Bytes32) (msgValue : Uint256) : Program Unit := do
  let s ← read id
  let authorized ← lift (isAuthorized c s.authorizedHook call)
  require (authorized = true) "AbstractMessageIdAuthorizedIsm: sender is not the hook"
  require (call.value.toNat < 2 ^ VERIFIED_MASK_INDEX ∧ call.value = msgValue)
    "AbstractMessageIdAuthorizedIsm: invalid msg.value"
  require (s.verifiedMessages messageId = 0) "AbstractMessageIdAuthorizedIsm: message already verified"
  write fun s => { s with
    verifiedMessages := Function.update s.verifiedMessages messageId (setBit call.value VERIFIED_MASK_INDEX)
    history := s.history ++ [.ReceivedMessage call messageId msgValue] }

/-- `ccipReceive` of the router client, and `_ccipReceive` -/
def ccipReceive (c : Config) (call : Call) (any2EvmMessage : Any2EVMMessage) : Program Unit := do
  match c.variant with
  | .CCIPIsm router ccipOrigin => do
    require (call.sender = router) "InvalidRouter"
    require (ccipOrigin = any2EvmMessage.sourceChainSelector) "Unauthorized origin"
    let sender ← lift (calldata (wordAt 32 any2EvmMessage.sender 0))
    let s ← read id
    require (sender = s.authorizedHook) "Unauthorized hook"
    let messageId ← lift (calldata (wordAt 32 any2EvmMessage.data 0))
    preVerifyMessage c call messageId 0
  | _ => revert ""

/-- `sendValue` of the ether that came for a message; the ISM itself does not accept any -/
def sendValue (c : Config) (messageId : Bytes32) (recipient : Address) (amount : Uint256) : Program Unit := do
  let s ← read id
  require (amount.toNat ≤ s.native c.ism) "Address: insufficient balance"
  require (recipient ≠ c.ism) "Address: unable to send value, recipient may have reverted"
  let success ← tryCall fun s =>
    { s.pay c.ism recipient amount.toNat with history := s.history ++ [.released messageId recipient amount] }
  match success with
  | .ok _ => pure ()
  | .error _ => revert "Address: unable to send value, recipient may have reverted"

def releaseValueToRecipient (c : Config) (message : List UInt8) : Program Unit := do
  let s ← read id
  let messageId := c.keccak message
  let msgValue := clearBit (s.verifiedMessages messageId) VERIFIED_MASK_INDEX
  if 0 < msgValue then do
    -- the subtraction is checked
    require (msgValue ≤ s.verifiedMessages messageId) ""
    write fun s => { s with
      verifiedMessages := Function.update s.verifiedMessages messageId (s.verifiedMessages messageId - msgValue) }
    let recipient ← lift (Message.recipientAddress message)
    sendValue c messageId recipient msgValue
  else pure ()

/-- `verify` of the abstract contract -/
def verifyPreVerified (c : Config) (message : List UInt8) : Program Bool := do
  let verified ← read fun s => s.isVerified c message
  if verified = true then do
    releaseValueToRecipient c message
    return true
  else return false

def DATA_LENGTH : ℕ := 68

def MESSAGE_ID_END : ℕ := 36

/-- `metadata` is what `abi.decode` makes of it -/
def verifyWithOutboxCall (c : Config) (metadata : Option OutboxCall) (message : List UInt8) : Program Unit := do
  let outboxCall ← lift (calldata metadata)
  let s ← read id
  let hook ← lift (TypeCasts.bytes32ToAddress s.authorizedHook)
  require (outboxCall.l2Sender = hook) "ArbL2ToL1Ism: l2Sender != authorizedHook"
  require (outboxCall.data.length = DATA_LENGTH) "ArbL2ToL1Ism: invalid data length"
  require (wordAt 32 outboxCall.data (MESSAGE_ID_END - 32) = some (c.keccak message)) "ArbL2ToL1Ism: invalid message id"
  callOut fun s => { s with history := s.history ++ [.executeTransaction outboxCall] }

def ArbL2ToL1Ism.verify (c : Config) (metadata : Option OutboxCall) (message : List UInt8) : Program Bool := do
  let verified ← read fun s => s.isVerified c message
  if verified = true then do
    releaseValueToRecipient c message
    return true
  else do
    verifyWithOutboxCall c metadata message
    let verified ← read fun s => s.isVerified c message
    require (verified = true) "ArbL2ToL1Ism: message not verified"
    releaseValueToRecipient c message
    return true

def verify (c : Config) (metadata : Option OutboxCall) (message : List UInt8) : Program Bool :=
  match c.variant with
  | .ArbL2ToL1Ism => ArbL2ToL1Ism.verify c metadata message
  | _ => verifyPreVerified c message

/-! ## Runs -/

/-- an account that is not the ISM -/
abbrev Other (c : Config) : Type := { a : Address // a ≠ c.ism }

/-- the calls of the ISM, and ether that other accounts send to anybody, in any way -/
inductive Op (c : Config) where
  | setAuthorizedHook (hook : Bytes32)
  | preVerifyMessage (sender : Other c) (value : Uint256) (crossChainSender : Option Address) (messageId : Bytes32)
      (msgValue : Uint256)
  | ccipReceive (sender : Other c) (any2EvmMessage : Any2EVMMessage)
  | verify (metadata : Option OutboxCall) (message : List UInt8)
  | pay (src : Other c) (dst : Address) (amount : ℕ)

def body (c : Config) : Op c → Program Bool
  | .setAuthorizedHook hook => do
    setAuthorizedHook hook
    return true
  | .preVerifyMessage sender value crossChainSender messageId msgValue => do
    let call : Call := ⟨sender, value, crossChainSender⟩
    receiveValue c call
    preVerifyMessage c call messageId msgValue
    return true
  | .ccipReceive sender any2EvmMessage => do
    ccipReceive c ⟨sender, 0, none⟩ any2EvmMessage
    return true
  | .verify metadata message => verify c metadata message
  | .pay src dst amount => do
    let s ← read id
    require (amount ≤ s.native src) ""
    write fun s => s.receive src dst amount
    return true

/-- an ISM that nobody has used, with its hook set -/
def deployed (hook : Bytes32) (native : Address → ℕ) : State := ⟨true, hook, fun _ => 0, native, []⟩

end Hyperlane.MessageIdIsm
