/-
The mailbox (contracts/Mailbox.sol, with contracts/libs/Message.sol and TypeCasts.sol): `dispatch`, `process` and the
owner's settings.

ISMs, recipients and hooks are foreign code: a call of one is a foreign call of `Core.Reentrancy`, and may do anything,
also call the mailbox again. The answers of view calls (`quoteDispatch`, `interchainSecurityModule`, `isContract`) come
with the operation. `history` is the record of what happened and was not undone: the events, and the calls the mailbox
made. The overloads of `dispatch` with fewer arguments pass the default hook.
-/
import Hyperlane.Core.Bytes
import Hyperlane.Core.Reentrancy

namespace Hyperlane.Mailbox

open Hyperlane.Bytes Hyperlane.Reentrancy

abbrev Address := Word 20

abbrev Bytes32 := Word 32

/-- `address(0)` -/
def zeroAddress : Address := ⟨List.replicate 20 0, List.length_replicate⟩

/-- `require` -/
def require (condition : Bool) (reason : String) : Except String Unit :=
  if condition then .ok () else .error reason

theorem require_eq_ok {condition : Bool} {reason : String} {u : Unit} :
    require condition reason = .ok u ↔ condition = true := by
  unfold require
  cases condition with
  | true => simp
  | false => exact ⟨fun h => (nomatch h), fun h => (nomatch h)⟩

/-- a slice of calldata out of range reverts without a reason -/
def calldata {α : Type} : Option α → Except String α
  | some a => .ok a
  | none => .error ""

/-! ## Messages -/

namespace TypeCasts

def addressToBytes32 (a : Address) : Bytes32 := ⟨List.replicate 12 0 ++ a.1, by simp [a.2]⟩

def bytes32ToAddress (buf : Bytes32) : Except String Address :=
  if buf.1.take 12 = List.replicate 12 0 then .ok ⟨buf.1.drop 12, by simp [buf.2]⟩
  else .error "TypeCasts: bytes32ToAddress overflow"

end TypeCasts

namespace Message

def version (message : List UInt8) : Option UInt8 := (slice message 0 1).bind List.head?

def nonce (message : List UInt8) : Option UInt32 := uint32At message 1

def origin (message : List UInt8) : Option UInt32 := uint32At message 5

def sender (message : List UInt8) : Option Bytes32 := wordAt 32 message 9

def destination (message : List UInt8) : Option UInt32 := uint32At message 41

def recipient (message : List UInt8) : Option Bytes32 := wordAt 32 message 45

def recipientAddress (message : List UInt8) : Except String Address := do
  TypeCasts.bytes32ToAddress (← calldata (recipient message))

def body (message : List UInt8) : Option (List UInt8) := slice message 77 message.length

/-- `abi.encodePacked` of the fields -/
def formatMessage (version : UInt8) (nonce origin : UInt32) (sender : Bytes32) (destination : UInt32)
    (recipient : Bytes32) (messageBody : List UInt8) : List UInt8 :=
  [version] ++ be 4 nonce.toNat ++ be 4 origin.toNat ++ sender.1 ++ be 4 destination.toNat ++ recipient.1 ++ messageBody

end Message

/-! ## State -/

structure Delivery where
  processor : Address
  /-- `uint48` -/
  blockNumber : ℕ

/-- what the recipient's `interchainSecurityModule` answers -/
inductive IsmAnswer where
  /-- the call fails or returns no data -/
  | silent
  /-- `abi.decode` reverts -/
  | malformed
  | specifies (ism : Address)
deriving DecidableEq

inductive Event (Hash : Type) where
  | Dispatch (sender : Address) (destination : UInt32) (recipient : Bytes32) (message : List UInt8)
  | DispatchId (id : Hash)
  | Process (origin : UInt32) (sender : Bytes32) (recipient : Address)
  | ProcessId (id : Hash)
  | DefaultIsmSet (module : Address)
  | DefaultHookSet (hook : Address)
  | RequiredHookSet (hook : Address)
  /-- the recipient was asked for its ISM -/
  | ismOf (recipient : Address) (answer : IsmAnswer)
  /-- `verify` was called, and returned `ok` -/
  | verified (ism : Address) (metadata message : List UInt8) (ok : Bool)
  /-- `handle` is called for a message -/
  | handle (message : List UInt8) (recipient : Address) (value : ℕ) (origin : UInt32) (sender : Bytes32) (body : List UInt8)
  /-- `process` returned -/
  | processed (message : List UInt8)
  /-- `postDispatch` is called -/
  | postDispatch (hook : Address) (value : ℕ) (metadata message : List UInt8)
deriving DecidableEq

structure Storage (Hash : Type) where
  owner : Address
  nonce : UInt32
  latestDispatchedId : Option Hash
  defaultIsm : Address
  defaultHook : Address
  requiredHook : Address
  deliveries : Hash → Delivery
  history : List (Event Hash)

/-- the immutable data of a mailbox, and `keccak256` -/
structure Config (Hash : Type) where
  localDomain : UInt32
  keccak : List UInt8 → Hash

def VERSION : UInt8 := 3

variable {Hash : Type}

namespace Storage

/-- an initialised mailbox that was never used -/
def initial (owner defaultIsm defaultHook requiredHook : Address) : Storage Hash :=
  ⟨owner, 0, none, defaultIsm, defaultHook, requiredHook, fun _ => ⟨zeroAddress, 0⟩, []⟩

def delivered (s : Storage Hash) (id : Hash) : Bool := decide (0 < (s.deliveries id).blockNumber)

def record (s : Storage Hash) (events : List (Event Hash)) : Storage Hash := { s with history := s.history ++ events }

end Storage

/-! ## Processing -/

def recipientIsm (defaultIsm : Address) : IsmAnswer → Except String Address
  | .silent => .ok defaultIsm
  | .malformed => .error ""
  | .specifies ism => .ok (if ism ≠ zeroAddress then ism else defaultIsm)

/-- what `process` reads off a message -/
structure Inbound (Hash : Type) where
  id : Hash
  recipient : Address
  ism : Address
  origin : UInt32
  sender : Bytes32
  body : List UInt8

/-- the checks of `process` -/
def processChecks (c : Config Hash) (s : Storage Hash) (message : List UInt8) (answer : IsmAnswer) :
    Except String (Inbound Hash) := do
  require ((← calldata (Message.version message)) = VERSION) "Mailbox: bad version"
  require ((← calldata (Message.destination message)) = c.localDomain) "Mailbox: unexpected destination"
  let id := c.keccak message
  require (s.delivered id = false) "Mailbox: already delivered"
  let recipient ← Message.recipientAddress message
  let ism ← recipientIsm s.defaultIsm answer
  let origin ← calldata (Message.origin message)
  let sender ← calldata (Message.sender message)
  let body ← calldata (Message.body message)
  return ⟨id, recipient, ism, origin, sender, body⟩

variable [DecidableEq Hash]

/-- the effects of `process` -/
def processEffects (s : Storage Hash) (blockNumber : ℕ) (msgSender : Address) (answer : IsmAnswer) (m : Inbound Hash) :
    Storage Hash :=
  { s with
    deliveries := Function.update s.deliveries m.id ⟨msgSender, blockNumber % 2 ^ 48⟩
    history := s.history ++ [.ismOf m.recipient answer, .Process m.origin m.sender m.recipient, .ProcessId m.id] }

/-- checks and effects; then the foreign calls of `verify` and `handle` -/
def process (c : Config Hash) (blockNumber : ℕ) (msgSender : Address) (value : ℕ) (metadata message : List UInt8)
    (answer : IsmAnswer) : Body (Storage Hash) :=
  .interact (fun s => ((processChecks c s message answer).map (processEffects s blockNumber msgSender answer)).toOption)
    fun s ok =>
      match processChecks c s message answer with
      | .error _ => .finish fun _ => none
      | .ok m =>
        .interact
          (fun s1 => ((require ok "Mailbox: ISM verification failed").map fun _ =>
            s1.record [.verified m.ism metadata message ok, .handle message m.recipient value m.origin m.sender m.body]).toOption)
          fun _ _ => .finish fun s2 => some (s2.record [.processed message])

/-! ## Dispatching -/

def buildMessage (c : Config Hash) (s : Storage Hash) (msgSender : Address) (destinationDomain : UInt32)
    (recipientAddress : Bytes32) (messageBody : List UInt8) : List UInt8 :=
  Message.formatMessage VERSION s.nonce c.localDomain (TypeCasts.addressToBytes32 msgSender) destinationDomain
    recipientAddress messageBody

structure DispatchArgs where
  msgSender : Address
  value : ℕ
  destinationDomain : UInt32
  recipientAddress : Bytes32
  messageBody : List UInt8
  metadata : List UInt8
  hook : Address
  /-- what the required hook quotes; `none` if it reverts -/
  quote : Option ℕ

/-- the effects of `dispatch`; the addition is checked -/
def dispatchEffects (c : Config Hash) (a : DispatchArgs) (s : Storage Hash) : Option (Storage Hash) :=
  let message := buildMessage c s a.msgSender a.destinationDomain a.recipientAddress a.messageBody
  if s.nonce.toNat + 1 < 2 ^ 32 then
    some { s with
      latestDispatchedId := some (c.keccak message)
      nonce := s.nonce + 1
      history := s.history ++
        [.Dispatch a.msgSender a.destinationDomain a.recipientAddress message, .DispatchId (c.keccak message)] }
  else none

/-- effects and quote; then the foreign calls of `postDispatch` of the required hook and of the chosen one -/
def dispatch (c : Config Hash) (a : DispatchArgs) : Body (Storage Hash) :=
  .interact
    (fun s => do
      let s1 ← dispatchEffects c a s
      let requiredValue ← a.quote
      let message := buildMessage c s a.msgSender a.destinationDomain a.recipientAddress a.messageBody
      pure (s1.record [.postDispatch s1.requiredHook (min a.value requiredValue) a.metadata message]))
    fun s _ =>
      let message := buildMessage c s a.msgSender a.destinationDomain a.recipientAddress a.messageBody
      let hook := if a.hook = zeroAddress then s.defaultHook else a.hook
      .interact
        (fun s1 => some (s1.record
          [.postDispatch hook (a.value - min a.value (a.quote.getD 0)) a.metadata message]))
        fun _ _ => .finish some

/-! ## The owner's settings -/

inductive Setting where
  | setDefaultIsm (module : Address) (isContract : Bool)
  | setDefaultHook (hook : Address) (isContract : Bool)
  | setRequiredHook (hook : Address) (isContract : Bool)
  | transferOwnership (newOwner : Address)

/-- a setting, by the owner -/
def set (msgSender : Address) (setting : Setting) (s : Storage Hash) : Except String (Storage Hash) := do
  require (msgSender = s.owner) "Ownable: caller is not the owner"
  match setting with
  | .setDefaultIsm module isContract => do
    require isContract "Mailbox: default ISM not contract"
    return Storage.record { s with defaultIsm := module } [.DefaultIsmSet module]
  | .setDefaultHook hook isContract => do
    require isContract "Mailbox: default hook not contract"
    return Storage.record { s with defaultHook := hook } [.DefaultHookSet hook]
  | .setRequiredHook hook isContract => do
    require isContract "Mailbox: required hook not contract"
    return Storage.record { s with requiredHook := hook } [.RequiredHookSet hook]
  | .transferOwnership newOwner => do
    require (newOwner ≠ zeroAddress) "Ownable: new owner is the zero address"
    return { s with owner := newOwner }

/-! ## Runs -/

inductive Op where
  | process (msgSender : Address) (value : ℕ) (metadata message : List UInt8) (answer : IsmAnswer)
  | dispatch (args : DispatchArgs)
  | set (msgSender : Address) (setting : Setting)

/-- the operations in a block -/
def body (c : Config Hash) (blockNumber : ℕ) : Op → Body (Storage Hash)
  | .process msgSender value metadata message answer => process c blockNumber msgSender value metadata message answer
  | .dispatch args => dispatch c args
  | .set msgSender setting => .finish fun s => (set msgSender setting s).toOption

/-- transactions, each with the number of its block -/
abbrev Transactions := List (ℕ × Frame Op)

end Hyperlane.Mailbox
