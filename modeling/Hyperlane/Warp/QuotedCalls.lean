/-
The command router for quoted transfers (contracts/token/QuotedCalls.sol, with its guard libs/ReentrancyGuardTransient.sol),
and the tokens and allowances that callers can reach.

Everything that is called is foreign code (`Core.ForeignCode`): quoters, warp routes, account routers, receivers of ether,
and tokens that are no standard ERC-20. Standard tokens (`isToken`) are ledgers; they, Permit2 and the router itself have
none of the functions that the router calls on a route and no fallback, so such a call reverts. Permit2 is a parameter: what
its signed permits and its allowances admit. Inputs are given as the tuples that they decode to; an input of another
command does not decode.

What is called with which arguments is kept in `outgoing`, finished executions in `executed`, and what spenders took out
of the router through its own allowances in `taken`.
-/
import Hyperlane.Core.ForeignCode
import Hyperlane.Core.Ledger
import Hyperlane.Mailbox.Operations

namespace Hyperlane.QuotedCalls

open Hyperlane.ForeignCode Hyperlane.ForeignCode.Code Hyperlane.Bytes Hyperlane.Tokens
open Hyperlane.Mailbox (Address Bytes32)

/-! ## Data -/

structure SignedQuote where
  context : List UInt8
  data : List UInt8
  issuedAt : ℕ
  expiry : ℕ
  salt : Bytes32
  submitter : Address

/-- `CallLib.Call` -/
structure RemoteCall where
  callee : Bytes32
  value : ℕ
  data : List UInt8

structure PermitDetails where
  token : Address
  amount : ℕ
  expiration : ℕ
  nonce : ℕ
deriving DecidableEq

structure PermitSingle where
  details : PermitDetails
  spender : Address
  sigDeadline : ℕ
deriving DecidableEq

structure Quote where
  token : Address
  amount : ℕ

structure TransferRemoteParams where
  warpRoute : Address
  destination : UInt32
  recipient : Bytes32
  amount : ℕ
  value : ℕ
  token : Address
  approval : ℕ

structure TransferRemoteToParams where
  router : Address
  destination : UInt32
  recipient : Bytes32
  amount : ℕ
  targetRouter : Bytes32
  value : ℕ
  token : Address
  approval : ℕ

structure CallRemoteParams where
  icaRouter : Address
  destination : UInt32
  router : Bytes32
  ism : Bytes32
  calls : List RemoteCall
  hookMetadata : List UInt8
  userSalt : Bytes32
  value : ℕ
  token : Address
  approval : ℕ

structure CommitRevealParams where
  icaRouter : Address
  destination : UInt32
  router : Bytes32
  ism : Bytes32
  hookMetadata : List UInt8
  hook : Address
  salt : Bytes32
  commitment : Bytes32
  value : ℕ
  token : Address
  approval : ℕ

/-- the tuple that an input decodes to -/
inductive Input where
  | submitQuote (quoter : Address) (quote : SignedQuote) (signature : List UInt8) (clientSalt : Bytes32)
  | permit (permitSingle : PermitSingle) (signature : List UInt8)
  /-- a token and an amount -/
  | transfer (token : Address) (amount : ℕ)
  | transferRemote (p : TransferRemoteParams)
  | transferRemoteTo (p : TransferRemoteToParams)
  | callRemoteWithOverrides (p : CallRemoteParams)
  | callRemoteCommitReveal (p : CommitRevealParams)
  | sweep (token : Address)

inductive Error where
  | InvalidCommandType (commandType : UInt8)
  | InvalidSalt
  | ReentrancyGuardReentrantCall
  | require (reason : String)
  | token (reason : Reason)
  /-- calldata or an answer does not decode -/
  | abi
  /-- Permit2 refuses, or the called contract has no such function -/
  | refused
deriving Inhabited

/-- what a foreign call returns -/
inductive Answer where
  | none
  | number (n : ℕ)
  | quotes (quotes : List Quote)

/-- what the router calls on quoters and routes -/
inductive Outgoing where
  | submitQuote (quote : SignedQuote) (signature : List UInt8)
  | transferRemote (destination : UInt32) (recipient : Bytes32) (amount : ℕ)
  | transferRemoteTo (destination : UInt32) (recipient : Bytes32) (amount : ℕ) (targetRouter : Bytes32)
  | callRemoteWithOverrides (destination : UInt32) (router ism : Bytes32) (calls : List RemoteCall)
      (hookMetadata : List UInt8) (userSalt : Bytes32)
  | callRemoteCommitReveal (destination : UInt32) (router ism : Bytes32) (hookMetadata : List UInt8) (hook : Address)
      (salt commitment : Bytes32)

/-- the salt of a quote or of an account -/
def Outgoing.salt : Outgoing → Option Bytes32
  | .submitQuote quote _ => some quote.salt
  | .transferRemote _ _ _ => none
  | .transferRemoteTo _ _ _ _ => none
  | .callRemoteWithOverrides _ _ _ _ _ userSalt => some userSalt
  | .callRemoteCommitReveal _ _ _ _ _ salt _ => some salt

/-- what Permit2 does to its own state; its transfers are up to the caller of these functions -/
structure Permit2 (P : Type) where
  permit : (now : ℕ) → P → (owner : Address) → PermitSingle → (signature : List UInt8) → Option P
  /-- the allowance of a spender is used -/
  spend : (now : ℕ) → P → (owner spender token : Address) → (amount : ℕ) → Option P
  approve : P → (owner token spender : Address) → (amount expiration : ℕ) → P

structure Config (P : Type) where
  self : Address
  PERMIT2 : Address
  permit2 : Permit2 P
  isToken : Address → Bool
  keccak : List UInt8 → Bytes32

structure World (P : Type) where
  tokens : Bank Address Address
  eth : Address → ℕ
  permit2 : P
  /-- the reentrancy guard -/
  entered : Bool
  outgoing : List (Address × Outgoing)
  executed : List (Address × List (UInt8 × Input))
  taken : Address → ℕ

variable {P α : Type}

abbrev Program (P α : Type) := Code (World P) Answer Error α

def zeroAddress : Address := .filled 20 0

def SUBMIT_QUOTE : UInt8 := 0x00
def PERMIT2_PERMIT : UInt8 := 0x01
def PERMIT2_TRANSFER_FROM : UInt8 := 0x02
def TRANSFER_FROM : UInt8 := 0x03
def TRANSFER_REMOTE : UInt8 := 0x04
def TRANSFER_REMOTE_TO : UInt8 := 0x05
def CALL_REMOTE_WITH_OVERRIDES : UInt8 := 0x06
def CALL_REMOTE_COMMIT_REVEAL : UInt8 := 0x07
def SWEEP : UInt8 := 0x08

/-- the amount that stands for the whole balance -/
def CONTRACT_BALANCE : ℕ := 2 ^ 255

/-! ## Tokens and ether -/

section Model

variable (c : Config P)

def onToken (token : Address) (f : Ledger Address → Except Reason (Ledger Address)) (s : World P) :
    Except Error (World P) :=
  match s.tokens.on token f with
  | .ok tokens => .ok { s with tokens := tokens }
  | .error reason => .error (.token reason)

/-- `transferFrom` of an ERC-20; an allowance of `type(uint256).max` is not used up -/
def transferFromLedger (spender src dst : Address) (amount : ℕ) (l : Ledger Address) : Except Reason (Ledger Address) :=
  if l.allowance src spender = 2 ^ 256 - 1 then l.transfer src dst amount else l.transferFrom spender src dst amount

def tokenTransferFrom (token spender src dst : Address) (amount : ℕ) (s : World P) : Except Error (World P) := do
  let s ← onToken token (transferFromLedger spender src dst amount) s
  return { s with taken := fun t => s.taken t + if t = token ∧ src = c.self then amount else 0 }

/-- ether moves, if there is enough -/
def pay (src dst : Address) (amount : ℕ) (s : World P) : Except Error (World P) :=
  if amount ≤ s.eth src then
    .ok { s with eth := fun a => (s.eth a - if a = src then amount else 0) + if a = dst then amount else 0 }
  else .error .refused

def number : Answer → Except Error ℕ
  | .number n => .ok n
  | .none => .error .abi
  | .quotes _ => .error .abi

def quotesOf : Answer → Except Error (List Quote)
  | .quotes quotes => .ok quotes
  | .none => .error .abi
  | .number _ => .error .abi

/-- an optional boolean result is not `false` -/
def succeeded : Answer → Bool
  | .number n => n ≠ 0
  | _ => true

/-- a call of a token that is no standard ERC-20, through `SafeERC20` -/
def safeCall : Program P Unit := do
  let answer ← callOut id
  require (succeeded answer = true) (.require "SafeERC20: ERC20 operation did not succeed")

def safeTransferFrom (token src : Address) (amount : ℕ) : Program P Unit :=
  if c.isToken token then update (tokenTransferFrom c token c.self src c.self amount) else safeCall

def safeTransfer (token dst : Address) (amount : ℕ) : Program P Unit :=
  if c.isToken token then update (onToken token (Ledger.transfer c.self dst amount)) else safeCall

def balanceOf (token : Address) : Program P ℕ :=
  if c.isToken token then read fun s => (s.tokens token).balance c.self
  else do
    let answer ← callOut id
    lift (number answer)

/-- a second try with an allowance of zero in between, if a foreign token refuses the first -/
def forceApprove (token spender : Address) (amount : ℕ) : Program P Unit :=
  if c.isToken token then update (onToken token fun l => .ok (l.approve c.self spender amount))
  else do
    match ← tryCall id with
    | .ok answer => if succeeded answer then pure () else do
        safeCall
        safeCall
    | .error _ => do
      safeCall
      safeCall

def resolveAmount (token : Address) (amount : ℕ) : Program P ℕ :=
  if amount ≠ CONTRACT_BALANCE then pure amount
  else if token = zeroAddress then read fun s => s.eth c.self
  else balanceOf c token

def approve (token spender : Address) (amount : ℕ) : Program P Unit :=
  if token ≠ zeroAddress then forceApprove c token spender amount else pure ()

/-- an allowance that was given to `spender` in Permit2 is used for a transfer -/
def permit2TransferFrom (now : ℕ) (spender owner dst : Address) (amount : ℕ) (token : Address) : Program P Unit := do
  update fun s => match c.permit2.spend now s.permit2 owner spender token amount with
    | some p => .ok { s with permit2 := p }
    | none => .error .refused
  if c.isToken token then update (tokenTransferFrom c token c.PERMIT2 owner dst amount) else safeCall

def permit (now : ℕ) (owner : Address) (permitSingle : PermitSingle) (signature : List UInt8) (s : World P) : World P :=
  match c.permit2.permit now s.permit2 owner permitSingle signature with
  | some p => { s with permit2 := p }
  | none => s

/-- a function of a quoter or route is called for `sender`, with some ether -/
def callRoute (sender target : Address) (value : ℕ) (x : Outgoing) : Program P Answer := do
  require (c.isToken target = false ∧ target ≠ c.self ∧ target ≠ c.PERMIT2) .refused
  update (pay c.self target value)
  callOut fun s => { s with outgoing := s.outgoing ++ [(sender, x)] }

/-! ## Commands -/

def scopeSalt (caller : Address) (salt : Bytes32) : Bytes32 := c.keccak (caller.1 ++ salt.1)

def submitQuote (sender : Address) (input : Input) : Program P Unit := do
  let (quoter, quote, signature, clientSalt) ← lift (match input with
    | .submitQuote quoter quote signature clientSalt => .ok (quoter, quote, signature, clientSalt)
    | _ => .error .abi)
  require (quote.salt = scopeSalt c sender clientSalt) .InvalidSalt
  let _ ← callRoute c sender quoter 0 (.submitQuote quote signature)

/-- a token and an amount of the given width -/
def Input.asTransfer (bits : ℕ) : Input → Except Error (Address × ℕ)
  | .transfer token amount => if amount < 2 ^ bits then .ok (token, amount) else .error .abi
  | _ => .error .abi

def dispatchTransferRemote (sender : Address) (input : Input) : Program P Unit := do
  let p ← lift (match input with
    | .transferRemote p => .ok p
    | _ => .error .abi)
  let amount ← resolveAmount c p.token p.amount
  let value ← resolveAmount c zeroAddress p.value
  let approval ← resolveAmount c p.token p.approval
  approve c p.token p.warpRoute approval
  let _ ← callRoute c sender p.warpRoute value (.transferRemote p.destination p.recipient amount)

def dispatchTransferRemoteTo (sender : Address) (input : Input) : Program P Unit := do
  let p ← lift (match input with
    | .transferRemoteTo p => .ok p
    | _ => .error .abi)
  let amount ← resolveAmount c p.token p.amount
  let value ← resolveAmount c zeroAddress p.value
  let approval ← resolveAmount c p.token p.approval
  approve c p.token p.router approval
  let _ ← callRoute c sender p.router value (.transferRemoteTo p.destination p.recipient amount p.targetRouter)

/-- `CalldataHeadLib.approveFromHead` -/
def approveFromHead (spender token : Address) (approval : ℕ) : Program P Unit := do
  let amount ← resolveAmount c token approval
  approve c token spender amount

def dispatchCallRemoteWithOverrides (sender : Address) (input : Input) : Program P Unit := do
  let p ← lift (match input with
    | .callRemoteWithOverrides p => .ok p
    | _ => .error .abi)
  approveFromHead c p.icaRouter p.token p.approval
  let value ← resolveAmount c zeroAddress p.value
  let _ ← callRoute c sender p.icaRouter value
    (.callRemoteWithOverrides p.destination p.router p.ism p.calls p.hookMetadata (scopeSalt c sender p.userSalt))

def dispatchCallRemoteCommitReveal (sender : Address) (input : Input) : Program P Unit := do
  let p ← lift (match input with
    | .callRemoteCommitReveal p => .ok p
    | _ => .error .abi)
  approveFromHead c p.icaRouter p.token p.approval
  let value ← resolveAmount c zeroAddress p.value
  let _ ← callRoute c sender p.icaRouter value (.callRemoteCommitReveal p.destination p.router p.ism p.hookMetadata p.hook
    (scopeSalt c sender p.salt) p.commitment)

/-- the tokens go to the caller -/
def sweepToken (sender token : Address) : Program P Unit := do
  let tokenBalance ← balanceOf c token
  if 0 < tokenBalance then safeTransfer c token sender tokenBalance else pure ()

/-- the ether goes to the caller, who may run code -/
def sweepEth (sender : Address) : Program P Unit := do
  let ethBalance ← read fun s => s.eth c.self
  if 0 < ethBalance then do
    update (pay c.self sender ethBalance)
    let _ ← callOut id
  else pure ()

def sweep (sender : Address) (input : Input) : Program P Unit := do
  let token ← lift (match input with
    | .sweep token => .ok token
    | _ => .error .abi)
  if token ≠ zeroAddress then sweepToken c sender token else pure ()
  sweepEth c sender

def dispatch (now : ℕ) (sender : Address) (command : UInt8) (input : Input) : Program P Unit :=
  if command = SUBMIT_QUOTE then submitQuote c sender input
  else if command = PERMIT2_PERMIT then do
    let (permitSingle, signature) ← lift (match input with
      | .permit permitSingle signature => .ok (permitSingle, signature)
      | _ => .error .abi)
    write (permit c now sender permitSingle signature)
  else if command = PERMIT2_TRANSFER_FROM then do
    let (token, amount) ← lift (input.asTransfer 160)
    permit2TransferFrom c now c.self sender c.self amount token
  else if command = TRANSFER_FROM then do
    let (token, amount) ← lift (input.asTransfer 256)
    safeTransferFrom c token sender amount
  else if command = TRANSFER_REMOTE then dispatchTransferRemote c sender input
  else if command = TRANSFER_REMOTE_TO then dispatchTransferRemoteTo c sender input
  else if command = CALL_REMOTE_WITH_OVERRIDES then dispatchCallRemoteWithOverrides c sender input
  else if command = CALL_REMOTE_COMMIT_REVEAL then dispatchCallRemoteCommitReveal c sender input
  else if command = SWEEP then sweep c sender input
  else .revert (.InvalidCommandType command)

def dispatchAll (now : ℕ) (sender : Address) : List (UInt8 × Input) → Program P Unit
  | [] => pure ()
  | (command, input) :: rest => do
    dispatch c now sender command input
    dispatchAll now sender rest

def execute (now : ℕ) (sender : Address) (value : ℕ) (commands : List UInt8) (inputs : List Input) : Program P Unit := do
  update (pay sender c.self value)
  let entered ← read fun s => s.entered
  require (entered = false) .ReentrancyGuardReentrantCall
  write fun s => { s with entered := true }
  require (commands.length = inputs.length) (.require "length mismatch")
  dispatchAll c now sender (commands.zip inputs)
  write fun s => { s with entered := false, executed := s.executed ++ [(sender, commands.zip inputs)] }

/-! ## Quotes -/

/-- a view function of a route -/
def viewRoute (target : Address) : Program P Answer := do
  require (c.isToken target = false ∧ target ≠ c.self ∧ target ≠ c.PERMIT2) .refused
  callOut id

/-- the fee in one token, with which an account router answers -/
def quoteIcaGasPayment (icaRouter token : Address) : Program P (List Quote) := do
  let answer ← viewRoute c icaRouter
  let amount ← lift (number answer)
  return [⟨token, amount⟩]

def dispatchQuote (sender : Address) (command : UInt8) (input : Input) : Program P (List Quote) :=
  if command = SUBMIT_QUOTE then do
    submitQuote c sender input
    return []
  else if command = TRANSFER_REMOTE then do
    let p ← lift (match input with
      | .transferRemote p => .ok p
      | _ => .error .abi)
    let answer ← viewRoute c p.warpRoute
    lift (quotesOf answer)
  else if command = TRANSFER_REMOTE_TO then do
    let p ← lift (match input with
      | .transferRemoteTo p => .ok p
      | _ => .error .abi)
    let answer ← viewRoute c p.router
    lift (quotesOf answer)
  else if command = CALL_REMOTE_WITH_OVERRIDES then do
    let p ← lift (match input with
      | .callRemoteWithOverrides p => .ok p
      | _ => .error .abi)
    quoteIcaGasPayment c p.icaRouter p.token
  else if command = CALL_REMOTE_COMMIT_REVEAL then do
    let p ← lift (match input with
      | .callRemoteCommitReveal p => .ok p
      | _ => .error .abi)
    quoteIcaGasPayment c p.icaRouter p.token
  else if command ≠ PERMIT2_PERMIT ∧ command ≠ PERMIT2_TRANSFER_FROM ∧ command ≠ TRANSFER_FROM ∧ command ≠ SWEEP then
    .revert (.InvalidCommandType command)
  else return []

def quoteAll (sender : Address) : List (UInt8 × Input) → Program P (List (List Quote))
  | [] => return []
  | (command, input) :: rest => do
    let quotes ← dispatchQuote c sender command input
    let results ← quoteAll sender rest
    return quotes :: results

def quoteExecute (sender : Address) (commands : List UInt8) (inputs : List Input) : Program P (List (List Quote)) := do
  require (commands.length = inputs.length) (.require "length mismatch")
  quoteAll c sender (commands.zip inputs)

/-! ## What anybody can do -/

inductive Op where
  | execute (sender : Address) (value : ℕ) (commands : List UInt8) (inputs : List Input)
  | quoteExecute (sender : Address) (commands : List UInt8) (inputs : List Input)
  | transfer (sender token dst : Address) (amount : ℕ)
  | approve (sender token spender : Address) (amount : ℕ)
  | transferFrom (sender token src dst : Address) (amount : ℕ)
  | permit (sender owner : Address) (permitSingle : PermitSingle) (signature : List UInt8)
  | permit2Approve (sender token spender : Address) (amount expiration : ℕ)
  | permit2TransferFrom (sender owner dst : Address) (amount : ℕ) (token : Address)
  | pay (sender dst : Address) (amount : ℕ)

def Op.sender : Op → Address
  | .execute sender _ _ _ => sender
  | .quoteExecute sender _ _ => sender
  | .transfer sender _ _ _ => sender
  | .approve sender _ _ _ => sender
  | .transferFrom sender _ _ _ _ => sender
  | .permit sender _ _ _ => sender
  | .permit2Approve sender _ _ _ _ => sender
  | .permit2TransferFrom sender _ _ _ _ => sender
  | .pay sender _ _ => sender

/-- an operation of the router -/
def Op.isCall : Op → Bool
  | .execute _ _ _ _ => true
  | .quoteExecute _ _ _ => true
  | _ => false

def body (now : ℕ) : Op → Program P Unit
  | .execute sender value commands inputs => execute c now sender value commands inputs
  | .quoteExecute sender commands inputs => do
    let _ ← quoteExecute c sender commands inputs
  | .transfer sender token dst amount => update (onToken token (Ledger.transfer sender dst amount))
  | .approve sender token spender amount => update (onToken token fun l => .ok (l.approve sender spender amount))
  | .transferFrom sender token src dst amount => update (tokenTransferFrom c token sender src dst amount)
  | .permit _ owner permitSingle signature => write (permit c now owner permitSingle signature)
  | .permit2Approve sender token spender amount expiration =>
    write fun s => { s with permit2 := c.permit2.approve s.permit2 sender token spender amount expiration }
  | .permit2TransferFrom sender owner dst amount token => permit2TransferFrom c now sender owner dst amount token
  | .pay sender dst amount => update (pay sender dst amount)

end Model

end Hyperlane.QuotedCalls
