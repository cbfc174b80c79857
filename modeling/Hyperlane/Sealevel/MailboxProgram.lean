/-
The Sealevel mailbox (rust/sealevel/programs/mailbox/src/processor.rs, accounts.rs and protocol_fee.rs, with
libraries/account-utils and access-control): the instructions that change its accounts.

An instruction names its accounts; whoever sends it chooses them, in any order and with any flags. What an account holds
is read from the chain. The program's own accounts live at addresses derived from seeds (`Runtime`), and their contents
are kept as values; what Borsh makes of other contents is a parameter.

The recipient, the ISM and the SPL noop program are foreign programs (`Callee`), each under its program id. The runtime does
not let them call the mailbox again, lets nobody but the owner of an account change its data, and lets nobody but the program
sign for its derived addresses (`Foreign`). Lamports are left out: whether a payer can pay comes with the instruction.
`history` records each call of a foreign program with its request and its answer, the default ISMs that were set and the
dispatched messages. View instructions, `ClaimProtocolFees` (which only moves lamports) and the log of a dispatch to the SPL
noop program are left out.
-/
import Hyperlane.Accumulator.Incremental
import Hyperlane.Mailbox.WireFormat
import Hyperlane.Sealevel.Runtime

namespace Hyperlane.SealevelMailbox

open Hyperlane.Bytes
open Hyperlane.Accumulator (IncrementalMerkle)
open Hyperlane.Relayer (Crypto H256 HyperlaneMessage)
open Hyperlane.Sealevel (Pubkey AccountMeta)

inductive ProgramError where
  | InvalidArgument
  | InvalidAccountData
  | MissingRequiredSignature
  | NotEnoughAccountKeys
  | AccountAlreadyInitialized
  | AccountBorrowFailed
  | BorshIoError
  | IllegalOwner
  | InvalidSeeds
  | EncodeError
  | DecodeError
  | UnsupportedMessageVersion
  | DestinationDomainNotLocalDomain
  | MessageAlreadyProcessed
  | ExtraneousAccount
  /-- an account that was not passed as writable was changed -/
  | ReadonlyDataModified
  /-- a called program failed -/
  | Callee
  /-- `expect`, `assert!` and the overflow checks -/
  | Panic
deriving DecidableEq

/-- `if !condition { return Err(error) }` -/
def ensure (condition : Prop) [Decidable condition] (error : ProgramError) : Except ProgramError Unit :=
  if condition then .ok () else .error error

def VERSION : UInt8 := 3

/-! ## Accounts -/

structure Inbox where
  localDomain : UInt32
  inboxBumpSeed : UInt8
  defaultIsm : Pubkey
  /-- `u64` -/
  processedCount : ℕ

structure ProtocolFee where
  fee : UInt64
  beneficiary : Pubkey

structure Outbox where
  localDomain : UInt32
  outboxBumpSeed : UInt8
  owner : Option Pubkey
  tree : IncrementalMerkle H256
  maxProtocolFee : UInt64
  protocolFee : ProtocolFee

structure ProcessedMessage where
  sequence : ℕ
  messageId : H256
  slot : ℕ

structure DispatchedMessage where
  nonce : UInt32
  slot : ℕ
  uniqueMessagePubkey : Pubkey
  encodedMessage : List UInt8

/-- the contents of an account -/
inductive Data where
  /-- of length zero -/
  | empty
  /-- zeros -/
  | blank
  | inbox (data : Inbox)
  | outbox (data : Outbox)
  | processed (data : ProcessedMessage)
  | dispatched (data : DispatchedMessage)
  | other (bytes : List UInt8)

structure Account where
  owner : Pubkey
  executable : Bool
  data : Data

abbrev Chain := Pubkey → Account

/-- the seeds of the derived addresses of the program, without the bump seed -/
inductive Seeds where
  | inbox
  | outbox
  | processAuthority (recipient : Pubkey)
  | processedMessage (id : H256)
  | dispatchedMessage (uniqueMessage : Pubkey)

/-- what lies outside the program -/
structure Runtime where
  programId : Pubkey
  systemProgram : Pubkey
  splNoop : Pubkey
  crypto : Crypto
  findProgramAddress : Seeds → Pubkey × UInt8
  createProgramAddress : Seeds → UInt8 → Option Pubkey
  /-- `find_program_address(mailbox_message_dispatch_authority_pda_seeds!(), sender)` -/
  dispatchAuthority : Pubkey → Pubkey
  /-- Borsh's deserialization of other contents -/
  parseInbox : Data → Option Inbox
  parseOutbox : Data → Option Outbox

variable (rt : Runtime)

/-- the derived address for seeds -/
def Runtime.pda (seeds : Seeds) : Pubkey := (rt.findProgramAddress seeds).1

/-- `AccountData::fetch`: data that is not initialized is the default -/
def fetchInbox : Data → Except ProgramError Inbox
  | .empty => .ok ⟨0, 0, Word.filled 32 0, 0⟩
  | .blank => .ok ⟨0, 0, Word.filled 32 0, 0⟩
  | .inbox data => .ok data
  | data =>
    match rt.parseInbox data with
    | some inbox => .ok inbox
    | none => .error .BorshIoError

def fetchOutbox : Data → Except ProgramError Outbox
  | .empty => .ok ⟨0, 0, none, .default rt.crypto.tree, 0, ⟨0, Word.filled 32 0⟩⟩
  | .blank => .ok ⟨0, 0, none, .default rt.crypto.tree, 0, ⟨0, Word.filled 32 0⟩⟩
  | .outbox data => .ok data
  | data =>
    match rt.parseOutbox data with
    | some outbox => .ok outbox
    | none => .error .BorshIoError

/-- the canonical address for the bump seed, and the owner -/
def verifyAddress (chain : Chain) (key : Pubkey) (seeds : Seeds) (bump : UInt8) : Except ProgramError Unit := do
  match rt.createProgramAddress seeds bump with
  | none => .error .InvalidSeeds
  | some expected => do
    ensure (key = expected) .InvalidArgument
    ensure ((chain key).owner = rt.programId) .IllegalOwner

/-- `Inbox::verify_account_and_fetch_inner` -/
def verifyInbox (chain : Chain) (info : AccountMeta) : Except ProgramError Inbox := do
  let inbox ← fetchInbox rt (chain info.pubkey).data
  verifyAddress rt chain info.pubkey .inbox inbox.inboxBumpSeed
  return inbox

/-- `Outbox::verify_account_and_fetch_inner` -/
def verifyOutbox (chain : Chain) (info : AccountMeta) : Except ProgramError Outbox := do
  let outbox ← fetchOutbox rt (chain info.pubkey).data
  verifyAddress rt chain info.pubkey .outbox outbox.outboxBumpSeed
  return outbox

/-- `AccessControl::ensure_owner_signer` -/
def Outbox.ensureOwnerSigner (outbox : Outbox) (maybeOwner : AccountMeta) : Except ProgramError Unit :=
  match outbox.owner with
  | none => .error .InvalidArgument
  | some owner => do
    ensure (maybeOwner.isSigner = true) .MissingRequiredSignature
    ensure (owner = maybeOwner.pubkey) .InvalidArgument

def verifyAccountUninitialized (chain : Chain) (info : AccountMeta) : Except ProgramError Unit :=
  match (chain info.pubkey).data with
  | .empty => ensure ((chain info.pubkey).owner = rt.systemProgram) .AccountAlreadyInitialized
  | _ => .error .AccountAlreadyInitialized

/-- `create_pda_account` and `AccountData::store`; the system program refuses an account that is in use -/
def createAndStore (chain : Chain) (funded : Bool) (info : AccountMeta) (data : Data) : Except ProgramError Chain := do
  verifyAccountUninitialized rt chain info
  ensure (funded = true) .Callee
  ensure (info.isWritable = true ∧ (chain info.pubkey).executable = false) .InvalidAccountData
  return Function.update chain info.pubkey ⟨rt.programId, false, data⟩

/-- `AccountData::store` -/
def store (chain : Chain) (info : AccountMeta) (data : Data) : Except ProgramError Chain := do
  ensure (info.isWritable = true ∧ (chain info.pubkey).executable = false) .InvalidAccountData
  return Function.update chain info.pubkey { chain info.pubkey with data := data }

/-- `next_account_info` -/
def nextAccountInfo : List AccountMeta → Except ProgramError (AccountMeta × List AccountMeta)
  | [] => .error .NotEnoughAccountKeys
  | info :: rest => .ok (info, rest)

/-- the accounts up to a marker, which stays; the marker must come -/
def accountsUntil (marker : Pubkey) : List AccountMeta → Except ProgramError (List AccountMeta × List AccountMeta)
  | [] => .error .InvalidArgument
  | info :: rest =>
    if info.pubkey = marker then .ok ([], info :: rest)
    else do
      let (infos, rest) ← accountsUntil marker rest
      return (info :: infos, rest)

/-! ## Foreign programs -/

/-- what other programs may do to the chain -/
structure Foreign (chain chain' : Chain) : Prop where
  owned : ∀ key, (chain key).owner = rt.programId → chain' key = chain key
  derived : ∀ key seeds bump, rt.createProgramAddress seeds bump = some key → chain' key = chain key
  /-- an account that is given to the program is not written any more -/
  assigned : ∀ key, (chain' key).owner = rt.programId →
    (chain key).owner = rt.programId ∨ (chain' key).data = .empty ∨ (chain' key).data = .blank

/-- a call of a foreign program: it fails, or returns something and leaves a chain -/
structure Callee (R : Type) where
  run : Chain → Option (R × Chain)
  foreign : ∀ chain r chain', run chain = some (r, chain') → Foreign rt chain chain'

/-- what the mailbox calls a program with -/
inductive Request where
  | InterchainSecurityModule
  | Verify (metadata message : List UInt8)
  | Handle (origin : UInt32) (sender : H256) (message : List UInt8)
  /-- the text "Hyperlane inbox: " with a message id -/
  | InboxLog (messageId : H256)

/-- `get_return_data`: the program that returned last, and what it returned -/
abbrev ReturnData := Option (Pubkey × List UInt8)

/-- the programs, by their ids -/
abbrev Programs := Pubkey → Request → List AccountMeta → Callee rt ReturnData

/-- `Option::<Pubkey>::try_from_slice` -/
def optionPubkey (bytes : List UInt8) : Except ProgramError (Option Pubkey) :=
  match bytes with
  | [0] => .ok none
  | 1 :: key => if h : key.length = 32 then .ok (some ⟨key, h⟩) else .error .BorshIoError
  | _ => .error .BorshIoError

/-- the ISM that the return data names; `get_recipient_ism` after the call -/
def returnedIsm (recipient defaultIsm : Pubkey) : Option (Pubkey × List UInt8) → Except ProgramError Pubkey
  | none => .ok defaultIsm
  | some (returningProgram, returnedData) => do
    ensure (returningProgram = recipient) .InvalidAccountData
    match returnedData with
    | [] => .ok defaultIsm
    | bytes => do
      let ism ← optionPubkey bytes
      return ism.getD defaultIsm

/-! ## State -/

/-- a dispatched message, with the account that signed for the sender and all signers of the instruction -/
structure Sent where
  message : HyperlaneMessage
  senderSigner : Pubkey
  signers : List Pubkey
  uniqueMessage : Pubkey

inductive Event where
  /-- a program was called, and returned -/
  | called (program : Pubkey) (request : Request) (returned : ReturnData)
  | setDefaultIsm (ism : Pubkey)
  | dispatch (sent : Sent)

structure State where
  chain : Chain
  history : List Event

/-- `invoke`: the data of the accounts that are passed is borrowed, which fails for one that is borrowed mutably -/
def invoke (programs : Programs rt) (program : Pubkey) (request : Request) (borrowed : Pubkey) (infos : List AccountMeta)
    (s : State) : Except ProgramError (ReturnData × State) := do
  ensure (∀ info ∈ infos, info.pubkey ≠ borrowed) .AccountBorrowFailed
  match (programs program request infos).run s.chain with
  | none => .error .Callee
  | some (returned, chain) => .ok (returned, ⟨chain, s.history ++ [.called program request returned]⟩)

/-! ## Instructions -/

structure InboxProcess where
  metadata : List UInt8
  message : List UInt8

/-- `HyperlaneMessage::read_from` -/
def readMessage (bytes : List UInt8) : Except ProgramError HyperlaneMessage :=
  match (Mailbox.Decode.readFrom bytes : Except Mailbox.IoError (HyperlaneMessage × List UInt8)) with
  | .ok (message, _) => .ok message
  | .error _ => .error .DecodeError

structure OutboxDispatch where
  sender : Pubkey
  destinationDomain : UInt32
  recipient : H256
  messageBody : List UInt8

structure Init where
  localDomain : UInt32
  defaultIsm : Pubkey
  maxProtocolFee : UInt64
  protocolFee : ProtocolFee

/-- what an instruction meets -/
structure Env where
  slot : ℕ
  /-- the payer has the lamports -/
  funded : Bool
  programs : Programs rt

variable {rt} in
def initializeMailbox (env : Env rt) (s : State) (accounts : List AccountMeta) (init : Init) :
    Except ProgramError State := do
  let (systemProgramInfo, accounts) ← nextAccountInfo accounts
  ensure (systemProgramInfo.pubkey = rt.systemProgram) .InvalidArgument
  let (payerInfo, accounts) ← nextAccountInfo accounts
  ensure (payerInfo.isSigner = true) .MissingRequiredSignature
  let (inboxInfo, accounts) ← nextAccountInfo accounts
  let (inboxKey, inboxBump) := rt.findProgramAddress .inbox
  ensure (inboxKey = inboxInfo.pubkey) .InvalidArgument
  verifyAccountUninitialized rt s.chain inboxInfo
  ensure (init.protocolFee.fee ≤ init.maxProtocolFee) .InvalidArgument
  let chain ← createAndStore rt s.chain env.funded inboxInfo (.inbox ⟨init.localDomain, inboxBump, init.defaultIsm, 0⟩)
  let (outboxInfo, _) ← nextAccountInfo accounts
  let (outboxKey, outboxBump) := rt.findProgramAddress .outbox
  ensure (outboxKey = outboxInfo.pubkey) .InvalidArgument
  verifyAccountUninitialized rt chain outboxInfo
  let chain ← createAndStore rt chain env.funded outboxInfo (.outbox
    ⟨init.localDomain, outboxBump, some payerInfo.pubkey, .default rt.crypto.tree, init.maxProtocolFee, init.protocolFee⟩)
  return { chain := chain, history := s.history ++ [.setDefaultIsm init.defaultIsm] }

/-- the ISM's process authority signs, if the ISM asks for it -/
def coSigned (ism : Pubkey) (infos : List AccountMeta) : List AccountMeta :=
  infos.map fun info => if info.pubkey = rt.pda (.processAuthority ism) then { info with isSigner := true } else info

variable {rt} in
def inboxProcess (env : Env rt) (s : State) (accounts : List AccountMeta) (process : InboxProcess) :
    Except ProgramError State := do
  let message ← readMessage process.message
  let messageId := message.id rt.crypto
  ensure (message.version = VERSION) .UnsupportedMessageVersion
  let recipientProgramId : Pubkey := message.recipient
  let (payerInfo, accounts) ← nextAccountInfo accounts
  ensure (payerInfo.isSigner = true) .MissingRequiredSignature
  let (systemProgramInfo, accounts) ← nextAccountInfo accounts
  ensure (systemProgramInfo.pubkey = rt.systemProgram) .InvalidArgument
  let (inboxInfo, accounts) ← nextAccountInfo accounts
  -- the data of the inbox stays borrowed until the end
  let inbox ← verifyInbox rt s.chain inboxInfo
  ensure (inbox.localDomain = message.destination) .DestinationDomainNotLocalDomain
  let (processAuthorityInfo, accounts) ← nextAccountInfo accounts
  ensure (processAuthorityInfo.pubkey = rt.pda (.processAuthority recipientProgramId)) .InvalidArgument
  let (processedMessageInfo, accounts) ← nextAccountInfo accounts
  ensure (processedMessageInfo.pubkey = rt.pda (.processedMessage messageId)) .InvalidArgument
  match verifyAccountUninitialized rt s.chain processedMessageInfo with
  | .error _ => .error .MessageAlreadyProcessed
  | .ok _ => do
    let (getIsmInfos, accounts) ← accountsUntil rt.splNoop accounts
    let (returned, s) ← invoke rt env.programs recipientProgramId .InterchainSecurityModule inboxInfo.pubkey getIsmInfos s
    let ism ← returnedIsm recipientProgramId inbox.defaultIsm returned
    let (splNoopInfo, accounts) ← nextAccountInfo accounts
    ensure (splNoopInfo.pubkey = rt.splNoop) .InvalidArgument
    ensure ((s.chain splNoopInfo.pubkey).executable = true) .InvalidArgument
    let (ismInfo, accounts) ← nextAccountInfo accounts
    ensure (ism = ismInfo.pubkey) .InvalidArgument
    let (ismVerifyInfos, accounts) ← accountsUntil recipientProgramId accounts
    let (recipientInfo, accounts) ← nextAccountInfo accounts
    ensure (recipientProgramId = recipientInfo.pubkey) .InvalidArgument
    ensure ((s.chain recipientInfo.pubkey).executable = true) .InvalidAccountData
    let (_, s) ← invoke rt env.programs ism (.Verify process.metadata process.message) inboxInfo.pubkey
      (coSigned rt ism ismVerifyInfos) s
    let chain ← createAndStore rt s.chain env.funded processedMessageInfo
      (.processed ⟨inbox.processedCount, messageId, env.slot⟩)
    ensure (inbox.processedCount + 1 < 2 ^ 64) .Panic
    ensure (inboxInfo.isWritable = true) .ReadonlyDataModified
    let chain := Function.update chain inboxInfo.pubkey
      { chain inboxInfo.pubkey with data := .inbox { inbox with processedCount := inbox.processedCount + 1 } }
    let (_, s) ← invoke rt env.programs recipientProgramId (.Handle message.origin message.sender message.body)
      inboxInfo.pubkey (⟨processAuthorityInfo.pubkey, true, false⟩ :: accounts) { s with chain := chain }
    let (_, s) ← invoke rt env.programs rt.splNoop (.InboxLog messageId) inboxInfo.pubkey [] s
    return s

variable {rt} in
def outboxDispatch (env : Env rt) (s : State) (accounts : List AccountMeta) (dispatch : OutboxDispatch) :
    Except ProgramError State := do
  let signers := (accounts.filter fun info => info.isSigner).map AccountMeta.pubkey
  let (outboxInfo, accounts) ← nextAccountInfo accounts
  let outbox ← verifyOutbox rt s.chain outboxInfo
  let (senderSignerInfo, accounts) ← nextAccountInfo accounts
  ensure (senderSignerInfo.isSigner = true) .MissingRequiredSignature
  ensure (senderSignerInfo.pubkey = dispatch.sender ∨ rt.dispatchAuthority dispatch.sender = senderSignerInfo.pubkey)
    .MissingRequiredSignature
  let (systemProgramInfo, accounts) ← nextAccountInfo accounts
  ensure (systemProgramInfo.pubkey = rt.systemProgram) .InvalidArgument
  let (splNoopInfo, accounts) ← nextAccountInfo accounts
  ensure (splNoopInfo.pubkey = rt.splNoop) .InvalidArgument
  ensure ((s.chain splNoopInfo.pubkey).executable = true) .InvalidArgument
  let (payerInfo, accounts) ← nextAccountInfo accounts
  ensure (payerInfo.isSigner = true) .MissingRequiredSignature
  let (uniqueMessageInfo, accounts) ← nextAccountInfo accounts
  ensure (uniqueMessageInfo.isSigner = true) .MissingRequiredSignature
  let (dispatchedMessageInfo, accounts) ← nextAccountInfo accounts
  ensure (rt.pda (.dispatchedMessage uniqueMessageInfo.pubkey) = dispatchedMessageInfo.pubkey) .InvalidArgument
  verifyAccountUninitialized rt s.chain dispatchedMessageInfo
  ensure (accounts = []) .ExtraneousAccount
  ensure (outbox.tree.count < 2 ^ 32) .Panic
  ensure (env.funded = true) .Callee
  let message : HyperlaneMessage := {
    version := VERSION
    nonce := UInt32.ofNat outbox.tree.count
    origin := outbox.localDomain
    sender := dispatch.sender
    destination := dispatch.destinationDomain
    recipient := dispatch.recipient
    body := dispatch.messageBody }
  match outbox.tree.ingest rt.crypto.tree (message.id rt.crypto) with
  | none => .error .Panic
  | some tree => do
    let chain ← createAndStore rt s.chain env.funded dispatchedMessageInfo
      (.dispatched ⟨message.nonce, env.slot, uniqueMessageInfo.pubkey, message.encode⟩)
    let chain ← store chain outboxInfo (.outbox { outbox with tree := tree })
    return {
      chain := chain
      history := s.history ++ [.dispatch ⟨message, senderSignerInfo.pubkey, signers, uniqueMessageInfo.pubkey⟩] }

def inboxSetDefaultIsm (s : State) (accounts : List AccountMeta) (ism : Pubkey) : Except ProgramError State := do
  let (inboxInfo, accounts) ← nextAccountInfo accounts
  let inbox ← verifyInbox rt s.chain inboxInfo
  let (outboxInfo, accounts) ← nextAccountInfo accounts
  let outbox ← verifyOutbox rt s.chain outboxInfo
  let (ownerInfo, accounts) ← nextAccountInfo accounts
  outbox.ensureOwnerSigner ownerInfo
  ensure (accounts = []) .ExtraneousAccount
  let chain ← store s.chain inboxInfo (.inbox { inbox with defaultIsm := ism })
  return { chain := chain, history := s.history ++ [.setDefaultIsm ism] }

def transferOwnership (s : State) (accounts : List AccountMeta) (newOwner : Option Pubkey) :
    Except ProgramError State := do
  let (outboxInfo, accounts) ← nextAccountInfo accounts
  let outbox ← verifyOutbox rt s.chain outboxInfo
  let (ownerInfo, _) ← nextAccountInfo accounts
  outbox.ensureOwnerSigner ownerInfo
  let chain ← store s.chain outboxInfo (.outbox { outbox with owner := newOwner })
  return { s with chain := chain }

def setProtocolFeeConfig (s : State) (accounts : List AccountMeta) (newProtocolFeeConfig : ProtocolFee) :
    Except ProgramError State := do
  let (outboxInfo, accounts) ← nextAccountInfo accounts
  let outbox ← verifyOutbox rt s.chain outboxInfo
  let (ownerInfo, _) ← nextAccountInfo accounts
  outbox.ensureOwnerSigner ownerInfo
  ensure (newProtocolFeeConfig.fee ≤ outbox.maxProtocolFee) .InvalidArgument
  let chain ← store s.chain outboxInfo (.outbox { outbox with protocolFee := newProtocolFeeConfig })
  return { s with chain := chain }

inductive Instruction where
  | Init (init : Init)
  | InboxProcess (process : InboxProcess)
  | InboxSetDefaultIsm (ism : Pubkey)
  | OutboxDispatch (dispatch : OutboxDispatch)
  | TransferOwnership (newOwner : Option Pubkey)
  | SetProtocolFeeConfig (newProtocolFeeConfig : ProtocolFee)

variable {rt} in
def processInstruction (env : Env rt) (s : State) (accounts : List AccountMeta) : Instruction → Except ProgramError State
  | .Init init => initializeMailbox env s accounts init
  | .InboxProcess process => inboxProcess env s accounts process
  | .InboxSetDefaultIsm ism => inboxSetDefaultIsm rt s accounts ism
  | .OutboxDispatch dispatch => outboxDispatch env s accounts dispatch
  | .TransferOwnership newOwner => transferOwnership rt s accounts newOwner
  | .SetProtocolFeeConfig newProtocolFeeConfig => setProtocolFeeConfig rt s accounts newProtocolFeeConfig

/-! ## Transactions -/

/-- an instruction of a transaction: of the mailbox, or of another program -/
inductive Step where
  | mailbox (env : Env rt) (accounts : List AccountMeta) (instruction : Instruction)
  | other (callee : Callee rt Unit)

variable {rt}

def Step.exec (s : State) : Step rt → Except ProgramError State
  | .mailbox env accounts instruction => processInstruction env s accounts instruction
  | .other callee =>
    match callee.run s.chain with
    | none => .error .Callee
    | some (_, chain) => .ok { s with chain := chain }

/-- a transaction that fails changes nothing -/
def transact (s : State) (steps : List (Step rt)) : State :=
  match steps.foldlM Step.exec s with
  | .ok s' => s'
  | .error _ => s

def run (s : State) (txs : List (List (Step rt))) : State := txs.foldl transact s

end Hyperlane.SealevelMailbox
