/-
What a Sealevel ISM program sees of the chain, and what it answers: accounts, calls into other programs, the interface of
ISM programs (rust/sealevel/libraries/interchain-security-module-interface), and stored account data
(rust/sealevel/libraries/account-utils).

Accounts are passed as keys with flags and read from the chain. The other ISM programs, the derivation of addresses, the
clock and Borsh's deserialization are parameters (`Runtime`).

- `fetchData_length`: what is stored fits its account.
- `store_ok_iff`: when data can be written.
-/
import Hyperlane.Sealevel.MultisigIsm

namespace Hyperlane.Sealevel

open Hyperlane.Bytes
open Hyperlane.Relayer (H160 H256 Crypto HyperlaneMessage)

/-! ## Accounts -/

abbrev Pubkey := Word 32

/-- `AccountMeta`, and `AccountInfo` without the account's state -/
structure AccountMeta where
  pubkey : Pubkey
  isSigner : Bool
  isWritable : Bool
deriving DecidableEq

def AccountMeta.new (pubkey : Pubkey) (isSigner : Bool) : AccountMeta := ⟨pubkey, isSigner, true⟩

def AccountMeta.newReadonly (pubkey : Pubkey) (isSigner : Bool) : AccountMeta := ⟨pubkey, isSigner, false⟩

structure Account where
  owner : Pubkey
  executable : Bool
  data : List UInt8

abbrev Chain := Pubkey → Account

/-- the errors of a program, and of a call that it makes (the last four), with which the transaction fails -/
inductive ProgramError where
  | Custom (code : ℕ)
  | InvalidAccountData
  | NotEnoughAccountKeys
  | UninitializedAccount
  | BorshIoError
  | InvalidSeeds
  | UnsupportedSysvar
  | MissingAccount
  | AccountNotExecutable
  | CallDepth
  | Callee (e : ProgramError)
deriving DecidableEq

/-- `next_account_info` -/
def nextAccountInfo : List AccountMeta → Except ProgramError (AccountMeta × List AccountMeta)
  | [] => .error .NotEnoughAccountKeys
  | info :: rest => .ok (info, rest)

/-! ## The interface of ISM programs -/

inductive MetadataSpec where
  | Null
  | MultisigMessageId (validators : List H160) (threshold : UInt8)
  | Aggregation (threshold : UInt8) (subSpecs : List MetadataSpec)
  | TrustedRelayer (relayer : Pubkey)
  | CannotVerify

structure MetadataSpecResult where
  spec : Option MetadataSpec
  accounts : List Pubkey

structure ValidatorsAndThreshold where
  validators : List H160
  threshold : UInt8

/-- what `get_return_data` and Borsh make of a callee's return data -/
inductive ReturnData (α : Type) where
  | Absent
  | Malformed
  | Value (returned : α)

/-- a deployed ISM program, by what it answers to the instructions of the interface -/
structure Program where
  type : Chain → List AccountMeta → Except ProgramError (ReturnData ℕ)
  verify : Chain → List AccountMeta → List UInt8 → HyperlaneMessage → Except ProgramError Chain
  verifyAccountMetas : Chain → List AccountMeta → List UInt8 → HyperlaneMessage →
    Except ProgramError (ReturnData (List AccountMeta))
  verifyMetadataSpec : Chain → List AccountMeta → HyperlaneMessage → Except ProgramError (ReturnData MetadataSpecResult)
  validatorsAndThreshold : Chain → List AccountMeta → HyperlaneMessage →
    Except ProgramError (ReturnData ValidatorsAndThreshold)

/-- the seeds `VERIFY_ACCOUNT_METAS_PDA_SEEDS` -/
def VERIFY_ACCOUNT_METAS_PDA_SEEDS : List (List UInt8) :=
  ["hyperlane_ism".toUTF8.toList, "-".toUTF8.toList, "verify".toUTF8.toList, "-".toUTF8.toList,
    "account_metas".toUTF8.toList]

/-- what lies outside an ISM program; `maxCallDepth` bounds how deep the loads of domain ISMs nest -/
structure Runtime where
  crypto : Crypto
  secp256k1Recover : Secp256k1Recover
  findProgramAddress : List (List UInt8) → Pubkey → Pubkey × UInt8
  createProgramAddress : List (List UInt8) → Pubkey → Option Pubkey
  unixTimestamp : Option ℤ
  programs : Pubkey → Program
  maxCallDepth : ℕ

/-- `invoke`: the callee must be among the accounts of the running instruction, and a program. A call that fails does not
return to the caller: its error is that of the transaction, and no caller handles it -/
def Runtime.invoke {α : Type} (rt : Runtime) (chain : Chain) (instructionAccounts : List Pubkey) (programId : Pubkey)
    (call : Program → Except ProgramError α) : Except ProgramError α :=
  if programId ∉ instructionAccounts then .error .MissingAccount
  else if (chain programId).executable = false then .error .AccountNotExecutable
  else match call (rt.programs programId) with
    | .error e => .error (.Callee e)
    | .ok a => .ok a

/-! ## Stored data -/

section

variable {T : Type}

/-- `AccountData::fetch_data`: a flag and the data; `deserialize` is Borsh's -/
def fetchData (deserialize : List UInt8 → Option T) : List UInt8 → Except ProgramError (Option T)
  | [] => .ok none
  | initialized :: bytes =>
    if initialized = 0 then .ok none
    else if initialized = 1 then
      match deserialize bytes with
      | none => .error .BorshIoError
      | some data => .ok (some data)
    else .error .BorshIoError

/-- `AccountData::store` without reallocation; the rest of the account is zeroed -/
def store (chain : Chain) (info : AccountMeta) (serialized : List UInt8) : Except ProgramError Chain :=
  let account := chain info.pubkey
  if info.isWritable = false ∨ account.executable = true then .error .InvalidAccountData
  else if account.data.length < serialized.length + 1 then .error .BorshIoError
  else
    let zeros := List.replicate (account.data.length - (serialized.length + 1)) 0
    .ok (Function.update chain info.pubkey { account with data := 1 :: serialized ++ zeros })

variable {deserialize : List UInt8 → Option T} {serialize : T → List UInt8}

/-- Borsh reads what it wrote: data takes as many bytes as its serialization -/
def Borsh (deserialize : List UInt8 → Option T) (serialize : T → List UInt8) : Prop :=
  ∀ bytes data, deserialize bytes = some data → (serialize data).length ≤ bytes.length

theorem fetchData_length (hborsh : Borsh deserialize serialize) {bytes : List UInt8} {data : T}
    (h : fetchData deserialize bytes = .ok (some data)) : (serialize data).length + 1 ≤ bytes.length := by
  cases bytes with
  | nil => cases h
  | cons initialized bytes =>
    rw [fetchData] at h
    split at h
    · cases h
    · split at h
      · split at h
        · cases h
        next read hread =>
          injection h with h
          injection h with h
          subst h
          exact Nat.succ_le_succ (hborsh bytes read hread)
      · cases h

theorem store_ok_iff {chain : Chain} {info : AccountMeta} {serialized : List UInt8} :
    (∃ chain', store chain info serialized = .ok chain') ↔
      info.isWritable = true ∧ (chain info.pubkey).executable = false ∧
        serialized.length + 1 ≤ (chain info.pubkey).data.length := by
  rw [store]
  dsimp only
  split
  next h =>
    refine ⟨nofun, fun ⟨hw, he, _⟩ => ?_⟩
    rcases h with h | h
    · exact absurd (h.symm.trans hw) Bool.false_ne_true
    · exact absurd (he.symm.trans h) Bool.false_ne_true
  next h =>
    rw [not_or, Bool.not_eq_false, Bool.not_eq_true] at h
    split
    next hlen => exact ⟨nofun, fun ⟨_, _, hle⟩ => absurd hle (Nat.not_le.2 hlen)⟩
    next hlen => exact ⟨fun _ => ⟨h.1, h.2, Nat.not_lt.1 hlen⟩, fun _ => ⟨_, rfl⟩⟩

end

end Hyperlane.Sealevel
