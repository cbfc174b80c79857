/-
Stored account data (rust/sealevel/libraries/account-utils): an initialized flag, the Borsh encoding of the data, and zeros
to the end of the account.

- `AccountData.store`, `AccountData.fetch`: with the reallocation of an account that is too small.
- `DiscriminatorPrefixed`, `OptionalDiscriminatedData`: data behind a discriminator. The optional kind comes last in a
  structure, and is absent where the bytes that follow are no discriminator.
- `store_fetch`: what is stored in an account with room for it is fetched again, whatever the account held.
- `serialized_le_size`: no more is ever written than the size of the data.
-/
import Hyperlane.Core.Borsh

namespace Hyperlane.AccountUtils

open Hyperlane.Bytes
open Hyperlane.Borsh

inductive ProgramError where
  | InvalidAccountData
  | AccountBorrowFailed
  | InvalidRealloc
  | BorshIoError
deriving DecidableEq

/-! ## Accounts -/

def MAX_PERMITTED_DATA_LENGTH : ℕ := 10 * 1024 * 1024

def MAX_PERMITTED_DATA_INCREASE : ℕ := 1024 * 10

/-- `AccountInfo`, as far as data is stored in it -/
structure AccountInfo where
  isWritable : Bool
  executable : Bool
  /-- the data is borrowed by someone else -/
  borrowed : Bool
  /-- the length of the data when the instruction started -/
  originalDataLen : ℕ
  data : List UInt8
  original_le : originalDataLen ≤ MAX_PERMITTED_DATA_LENGTH
  data_le : data.length ≤ originalDataLen + MAX_PERMITTED_DATA_INCREASE

namespace AccountInfo

variable (account : AccountInfo)

theorem data_lt : account.data.length < 2 ^ 32 := by
  have horiginal := account.original_le
  have hdata := account.data_le
  rw [MAX_PERMITTED_DATA_LENGTH] at horiginal
  rw [MAX_PERMITTED_DATA_INCREASE] at hdata
  omega

/-- `AccountInfo::resize`: new bytes are zero -/
def resize (newLen : ℕ) : Except ProgramError AccountInfo :=
  if account.borrowed = true then .error .AccountBorrowFailed
  else if h : newLen - account.originalDataLen > MAX_PERMITTED_DATA_INCREASE then .error .InvalidRealloc
  else .ok { account with
    data := account.data.takeD newLen 0
    data_le := by
      rw [List.takeD_length]
      omega }

variable {account}

theorem resize_ok {newLen : ℕ} {account' : AccountInfo} (h : account.resize newLen = .ok account') :
    account'.originalDataLen = account.originalDataLen ∧ account'.data.length = newLen := by
  rw [resize] at h
  split at h
  · exact nomatch h
  · split at h
    · exact nomatch h
    · injection h with h
      rw [← h]
      exact ⟨rfl, List.takeD_length ..⟩

/-- data can be stored in the account -/
structure Storable (account : AccountInfo) : Prop where
  isWritable : account.isWritable = true
  executable : account.executable = false
  borrowed : account.borrowed = false

end AccountInfo

/-! ## Account data -/

class SizedData (T : Type) where
  size : T → ℕ

export SizedData (size)

structure AccountData (T : Type) where
  data : T

namespace AccountData

variable {T : Type}

/-- the data and the initialized flag -/
instance [SizedData T] : SizedData (AccountData T) := ⟨fun a => 1 + size a.data⟩

section

variable [Serial T]

/-- trailing bytes are zeroed -/
def storeInSlice (a : AccountData T) (target : List UInt8) : Except IoError (List UInt8) :=
  match (serialize true ++ serialize a.data) target.length with
  | .error e => .error e
  | .ok bytes => .ok (bytes.1 ++ List.replicate (target.length - bytes.1.length) 0)

theorem storeInSlice_length {a : AccountData T} {target data : List UInt8} (h : a.storeInSlice target = .ok data) :
    data.length = target.length := by
  rw [storeInSlice] at h
  split at h
  · exact nomatch h
  next bytes _ =>
    injection h with h
    rw [← h, List.length_append, List.length_replicate]
    exact Nat.add_sub_of_le bytes.2

/-- writes, and enlarges the account where it has no room left. What a failed try has written is written over by the next
one. -/
def storeLoop (a : AccountData T) (account : AccountInfo) (allowRealloc : Bool) : Except ProgramError AccountInfo :=
  if account.borrowed = true then .error .AccountBorrowFailed
  else
    match hstored : a.storeInSlice account.data with
    | .ok data => .ok { account with data, data_le := storeInSlice_length hstored ▸ account.data_le }
    | .error .WriteZero =>
      if allowRealloc = false then .error .BorshIoError
      else
        match _hresized : account.resize (account.data.length + 1024) with
        | .error e => .error e
        | .ok account' => a.storeLoop account' allowRealloc
    | .error _ => .error .BorshIoError
termination_by account.originalDataLen + MAX_PERMITTED_DATA_INCREASE - account.data.length
decreasing_by
  obtain ⟨horiginal, hlen⟩ := AccountInfo.resize_ok _hresized
  have hdata := account'.data_le
  omega

def store (a : AccountData T) (account : AccountInfo) (allowRealloc : Bool) : Except ProgramError AccountInfo :=
  if account.isWritable = false ∨ account.executable = true then .error .InvalidAccountData
  else a.storeLoop account allowRealloc

def fetchData (buf : List UInt8) : Except ProgramError (Option T) :=
  if buf = [] then .ok none
  else
    match StateT.run (deserialize : Read Bool) buf with
    | .error _ => .error .BorshIoError
    | .ok (false, _) => .ok none
    | .ok (true, rest) =>
      match StateT.run (deserialize : Read T) rest with
      | .error _ => .error .BorshIoError
      | .ok (data, _) => .ok (some data)

def fetch [Inhabited T] (buf : List UInt8) : Except ProgramError (AccountData T) :=
  match fetchData buf with
  | .error e => .error e
  | .ok data => .ok ⟨data.getD default⟩

/-- a slice with room for the data and its flag takes both, and holds zeros after them -/
theorem storeInSlice_ok {a : AccountData T} {n : ℕ} (hcoded : CodedLast (serialize a.data) deserialize a.data n)
    {target : List UInt8} (hlen : 1 + n ≤ target.length) (hlt : target.length < 2 ^ 32) :
    ∃ data, a.storeInSlice target = .ok data ∧
      ∃ rest rest', StateT.run (deserialize : Read Bool) data = .ok (true, rest) ∧
        StateT.run deserialize rest = .ok (a.data, rest') := by
  have hflag := coded_bool true
  have hwrites := Write.append_writes hflag.writes (fun room bytes hok => (hflag.reads room bytes hok).1) hcoded.writes
  obtain ⟨bytes, hbytes⟩ := hwrites target.length hlen hlt
  obtain ⟨first, second, hfirst, hsecond, happend⟩ := Write.append_ok_iff.1 hbytes
  obtain ⟨_, hread⟩ := hflag.reads _ _ hfirst
  obtain ⟨_, hread'⟩ := hcoded.reads _ _ hsecond
  obtain ⟨rest', hrest'⟩ := hread' (target.length - bytes.1.length)
  refine ⟨_, by rw [storeInSlice, hbytes], _, rest', ?_, hrest'⟩
  rw [happend, List.append_assoc]
  exact hread _

/-- the encoding fits the size, and is read back where zeros follow -/
def Sized (T : Type) [Serial T] [SizedData T] : Prop :=
  ∀ data : T, ∃ n ≤ size data, CodedLast (serialize data) deserialize data n

variable [SizedData T]

/-- data that fits is stored in place, over whatever the account held, and fetched again -/
theorem store_fetch [Inhabited T] (hsized : Sized T) (a : AccountData T) {account : AccountInfo}
    (haccount : account.Storable) (hlen : size a ≤ account.data.length) (allowRealloc : Bool) :
    ∃ account', a.store account allowRealloc = .ok account' ∧ fetch account'.data = .ok a ∧
      account'.data.length = account.data.length := by
  obtain ⟨n, hn, hcoded⟩ := hsized a.data
  have hroom : 1 + n ≤ account.data.length := (Nat.add_le_add_left hn 1).trans hlen
  obtain ⟨data, hstored, rest, rest', hflag, hdata⟩ := storeInSlice_ok hcoded hroom account.data_lt
  have hlength := storeInSlice_length hstored
  refine ⟨{ account with data, data_le := hlength ▸ account.data_le }, ?_, ?_, hlength⟩
  · rw [store, if_neg (by simp [haccount.isWritable, haccount.executable]), storeLoop,
      if_neg (by simp [haccount.borrowed])]
    split
    next stored hstored' =>
      obtain rfl := Except.ok.inj (hstored.symm.trans hstored')
      rfl
    next hstored' => exact nomatch hstored.symm.trans hstored'
    next hstored' => exact nomatch hstored.symm.trans hstored'
  · have hne : data ≠ [] := by
      rintro rfl
      rw [List.length_nil] at hlength
      omega
    rw [fetch, fetchData, if_neg hne, hflag]
    dsimp only
    rw [hdata]
    rfl

/-- no slice, however large, takes more bytes than the size: the flag and the encoding -/
theorem serialized_le_size (hsized : Sized T) (a : AccountData T) {room : ℕ}
    {bytes : { bytes : List UInt8 // bytes.length ≤ room }} (h : (serialize true ++ serialize a.data) room = .ok bytes) :
    bytes.1.length ≤ size a := by
  obtain ⟨n, hn, hcoded⟩ := hsized a.data
  obtain ⟨first, second, hfirst, hsecond, happend⟩ := Write.append_ok_iff.1 h
  rw [happend, List.length_append, (hcoded.reads _ _ hsecond).1, ((coded_bool true).reads _ _ hfirst).1]
  exact Nat.add_le_add_left hn 1

end

end AccountData

/-! ## Discriminators -/

class DiscriminatorData (T : Type) where
  DISCRIMINATOR : Word 8

export DiscriminatorData (DISCRIMINATOR)

section

variable {T : Type} [DiscriminatorData T]

structure DiscriminatorPrefixed (T : Type) where
  data : T
deriving Inhabited

instance [SizedData T] : SizedData (DiscriminatorPrefixed T) := ⟨fun p => 8 + size p.data⟩

/-- a trailing optional field: nothing when absent -/
structure OptionalDiscriminatedData (T : Type) where
  value : Option T
deriving Inhabited

instance [SizedData T] : SizedData (OptionalDiscriminatedData T) where
  size o :=
    match o.value with
    | some value => 8 + size value
    | none => 0

variable [Serial T]

instance : Serial (DiscriminatorPrefixed T) where
  serialize p := serialize (DISCRIMINATOR T) ++ serialize p.data
  deserialize := do
    let discriminator ← readExact .UnexpectedEof 8
    if discriminator = DISCRIMINATOR T then do
      let data ← deserialize
      pure ⟨data⟩
    else throw .InvalidData

instance : Serial (OptionalDiscriminatedData T) where
  serialize o :=
    match o.value with
    | some value => serialize (DISCRIMINATOR T) ++ serialize value
    | none => .skip
  deserialize bytes :=
    match readExact .UnexpectedEof 8 bytes with
    | .ok (discriminator, rest) =>
      if discriminator = DISCRIMINATOR T then
        match StateT.run (deserialize : Read T) rest with
        | .error e => .error e
        | .ok (value, rest) => .ok (⟨some value⟩, rest)
      else .ok (⟨none⟩, rest)
    | .error .UnexpectedEof => .ok (⟨none⟩, [])
    | .error e => .error e

theorem deserialize_optional (bytes : List UInt8) :
    StateT.run (deserialize : Read (OptionalDiscriminatedData T)) bytes =
      match StateT.run (readExact .UnexpectedEof 8) bytes with
      | .ok (discriminator, rest) =>
        if discriminator = DISCRIMINATOR T then
          match StateT.run (deserialize : Read T) rest with
          | .error e => .error e
          | .ok (value, rest) => .ok (⟨some value⟩, rest)
        else .ok (⟨none⟩, rest)
      | .error .UnexpectedEof => .ok (⟨none⟩, [])
      | .error e => .error e := rfl

theorem coded_prefixed {data : T} {n : ℕ} (h : Coded (serialize data) deserialize data n) :
    Coded (serialize (DiscriminatorPrefixed.mk data)) deserialize (DiscriminatorPrefixed.mk data) (8 + n) := by
  refine (coded_word (DISCRIMINATOR T)).append ?_
  rw [if_pos rfl]
  exact h.map rfl

/-- an absent field is read back from zeros, as no discriminator is zero -/
theorem codedLast_optional [SizedData T] (hzero : DISCRIMINATOR T ≠ ⟨List.replicate 8 0, rfl⟩)
    (h : ∀ value : T, Coded (serialize value) deserialize value (size value)) (o : OptionalDiscriminatedData T) :
    CodedLast (serialize o) deserialize o (size o) := by
  obtain ⟨value⟩ := o
  cases value with
  | some value =>
    have hdisc := coded_word (e := .UnexpectedEof) (DISCRIMINATOR T)
    have hvalue := h value
    refine ⟨Write.append_writes hdisc.writes (fun room bytes hok => (hdisc.reads room bytes hok).1) hvalue.writes, ?_⟩
    intro room bytes hok
    obtain ⟨first, second, hfirst, hsecond, happend⟩ := Write.append_ok_iff.1 hok
    obtain ⟨hn, hread⟩ := hdisc.reads _ _ hfirst
    obtain ⟨hm, hread'⟩ := hvalue.reads _ _ hsecond
    refine ⟨by rw [happend, List.length_append, hm, hn]; rfl, fun k => ⟨List.replicate k 0, ?_⟩⟩
    rw [happend, List.append_assoc, deserialize_optional, hread]
    dsimp only
    rw [if_pos rfl, hread']
  | none =>
    refine ⟨fun _ _ _ => ⟨_, rfl⟩, fun room bytes hok => ?_⟩
    injection hok with hok
    rw [← hok]
    refine ⟨rfl, fun k => ?_⟩
    rw [List.nil_append, deserialize_optional]
    by_cases hk : 8 ≤ (List.replicate k (0 : UInt8)).length
    · have hread : StateT.run (readExact .UnexpectedEof 8) (List.replicate k 0) = .ok (_, _) := dif_pos hk
      have hzeros : (List.replicate k (0 : UInt8)).take 8 = List.replicate 8 0 := by
        rw [List.length_replicate] at hk
        rw [List.take_replicate, Nat.min_eq_left hk]
      refine ⟨(List.replicate k 0).drop 8, ?_⟩
      rw [hread]
      dsimp only
      rw [if_neg fun heq => hzero (heq.symm.trans (Subtype.ext hzeros))]
    · have hread : StateT.run (readExact .UnexpectedEof 8) (List.replicate k 0) = .error .UnexpectedEof := dif_neg hk
      exact ⟨[], by rw [hread]⟩

end

end Hyperlane.AccountUtils
