/-
Borsh: values written into a slice of bytes and read from the front of one.

Numbers are little-endian; lists and maps are preceded by their length, a `u32`; maps and sets are written in the order of
their keys and collected from the entries that were read. A write fails where the slice has no room left, or where a length
is no `u32`.

- `Coded`: writing and reading agree on a value, which takes a given number of bytes. The rules `Coded.append` and
  `Coded.map` follow the fields of a structure.
- `CodedLast`: the same for a value that is read back only where nothing or zeros follow.
-/
import Std.Data.ExtTreeMap
import Std.Data.ExtTreeSet
import Hyperlane.Core.Bytes

namespace Hyperlane.Borsh

open Hyperlane.Bytes
open Std (ExtTreeMap ExtTreeSet TransOrd LawfulEqOrd)

inductive IoError where
  | UnexpectedEof
  | InvalidData
  | WriteZero
deriving DecidableEq

/-! ## Writing and reading -/

/-- writes to the front of a slice, given the room in it -/
def Write : Type := (room : ℕ) → Except IoError { bytes : List UInt8 // bytes.length ≤ room }

/-- what is written first, then the other -/
def Write.append (w w' : Write) : Write := fun room =>
  match w room with
  | .error e => .error e
  | .ok bytes =>
    match w' (room - bytes.1.length) with
    | .error e => .error e
    | .ok more => .ok ⟨bytes.1 ++ more.1, by
        have h := bytes.2
        have h' := more.2
        rw [List.length_append]
        omega⟩

instance : Append Write := ⟨Write.append⟩

/-- nothing -/
def Write.skip : Write := fun _ => .ok ⟨[], Nat.zero_le _⟩

def Write.fail (e : IoError) : Write := fun _ => .error e

def writeAll (bytes : List UInt8) : Write := fun room =>
  if h : bytes.length ≤ room then .ok ⟨bytes, h⟩ else .error .WriteZero

/-- takes a value from the front of a slice, and leaves the rest -/
abbrev Read (α : Type) := StateT (List UInt8) (Except IoError) α

/-- `read_exact`; `e` is what the caller makes of a slice that ends too early -/
def readExact (e : IoError) (n : ℕ) : Read (Word n) := fun bytes =>
  if h : n ≤ bytes.length then .ok (⟨bytes.take n, List.length_take_of_le h⟩, bytes.drop n) else .error e

class Serial (α : Type) where
  serialize : α → Write
  deserialize : Read α

export Serial (serialize deserialize)

/-- `a` is written as `n` bytes wherever these fit, and read back from what was written, whatever follows -/
structure Coded {α : Type} (w : Write) (r : Read α) (a : α) (n : ℕ) : Prop where
  writes : ∀ room, n ≤ room → room < 2 ^ 32 → ∃ bytes, w room = .ok bytes
  reads : ∀ room bytes, w room = .ok bytes → bytes.1.length = n ∧ ∀ rest, r.run (bytes.1 ++ rest) = .ok (a, rest)

/-- as `Coded`, where nothing but zeros follows -/
structure CodedLast {α : Type} (w : Write) (r : Read α) (a : α) (n : ℕ) : Prop where
  writes : ∀ room, n ≤ room → room < 2 ^ 32 → ∃ bytes, w room = .ok bytes
  reads : ∀ room bytes, w room = .ok bytes →
    bytes.1.length = n ∧ ∀ k, ∃ rest, r.run (bytes.1 ++ List.replicate k 0) = .ok (a, rest)

section Rules

variable {α β : Type} {w w' : Write} {r : Read α} {a : α} {n m : ℕ}

/-- a write of two parts succeeds if both do, the second in the room the first leaves -/
theorem Write.append_ok_iff {room : ℕ} {bytes : { bytes : List UInt8 // bytes.length ≤ room }} :
    (w ++ w') room = .ok bytes ↔ ∃ first second, w room = .ok first ∧ w' (room - first.1.length) = .ok second ∧
      bytes.1 = first.1 ++ second.1 := by
  change Write.append w w' room = _ ↔ _
  rw [Write.append]
  constructor
  · intro h
    split at h
    · exact nomatch h
    next first hfirst =>
      split at h
      · exact nomatch h
      next second hsecond =>
        injection h with h
        exact ⟨first, second, hfirst, hsecond, by rw [← h]⟩
  · rintro ⟨first, second, hfirst, hsecond, hbytes⟩
    rw [hfirst]
    dsimp only
    rw [hsecond]
    exact congrArg Except.ok (Subtype.ext hbytes.symm)

/-- two parts have room where the sum of their lengths has -/
theorem Write.append_writes (h : ∀ room, n ≤ room → room < 2 ^ 32 → ∃ bytes, w room = .ok bytes)
    (hlen : ∀ room bytes, w room = .ok bytes → bytes.1.length = n)
    (h' : ∀ room, m ≤ room → room < 2 ^ 32 → ∃ bytes, w' room = .ok bytes) :
    ∀ room, n + m ≤ room → room < 2 ^ 32 → ∃ bytes, (w ++ w') room = .ok bytes := by
  intro room hroom hlt
  obtain ⟨first, hfirst⟩ := h room (by omega) hlt
  have hn : first.1.length = n := hlen room first hfirst
  obtain ⟨second, hsecond⟩ := h' (room - first.1.length) (by omega) (by omega)
  have hle : (first.1 ++ second.1).length ≤ room := by
    have hroom' := second.2
    rw [List.length_append]
    omega
  exact ⟨⟨first.1 ++ second.1, hle⟩, Write.append_ok_iff.2 ⟨first, second, hfirst, hsecond, rfl⟩⟩

theorem Coded.append {f : α → Read β} {b : β} (h : Coded w r a n) (h' : Coded w' (f a) b m) :
    Coded (w ++ w') (r >>= f) b (n + m) := by
  refine ⟨Write.append_writes h.writes (fun room bytes hok => (h.reads room bytes hok).1) h'.writes, ?_⟩
  intro room bytes hok
  obtain ⟨first, second, hfirst, hsecond, hbytes⟩ := Write.append_ok_iff.1 hok
  obtain ⟨hn, hread⟩ := h.reads _ _ hfirst
  obtain ⟨hm, hread'⟩ := h'.reads _ _ hsecond
  refine ⟨by rw [hbytes, List.length_append, hm, hn], fun rest => ?_⟩
  rw [hbytes, List.append_assoc, StateT.run_bind, hread]
  exact hread' rest

theorem Coded.appendLast {f : α → Read β} {b : β} (h : Coded w r a n) (h' : CodedLast w' (f a) b m) :
    CodedLast (w ++ w') (r >>= f) b (n + m) := by
  refine ⟨Write.append_writes h.writes (fun room bytes hok => (h.reads room bytes hok).1) h'.writes, ?_⟩
  intro room bytes hok
  obtain ⟨first, second, hfirst, hsecond, hbytes⟩ := Write.append_ok_iff.1 hok
  obtain ⟨hn, hread⟩ := h.reads _ _ hfirst
  obtain ⟨hm, hread'⟩ := h'.reads _ _ hsecond
  refine ⟨by rw [hbytes, List.length_append, hm, hn], fun k => ?_⟩
  rw [hbytes, List.append_assoc, StateT.run_bind, hread]
  exact hread' k

/-- the reader turns what was read into a value -/
theorem Coded.map {f : α → Read β} {b : β} (h : Coded w r a n) (hf : f a = pure b) : Coded w (r >>= f) b n := by
  refine ⟨h.writes, fun room bytes hok => ?_⟩
  obtain ⟨hn, hread⟩ := h.reads room bytes hok
  refine ⟨hn, fun rest => ?_⟩
  rw [StateT.run_bind, hread]
  change (f a).run rest = _
  rw [hf]
  rfl

theorem CodedLast.map {f : α → Read β} {b : β} (h : CodedLast w r a n) (hf : f a = pure b) :
    CodedLast w (r >>= f) b n := by
  refine ⟨h.writes, fun room bytes hok => ?_⟩
  obtain ⟨hn, hread⟩ := h.reads room bytes hok
  refine ⟨hn, fun k => ?_⟩
  obtain ⟨rest, hrest⟩ := hread k
  refine ⟨rest, ?_⟩
  rw [StateT.run_bind, hrest]
  change (f a).run rest = _
  rw [hf]
  rfl

theorem Coded.last (h : Coded w r a n) : CodedLast w r a n :=
  ⟨h.writes, fun room bytes hok => ⟨(h.reads room bytes hok).1, fun _ => ⟨_, (h.reads room bytes hok).2 _⟩⟩⟩

theorem Coded.skip : Coded Write.skip (pure a) a 0 := by
  refine ⟨fun _ _ _ => ⟨_, rfl⟩, fun room bytes hok => ?_⟩
  injection hok with hok
  rw [← hok]
  exact ⟨rfl, fun _ => rfl⟩

end Rules

/-! ## Words and numbers -/

theorem coded_word {n : ℕ} {e : IoError} (word : Word n) : Coded (writeAll word.1) (readExact e n) word n := by
  constructor
  · intro room hroom _
    exact ⟨⟨word.1, word.2.symm ▸ hroom⟩, dif_pos (word.2.symm ▸ hroom)⟩
  · intro room bytes hok
    rw [writeAll] at hok
    split at hok
    next =>
      injection hok with hok
      subst hok
      refine ⟨word.2, fun rest => ?_⟩
      have hle : n ≤ (word.1 ++ rest).length := by
        rw [List.length_append, word.2]
        exact Nat.le_add_right n _
      change readExact e n (word.1 ++ rest) = _
      rw [readExact, dif_pos hle]
      congr 2
      · exact Subtype.ext (List.take_left' word.2)
      · exact List.drop_left' word.2
    next => exact nomatch hok

instance {n : ℕ} : Serial (Word n) := ⟨fun word => writeAll word.1, readExact .InvalidData n⟩

theorem coded_fixed {n : ℕ} (word : Word n) : Coded (serialize word) deserialize word n := coded_word word

/-- the `n` lowest bytes of `x`, least significant first -/
def le (n x : ℕ) : Word n := ⟨(be n x).reverse, by rw [List.length_reverse, be_length]⟩

/-- the number a byte string encodes, least significant byte first -/
def ofLe (bytes : List UInt8) : ℕ := ofBe bytes.reverse

theorem ofLe_le {n x : ℕ} (h : x < 256 ^ n) : ofLe (le n x).1 = x := by
  rw [ofLe, le, List.reverse_reverse, ofBe_be h]

instance : Serial UInt8 where
  serialize x := serialize (le 1 x.toNat)
  deserialize := do
    let word : Word 1 ← deserialize
    pure (UInt8.ofNat (ofLe word.1))

instance : Serial UInt32 where
  serialize x := serialize (le 4 x.toNat)
  deserialize := do
    let word : Word 4 ← deserialize
    pure (UInt32.ofNat (ofLe word.1))

instance : Serial UInt64 where
  serialize x := serialize (le 8 x.toNat)
  deserialize := do
    let word : Word 8 ← deserialize
    pure (UInt64.ofNat (ofLe word.1))

instance : Serial Int64 where
  serialize x := serialize x.toUInt64
  deserialize := do
    let x : UInt64 ← deserialize
    pure x.toInt64

theorem coded_u8 (x : UInt8) : Coded (serialize x) deserialize x 1 :=
  (coded_fixed (le 1 x.toNat)).map
    (congrArg pure (by rw [ofLe_le (show x.toNat < 256 ^ 1 from x.toNat_lt), UInt8.ofNat_toNat]))

theorem coded_u32 (x : UInt32) : Coded (serialize x) deserialize x 4 :=
  (coded_fixed (le 4 x.toNat)).map
    (congrArg pure (by rw [ofLe_le (show x.toNat < 256 ^ 4 from x.toNat_lt), UInt32.ofNat_toNat]))

theorem coded_u64 (x : UInt64) : Coded (serialize x) deserialize x 8 :=
  (coded_fixed (le 8 x.toNat)).map
    (congrArg pure (by rw [ofLe_le (show x.toNat < 256 ^ 8 from x.toNat_lt), UInt64.ofNat_toNat]))

theorem coded_i64 (x : Int64) : Coded (serialize x) deserialize x 8 := (coded_u64 x.toUInt64).map rfl

instance : Serial Bool where
  serialize flag := serialize (if flag then 1 else 0 : UInt8)
  deserialize := do
    let byte : UInt8 ← deserialize
    if byte = 0 then pure false
    else if byte = 1 then pure true
    else throw .InvalidData

theorem coded_bool (flag : Bool) : Coded (serialize flag) deserialize flag 1 := by
  cases flag with
  | false => exact (coded_u8 0).map rfl
  | true => exact (coded_u8 1).map rfl

/-! ## Options, pairs and lists -/

section Containers

variable {α β : Type} [Serial α] [Serial β]

instance : Serial (Option α) where
  serialize
    | none => serialize (0 : UInt8)
    | some a => serialize (1 : UInt8) ++ serialize a
  deserialize := do
    let tag : UInt8 ← deserialize
    if tag = 0 then pure none
    else if tag = 1 then do
      let a : α ← deserialize
      pure (some a)
    else throw .InvalidData

instance : Serial (α × β) where
  serialize pair := serialize pair.1 ++ serialize pair.2
  deserialize := do
    let a : α ← deserialize
    let b : β ← deserialize
    pure (a, b)

def serializeMany : List α → Write
  | [] => .skip
  | a :: as => serialize a ++ serializeMany as

def deserializeMany : ℕ → Read (List α)
  | 0 => pure []
  | n + 1 => do
    let a : α ← deserialize
    let as ← deserializeMany n
    pure (a :: as)

def serializeLen (n : ℕ) : Write :=
  if n < 2 ^ 32 then serialize (UInt32.ofNat n) else .fail .InvalidData

/-- `Vec` -/
instance : Serial (List α) where
  serialize as := serializeLen as.length ++ serializeMany as
  deserialize := do
    let len : UInt32 ← deserialize
    deserializeMany len.toNat

theorem coded_option {f : α → ℕ} (h : ∀ a : α, Coded (serialize a) deserialize a (f a)) (o : Option α) :
    Coded (serialize o) deserialize o (1 + o.elim 0 f) := by
  cases o with
  | none => exact (coded_u8 0).map rfl
  | some a => exact (coded_u8 1).append ((h a).map rfl)

/-- an option takes no more than its tag and a full value -/
theorem coded_option_le {n : ℕ} (h : ∀ a : α, Coded (serialize a) deserialize a n) (o : Option α) :
    ∃ m ≤ 1 + n, Coded (serialize o) deserialize o m := by
  refine ⟨_, ?_, coded_option h o⟩
  cases o with
  | none => exact Nat.le_add_right 1 n
  | some a => exact le_rfl

theorem coded_pair {a : α} {b : β} {n m : ℕ} (h : Coded (serialize a) deserialize a n)
    (h' : Coded (serialize b) deserialize b m) : Coded (serialize (a, b)) deserialize (a, b) (n + m) :=
  h.append (h'.map rfl)

theorem coded_many {n : ℕ} {as : List α} (h : ∀ a ∈ as, Coded (serialize a) deserialize a n) :
    Coded (serializeMany as) (deserializeMany as.length) as (as.length * n) := by
  induction as with
  | nil =>
    rw [List.length_nil, Nat.zero_mul]
    exact Coded.skip
  | cons a as ih =>
    have htail := ih fun x hx => h x (List.mem_cons_of_mem a hx)
    rw [List.length_cons, Nat.succ_mul, Nat.add_comm (as.length * n) n]
    exact (h a List.mem_cons_self).append (f := fun a => deserializeMany as.length >>= fun as => pure (a :: as))
      (htail.map rfl)

theorem coded_len {n : ℕ} (hn : n < 2 ^ 32) : Coded (serializeLen n) deserialize (UInt32.ofNat n) 4 := by
  rw [serializeLen, if_pos hn]
  exact coded_u32 _

/-- a list takes the bytes of its length and of its elements; one that is too long for its length to be written is not
written at all, and would not fit -/
theorem coded_list {n : ℕ} {as : List α} (hn : 0 < n) (h : ∀ a ∈ as, Coded (serialize a) deserialize a n) :
    Coded (serialize as) deserialize as (4 + as.length * n) := by
  by_cases hlen : as.length < 2 ^ 32
  · refine (coded_len hlen).append ?_
    rw [UInt32.toNat_ofNat_of_lt' hlen]
    exact coded_many h
  · constructor
    · intro room hroom hlt
      have := Nat.le_mul_of_pos_right as.length hn
      omega
    · intro room bytes hok
      obtain ⟨_, _, hfirst, _⟩ := Write.append_ok_iff.1 hok
      rw [serializeLen, if_neg hlen] at hfirst
      exact nomatch hfirst

end Containers

/-! ## Maps and sets -/

section Keyed

variable {κ α : Type} [Ord κ] [TransOrd κ] [LawfulEqOrd κ] [DecidableEq κ]

theorem ofList_toList_map (map : ExtTreeMap κ α) : ExtTreeMap.ofList map.toList = map := by
  refine ExtTreeMap.ext_getElem? fun k => ?_
  cases hk : map[k]? with
  | some v =>
    have hmem : (k, v) ∈ map.toList := ExtTreeMap.mem_toList_iff_getElem?_eq_some.2 hk
    exact ExtTreeMap.getElem?_ofList_of_mem Std.ReflCmp.compare_self ExtTreeMap.distinct_keys_toList hmem
  | none =>
    refine ExtTreeMap.getElem?_ofList_of_contains_eq_false ?_
    rw [← Bool.not_eq_true, List.contains_iff_mem]
    intro hmem
    obtain ⟨⟨k', v⟩, hentry, rfl⟩ := List.mem_map.1 hmem
    rw [ExtTreeMap.mem_toList_iff_getElem?_eq_some.1 hentry] at hk
    exact nomatch hk

theorem ofList_toList_set (set : ExtTreeSet κ) : ExtTreeSet.ofList set.toList = set := by
  refine ExtTreeSet.ext_mem fun k => ?_
  rw [ExtTreeSet.mem_ofList, List.contains_iff_mem, ExtTreeSet.mem_toList]

variable [Serial κ] [Serial α]

/-- `HashMap`, `BTreeMap` -/
instance : Serial (ExtTreeMap κ α) where
  serialize map := serialize map.toList
  deserialize := do
    let entries : List (κ × α) ← deserialize
    pure (ExtTreeMap.ofList entries)

/-- `BTreeSet` -/
instance : Serial (ExtTreeSet κ) where
  serialize set := serialize set.toList
  deserialize := do
    let elements : List κ ← deserialize
    pure (ExtTreeSet.ofList elements)

theorem coded_map {n m : ℕ} (map : ExtTreeMap κ α) (hn : 0 < n) (hkey : ∀ k : κ, Coded (serialize k) deserialize k n)
    (hvalue : ∀ a : α, Coded (serialize a) deserialize a m) :
    Coded (serialize map) deserialize map (4 + map.size * (n + m)) := by
  rw [← ExtTreeMap.length_toList]
  have hentries := coded_list (Nat.add_pos_left hn m) fun (entry : κ × α) (_ : entry ∈ map.toList) =>
    coded_pair (hkey entry.1) (hvalue entry.2)
  exact hentries.map (congrArg pure (ofList_toList_map map))

theorem coded_set {n : ℕ} (set : ExtTreeSet κ) (hn : 0 < n) (hkey : ∀ k : κ, Coded (serialize k) deserialize k n) :
    Coded (serialize set) deserialize set (4 + set.size * n) := by
  rw [← ExtTreeSet.length_toList]
  exact (coded_list hn fun k _ => hkey k).map (congrArg pure (ofList_toList_set set))

end Keyed

/-- words are ordered byte by byte -/
instance {n : ℕ} : Ord (Word n) := ⟨compareOn Subtype.val⟩

instance {n : ℕ} : TransOrd (Word n) := inferInstanceAs (Std.TransCmp (compareOn Subtype.val))

instance {n : ℕ} : LawfulEqOrd (Word n) := ⟨fun h => Subtype.ext (LawfulEqOrd.eq_of_compare h)⟩

end Hyperlane.Borsh
