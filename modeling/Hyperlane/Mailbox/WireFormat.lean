/-
The wire format of messages: `Encode` and `Decode` (hyperlane-core/src/traits/encode.rs) for `HyperlaneMessage`
(hyperlane-core/src/types/message.rs) and the containers, against the library contracts/libs/Message.sol.

A reader is a stream of the bytes that are left. The body of a message has no length in front of it and is read to the
end of the stream.

- `formatMessage_eq`, `hasFields_toVec`: the relayer and the contracts write and read the same bytes.
- `Indexed.selfDelimiting`, `Vec.readFrom_toVec`: containers of self-delimiting values are read back.
- `wire_format`: all of this for messages; an indexed message is never read back, and a vector of messages only if it has
  at most one.
-/
import Hyperlane.Core.Codec
import Hyperlane.Mailbox.Operations
import Hyperlane.Relayer.MultisigMetadata

namespace Hyperlane.Mailbox

open Hyperlane.Bytes Hyperlane.Codec Hyperlane.Outcome Hyperlane.Relayer

/-- the kinds of `std::io::Error` -/
inductive IoError where
  | UnexpectedEof
  | InvalidData
deriving DecidableEq

class Encode (T : Type) where
  /-- `to_vec` -/
  toVec : T → List UInt8

class Decode (T : Type) where
  readFrom : Reader IoError UInt8 T

open Encode Decode

/-- `read_exact` -/
def readExact (n : ℕ) : Reader IoError UInt8 (Word n) := fun bs =>
  if h : n ≤ bs.length then .ok (⟨bs.take n, List.length_take_of_le h⟩, bs.drop n) else .error .UnexpectedEof

/-! ## Primitive types -/

instance : Encode H256 := ⟨Subtype.val⟩

instance : Decode H256 := ⟨readExact 32⟩

instance : Encode UInt32 := ⟨fun x => be 4 x.toNat⟩

instance : Decode UInt32 where
  readFrom bs := do
    let (buf, bs) ← readExact 4 bs
    .ok (UInt32.ofNat (ofBe buf.1), bs)

instance : Encode UInt64 := ⟨fun x => be 8 x.toNat⟩

instance : Decode UInt64 where
  readFrom bs := do
    let (buf, bs) ← readExact 8 bs
    .ok (UInt64.ofNat (ofBe buf.1), bs)

instance : Encode Bool := ⟨fun b => [if b then 1 else 0]⟩

instance : Decode Bool where
  readFrom bs := do
    let (buf, bs) ← readExact 1 bs
    if buf.1 = [0] then .ok (false, bs) else if buf.1 = [1] then .ok (true, bs) else .error .InvalidData

/-! ## Messages and containers -/

instance : Encode HyperlaneMessage := ⟨HyperlaneMessage.encode⟩

instance : Decode HyperlaneMessage where
  readFrom bs := do
    let (version, bs) ← readExact 1 bs
    let (nonce, bs) ← readExact 4 bs
    let (origin, bs) ← readExact 4 bs
    let (sender, bs) ← readExact 32 bs
    let (destination, bs) ← readExact 4 bs
    let (recipient, bs) ← readExact 32 bs
    -- `read_to_end`
    .ok (⟨UInt8.ofNat (ofBe version.1), UInt32.ofNat (ofBe nonce.1), UInt32.ofNat (ofBe origin.1), sender,
      UInt32.ofNat (ofBe destination.1), recipient, bs⟩, [])

structure Indexed (T : Type) where
  inner : T
  sequence : Option UInt32

instance {T : Type} [Encode T] : Encode (Indexed T) where
  toVec x := toVec x.inner ++
    match x.sequence with
    | some sequence => toVec true ++ toVec sequence
    | none => toVec false

/-- the sequence, if the flag says that there is one -/
def readSequence : Bool → Reader IoError UInt8 (Option UInt32)
  | true, bs => do
    let (sequence, bs) ← readFrom bs
    .ok (some sequence, bs)
  | false, bs => .ok (none, bs)

instance {T : Type} [Decode T] : Decode (Indexed T) where
  readFrom bs := do
    let (inner, bs) ← readFrom bs
    let (sequenceIsDefined, bs) ← readFrom bs
    let (sequence, bs) ← readSequence sequenceIsDefined bs
    .ok (⟨inner, sequence⟩, bs)

/-- a vector; its length is a `u64` -/
abbrev Vec (T : Type) := { xs : List T // xs.length < 2 ^ 64 }

instance {T : Type} [Encode T] : Encode (Vec T) where
  toVec v := toVec (UInt64.ofNat v.1.length) ++ (v.1.map toVec).flatten

/-- the elements of a vector that is read -/
instance {T : Type} [Decode T] : Decode (List T) where
  readFrom bs := do
    let (len, bs) ← (readFrom bs : Except IoError (UInt64 × List UInt8))
    readMany readFrom len.toNat bs

/-! ## Reading back -/

theorem readExact_append {n : ℕ} (w : Word n) (rest : List UInt8) : readExact n (w.1 ++ rest) = .ok (w, rest) := by
  have hlen : n ≤ (w.1 ++ rest).length := by
    rw [List.length_append, w.2]
    exact Nat.le_add_right _ _
  rw [readExact, dif_pos hlen]
  refine congrArg Except.ok (Prod.ext (Subtype.ext ?_) ?_)
  · exact List.take_left' w.2
  · exact List.drop_left' w.2

theorem readExact_be {n x : ℕ} (rest : List UInt8) :
    readExact n (be n x ++ rest) = .ok (⟨be n x, be_length n x⟩, rest) :=
  readExact_append ⟨be n x, be_length n x⟩ rest

theorem readExact_byte (b : UInt8) (rest : List UInt8) : readExact 1 ([b] ++ rest) = .ok (⟨[b], rfl⟩, rest) :=
  readExact_append (⟨[b], rfl⟩ : Word 1) rest

theorem selfDelimiting_uint32 : SelfDelimiting (toVec : UInt32 → List UInt8) readFrom := by
  intro x rest
  change (do
    let (buf, bs) ← readExact 4 (be 4 x.toNat ++ rest)
    .ok (UInt32.ofNat (ofBe buf.1), bs)) = _
  rw [readExact_be]
  have hx : UInt32.ofNat (ofBe (be 4 x.toNat)) = x := by rw [ofBe_be x.toNat_lt, UInt32.ofNat_toNat]
  exact congrArg (fun y => Except.ok (y, rest)) hx

theorem selfDelimiting_uint64 : SelfDelimiting (toVec : UInt64 → List UInt8) readFrom := by
  intro x rest
  change (do
    let (buf, bs) ← readExact 8 (be 8 x.toNat ++ rest)
    .ok (UInt64.ofNat (ofBe buf.1), bs)) = _
  rw [readExact_be]
  have hx : UInt64.ofNat (ofBe (be 8 x.toNat)) = x := by rw [ofBe_be x.toNat_lt, UInt64.ofNat_toNat]
  exact congrArg (fun y => Except.ok (y, rest)) hx

theorem selfDelimiting_bool : SelfDelimiting (toVec : Bool → List UInt8) readFrom := by
  intro b rest
  cases b <;> rfl

theorem toVec_indexed {T : Type} [Encode T] (x : Indexed T) :
    toVec x = toVec x.inner ++ match x.sequence with
      | some sequence => toVec true ++ toVec sequence
      | none => toVec false := rfl

theorem readFrom_indexed {T : Type} [Decode T] (bs : List UInt8) :
    (readFrom bs : Except IoError (Indexed T × List UInt8)) =
      readFrom bs >>= fun (inner, bs) => readFrom bs >>= fun (sequenceIsDefined, bs) =>
        readSequence sequenceIsDefined bs >>= fun (sequence, bs) => .ok (⟨inner, sequence⟩, bs) := rfl

/-- an indexed value is read back if the value is -/
theorem Indexed.selfDelimiting {T : Type} [Encode T] [Decode T] (h : SelfDelimiting (toVec : T → List UInt8) readFrom) :
    SelfDelimiting (toVec : Indexed T → List UInt8) readFrom := by
  rintro ⟨inner, sequence⟩ rest
  rw [readFrom_indexed, toVec_indexed, List.append_assoc, h inner]
  cases sequence with
  | none => simp only [ok_bind, selfDelimiting_bool false rest, readSequence]
  | some sequence =>
    simp only [ok_bind, List.append_assoc, selfDelimiting_bool true, readSequence, selfDelimiting_uint32 sequence rest]

theorem readLength (v : List UInt8) {n : ℕ} (hn : n < 2 ^ 64) :
    (readFrom (toVec (UInt64.ofNat n) ++ v) : Except IoError (UInt64 × List UInt8)) = .ok (UInt64.ofNat n, v) ∧
      (UInt64.ofNat n).toNat = n :=
  ⟨selfDelimiting_uint64 _ v, by rw [UInt64.toNat_ofNat']; exact Nat.mod_eq_of_lt hn⟩

/-- what reading a vector comes down to -/
theorem readFrom_vec {T : Type} [Encode T] [Decode T] (v : Vec T) :
    (readFrom (toVec v) : Except IoError (List T × List UInt8)) =
      readMany readFrom v.1.length ((v.1.map toVec).flatten) := by
  obtain ⟨hread, hlen⟩ := readLength ((v.1.map toVec).flatten) v.2
  change (do
    let (len, bs) ← (readFrom (toVec (UInt64.ofNat v.1.length) ++ (v.1.map toVec).flatten) :
      Except IoError (UInt64 × List UInt8))
    readMany readFrom len.toNat bs) = _
  rw [hread]
  change readMany readFrom (UInt64.ofNat v.1.length).toNat ((v.1.map toVec).flatten) = _
  rw [hlen]

/-- a vector of values that are read back is read back -/
theorem Vec.readFrom_toVec {T : Type} [Encode T] [Decode T] (h : SelfDelimiting (toVec : T → List UInt8) readFrom)
    (v : Vec T) : (readFrom (toVec v) : Except IoError (List T × List UInt8)) = .ok (v.1, []) := by
  have hmany := h.many v.1 []
  rwa [List.append_nil, ← readFrom_vec] at hmany

/-! ## Messages -/

/-- the fields of a message in front of its body -/
theorem encode_eq (m : HyperlaneMessage) (rest : List UInt8) :
    toVec m ++ rest = [m.version] ++ (be 4 m.nonce.toNat ++ (be 4 m.origin.toNat ++ (m.sender.1 ++
      (be 4 m.destination.toNat ++ (m.recipient.1 ++ (m.body ++ rest)))))) := by
  change HyperlaneMessage.encode m ++ rest = _
  simp only [HyperlaneMessage.encode, List.append_assoc]

theorem uint32_ofBe (x : UInt32) : UInt32.ofNat (ofBe (be 4 x.toNat)) = x := by
  rw [ofBe_be x.toNat_lt, UInt32.ofNat_toNat]

theorem uint8_ofBe (x : UInt8) : UInt8.ofNat (ofBe [x]) = x := by
  change UInt8.ofNat (256 * 0 + x.toNat) = x
  rw [Nat.mul_zero, Nat.zero_add, UInt8.ofNat_toNat]

/-- a message is read to the end of the stream -/
theorem readFrom_message (m : HyperlaneMessage) (rest : List UInt8) :
    (readFrom (toVec m ++ rest) : Except IoError (HyperlaneMessage × List UInt8)) =
      .ok ({ m with body := m.body ++ rest }, []) := by
  rw [encode_eq]
  unfold readFrom instDecodeHyperlaneMessage
  simp only [readExact_byte, readExact_be, readExact_append, ok_bind, uint8_ofBe, uint32_ofBe]

theorem exists_word {n : ℕ} {bs : List UInt8} (h : n ≤ bs.length) :
    ∃ (w : Word n) (rest : List UInt8), bs = w.1 ++ rest ∧ rest.length = bs.length - n :=
  ⟨⟨bs.take n, List.length_take_of_le h⟩, bs.drop n, (List.take_append_drop n bs).symm, List.length_drop⟩

/-- four bytes are a `u32` -/
theorem exists_uint32 (w : Word 4) : ∃ x : UInt32, w.1 = be 4 x.toNat := by
  have hlt : ofBe w.1 < 2 ^ 32 := by
    have hlt := ofBe_lt w.1
    rwa [w.2] at hlt
  have hw := be_ofBe w.1
  rw [w.2] at hw
  refine ⟨UInt32.ofNat (ofBe w.1), ?_⟩
  rw [UInt32.toNat_ofNat', Nat.mod_eq_of_lt hlt, hw]

/-- bytes that are long enough are a message -/
theorem exists_message {bs : List UInt8} (h : 77 ≤ bs.length) : ∃ m : HyperlaneMessage, toVec m = bs := by
  obtain ⟨version, bs₁, rfl, h₁⟩ := exists_word (le_trans (by decide : 1 ≤ 77) h)
  have hnonce : 4 ≤ bs₁.length := by omega
  obtain ⟨nonce, bs₂, rfl, h₂⟩ := exists_word hnonce
  have horigin : 4 ≤ bs₂.length := by omega
  obtain ⟨origin, bs₃, rfl, h₃⟩ := exists_word horigin
  have hsender : 32 ≤ bs₃.length := by omega
  obtain ⟨sender, bs₄, rfl, h₄⟩ := exists_word hsender
  have hdestination : 4 ≤ bs₄.length := by omega
  obtain ⟨destination, bs₅, rfl, h₅⟩ := exists_word hdestination
  have hrecipient : 32 ≤ bs₅.length := by omega
  obtain ⟨recipient, body, rfl, -⟩ := exists_word hrecipient
  obtain ⟨n, hn⟩ := exists_uint32 nonce
  obtain ⟨o, ho⟩ := exists_uint32 origin
  obtain ⟨d, hd⟩ := exists_uint32 destination
  obtain ⟨v, hv⟩ := List.length_eq_one_iff.1 version.2
  refine ⟨⟨v, n, o, sender, d, recipient, body⟩, ?_⟩
  have hencode := encode_eq ⟨v, n, o, sender, d, recipient, body⟩ []
  rw [List.append_nil, List.append_nil] at hencode
  rw [hencode, hv, hn, ho, hd]

theorem formatMessage_eq (m : HyperlaneMessage) :
    Message.formatMessage m.version m.nonce m.origin m.sender m.destination m.recipient m.body = toVec m := rfl

/-- a field of `n` bytes that starts at `a` -/
theorem wordAt_field {n a : ℕ} (pre : List UInt8) (w : Word n) (post : List UInt8) (ha : a = pre.length) :
    wordAt n (pre ++ (w.1 ++ post)) a = some w :=
  wordAt_of_slice (slice_segment pre w.1 post ha (by rw [ha, w.2]))

theorem uint32At_field {a : ℕ} (pre : List UInt8) (x : UInt32) (post : List UInt8) (ha : a = pre.length) :
    uint32At (pre ++ (be 4 x.toNat ++ post)) a = some x :=
  uint32At_of_slice (slice_segment pre _ post ha (by rw [ha, be_length]))

/-- what the accessors of a message return -/
structure HasFields (bs : List UInt8) (m : HyperlaneMessage) : Prop where
  version : Message.version bs = some m.version
  nonce : Message.nonce bs = some m.nonce
  origin : Message.origin bs = some m.origin
  sender : Message.sender bs = some m.sender
  destination : Message.destination bs = some m.destination
  recipient : Message.recipient bs = some m.recipient
  body : Message.body bs = some m.body

/-- every accessor returns the field that was written -/
theorem hasFields_toVec (m : HyperlaneMessage) : HasFields (toVec m) m := by
  have hfront : toVec m = ([m.version] ++ be 4 m.nonce.toNat ++ be 4 m.origin.toNat ++ m.sender.1 ++
      be 4 m.destination.toNat ++ m.recipient.1) ++ (m.body ++ []) := by rw [List.append_nil]; rfl
  have hlen : ([m.version] ++ be 4 m.nonce.toNat ++ be 4 m.origin.toNat ++ m.sender.1 ++
      be 4 m.destination.toNat ++ m.recipient.1).length = 77 := by
    simp only [List.length_append, be_length, m.sender.2, m.recipient.2, List.length_singleton]
  refine ⟨?_, ?_, ?_, ?_, ?_, ?_, ?_⟩
  · rfl
  · rw [← List.append_nil (toVec m), encode_eq]
    exact uint32At_field [m.version] m.nonce _ rfl
  · rw [← List.append_nil (toVec m), encode_eq, ← List.append_assoc]
    exact uint32At_field _ m.origin _ (by simp)
  · rw [← List.append_nil (toVec m), encode_eq, ← List.append_assoc, ← List.append_assoc]
    exact wordAt_field _ m.sender _ (by simp)
  · rw [← List.append_nil (toVec m), encode_eq, ← List.append_assoc, ← List.append_assoc, ← List.append_assoc]
    exact uint32At_field _ m.destination _ (by simp [m.sender.2])
  · rw [← List.append_nil (toVec m), encode_eq, ← List.append_assoc, ← List.append_assoc, ← List.append_assoc,
      ← List.append_assoc]
    exact wordAt_field _ m.recipient _ (by simp [m.sender.2])
  · unfold Message.body
    rw [hfront]
    exact slice_segment _ m.body [] hlen.symm (by rw [List.append_nil, List.length_append])

/-- the flag behind an indexed message is read as a part of its body -/
theorem readFrom_indexed_message (x : Indexed HyperlaneMessage) :
    (readFrom (toVec x) : Except IoError (Indexed HyperlaneMessage × List UInt8)) = .error .UnexpectedEof := by
  rw [readFrom_indexed, toVec_indexed, readFrom_message]
  rfl

/-- what is written for `x` is read as `y` -/
def ReadsBack {T S : Type} [Encode T] [Decode S] (x : T) (y : S) : Prop :=
  ∃ rest, (readFrom (toVec x) : Except IoError (S × List UInt8)) = .ok (y, rest)

theorem not_readsBack_of_error {T S : Type} [Encode T] [Decode S] {x : T} {e : IoError}
    (h : (readFrom (toVec x) : Except IoError (S × List UInt8)) = .error e) (y : S) : ¬ ReadsBack x y := by
  rintro ⟨rest, hread⟩
  rw [h] at hread
  cases hread

/-- a vector of messages: the first one is read to the end of the stream -/
theorem readsBack_vec_message (v : Vec HyperlaneMessage) : ReadsBack v v.1 ↔ v.1.length ≤ 1 := by
  have hvec := readFrom_vec v
  obtain ⟨xs, _⟩ := v
  match xs with
  | [] => exact ⟨fun _ => Nat.zero_le 1, fun _ => ⟨[], hvec⟩⟩
  | [m] =>
    refine ⟨fun _ => le_rfl, fun _ => ⟨[], hvec.trans ?_⟩⟩
    have hread := readFrom_message m []
    rw [List.append_nil] at hread
    simp only [List.map_cons, List.map_nil, List.flatten_cons, List.flatten_nil, List.append_nil, List.length_singleton,
      readMany, hread, ok_bind]
  | m :: m' :: ms =>
    have hread := readFrom_message m (((m' :: ms).map toVec).flatten)
    have hempty : (readFrom [] : Except IoError (HyperlaneMessage × List UInt8)) = .error .UnexpectedEof := rfl
    have hmany := readMany_of_greedy hread hempty ms.length
    refine ⟨fun h => absurd h (not_readsBack_of_error (hvec.trans hmany) _), fun h => ?_⟩
    exact absurd h (Nat.not_le.2 (by simp))

/-- **Wire format.** Messages are written and read alike, and their bytes are read back; behind a message nothing can be
written. An indexed message is never read back, a vector of messages just if it has at most one. -/
theorem wire_format (m : HyperlaneMessage) (bs : List UInt8) (x : Indexed HyperlaneMessage) (v : Vec HyperlaneMessage) :
    (toVec m = Message.formatMessage m.version m.nonce m.origin m.sender m.destination m.recipient m.body ∧
      HasFields (toVec m) m ∧ ReadsBack m m) ∧
    (77 ≤ bs.length → ∃ read : HyperlaneMessage,
      readFrom bs = (.ok (read, []) : Except IoError (HyperlaneMessage × List UInt8)) ∧ toVec read = bs) ∧
    ¬ ReadsBack x x ∧
    (ReadsBack v v.1 ↔ v.1.length ≤ 1) := by
  have hread : ∀ m : HyperlaneMessage, readFrom (toVec m) = (.ok (m, []) : Except IoError _) := by
    intro m
    have hread := readFrom_message m []
    rwa [List.append_nil, List.append_nil] at hread
  refine ⟨⟨(formatMessage_eq m).symm, hasFields_toVec m, [], hread m⟩, fun hlen => ?_, ?_, readsBack_vec_message v⟩
  · obtain ⟨m, rfl⟩ := exists_message hlen
    exact ⟨m, hread m, rfl⟩
  · exact not_readsBack_of_error (readFrom_indexed_message x) x

/-- `HyperlaneMessage::default()` -/
def defaultMessage : HyperlaneMessage := ⟨3, 0, 0, Word.filled 32 0, 0, Word.filled 32 0, []⟩

/-- the default message, indexed, and two of them in a vector -/
theorem indexed_message_lost :
    ¬ (∀ x : Indexed HyperlaneMessage, ReadsBack x x) ∧ ¬ ∀ v : Vec HyperlaneMessage, ReadsBack v v.1 := by
  constructor
  · intro h
    obtain ⟨rest, hread⟩ := h ⟨defaultMessage, none⟩
    have herror : (readFrom (toVec (⟨defaultMessage, none⟩ : Indexed HyperlaneMessage)) :
        Except IoError (Indexed HyperlaneMessage × List UInt8)) = .error .UnexpectedEof := rfl
    rw [herror] at hread
    cases hread
  · intro h
    obtain ⟨rest, hread⟩ := h ⟨[defaultMessage, defaultMessage], by decide⟩
    have herror : (readFrom (toVec (⟨[defaultMessage, defaultMessage], by decide⟩ : Vec HyperlaneMessage)) :
        Except IoError (List HyperlaneMessage × List UInt8)) = .error .UnexpectedEof :=
      (readFrom_vec _).trans (readMany_of_greedy (readFrom_message defaultMessage _) rfl 0)
    rw [herror] at hread
    cases hread

end Hyperlane.Mailbox
