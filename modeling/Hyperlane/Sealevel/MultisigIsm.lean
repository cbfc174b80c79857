/-
The message-id multisig of the Sealevel programs (rust/sealevel/libraries/multisig-ism and ecdsa-signature), beside the
contract's (contracts/isms/multisig/AbstractMultisigIsm.sol).

Both read 65-byte signatures from byte 68 on and scan the validators once. The library parses all of them and takes the
recovery byte as 0, 1, 27 or 28; the contract reads `threshold` of them and takes 27 or 28 only. The curve's recovery is
a parameter.

- `tryFrom_ok`: what is parsed.
- `loop_agrees`: the two scans, signature by signature.
- `multisig_accepted_same`: what the library accepts the contract accepts, if the two recover the same from the same bytes.
- `multisig_exact_same`: the other way, for metadata with `threshold` signatures.
-/
import Hyperlane.Relayer.MultisigMetadata

namespace Hyperlane.Sealevel

open Hyperlane.Bytes
open Hyperlane.Relayer (H160 H256 Crypto CheckpointWithMessageId HyperlaneMessage toH160)
open Hyperlane.GreedyMatch (seek seek_le)

/-! ## Signatures -/

inductive EcdsaSignatureError where
  | InvalidLength
  | InvalidRecoveryId
  | HighS
deriving DecidableEq

/-- half the order of the curve -/
def SECP256K1_HALF_ORDER : List UInt8 :=
  [0x7F, 0xFF, 0xFF, 0xFF, 0xFF, 0xFF, 0xFF, 0xFF, 0xFF, 0xFF, 0xFF, 0xFF, 0xFF, 0xFF, 0xFF, 0xFF,
    0x5D, 0x57, 0x6E, 0x73, 0x57, 0xA4, 0x50, 0x1D, 0xDF, 0xE9, 0x2F, 0x46, 0x68, 0x1B, 0x20, 0xA0]

structure EcdsaSignature where
  serializedRs : Word 64
  recoveryId : UInt8
deriving DecidableEq

/-- 27 and 28 are read as 0 and 1 -/
def normalizedRecoveryId (v : UInt8) : UInt8 := if v = 27 ∨ v = 28 then v - 27 else v

def EcdsaSignature.fromBytes (bytes : List UInt8) : Except EcdsaSignatureError EcdsaSignature :=
  if h : bytes.length = 65 then
    let serializedRs : Word 64 := ⟨bytes.take 64, by rw [List.length_take, h]; rfl⟩
    let recoveryId := normalizedRecoveryId (bytes.getD 64 0)
    if recoveryId > 1 then .error .InvalidRecoveryId
    else if serializedRs.1.drop 32 > SECP256K1_HALF_ORDER then .error .HighS
    else .ok ⟨serializedRs, recoveryId⟩
  else .error .InvalidLength

/-- `secp256k1_recover`: the public key from a digest, a recovery id, and the two halves of a signature -/
abbrev Secp256k1Recover := H256 → UInt8 → Word 64 → Option (Word 64)

/-- `secp256k1_recover_ethereum_address` -/
def EcdsaSignature.recoverAddress (C : Crypto) (secp : Secp256k1Recover) (s : EcdsaSignature) (hash : H256) :
    Option H160 :=
  (secp hash s.recoveryId s.serializedRs).map fun publicKey => toH160 (C.keccak publicKey.1)

/-! ## The library -/

inductive MultisigIsmError where
  | InvalidSignature
  | ThresholdNotMet
  | InvalidMetadata
deriving DecidableEq

structure MultisigIsmMessageIdMetadata where
  originMerkleTreeHook : H256
  merkleRoot : H256
  merkleIndex : UInt32
  validatorSignatures : List EcdsaSignature

def SIGNATURES_OFFSET : ℕ := 68
def SIGNATURE_LENGTH : ℕ := 65

/-- the bytes of a signature -/
def signatureBytes (bytes : List UInt8) (i : ℕ) : List UInt8 :=
  (bytes.drop (SIGNATURES_OFFSET + i * SIGNATURE_LENGTH)).take SIGNATURE_LENGTH

/-- the loop of `try_from`, for `n` more signatures from the `i`-th on -/
def parseSignatures (bytes : List UInt8) : ℕ → ℕ → Except MultisigIsmError (List EcdsaSignature)
  | 0, _ => .ok []
  | n + 1, i =>
    match EcdsaSignature.fromBytes (signatureBytes bytes i) with
    | .error _ => .error .InvalidMetadata
    | .ok s => (parseSignatures bytes n (i + 1)).map (s :: ·)

def MultisigIsmMessageIdMetadata.tryFrom (bytes : List UInt8) : Except MultisigIsmError MultisigIsmMessageIdMetadata :=
  if bytes.length < SIGNATURES_OFFSET + SIGNATURE_LENGTH then .error .InvalidMetadata
  else match wordAt 32 bytes 0, wordAt 32 bytes 32, uint32At bytes 64 with
    | some originMerkleTreeHook, some merkleRoot, some merkleIndex =>
      let signatureBytesLen := bytes.length - SIGNATURES_OFFSET
      if signatureBytesLen % SIGNATURE_LENGTH ≠ 0 then .error .InvalidMetadata
      else (parseSignatures bytes (signatureBytesLen / SIGNATURE_LENGTH) 0).map
        (⟨originMerkleTreeHook, merkleRoot, merkleIndex, ·⟩)
    | _, _, _ => .error .InvalidMetadata

structure MultisigIsm where
  signedData : CheckpointWithMessageId
  signatures : List EcdsaSignature
  validators : List H160
  threshold : UInt8

section

variable (C : Crypto) (secp : Secp256k1Recover)

/-- the loop of `verify` over the signatures that count -/
def verifySignatures (digest : H256) (validators : List H160) : List EcdsaSignature → ℕ → Except MultisigIsmError Unit
  | [], _ => .ok ()
  | s :: signatures, validatorIndex =>
    match s.recoverAddress C secp digest with
    | none => .error .InvalidSignature
    | some signer =>
      if seek validators signer validatorIndex < validators.length then
        verifySignatures digest validators signatures (seek validators signer validatorIndex + 1)
      else .error .ThresholdNotMet

def MultisigIsm.verify (m : MultisigIsm) : Except MultisigIsmError Unit :=
  if m.signatures.length < m.threshold.toNat then .error .ThresholdNotMet
  else verifySignatures C secp (m.signedData.ethSignedMessageHash C) m.validators
    (m.signatures.take m.threshold.toNat) 0

/-- the checkpoint that the metadata claims for a message -/
def MultisigIsmMessageIdMetadata.checkpoint (m : MultisigIsmMessageIdMetadata) (message : HyperlaneMessage) :
    CheckpointWithMessageId where
  merkleTreeHookAddress := m.originMerkleTreeHook
  mailboxDomain := message.origin
  root := m.merkleRoot
  index := m.merkleIndex
  messageId := message.id C

/-- `try_from` and `verify`, one after the other -/
def multisigVerify (validators : List H160) (threshold : UInt8) (metadata : List UInt8) (message : HyperlaneMessage) :
    Except MultisigIsmError Unit :=
  match MultisigIsmMessageIdMetadata.tryFrom metadata with
  | .error e => .error e
  | .ok m => (MultisigIsm.mk (m.checkpoint C message) m.validatorSignatures validators threshold).verify C secp

end

/-! ## What is parsed -/

section Parsing

variable {bytes : List UInt8} {n i : ℕ} {signatures : List EcdsaSignature}

theorem parseSignatures_spec (h : parseSignatures bytes n i = .ok signatures) : signatures.length = n ∧
    ∀ k (hk : k < signatures.length), EcdsaSignature.fromBytes (signatureBytes bytes (i + k)) = .ok signatures[k] := by
  induction n generalizing i signatures with
  | zero =>
    injection h with h
    subst h
    exact ⟨rfl, fun _ hk => absurd hk (Nat.not_lt_zero _)⟩
  | succ n ih =>
    rw [parseSignatures] at h
    split at h
    · exact nomatch h
    next s hs =>
      cases hrest : parseSignatures bytes n (i + 1) with
      | error e =>
        rw [hrest] at h
        exact nomatch h
      | ok rest =>
        rw [hrest] at h
        injection h with h
        subst h
        obtain ⟨hlen, hget⟩ := ih hrest
        refine ⟨congrArg Nat.succ hlen, fun k hk => ?_⟩
        cases k with
        | zero => exact hs
        | succ k =>
          rw [show i + (k + 1) = i + 1 + k by omega]
          exact hget k (Nat.lt_of_succ_lt_succ hk)

theorem parseSignatures_exists (h : ∀ k < n, ∃ s, EcdsaSignature.fromBytes (signatureBytes bytes (i + k)) = .ok s) :
    ∃ signatures, parseSignatures bytes n i = .ok signatures := by
  induction n generalizing i with
  | zero => exact ⟨[], rfl⟩
  | succ n ih =>
    obtain ⟨s, hs⟩ := h 0 (Nat.succ_pos n)
    obtain ⟨rest, hrest⟩ := ih (i := i + 1) fun k hk => by
      rw [show i + 1 + k = i + (k + 1) by omega]
      exact h (k + 1) (Nat.succ_lt_succ hk)
    rw [Nat.add_zero] at hs
    exact ⟨s :: rest, by rw [parseSignatures, hs, hrest]; rfl⟩

/-- what is parsed from metadata for `n` signatures -/
theorem tryFrom_ok (hn : 1 ≤ n) (hlen : bytes.length = 68 + 65 * n) : ∃ hook root index,
    wordAt 32 bytes 0 = some hook ∧ wordAt 32 bytes 32 = some root ∧ uint32At bytes 64 = some index ∧
      MultisigIsmMessageIdMetadata.tryFrom bytes = (parseSignatures bytes n 0).map (⟨hook, root, index, ·⟩) := by
  have hhook : ∃ hook, wordAt 32 bytes 0 = some hook := ⟨_, dif_pos (by omega)⟩
  have hroot : ∃ root, wordAt 32 bytes 32 = some root := ⟨_, dif_pos (by omega)⟩
  have hindex : ∃ index, uint32At bytes 64 = some index := by
    rw [uint32At, slice, if_pos ⟨by omega, by omega⟩]
    exact ⟨_, rfl⟩
  obtain ⟨hook, hhook⟩ := hhook
  obtain ⟨root, hroot⟩ := hroot
  obtain ⟨index, hindex⟩ := hindex
  refine ⟨hook, root, index, hhook, hroot, hindex, ?_⟩
  have hcount : (bytes.length - SIGNATURES_OFFSET) / SIGNATURE_LENGTH = n := by
    rw [hlen, SIGNATURES_OFFSET, SIGNATURE_LENGTH, Nat.add_sub_cancel_left, Nat.mul_div_cancel_left n (by decide)]
  have hmod : (bytes.length - SIGNATURES_OFFSET) % SIGNATURE_LENGTH = 0 := by
    rw [hlen, SIGNATURES_OFFSET, SIGNATURE_LENGTH, Nat.add_sub_cancel_left, Nat.mul_mod_right]
  rw [MultisigIsmMessageIdMetadata.tryFrom, if_neg (by rw [SIGNATURES_OFFSET, SIGNATURE_LENGTH]; omega), hhook, hroot,
    hindex]
  simp only [hmod, hcount, ne_eq, not_true_eq_false, ↓reduceIte]

theorem length_of_tryFrom {m : MultisigIsmMessageIdMetadata} (h : MultisigIsmMessageIdMetadata.tryFrom bytes = .ok m) :
    ∃ n, 1 ≤ n ∧ bytes.length = 68 + 65 * n := by
  rw [MultisigIsmMessageIdMetadata.tryFrom] at h
  split at h
  · exact nomatch h
  next hlen =>
    split at h
    · dsimp only at h
      split at h
      · exact nomatch h
      next hmod =>
        rw [SIGNATURES_OFFSET, SIGNATURE_LENGTH] at hlen hmod
        exact ⟨(bytes.length - 68) / 65, by omega, by omega⟩
    · exact nomatch h

end Parsing

/-! ## The library and the contract -/

section Agreement

variable {C : Crypto} {secp : Secp256k1Recover} {validators : List H160} {threshold : UInt8} {metadata : List UInt8}
  {message : HyperlaneMessage} {digest : H256}

/-- the scans of the two loops go alike -/
theorem loop_agrees {signatureAt : ℕ → Option (Word 65)} {signatures : List EcdsaSignature} {i validatorIndex : ℕ}
    (hat : ∀ k (hk : k < signatures.length), ∃ w, signatureAt (i + k) = some w ∧
      C.recover digest w = signatures[k].recoverAddress C secp digest) :
    Relayer.verifyLoop C validators digest signatureAt signatures.length i validatorIndex = some true ↔
      verifySignatures C secp digest validators signatures validatorIndex = .ok () := by
  induction signatures generalizing i validatorIndex with
  | nil => exact ⟨fun _ => rfl, fun _ => rfl⟩
  | cons s signatures ih =>
    obtain ⟨w, hw, hs⟩ := hat 0 (Nat.succ_pos _)
    rw [Nat.add_zero] at hw
    rw [List.length_cons, Relayer.verifyLoop, verifySignatures, hw]
    simp only [hs, List.getElem_cons_zero]
    cases s.recoverAddress C secp digest with
    | none => exact ⟨fun h => (by cases h), fun h => by cases h⟩
    | some signer =>
      dsimp only
      split
      · refine ih fun k hk => ?_
        rw [show i + 1 + k = i + (k + 1) by omega]
        exact hat (k + 1) (Nat.succ_lt_succ hk)
      · exact ⟨fun h => (by cases h), fun h => by cases h⟩

/-- what `multisigVerify` does with metadata of the size of `n` signatures, and what the contract reads there -/
theorem multisigVerify_parsed (C : Crypto) (secp : Secp256k1Recover) (validators : List H160) (threshold : UInt8)
    (message : HyperlaneMessage) {n : ℕ} (hn : 1 ≤ n) (hlen : metadata.length = 68 + 65 * n) :
    ∃ checkpoint : CheckpointWithMessageId,
      Relayer.messageIdDigest C metadata message.encode = some (checkpoint.ethSignedMessageHash C) ∧
      ∀ signatures, parseSignatures metadata n 0 = .ok signatures →
        multisigVerify C secp validators threshold metadata message =
          (MultisigIsm.mk checkpoint signatures validators threshold).verify C secp := by
  obtain ⟨hook, root, index, hhook, hroot, hindex, hparse⟩ := tryFrom_ok hn hlen
  refine ⟨⟨hook, message.origin, root, index, message.id C⟩, ?_, fun signatures hsignatures => ?_⟩
  · rw [Relayer.messageIdDigest, Relayer.origin_encode, Relayer.MessageIdMultisigIsmMetadata.originMerkleTreeHook,
      hhook, Relayer.MessageIdMultisigIsmMetadata.root, hroot, Relayer.MessageIdMultisigIsmMetadata.index, hindex,
      ← Relayer.digest_eq]
    rfl
  · rw [multisigVerify, hparse, hsignatures]
    rfl

theorem signatureAt_of_lt {n i : ℕ} (hlen : metadata.length = 68 + 65 * n) (hi : i < n) :
    ∃ w, Relayer.MessageIdMultisigIsmMetadata.signatureAt metadata i = some w ∧ w.1 = signatureBytes metadata i :=
  ⟨_, dif_pos (by omega), rfl⟩

/-- the contract's run over metadata that the library parses, when the two recover the signatures that count alike -/
theorem messageIdVerify_iff {n : ℕ} {checkpoint : CheckpointWithMessageId} {signatures : List EcdsaSignature}
    (hlen : metadata.length = 68 + 65 * n) (hsignatures : signatures.length = n)
    (hdigest : Relayer.messageIdDigest C metadata message.encode = some (checkpoint.ethSignedMessageHash C))
    (ht : 1 ≤ threshold.toNat) (hle : threshold.toNat ≤ n)
    (hrecover : ∀ i (hi : i < signatures.length) (w : Word 65), i < threshold.toNat → w.1 = signatureBytes metadata i →
      C.recover (checkpoint.ethSignedMessageHash C) w =
        signatures[i].recoverAddress C secp (checkpoint.ethSignedMessageHash C)) :
    Relayer.messageIdVerify C validators threshold.toNat metadata message.encode = some true ↔
      (MultisigIsm.mk checkpoint signatures validators threshold).verify C secp = .ok () := by
  have htake : (signatures.take threshold.toNat).length = threshold.toNat := by
    rw [List.length_take, hsignatures, min_eq_left hle]
  have hloop : Relayer.verifyLoop C validators (checkpoint.ethSignedMessageHash C)
        (Relayer.MessageIdMultisigIsmMetadata.signatureAt metadata) (signatures.take threshold.toNat).length 0 0 =
        some true ↔
      verifySignatures C secp (checkpoint.ethSignedMessageHash C) validators (signatures.take threshold.toNat) 0 =
        .ok () := by
    refine loop_agrees fun k hk => ?_
    rw [htake] at hk
    obtain ⟨w, hw, hbytes⟩ := signatureAt_of_lt hlen (hk.trans_le hle)
    refine ⟨w, by rw [Nat.zero_add, hw], ?_⟩
    rw [List.getElem_take]
    exact hrecover k (hsignatures ▸ hk.trans_le hle) w hk hbytes
  rw [htake] at hloop
  rw [Relayer.messageIdVerify, hdigest, Relayer.verify, if_pos (Nat.succ_le_iff.1 ht), MultisigIsm.verify,
    if_neg (Nat.not_lt.2 (hsignatures ▸ hle))]
  exact hloop

/-- what the library accepts the contract accepts, when the signatures that count are recovered alike -/
theorem accepted_of_recovers (ht : 1 ≤ threshold.toNat)
    (hrecover : ∀ i < threshold.toNat, ∀ (w : Word 65) (s : EcdsaSignature), w.1 = signatureBytes metadata i →
      EcdsaSignature.fromBytes w.1 = .ok s → ∀ digest, C.recover digest w = s.recoverAddress C secp digest)
    (h : multisigVerify C secp validators threshold metadata message = .ok ()) :
    Relayer.messageIdVerify C validators threshold.toNat metadata message.encode = some true := by
  cases hm : MultisigIsmMessageIdMetadata.tryFrom metadata with
  | error e =>
    rw [multisigVerify, hm] at h
    exact nomatch h
  | ok m =>
    obtain ⟨n, hn, hlen⟩ := length_of_tryFrom hm
    obtain ⟨hook, root, index, -, -, -, hparse⟩ := tryFrom_ok hn hlen
    cases hsignatures : parseSignatures metadata n 0 with
    | error e =>
      rw [hparse, hsignatures] at hm
      exact nomatch hm
    | ok signatures =>
      obtain ⟨checkpoint, hdigest, hverify⟩ := multisigVerify_parsed C secp validators threshold message hn hlen
      rw [hverify signatures hsignatures] at h
      obtain ⟨hcount, hget⟩ := parseSignatures_spec hsignatures
      have hle : threshold.toNat ≤ n := by
        rw [← hcount]
        by_contra hgt
        rw [MultisigIsm.verify, if_pos (Nat.lt_of_not_le hgt)] at h
        exact nomatch h
      refine (messageIdVerify_iff hlen hcount hdigest ht hle fun i hi w hit hw => ?_).2 h
      have hs : EcdsaSignature.fromBytes w.1 = .ok signatures[i] := by
        rw [hw]
        simpa using hget i hi
      exact hrecover i hit w _ hw hs _

/-- the two recoveries are one function of a digest and the bytes of a signature -/
def RecoversSame (C : Crypto) (secp : Secp256k1Recover) : Prop :=
  ∀ (digest : H256) (signature : Word 65), C.recover digest signature =
    (EcdsaSignature.fromBytes signature.1).toOption.bind fun s => s.recoverAddress C secp digest

theorem multisig_accepted_same (hrecover : RecoversSame C secp) (ht : 1 ≤ threshold.toNat)
    (h : multisigVerify C secp validators threshold metadata message = .ok ()) :
    Relayer.messageIdVerify C validators threshold.toNat metadata message.encode = some true := by
  refine accepted_of_recovers ht (fun i _ w s _ hs digest => ?_) h
  rw [hrecover, hs]
  rfl

/-- the signatures of a run of the contract's loop that passes are all recovered -/
theorem recovered_of_verifyLoop {signatureAt : ℕ → Option (Word 65)} {n i validatorIndex : ℕ}
    (h : Relayer.verifyLoop C validators digest signatureAt n i validatorIndex = some true) :
    ∀ k < n, ∃ w signer, signatureAt (i + k) = some w ∧ C.recover digest w = some signer := by
  induction n generalizing i validatorIndex with
  | zero => exact fun k hk => absurd hk (Nat.not_lt_zero k)
  | succ n ih =>
    rw [Relayer.verifyLoop] at h
    split at h
    · cases h
    next w hw =>
      split at h
      · cases h
      next signer hsigner =>
        split at h
        · rintro (_ | k) hk
          · exact ⟨w, signer, hw, hsigner⟩
          · rw [show i + (k + 1) = i + 1 + k by omega]
            exact ih h k (Nat.lt_of_succ_lt_succ hk)
        · cases h

/-- what the contract accepts the library accepts, for metadata that holds `threshold` signatures and no more, when what is
recovered is parsed and recovered alike -/
theorem exact_of_recovers (ht : 1 ≤ threshold.toNat)
    (hlen : metadata.length = 68 + 65 * threshold.toNat)
    (hrecover : ∀ (digest : H256) (w : Word 65) (signer : H160), C.recover digest w = some signer →
      ∃ s, EcdsaSignature.fromBytes w.1 = .ok s ∧ C.recover digest w = s.recoverAddress C secp digest)
    (h : Relayer.messageIdVerify C validators threshold.toNat metadata message.encode = some true) :
    multisigVerify C secp validators threshold metadata message = .ok () := by
  obtain ⟨checkpoint, hdigest, hverify⟩ := multisigVerify_parsed C secp validators threshold message ht hlen
  have hrecovered : ∀ i < threshold.toNat, ∃ w : Word 65, w.1 = signatureBytes metadata i ∧
      ∃ signer, C.recover (checkpoint.ethSignedMessageHash C) w = some signer := by
    have hloop := h
    rw [Relayer.messageIdVerify, hdigest, Relayer.verify, if_pos (Nat.succ_le_iff.1 ht)] at hloop
    intro i hi
    obtain ⟨w, signer, hw, hsigner⟩ := recovered_of_verifyLoop hloop i hi
    obtain ⟨w', hw', hbytes⟩ := signatureAt_of_lt hlen hi
    rw [Nat.zero_add, hw'] at hw
    injection hw with hw
    exact ⟨w', hbytes, signer, hw ▸ hsigner⟩
  have hparse : ∃ signatures, parseSignatures metadata threshold.toNat 0 = .ok signatures := by
    refine parseSignatures_exists fun k hk => ?_
    obtain ⟨w, hbytes, signer, hsigner⟩ := hrecovered k hk
    obtain ⟨s, hs, -⟩ := hrecover _ w signer hsigner
    exact ⟨s, by rw [Nat.zero_add, ← hbytes, hs]⟩
  obtain ⟨signatures, hsignatures⟩ := hparse
  obtain ⟨hcount, hget⟩ := parseSignatures_spec hsignatures
  rw [hverify signatures hsignatures]
  refine (messageIdVerify_iff hlen hcount hdigest ht le_rfl fun i hi w hit hw => ?_).1 h
  have hs : EcdsaSignature.fromBytes w.1 = .ok signatures[i] := by
    rw [hw]
    simpa using hget i hi
  obtain ⟨w', hbytes, signer, hsigner⟩ := hrecovered i hit
  rw [Subtype.ext (hbytes.trans hw.symm)] at hsigner
  obtain ⟨s, hs', heq⟩ := hrecover _ w signer hsigner
  obtain rfl := Except.ok.inj (hs'.symm.trans hs)
  exact heq

theorem multisig_exact_same (hrecover : RecoversSame C secp) (ht : 1 ≤ threshold.toNat)
    (hlen : metadata.length = 68 + 65 * threshold.toNat)
    (h : Relayer.messageIdVerify C validators threshold.toNat metadata message.encode = some true) :
    multisigVerify C secp validators threshold metadata message = .ok () := by
  refine exact_of_recovers ht hlen (fun digest w signer hsigner => ?_) h
  have hsame := hrecover digest w
  cases hs : EcdsaSignature.fromBytes w.1 with
  | error e =>
    rw [hs, hsigner] at hsame
    cases hsame
  | ok s =>
    rw [hs] at hsame
    exact ⟨s, rfl, hsame⟩

end Agreement

end Hyperlane.Sealevel
