/-
Multisig metadata from the relayer to the chain: `MultisigMetadata::format`
(agents/relayer/src/msg/metadata/multisig/base.rs) and the contracts that read it (contracts/isms/multisig, with
contracts/isms/libs/MessageIdMultisigIsmMetadata.sol and MerkleRootMultisigIsmMetadata.sol).

The relayer writes tokens one after the other; the contracts read at fixed offsets, recompute the digest and scan the
validators once for all signatures. A revert is `none`.

- `messageId_decodes`, `merkleRoot_decodes`: what is written is read back.
- `verifyLoop_signedBy`: signatures in the order of the validators pass the scan, also with repeated validators.
- `metadata_accepted`: metadata for a fetched checkpoint is accepted. Two things that the relayer's formatting does not
  look at are needed: the checkpoint is for the message's origin, and in the Merkle root layout the message's leaf is not
  above the checkpoint's index. The contract rejects both by design.
-/
import Hyperlane.Accumulator.Recursive
import Hyperlane.Core.GreedyMatch
import Hyperlane.Relayer.Multisig

namespace Hyperlane.Relayer

open Hyperlane.Bytes Hyperlane.Accumulator
open Hyperlane.GreedyMatch (seek seek_le)

/-! ## The relayer -/

structure HyperlaneMessage where
  version : UInt8
  nonce : UInt32
  origin : UInt32
  sender : H256
  destination : UInt32
  recipient : H256
  body : List UInt8

/-- `Encode for HyperlaneMessage` -/
def HyperlaneMessage.encode (m : HyperlaneMessage) : List UInt8 :=
  [m.version] ++ be 4 m.nonce.toNat ++ be 4 m.origin.toNat ++ m.sender.1 ++ be 4 m.destination.toNat ++ m.recipient.1 ++ m.body

/-- `HyperlaneMessage::id` -/
def HyperlaneMessage.id (C : Crypto) (m : HyperlaneMessage) : H256 := C.keccak m.encode

/-- the pairing of the Merkle trees -/
def Crypto.tree (C : Crypto) : Keccak H256 := ⟨fun a b => C.keccak (a.1 ++ b.1), ⟨List.replicate 32 0, by simp⟩⟩

inductive MetadataToken where
  | CheckpointMerkleRoot
  | CheckpointIndex
  | CheckpointMerkleTreeHook
  | MessageId
  | MerkleProof
  | MessageMerkleLeafIndex
  | Signatures
deriving DecidableEq

structure MultisigMetadata where
  quorumCheckpoint : MultisigSignedCheckpoint
  merkleLeafIndex : UInt32
  proof : Option (Proof H256)

/-- what `format` writes for a token; `none` is the `expect` on a missing proof -/
def MultisigMetadata.piece (m : MultisigMetadata) : MetadataToken → Option (List UInt8)
  | .CheckpointMerkleRoot => some m.quorumCheckpoint.checkpoint.root.1
  | .MessageMerkleLeafIndex => some (be 4 m.merkleLeafIndex.toNat)
  | .CheckpointIndex => some (be 4 m.quorumCheckpoint.checkpoint.index.toNat)
  | .CheckpointMerkleTreeHook => some m.quorumCheckpoint.checkpoint.merkleTreeHookAddress.1
  | .MessageId => some m.quorumCheckpoint.checkpoint.messageId.1
  | .MerkleProof => m.proof.map fun p => ((List.ofFn p.path).map Subtype.val).flatten
  | .Signatures => some (m.quorumCheckpoint.signatures.map fun σ => σ.toBytes.1).flatten

/-- `format` -/
def MultisigMetadata.format (m : MultisigMetadata) (layout : List MetadataToken) : Option (List UInt8) :=
  (layout.mapM m.piece).map List.flatten

/-- the `token_layout` of `MessageIdMultisigMetadataBuilder` -/
def messageIdLayout : List MetadataToken := [.CheckpointMerkleTreeHook, .CheckpointMerkleRoot, .CheckpointIndex, .Signatures]

/-- the `token_layout` of `MerkleRootMultisigMetadataBuilder` -/
def merkleRootLayout : List MetadataToken :=
  [.CheckpointMerkleTreeHook, .MessageMerkleLeafIndex, .MessageId, .MerkleProof, .CheckpointIndex, .Signatures]

/-! ## The contracts -/

namespace MessageIdMultisigIsmMetadata

def originMerkleTreeHook (metadata : List UInt8) : Option H256 := wordAt 32 metadata 0

def root (metadata : List UInt8) : Option H256 := wordAt 32 metadata 32

def index (metadata : List UInt8) : Option UInt32 := uint32At metadata 64

def signatureAt (metadata : List UInt8) (i : ℕ) : Option (Word 65) := wordAt 65 metadata (68 + i * 65)

end MessageIdMultisigIsmMetadata

namespace MerkleRootMultisigIsmMetadata

def originMerkleTreeHook (metadata : List UInt8) : Option H256 := wordAt 32 metadata 0

def messageIndex (metadata : List UInt8) : Option UInt32 := uint32At metadata 32

def signedMessageId (metadata : List UInt8) : Option H256 := wordAt 32 metadata 36

/-- `abi.decode` of the slice as `bytes32[32]` -/
def proof (metadata : List UInt8) : Option (List H256) :=
  (slice metadata 68 (68 + 32 * 32)).bind (words 32 32)

def signedIndex (metadata : List UInt8) : Option UInt32 := uint32At metadata 1092

def signatureAt (metadata : List UInt8) (i : ℕ) : Option (Word 65) := wordAt 65 metadata (1096 + i * 65)

end MerkleRootMultisigIsmMetadata

namespace Message

def origin (message : List UInt8) : Option UInt32 := uint32At message 5

def id (C : Crypto) (message : List UInt8) : H256 := C.keccak message

end Message

namespace CheckpointLib

def domainHash (C : Crypto) (origin : UInt32) (merkleTreeHook : H256) : H256 :=
  C.keccak (be 4 origin.toNat ++ merkleTreeHook.1 ++ hyperlaneTag)

def digest (C : Crypto) (origin : UInt32) (merkleTreeHook checkpointRoot : H256) (checkpointIndex : UInt32)
    (messageId : H256) : H256 :=
  C.keccak (signedMessageTag ++ (C.keccak ((domainHash C origin merkleTreeHook).1 ++ checkpointRoot.1 ++
    be 4 checkpointIndex.toNat ++ messageId.1)).1)

end CheckpointLib

/-- `MerkleLib.branchRoot` -/
def branchRoot (C : Crypto) (item : H256) (branch : List H256) (index : UInt32) : H256 :=
  branchLoop C.tree index.toNat 0 branch item

/-- `AbstractMessageIdMultisigIsm.digest` -/
def messageIdDigest (C : Crypto) (metadata message : List UInt8) : Option H256 := do
  let origin ← Message.origin message
  let hook ← MessageIdMultisigIsmMetadata.originMerkleTreeHook metadata
  let root ← MessageIdMultisigIsmMetadata.root metadata
  let index ← MessageIdMultisigIsmMetadata.index metadata
  return CheckpointLib.digest C origin hook root index (Message.id C message)

/-- `AbstractMerkleRootMultisigIsm.digest` -/
def merkleRootDigest (C : Crypto) (metadata message : List UInt8) : Option H256 := do
  let messageIndex ← MerkleRootMultisigIsmMetadata.messageIndex metadata
  let signedIndex ← MerkleRootMultisigIsmMetadata.signedIndex metadata
  guard (messageIndex ≤ signedIndex)
  let proof ← MerkleRootMultisigIsmMetadata.proof metadata
  let origin ← Message.origin message
  let hook ← MerkleRootMultisigIsmMetadata.originMerkleTreeHook metadata
  let signedMessageId ← MerkleRootMultisigIsmMetadata.signedMessageId metadata
  return CheckpointLib.digest C origin hook (branchRoot C (Message.id C message) proof messageIndex) signedIndex
    signedMessageId

/-- the outer loop of `verify`, for `n` more signatures from the `i`-th on; the inner loop seeks the signer -/
def verifyLoop (C : Crypto) (validators : List H160) (digest : H256) (signatureAt : ℕ → Option (Word 65)) :
    ℕ → ℕ → ℕ → Option Bool
  | 0, _, _ => some true
  | n + 1, i, validatorIndex =>
    match signatureAt i with
    | none => none
    | some signature =>
      match C.recover digest signature with
      | none => none
      | some signer =>
        if seek validators signer validatorIndex < validators.length then
          verifyLoop C validators digest signatureAt n (i + 1) (seek validators signer validatorIndex + 1)
        else none

/-- `AbstractMultisigIsm.verify` -/
def verify (C : Crypto) (digest : Option H256) (signatureAt : ℕ → Option (Word 65)) (validators : List H160)
    (threshold : ℕ) : Option Bool :=
  match digest with
  | none => none
  | some digest => if 0 < threshold then verifyLoop C validators digest signatureAt threshold 0 0 else none

def messageIdVerify (C : Crypto) (validators : List H160) (threshold : ℕ) (metadata message : List UInt8) : Option Bool :=
  verify C (messageIdDigest C metadata message) (MessageIdMultisigIsmMetadata.signatureAt metadata) validators threshold

def merkleRootVerify (C : Crypto) (validators : List H160) (threshold : ℕ) (metadata message : List UInt8) : Option Bool :=
  verify C (merkleRootDigest C metadata message) (MerkleRootMultisigIsmMetadata.signatureAt metadata) validators threshold

/-! ## What is written is read back -/

theorem origin_encode (m : HyperlaneMessage) : Message.origin m.encode = some m.origin := by
  apply uint32At_of_slice
  have hpre : ([m.version] ++ be 4 m.nonce.toNat).length = 5 := by simp
  unfold HyperlaneMessage.encode
  simp only [List.append_assoc]
  rw [← List.append_assoc [m.version]]
  exact slice_segment _ _ _ hpre.symm (by rw [hpre, be_length])

/-- a fixed-width part followed by the signatures -/
theorem signature_slice (pre : List UInt8) (signatures : List Signature) {i : ℕ} (hi : i < signatures.length) :
    wordAt 65 (pre ++ (signatures.map fun σ => σ.toBytes.1).flatten) (pre.length + i * 65) =
      some (signatures[i].toBytes) := by
  apply wordAt_of_slice
  rw [Nat.add_assoc, slice_append_right]
  have hlen : ∀ w ∈ signatures.map fun σ => σ.toBytes.1, w.length = 65 := by
    intro w hw
    obtain ⟨σ, -, rfl⟩ := List.mem_map.1 hw
    exact σ.toBytes.2
  rw [slice_flatten hlen (by simpa using hi), List.getElem_map]

/-- the contract reads the checkpoint and the signatures of the message id layout -/
structure MessageIdDecodes (m : MultisigMetadata) (metadata : List UInt8) : Prop where
  hook : MessageIdMultisigIsmMetadata.originMerkleTreeHook metadata = some m.quorumCheckpoint.checkpoint.merkleTreeHookAddress
  root : MessageIdMultisigIsmMetadata.root metadata = some m.quorumCheckpoint.checkpoint.root
  index : MessageIdMultisigIsmMetadata.index metadata = some m.quorumCheckpoint.checkpoint.index
  signature : ∀ i (hi : i < m.quorumCheckpoint.signatures.length),
    MessageIdMultisigIsmMetadata.signatureAt metadata i = some m.quorumCheckpoint.signatures[i].toBytes

theorem messageId_decodes (m : MultisigMetadata) :
    ∃ metadata, m.format messageIdLayout = some metadata ∧ MessageIdDecodes m metadata := by
  obtain ⟨⟨c, signatures⟩, leafIndex, proof⟩ := m
  refine ⟨[c.merkleTreeHookAddress.1, c.root.1, be 4 c.index.toNat, (signatures.map fun σ => σ.toBytes.1).flatten].flatten,
    rfl, ?_, ?_, ?_, ?_⟩
  · apply wordAt_of_slice
    exact slice_segments (k := 0) (by simp) (by simp) (by simp [c.merkleTreeHookAddress.2])
  · apply wordAt_of_slice
    exact slice_segments (k := 1) (by simp) (by simp [c.merkleTreeHookAddress.2]) (by simp [c.root.2])
  · apply uint32At_of_slice
    exact slice_segments (k := 2) (by simp) (by simp [c.merkleTreeHookAddress.2, c.root.2]) (by simp)
  · intro i hi
    have hpre : [c.merkleTreeHookAddress.1, c.root.1, be 4 c.index.toNat].flatten.length = 68 := by
      simp [c.merkleTreeHookAddress.2, c.root.2]
    have h := signature_slice [c.merkleTreeHookAddress.1, c.root.1, be 4 c.index.toNat].flatten signatures hi
    rw [hpre, ← List.flatten_concat] at h
    exact h

/-- the contract reads the checkpoint, the proof and the signatures of the Merkle root layout -/
structure MerkleRootDecodes (m : MultisigMetadata) (proof : Proof H256) (metadata : List UInt8) : Prop where
  hook : MerkleRootMultisigIsmMetadata.originMerkleTreeHook metadata = some m.quorumCheckpoint.checkpoint.merkleTreeHookAddress
  leafIndex : MerkleRootMultisigIsmMetadata.messageIndex metadata = some m.merkleLeafIndex
  messageId : MerkleRootMultisigIsmMetadata.signedMessageId metadata = some m.quorumCheckpoint.checkpoint.messageId
  path : MerkleRootMultisigIsmMetadata.proof metadata = some (List.ofFn proof.path)
  index : MerkleRootMultisigIsmMetadata.signedIndex metadata = some m.quorumCheckpoint.checkpoint.index
  signature : ∀ i (hi : i < m.quorumCheckpoint.signatures.length),
    MerkleRootMultisigIsmMetadata.signatureAt metadata i = some m.quorumCheckpoint.signatures[i].toBytes

theorem path_length (proof : Proof H256) : ((List.ofFn proof.path).map Subtype.val).flatten.length = 1024 := by
  have hsum : ∀ ws : List H256, (ws.map Subtype.val).flatten.length = ws.length * 32 := by
    intro ws
    induction ws with
    | nil => rfl
    | cons w ws ih =>
      rw [List.map_cons, List.flatten_cons, List.length_append, ih, w.2, List.length_cons]
      ring
  rw [hsum, List.length_ofFn]
  rfl

theorem path_words (proof : Proof H256) :
    words 32 32 ((List.ofFn proof.path).map Subtype.val).flatten = some (List.ofFn proof.path) := by
  have h := words_flatten (List.ofFn proof.path)
  rwa [List.length_ofFn] at h

theorem merkleRoot_decodes (m : MultisigMetadata) {proof : Proof H256} (hproof : m.proof = some proof) :
    ∃ metadata, m.format merkleRootLayout = some metadata ∧ MerkleRootDecodes m proof metadata := by
  obtain ⟨⟨c, signatures⟩, leafIndex, p⟩ := m
  cases hproof
  have hhook := c.merkleTreeHookAddress.2
  have hid := c.messageId.2
  have hpath := path_length proof
  have hwords := path_words proof
  refine ⟨[c.merkleTreeHookAddress.1, be 4 leafIndex.toNat, c.messageId.1, ((List.ofFn proof.path).map Subtype.val).flatten,
    be 4 c.index.toNat, (signatures.map fun σ => σ.toBytes.1).flatten].flatten, rfl, ?_⟩
  generalize ((List.ofFn proof.path).map Subtype.val).flatten = path at hpath hwords
  refine ⟨?_, ?_, ?_, ?_, ?_, ?_⟩
  · apply wordAt_of_slice
    exact slice_segments (k := 0) (by simp) (by simp) (by simp [hhook])
  · apply uint32At_of_slice
    exact slice_segments (k := 1) (by simp) (by simp [hhook]) (by simp)
  · apply wordAt_of_slice
    exact slice_segments (k := 2) (by simp) (by simp [hhook]) (by simp [hid])
  · unfold MerkleRootMultisigIsmMetadata.proof
    have hslice : slice [c.merkleTreeHookAddress.1, be 4 leafIndex.toNat, c.messageId.1, path, be 4 c.index.toNat,
        (signatures.map fun σ => σ.toBytes.1).flatten].flatten 68 (68 + 32 * 32) = some path :=
      slice_segments (k := 3) (by simp) (by simp [hhook, hid]) (by simp [hpath])
    rw [hslice]
    exact hwords
  · apply uint32At_of_slice
    exact slice_segments (k := 4) (by simp) (by simp [hhook, hid, hpath]) (by simp)
  · intro i hi
    have hpre : [c.merkleTreeHookAddress.1, be 4 leafIndex.toNat, c.messageId.1, path, be 4 c.index.toNat].flatten.length =
        1096 := by
      simp [hhook, hid, hpath]
    have h := signature_slice [c.merkleTreeHookAddress.1, be 4 leafIndex.toNat, c.messageId.1, path,
      be 4 c.index.toNat].flatten signatures hi
    rw [hpre, ← List.flatten_concat] at h
    exact h

/-! ## The scan of the validators -/

/-- signatures by validators at increasing positions pass, whatever validators are repeated in between -/
theorem verifyLoop_signedBy {C : Crypto} {validators : List H160} {digest : H256} {signatureAt : ℕ → Option (Word 65)}
    {positions : List ℕ} {signatures : List Signature} (hlt : positions.Pairwise (· < ·))
    (hsigned : List.Forall₂ (fun p σ => ∃ signer, C.recover digest σ.toBytes = some signer ∧ validators[p]? = some signer)
      positions signatures) {i start : ℕ} (hstart : ∀ p ∈ positions, start ≤ p)
    (hat : ∀ j (hj : j < signatures.length), signatureAt (i + j) = some (signatures[j].toBytes)) :
    verifyLoop C validators digest signatureAt signatures.length i start = some true := by
  induction hsigned generalizing i start with
  | nil => rfl
  | @cons p σ positions signatures hd _ ih =>
    obtain ⟨signer, hrec, hp⟩ := hd
    have hseek := seek_le (hstart p List.mem_cons_self) hp
    have hin : seek validators signer start < validators.length :=
      hseek.trans_lt (List.getElem?_eq_some_iff.1 hp).1
    have hfirst := hat 0 (by simp)
    rw [Nat.add_zero, List.getElem_cons_zero] at hfirst
    simp only [List.length_cons, verifyLoop, hfirst, hrec, if_pos hin]
    apply ih (List.pairwise_cons.1 hlt).2
    · intro q hq
      exact Nat.succ_le_of_lt (hseek.trans_lt ((List.pairwise_cons.1 hlt).1 q hq))
    · intro j hj
      have h := hat (j + 1) (by simpa using hj)
      rw [List.getElem_cons_succ] at h
      rw [Nat.add_assoc, Nat.add_comm 1 j]
      exact h

/-! ## Acceptance -/

@[simp]
theorem toH160_toH256 (a : H160) : toH160 (toH256 a) = a := by
  apply Subtype.ext
  simp [toH160, toH256]

/-- the digest of the checkpoint that the validators signed, from its parts -/
theorem digest_eq (C : Crypto) (c : CheckpointWithMessageId) :
    CheckpointLib.digest C c.mailboxDomain c.merkleTreeHookAddress c.root c.index c.messageId = c.ethSignedMessageHash C := rfl

theorem verify_signedBy {C : Crypto} {validators : List H256} {c : MultisigSignedCheckpoint} {positions : List ℕ}
    (h : SignedBy C validators c positions) (hne : 0 < c.signatures.length) {signatureAt : ℕ → Option (Word 65)}
    (hat : ∀ i (hi : i < c.signatures.length), signatureAt i = some (c.signatures[i].toBytes)) :
    verify C (some (c.checkpoint.ethSignedMessageHash C)) signatureAt (validators.map toH160) c.signatures.length =
      some true := by
  obtain ⟨hlt, hsigned⟩ := h
  rw [verify, if_pos hne]
  refine verifyLoop_signedBy hlt (hsigned.imp ?_) (fun _ _ => Nat.zero_le _) ?_
  · rintro p σ ⟨signer, hrec, hp⟩
    refine ⟨signer, hrec, ?_⟩
    rw [List.getElem?_map, hp, Option.map_some, toH160_toH256]
  · intro j hj
    rw [Nat.zero_add]
    exact hat j hj

theorem messageIdDigest_eq {C : Crypto} {m : MultisigMetadata} {message : HyperlaneMessage} {metadata : List UInt8}
    (hd : MessageIdDecodes m metadata) (hdomain : m.quorumCheckpoint.checkpoint.mailboxDomain = message.origin)
    (hid : m.quorumCheckpoint.checkpoint.messageId = message.id C) :
    messageIdDigest C metadata message.encode = some (m.quorumCheckpoint.checkpoint.ethSignedMessageHash C) := by
  unfold messageIdDigest
  rw [origin_encode, hd.hook, hd.root, hd.index, ← digest_eq, hdomain, hid]
  rfl

theorem branchRoot_eq {C : Crypto} {proof : Proof H256} {leafIndex : UInt32} {root : H256}
    (hindex : proof.index = leafIndex.toNat) (hroot : proof.root C.tree = some root) :
    branchRoot C proof.leaf (List.ofFn proof.path) leafIndex = root := by
  rw [Proof.root, merkleRootFromBranch, if_pos (List.length_ofFn), Option.some.injEq] at hroot
  rw [branchRoot, ← hindex, hroot]

theorem merkleRootDigest_eq {C : Crypto} {m : MultisigMetadata} {proof : Proof H256} {message : HyperlaneMessage}
    {metadata : List UInt8} (hd : MerkleRootDecodes m proof metadata)
    (hdomain : m.quorumCheckpoint.checkpoint.mailboxDomain = message.origin) (hleaf : proof.leaf = message.id C)
    (hindex : proof.index = m.merkleLeafIndex.toNat)
    (hroot : proof.root C.tree = some m.quorumCheckpoint.checkpoint.root)
    (hle : m.merkleLeafIndex ≤ m.quorumCheckpoint.checkpoint.index) :
    merkleRootDigest C metadata message.encode = some (m.quorumCheckpoint.checkpoint.ethSignedMessageHash C) := by
  have hbranch : branchRoot C (Message.id C message.encode) (List.ofFn proof.path) m.merkleLeafIndex =
      m.quorumCheckpoint.checkpoint.root := by
    rw [← branchRoot_eq hindex hroot, hleaf]
    rfl
  unfold merkleRootDigest
  rw [hd.leafIndex, hd.index, hd.path, origin_encode, hd.hook, hd.messageId, ← digest_eq, hdomain]
  generalize List.ofFn proof.path = branch at hbranch ⊢
  simp [guard, hle, hbranch]

/-- **Metadata for a fetched checkpoint is accepted.** For every validator list, every threshold and every order of
completion: when the checkpoint is for the message's origin, the metadata in either layout decodes to the checkpoint, the
contract recomputes the digest that was signed, and `verify` returns true. In the Merkle root layout the leaf must not be
above the checkpoint's index. -/
theorem metadata_accepted (C : Crypto) (A : Answers) (validators : List H256) (threshold : ℕ) (ht : 1 ≤ threshold)
    (index : UInt32) (arrivals : List (List Response)) (ha : Completion A validators threshold arrivals)
    (c : MultisigSignedCheckpoint) (hc : fetchCheckpoint C false validators threshold index arrivals = .ok (some c))
    (message : HyperlaneMessage) (hdomain : c.checkpoint.mailboxDomain = message.origin) (leafIndex : UInt32) :
    (c.checkpoint.messageId = message.id C → ∀ proof : Option (Proof H256),
      ∃ metadata, (⟨c, leafIndex, proof⟩ : MultisigMetadata).format messageIdLayout = some metadata ∧
        MessageIdDecodes ⟨c, leafIndex, proof⟩ metadata ∧
        messageIdDigest C metadata message.encode = some (c.checkpoint.ethSignedMessageHash C) ∧
        messageIdVerify C (validators.map toH160) threshold metadata message.encode = some true) ∧
    (∀ proof : Proof H256, proof.leaf = message.id C → proof.index = leafIndex.toNat →
      proof.root C.tree = some c.checkpoint.root → leafIndex ≤ c.checkpoint.index →
      ∃ metadata, (⟨c, leafIndex, some proof⟩ : MultisigMetadata).format merkleRootLayout = some metadata ∧
        MerkleRootDecodes ⟨c, leafIndex, some proof⟩ proof metadata ∧
        merkleRootDigest C metadata message.encode = some (c.checkpoint.ethSignedMessageHash C) ∧
        merkleRootVerify C (validators.map toH160) threshold metadata message.encode = some true) := by
  obtain ⟨-, hlen, positions, hsigned⟩ := fetchCheckpoint_signedBy ht ha hc
  subst hlen
  constructor
  · intro hid proof
    obtain ⟨metadata, hformat, hd⟩ := messageId_decodes ⟨c, leafIndex, proof⟩
    have hdigest := messageIdDigest_eq hd hdomain hid
    refine ⟨metadata, hformat, hd, hdigest, ?_⟩
    rw [messageIdVerify, hdigest]
    exact verify_signedBy hsigned ht hd.signature
  · intro proof hleaf hindex hroot hle
    obtain ⟨metadata, hformat, hd⟩ := merkleRoot_decodes ⟨c, leafIndex, some proof⟩ rfl
    have hdigest := merkleRootDigest_eq hd hdomain hleaf hindex hroot hle
    refine ⟨metadata, hformat, hd, hdigest, ?_⟩
    rw [merkleRootVerify, hdigest]
    exact verify_signedBy hsigned ht hd.signature

def toyMessage (origin : UInt32) : HyperlaneMessage :=
  ⟨3, 5, origin, toyWord 11, 2, toyWord 12, [1, 2, 3]⟩

/-- a proof of the message with zero siblings -/
def toyProof (origin : UInt32) (leafIndex : ℕ) : Proof H256 :=
  ⟨(toyMessage origin).id toyCrypto, leafIndex, fun _ => toyWord 0⟩

/-- a checkpoint of domain 1 and index 5 for the message and its proof -/
def toyCheckpointFor (origin : UInt32) (leafIndex : ℕ) : CheckpointWithMessageId :=
  ⟨toyWord 7, 1, ((toyProof origin leafIndex).root toyCrypto.tree).getD (toyWord 0), 5,
    (toyMessage origin).id toyCrypto⟩

/-- the second and third of three validators sign -/
def toyAnswers (c : CheckpointWithMessageId) : Answers :=
  ⟨fun _ => true, fun i => if i = 0 then .ok none else .ok (some (toySigned c i 27))⟩

def toyValidators : List H256 := [toyValidator 0, toyValidator 1, toyValidator 2]

def toyMultisig (c : CheckpointWithMessageId) : MultisigSignedCheckpoint :=
  ⟨c, [(toySigned c 1 27).signature, (toySigned c 2 27).signature]⟩

/-- the checkpoint is for the root that the proof leads to -/
theorem toyProof_root {origin : UInt32} {leafIndex : ℕ}
    (h : ((toyProof origin leafIndex).root toyCrypto.tree).isSome) :
    (toyProof origin leafIndex).root toyCrypto.tree = some (toyCheckpointFor origin leafIndex).root := by
  obtain ⟨root, hroot⟩ := Option.isSome_iff_exists.1 h
  simp only [toyCheckpointFor, hroot, Option.getD_some]

/-- the two signatures are found -/
theorem fetchCheckpoint_toy {c : CheckpointWithMessageId} (hc : c.index = 5) :
    fetchCheckpoint toyCrypto false toyValidators 2 5 (batches (toyAnswers c) toyValidators 2) = .ok (some (toyMultisig c)) := by
  have hfutures : futures (toyAnswers c) toyValidators.zipIdx = [⟨0, toyValidator 0, .ok none⟩,
      ⟨1, toyValidator 1, .ok (some (toySigned c 1 27))⟩, ⟨2, toyValidator 2, .ok (some (toySigned c 2 27))⟩] := rfl
  rw [fetchCheckpoint_eq, batches_flatten, hfutures]
  simp only [List.map_cons, List.map_nil, event_toySigned hc _ (show 1 < 2 ^ 160 by decide),
    event_toySigned hc _ (show 2 < 2 ^ 160 by decide)]
  simp [event, Tally.run, Tally.ballots, conclude, finish, MultisigSignedCheckpoint.tryFrom, toyMultisig]

theorem metadata_accepted_two :
    let c := toyCheckpointFor 1 5
    let validators := toyValidators.map toH160
    fetchCheckpoint toyCrypto false toyValidators 2 5 (batches (toyAnswers c) toyValidators 2) = .ok (some (toyMultisig c)) ∧
    (∃ metadata, (⟨toyMultisig c, 5, none⟩ : MultisigMetadata).format messageIdLayout = some metadata ∧
      messageIdVerify toyCrypto validators 2 metadata (toyMessage 1).encode = some true) ∧
    ∃ metadata, (⟨toyMultisig c, 5, some (toyProof 1 5)⟩ : MultisigMetadata).format merkleRootLayout = some metadata ∧
      merkleRootVerify toyCrypto validators 2 metadata (toyMessage 1).encode = some true := by
  intro c validators
  have hc : fetchCheckpoint toyCrypto false toyValidators 2 5 (batches (toyAnswers c) toyValidators 2) =
      .ok (some (toyMultisig c)) := fetchCheckpoint_toy rfl
  obtain ⟨hid, hroot⟩ := metadata_accepted toyCrypto (toyAnswers c) toyValidators 2 (by decide) 5
    (batches (toyAnswers c) toyValidators 2) (batches_completion _ _ _) (toyMultisig c) hc (toyMessage 1) rfl 5
  obtain ⟨metadata, hf, -, -, hv⟩ := hid rfl none
  obtain ⟨metadata', hf', -, -, hv'⟩ := hroot (toyProof 1 5) rfl rfl (toyProof_root (by decide +kernel)) (by decide)
  exact ⟨hc, ⟨metadata, hf, hv⟩, metadata', hf', hv'⟩

/-- a checkpoint of domain 1 for a message from domain 2, and a leaf above the checkpoint's index: both are fetched and
formatted, and neither is accepted -/
theorem metadata_rejected :
    let validators := toyValidators.map toH160
    let c := toyCheckpointFor 2 5
    let d := toyCheckpointFor 1 6
    (fetchCheckpoint toyCrypto false toyValidators 2 5 (batches (toyAnswers c) toyValidators 2) = .ok (some (toyMultisig c)) ∧
      c.messageId = (toyMessage 2).id toyCrypto ∧
      ∃ metadata, (⟨toyMultisig c, 5, none⟩ : MultisigMetadata).format messageIdLayout = some metadata ∧
        messageIdVerify toyCrypto validators 2 metadata (toyMessage 2).encode = none) ∧
    (fetchCheckpoint toyCrypto false toyValidators 2 5 (batches (toyAnswers d) toyValidators 2) = .ok (some (toyMultisig d)) ∧
      d.mailboxDomain = (toyMessage 1).origin ∧ (toyProof 1 6).leaf = (toyMessage 1).id toyCrypto ∧
      (toyProof 1 6).root toyCrypto.tree = some d.root ∧
      ∃ metadata, (⟨toyMultisig d, 6, some (toyProof 1 6)⟩ : MultisigMetadata).format merkleRootLayout = some metadata ∧
        merkleRootVerify toyCrypto validators 2 metadata (toyMessage 1).encode = none) := by
  intro validators c d
  refine ⟨⟨fetchCheckpoint_toy rfl, rfl, _, rfl, by decide +kernel⟩,
    ⟨fetchCheckpoint_toy rfl, rfl, rfl, toyProof_root (by decide +kernel), _, rfl, by decide +kernel⟩⟩

end Hyperlane.Relayer
