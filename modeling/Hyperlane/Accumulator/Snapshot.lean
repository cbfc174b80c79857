/-
Snapshots of the Rust frontier tree (`MerkleTreeSnapshot`, hyperlane-core/src/accumulator/incremental.rs).

A snapshot is the Borsh form of a tree beside the index and the root it claims. `restore` checks the decoded tree against
both and nothing else: the slots that the count does not use hold whatever the bytes say.

The Borsh form of a hash is a parameter (`HashCodec`); the count is a little-endian `u64`.

- `restore_capture`: a captured tree is restored as it was.
- `snapshot_faithful`: under an injective pairing, a tree restored from a snapshot that claims the root of a leaf list
  goes on as the tree that has ingested the list.
-/
import Hyperlane.Accumulator.Incremental
import Hyperlane.Core.Bytes
import Hyperlane.Core.Codec

namespace Hyperlane.Accumulator

open Hyperlane.Frontier Hyperlane.Codec Hyperlane.Bytes

variable {H : Type}

/-! ## Model -/

inductive SnapshotError where
  | unexpectedEnd
  | notAllBytesRead
  | emptyTree
  | indexMismatch (index : UInt32) (count : ℕ)
  | rootMismatch
deriving DecidableEq

/-- the Borsh form of a hash -/
structure HashCodec (H : Type) where
  write : H → List UInt8
  read : Reader SnapshotError UInt8 H
  inverse : SelfDelimiting write read

def writeU64 (n : ℕ) : List UInt8 := (be 8 n).reverse

def readU64 : Reader SnapshotError UInt8 ℕ := fun bs =>
  if bs.length < 8 then .error .unexpectedEnd else .ok (ofBe (bs.take 8).reverse, bs.drop 8)

namespace IncrementalMerkle

/-- `borsh::to_vec` -/
def serialize (C : HashCodec H) (t : IncrementalMerkle H) : List UInt8 :=
  (t.branch.map C.write).flatten ++ writeU64 t.count

def deserializeReader (C : HashCodec H) : Reader SnapshotError UInt8 (IncrementalMerkle H) := fun bs => do
  let (branch, bs) ← readMany C.read TREE_DEPTH bs
  let (count, bs) ← readU64 bs
  if h : branch.length = TREE_DEPTH then .ok (⟨branch, count, h⟩, bs) else .error .unexpectedEnd

/-- `borsh::from_slice` -/
def deserialize (C : HashCodec H) (bs : List UInt8) : Except SnapshotError (IncrementalMerkle H) := do
  let (tree, rest) ← deserializeReader C bs
  if rest ≠ [] then throw .notAllBytesRead
  return tree

end IncrementalMerkle

structure MerkleTreeSnapshot (H : Type) where
  index : UInt32
  root : H
  tree : List UInt8

namespace MerkleTreeSnapshot

def capture (K : Keccak H) (C : HashCodec H) (t : IncrementalMerkle H) : Except SnapshotError (MerkleTreeSnapshot H) :=
  match t.index with
  | none => .error .emptyTree
  | some index => .ok ⟨UInt32.ofNat index, t.root K, t.serialize C⟩

/-- the index of the last leaf, when the count is that of a nonempty tree and fits -/
def decodedIndex (count : ℕ) : Option ℕ := if count ≤ U32_MAX ∧ 0 < count then some (count - 1) else none

def restore [DecidableEq H] (K : Keccak H) (C : HashCodec H) (s : MerkleTreeSnapshot H) :
    Except SnapshotError (IncrementalMerkle H) := do
  let tree ← IncrementalMerkle.deserialize C s.tree
  if decodedIndex tree.count ≠ some s.index.toNat then throw (.indexMismatch s.index tree.count)
  if tree.root K ≠ s.root then throw .rootMismatch
  return tree

end MerkleTreeSnapshot

/-! ## Round trip -/

theorem readU64_writeU64 {n : ℕ} (h : n < 2 ^ 64) (rest : List UInt8) :
    readU64 (writeU64 n ++ rest) = .ok (n, rest) := by
  have hlength : (writeU64 n).length = 8 := by rw [writeU64, List.length_reverse, be_length]
  unfold readU64
  rw [if_neg (by rw [List.length_append, hlength]; omega), List.take_left' hlength, List.drop_left' hlength]
  have hvalue : ofBe (writeU64 n).reverse = n := by
    rw [writeU64, List.reverse_reverse]
    exact ofBe_be (h.trans_le (by norm_num))
  rw [hvalue]

namespace IncrementalMerkle

theorem deserialize_serialize (C : HashCodec H) {t : IncrementalMerkle H} (h : t.count < 2 ^ 64) :
    deserialize C (t.serialize C) = .ok t := by
  have hbranch := C.inverse.many t.branch (writeU64 t.count)
  rw [t.branch_len] at hbranch
  have hcount := readU64_writeU64 h []
  rw [List.append_nil] at hcount
  unfold deserialize deserializeReader serialize
  simp only [hbranch, hcount, bind, Except.bind]
  rw [dif_pos t.branch_len]
  rfl

end IncrementalMerkle

namespace MerkleTreeSnapshot

/-- what a restored tree was checked for -/
theorem restore_ok [DecidableEq H] {K : Keccak H} {C : HashCodec H} {s : MerkleTreeSnapshot H}
    {tree : IncrementalMerkle H} (h : s.restore K C = .ok tree) :
    tree.count = s.index.toNat + 1 ∧ tree.count ≤ U32_MAX ∧ tree.root K = s.root := by
  unfold restore at h
  cases hdecoded : IncrementalMerkle.deserialize C s.tree with
  | error e => simp [hdecoded, bind, Except.bind] at h
  | ok decoded =>
    simp only [hdecoded, bind, Except.bind, throw, throwThe, MonadExceptOf.throw, pure, Except.pure] at h
    split_ifs at h with hindex hroot
    obtain rfl := Except.ok.inj h
    rw [not_not, decodedIndex] at hindex
    split_ifs at hindex with hcount
    have hvalue := Option.some.inj hindex
    exact ⟨by omega, hcount.1, not_not.1 hroot⟩

/-- **Round trip.** A captured tree is restored as it was. -/
theorem restore_capture [DecidableEq H] (K : Keccak H) (C : HashCodec H) {t : IncrementalMerkle H} (hpos : 0 < t.count)
    (hcap : t.count ≤ U32_MAX) : ∃ s, capture K C t = .ok s ∧ s.restore K C = .ok t := by
  have hlt : t.count < 2 ^ 32 := hcap.trans_lt (by decide)
  have hindex : t.index = some (t.count - 1) := by
    rw [IncrementalMerkle.index, if_neg hpos.ne', Nat.mod_eq_of_lt hlt]
  refine ⟨⟨UInt32.ofNat (t.count - 1), t.root K, t.serialize C⟩, by rw [capture, hindex], ?_⟩
  have hvalue : (UInt32.ofNat (t.count - 1)).toNat = t.count - 1 := UInt32.toNat_ofNat_of_lt (by
    have : UInt32.size = 2 ^ 32 := rfl
    omega)
  have hdecoded := t.deserialize_serialize C (hlt.trans (by norm_num))
  unfold restore
  simp only [hdecoded, bind, Except.bind, decodedIndex, if_pos (And.intro hcap hpos), hvalue, ne_eq, not_true_eq_false,
    if_false]
  rfl

end MerkleTreeSnapshot

/-! ## A restored tree goes on -/

namespace IncrementalMerkle

/-- a tree with the root and the count of a leaf list holds its leaves, whatever the other slots hold -/
theorem represents_of_root {K : Keccak H} (hf : Function.Injective2 K.concat) {t : IncrementalMerkle H} {L : List H}
    (hcount : t.count = L.length) (hcap : L.length ≤ U32_MAX) (hroot : t.root K = K.merkleRoot L) :
    t.Represents K L := by
  obtain ⟨u, -, hu⟩ := ingestAll_default K L hcap
  have hsame : t.count = u.count := hcount.trans hu.count_eq.symm
  have hagree : Agree t.count t.branch u.branch :=
    agree_of_root_eq hf hsame (hcount.trans_le hcap) (hroot.trans (hu.root_eq hcap).symm)
  have hlive : Frontier.Live K.concat (fun i => L.getD i K.zero) 0 t.count u.branch := hsame ▸ hu.holds
  exact ⟨hcount, hlive.of_agree hagree⟩

/-- two trees of one leaf list show the same -/
theorem Represents.same {K : Keccak H} {t u : IncrementalMerkle H} {L : List H} (ht : t.Represents K L)
    (hu : u.Represents K L) (hcap : L.length ≤ U32_MAX) :
    t.root K = u.root K ∧ t.count = u.count ∧ t.index = u.index := by
  have hcount : t.count = u.count := ht.count_eq.trans hu.count_eq.symm
  refine ⟨(ht.root_eq hcap).trans (hu.root_eq hcap).symm, hcount, ?_⟩
  rw [index, index, hcount]

end IncrementalMerkle

open MerkleTreeSnapshot IncrementalMerkle in
/-- **A restored snapshot is as good as the full replay.** A snapshot that claims the root of a leaf list, and whose bytes
decode to a tree with the claimed index and root, goes on as the tree that has ingested the list; and what is captured
from a tree is restored to it. -/
theorem snapshot_faithful [DecidableEq H] (K : Keccak H) (C : HashCodec H) (hf : Function.Injective2 K.concat) :
    (∀ (s : MerkleTreeSnapshot H) (L : List H) (tree : IncrementalMerkle H), L.length = s.index.toNat + 1 →
      s.root = K.merkleRoot L → s.restore K C = .ok tree → ∀ M : List H, L.length + M.length < 2 ^ 32 →
        ∃ t u, ingestAll K tree M = some t ∧ ingestAll K (IncrementalMerkle.default K) (L ++ M) = some u ∧
          t.root K = u.root K ∧ t.count = u.count ∧ t.index = u.index) ∧
    ∀ (L : List H) (t : IncrementalMerkle H), L ≠ [] → ingestAll K (IncrementalMerkle.default K) L = some t →
      ∃ s, capture K C t = .ok s ∧ s.restore K C = .ok t := by
  constructor
  · intro s L tree hlength hroot hrestore M hcap
    obtain ⟨hcount, -, hdecoded⟩ := restore_ok hrestore
    have hM : L.length + M.length ≤ U32_MAX := Nat.le_sub_one_of_lt hcap
    have hL : L.length ≤ U32_MAX := (Nat.le_add_right _ _).trans hM
    have htree : tree.Represents K L :=
      represents_of_root hf (hcount.trans hlength.symm) hL (hdecoded.trans hroot)
    obtain ⟨t, ht, htM⟩ := htree.ingestAll M hM
    obtain ⟨u, hu, huM⟩ := ingestAll_default K (L ++ M) (by rwa [List.length_append])
    exact ⟨t, u, ht, hu, htM.same huM (by rwa [List.length_append])⟩
  · intro L t hL ht
    obtain ⟨hcount, hcap⟩ := ingestAll_count ht
    have hzero : (IncrementalMerkle.default K).count = 0 := rfl
    have hpos : 0 < t.count := by
      rw [hcount, hzero, Nat.zero_add]
      exact List.length_pos_iff.2 hL
    exact restore_capture K C hpos (hcap (by rw [hzero]; exact Nat.zero_le _))

/-- a number as so many ones before a zero -/
def unary : HashCodec ℕ where
  write n := List.replicate n 1 ++ [0]
  read bs := .ok ((bs.takeWhile (· = 1)).length, (bs.dropWhile (· = 1)).drop 1)
  inverse n rest := by
    have htake : (List.replicate n (1 : UInt8) ++ [0] ++ rest).takeWhile (· = 1) = List.replicate n 1 := by
      induction n with
      | zero => rfl
      | succ n ih => simp [List.replicate_succ]
    have hdrop : (List.replicate n (1 : UInt8) ++ [0] ++ rest).dropWhile (· = 1) = 0 :: rest := by
      induction n with
      | zero => rfl
      | succ n ih => simp [List.replicate_succ]
    dsimp only
    rw [htake, hdrop, List.length_replicate]
    rfl

/-- one leaf, and slots that the count does not use -/
def dirtyTree : IncrementalMerkle ℕ := ⟨5 :: List.replicate 31 7, 1, rfl⟩

theorem dirtyTree_represents : dirtyTree.Represents pairKeccak [5] where
  count_eq := rfl
  holds := ⟨fun _ => rfl, live_zero _ _ _ _⟩

def dirtySnapshot : MerkleTreeSnapshot ℕ := ⟨0, dirtyTree.root pairKeccak, dirtyTree.serialize unary⟩

theorem dirtySnapshot_restores : dirtySnapshot.restore pairKeccak unary = .ok dirtyTree := by decide +kernel

/-- it goes on with two more leaves -/
theorem dirtySnapshot_faithful : ∃ t u, IncrementalMerkle.ingestAll pairKeccak dirtyTree [2, 3] = some t ∧
    IncrementalMerkle.ingestAll pairKeccak (IncrementalMerkle.default pairKeccak) ([5] ++ [2, 3]) = some u ∧
    t.root pairKeccak = u.root pairKeccak ∧ t.count = u.count ∧ t.index = u.index := by
  have hroot : dirtyTree.root pairKeccak = pairKeccak.merkleRoot [5] := dirtyTree_represents.root_eq (by decide)
  exact (snapshot_faithful pairKeccak unary pairKeccak_injective).1 dirtySnapshot [5] dirtyTree rfl hroot
    dirtySnapshot_restores [2, 3] (by decide)

end Hyperlane.Accumulator
