/-
The recursive right-sparse tree `MerkleTree` and its proofs (hyperlane-core/src/accumulator/merkle.rs).

`push_leaf` reports a full subtree as an error and its parent reacts by opening the right side; `create` builds the
whole tree from a list. The two agree as trees, not only in their hashes (`pushLeaf_create`), so everything else is
proved about `create` on a block of the leaf list.

- `pushLeaf_create`: below capacity a push gives the tree of the longer list; at capacity it reports `MerkleTreeFull`.
- `hash_create`: the hash of the tree over block `k` of height `d` is the perfect-tree node (d, k).
- `generateProof_create`: walking down to a populated leaf never reaches a missing branch, ends at a leaf, and collects
  the sibling nodes bottom-up.
- `branchLoop_node`: evaluating the sibling nodes of an index climbs to the root.
-/
import Mathlib.Data.Nat.Bitwise
import Hyperlane.Accumulator.Incremental

namespace Hyperlane.Accumulator

open Hyperlane.PerfectTree

variable {H : Type}

/-! ## Model -/

inductive MerkleTreeError where
  | LeafReached
  | MerkleTreeFull
  | Invalid
  | DepthTooSmall
deriving DecidableEq

inductive MerkleTree (H : Type) where
  | leaf (h : H)
  | node (h : H) (left right : MerkleTree H)
  /-- a subtree of `2 ^ depth` zero leaves -/
  | zero (depth : ℕ)
deriving DecidableEq

/-- a leaf, its index and its siblings bottom-up -/
structure Proof (H : Type) where
  leaf : H
  index : ℕ
  path : Fin TREE_DEPTH → H
deriving DecidableEq

namespace MerkleTree

def hash (K : Keccak H) : MerkleTree H → H
  | .leaf h => h
  | .node h _ _ => h
  | .zero depth => K.zeroHashes depth

/-- `create`; at depth 0 the source takes `leaves[0]` -/
def create (K : Keccak H) (leaves : List H) : ℕ → MerkleTree H
  | 0 =>
    match leaves with
    | [] => .zero 0
    | x :: _ => .leaf x
  | depth + 1 =>
    if leaves = [] then .zero (depth + 1)
    else
      let capacity := 2 ^ depth
      let split := if leaves.length ≤ capacity then (leaves, []) else (leaves.take capacity, leaves.drop capacity)
      let left := create K split.1 depth
      let right := create K split.2 depth
      .node (K.concat (left.hash K) (right.hash K)) left right

/-- the rebuilt node after a push, `hash.assign_from_slice(hash_concat(..))` -/
def rehash (K : Keccak H) (left right : MerkleTree H) : MerkleTree H :=
  .node (K.concat (left.hash K) (right.hash K)) left right

/-- the `match (&*left, &*right)` of `push_leaf`; the last two arguments are the recursive pushes into either side -/
def pushInto (K : Keccak H) (elem : H) (depth : ℕ) (left right : MerkleTree H)
    (pushedLeft pushedRight : Except MerkleTreeError (MerkleTree H)) : Except MerkleTreeError (MerkleTree H) :=
  match left, right with
  | .leaf _, .leaf _ => .error .MerkleTreeFull
  | .node .., .node .. => pushedRight.map (rehash K left)
  | .zero _, .zero _ => .ok (rehash K (create K [elem] depth) right)
  | .leaf _, .zero _ => .ok (rehash K left (create K [elem] depth))
  | .node .., .zero _ =>
    match pushedLeft with
    | .ok left' => .ok (rehash K left' right)
    -- a full left side opens the right one; every other error goes up
    | .error .MerkleTreeFull => .ok (rehash K left (create K [elem] depth))
    | .error e => .error e
  | _, _ => .error .Invalid

def pushLeaf (K : Keccak H) (elem : H) : MerkleTree H → ℕ → Except MerkleTreeError (MerkleTree H)
  | _, 0 => .error .DepthTooSmall
  | .leaf _, _ + 1 => .error .LeafReached
  | .zero _, depth + 1 => .ok (create K [elem] (depth + 1))
  | .node _ left right, depth + 1 =>
    pushInto K elem depth left right (pushLeaf K elem left depth) (pushLeaf K elem right depth)

def leftAndRightBranches : MerkleTree H → Option (MerkleTree H × MerkleTree H)
  | .leaf _ => none
  | .zero 0 => none
  | .node _ l r => some (l, r)
  | .zero (depth + 1) => some (.zero depth, .zero depth)

def isLeaf : MerkleTree H → Bool
  | .leaf _ => true
  | _ => false

/-- the descent of `generate_proof`; `none` is the `expect` on missing branches or the closing `debug_assert!` -/
def generateProofLoop (K : Keccak H) (index : ℕ) : ℕ → MerkleTree H → List H → Option (H × List H)
  | 0, current, proof => if current.isLeaf then some (current.hash K, proof.reverse) else none
  | depth + 1, current, proof =>
    match current.leftAndRightBranches with
    | none => none
    | some (left, right) =>
      if (index >>> depth) &&& 1 = 1 then generateProofLoop K index depth right (proof ++ [left.hash K])
      else generateProofLoop K index depth left (proof ++ [right.hash K])

def generateProof (K : Keccak H) (t : MerkleTree H) (index depth : ℕ) : Option (H × List H) :=
  generateProofLoop K index depth t []

/-- `prove_against_current`; the slice `hashes[..32]` needs that many hashes -/
def proveAgainstCurrent (K : Keccak H) (t : MerkleTree H) (index : ℕ) : Option (Proof H) :=
  match t.generateProof K index TREE_DEPTH with
  | none => none
  | some (lf, hashes) =>
    if TREE_DEPTH ≤ hashes.length then some ⟨lf, index, fun i => hashes.getD i K.zero⟩ else none

/-- push a list in order -/
def pushAll (K : Keccak H) (t : MerkleTree H) (L : List H) (depth : ℕ) : Except MerkleTreeError (MerkleTree H) :=
  L.foldlM (fun t x => pushLeaf K x t depth) t

end MerkleTree

/-- the loop of `merkle_root_from_branch` from level `i` -/
def branchLoop (K : Keccak H) (index : ℕ) : ℕ → List H → H → H
  | _, [], current => current
  | i, next :: rest, current =>
    branchLoop K index (i + 1) rest
      (if (index >>> i) &&& 1 = 1 then K.concat next current else K.concat current next)

/-- `merkle_root_from_branch`; `none` is `assert_eq!(branch.len(), depth)` -/
def merkleRootFromBranch (K : Keccak H) (leaf : H) (branch : List H) (depth index : ℕ) : Option H :=
  if branch.length = depth then some (branchLoop K index 0 branch leaf) else none

/-- `Proof::root` -/
def Proof.root (K : Keccak H) (p : Proof H) : Option H :=
  merkleRootFromBranch K p.leaf (List.ofFn p.path) TREE_DEPTH p.index

/-! ## `create` on blocks of the leaf list -/

namespace MerkleTree

/-- the leaves of block `k` of height `d` -/
def block (L : List H) (d k : ℕ) : List H := (L.drop (k * 2 ^ d)).take (2 ^ d)

theorem create_nil (K : Keccak H) (d : ℕ) : create K [] d = .zero d := by
  cases d <;> simp [create]

theorem create_succ (K : Keccak H) {L : List H} (hL : L ≠ []) (d : ℕ) :
    create K L (d + 1) = rehash K (create K (L.take (2 ^ d)) d) (create K (L.drop (2 ^ d)) d) := by
  rw [create, if_neg hL]
  by_cases h : L.length ≤ 2 ^ d
  · simp [h, rehash, List.take_of_length_le h, List.drop_eq_nil_of_le h]
  · simp [h, rehash]

theorem block_take (L : List H) (d k : ℕ) : (block L (d + 1) k).take (2 ^ d) = block L d (2 * k) := by
  unfold block
  rw [List.take_take, block_start, Nat.min_eq_left (Nat.pow_le_pow_right (by norm_num) (Nat.le_succ d))]

theorem block_drop (L : List H) (d k : ℕ) : (block L (d + 1) k).drop (2 ^ d) = block L d (2 * k + 1) := by
  unfold block
  rw [List.drop_take, List.drop_drop, block_start, block_mid, pow_succ,
    show 2 ^ d * 2 - 2 ^ d = 2 ^ d by rw [mul_two, Nat.add_sub_cancel]]

theorem block_eq_nil {L : List H} {d k : ℕ} : block L d k = [] ↔ L.length ≤ k * 2 ^ d := by
  unfold block
  rw [List.take_eq_nil_iff, List.drop_eq_nil_iff]
  simp

theorem block_top {L : List H} {d : ℕ} (h : L.length ≤ 2 ^ d) : block L d 0 = L := by
  simp [block, List.take_of_length_le h]

/-- **The hash of a created tree** is the perfect-tree node of its block. -/
theorem hash_create (K : Keccak H) (L : List H) (d k : ℕ) :
    (create K (block L d k) d).hash K = PerfectTree.node K.concat (fun i => L.getD i K.zero) d k := by
  by_cases hempty : L.length ≤ k * 2 ^ d
  · rw [block_eq_nil.2 hempty, create_nil, ← upTo_getD L K.zero le_rfl, node_upTo_empty K.concat _ K.zero hempty]
    rfl
  · induction d generalizing k with
    | zero =>
      have hk : k < L.length := by simpa using hempty
      have hb : block L 0 k = [L[k]] := by
        simp [block, List.take_one, hk]
      simp [hb, create, hash, PerfectTree.node, List.getD_eq_getElem?_getD, hk]
    | succ d ih =>
      have hne : block L (d + 1) k ≠ [] := fun h => hempty (block_eq_nil.1 h)
      have hchild : ∀ j, (create K (block L d j) d).hash K =
          PerfectTree.node K.concat (fun i => L.getD i K.zero) d j := by
        intro j
        by_cases hj : L.length ≤ j * 2 ^ d
        · rw [block_eq_nil.2 hj, create_nil, ← upTo_getD L K.zero le_rfl, node_upTo_empty K.concat _ K.zero hj]
          rfl
        · exact ih j hj
      rw [create_succ K hne, block_take, block_drop, rehash, hash, hchild, hchild]
      rfl

theorem hash_create_top (K : Keccak H) (L : List H) (hcap : L.length ≤ 2 ^ TREE_DEPTH) :
    (create K L TREE_DEPTH).hash K = K.merkleRoot L := by
  have := hash_create K L TREE_DEPTH 0
  rwa [block_top hcap] at this

/-! ## Pushing is creating -/

theorem create_cons_node (K : Keccak H) {L : List H} (hL : L ≠ []) (d : ℕ) :
    ∃ h l r, create K L (d + 1) = .node h l r := by
  rw [create_succ K hL]
  exact ⟨_, _, _, rfl⟩

/-- **Push.** Below capacity a push gives the tree of the longer list; at capacity it reports a full tree. -/
theorem pushLeaf_create (K : Keccak H) (x : H) (d : ℕ) (L : List H) :
    (L.length < 2 ^ (d + 1) → pushLeaf K x (create K L (d + 1)) (d + 1) = .ok (create K (L ++ [x]) (d + 1))) ∧
    (L.length = 2 ^ (d + 1) → pushLeaf K x (create K L (d + 1)) (d + 1) = .error .MerkleTreeFull) := by
  induction d generalizing L with
  | zero =>
    match L with
    | [] => simp [create, pushLeaf]
    | [a] => simp [create, pushLeaf, pushInto, rehash, hash, List.take]
    | [a, b] => simp [create, pushLeaf, pushInto, List.take]
    | _ :: _ :: _ :: _ => simp
  | succ d ih =>
    by_cases hL : L = []
    · subst hL
      exact ⟨fun _ => by simp [create, pushLeaf], fun h => absurd h (Nat.two_pow_pos _).ne⟩
    have hne : L ++ [x] ≠ [] := by simp
    have htake : L.take (2 ^ (d + 1)) ≠ [] := by simp [hL]
    have hcap : 2 ^ (d + 1 + 1) = 2 ^ (d + 1) + 2 ^ (d + 1) := by rw [pow_succ]; ring
    have hlen : (L.take (2 ^ (d + 1))).length = min (2 ^ (d + 1)) L.length := List.length_take
    obtain ⟨h, l, r, hl⟩ := create_cons_node K htake d
    rw [create_succ K hL, create_succ K hne, hcap]
    rcases lt_trichotomy L.length (2 ^ (d + 1)) with hlt | heq | hgt
    · -- the left side has room
      have hdrop : L.drop (2 ^ (d + 1)) = [] := List.drop_eq_nil_of_le hlt.le
      have htl : L.take (2 ^ (d + 1)) = L := List.take_of_length_le hlt.le
      have hpush := (ih (L.take (2 ^ (d + 1)))).1 (by rw [htl]; exact hlt)
      rw [htl] at hpush hl
      have htl' : (L ++ [x]).take (2 ^ (d + 1)) = L ++ [x] := List.take_of_length_le (by simpa using hlt)
      have hdrop' : (L ++ [x]).drop (2 ^ (d + 1)) = [] := List.drop_eq_nil_of_le (by simpa using hlt)
      refine ⟨fun _ => ?_, fun hfull => by omega⟩
      rw [htl, hdrop, htl', hdrop', create_nil, rehash, pushLeaf, hpush]
      simp only [hl, pushInto]
    · -- the left side is full: its error opens the right side
      have hdrop : L.drop (2 ^ (d + 1)) = [] := List.drop_eq_nil_of_le heq.le
      have htl : L.take (2 ^ (d + 1)) = L := List.take_of_length_le heq.le
      have hpush := (ih L).2 heq
      rw [htl] at hl
      have htl' : (L ++ [x]).take (2 ^ (d + 1)) = L := by rw [← heq, List.take_left']; rfl
      have hdrop' : (L ++ [x]).drop (2 ^ (d + 1)) = [x] := by rw [← heq, List.drop_left']; rfl
      refine ⟨fun _ => ?_, fun hfull => by have := Nat.two_pow_pos (d + 1); omega⟩
      rw [htl, hdrop, htl', hdrop', create_nil, rehash, pushLeaf, hpush]
      simp only [hl, pushInto]
    · -- the left side is full and the right side is open
      have hdne : L.drop (2 ^ (d + 1)) ≠ [] := by
        rw [Ne, List.drop_eq_nil_iff]; omega
      obtain ⟨h', l', r', hr⟩ := create_cons_node K hdne d
      have htl' : (L ++ [x]).take (2 ^ (d + 1)) = L.take (2 ^ (d + 1)) := List.take_append_of_le_length hgt.le
      have hdrop' : (L ++ [x]).drop (2 ^ (d + 1)) = L.drop (2 ^ (d + 1)) ++ [x] := List.drop_append_of_le_length hgt.le
      have hdl : (L.drop (2 ^ (d + 1))).length = L.length - 2 ^ (d + 1) := List.length_drop
      refine ⟨fun hroom => ?_, fun hfull => ?_⟩
      · have hpush := (ih (L.drop (2 ^ (d + 1)))).1 (by omega)
        rw [htl', hdrop', rehash, pushLeaf, hpush]
        simp only [hl, hr, pushInto]
        rfl
      · have hpush := (ih (L.drop (2 ^ (d + 1)))).2 (by omega)
        rw [rehash, pushLeaf, hpush]
        simp only [hl, hr, pushInto]
        rfl

/-- pushing a list onto the tree of `L` gives the tree of `L ++ M` -/
theorem pushAll_create (K : Keccak H) (L M : List H) (hcap : L.length + M.length ≤ 2 ^ TREE_DEPTH) :
    pushAll K (create K L TREE_DEPTH) M TREE_DEPTH = .ok (create K (L ++ M) TREE_DEPTH) := by
  induction M generalizing L with
  | nil => simp [pushAll, List.foldlM, pure, Except.pure]
  | cons x M ih =>
    simp only [List.length_cons] at hcap
    have hpush := (pushLeaf_create K x 31 L).1 (by unfold TREE_DEPTH at hcap; omega)
    have hrest := ih (L ++ [x]) (by rw [List.length_append, List.length_singleton]; omega)
    rw [List.append_assoc, List.singleton_append] at hrest
    rw [← hrest, pushAll, List.foldlM_cons]
    simp only [TREE_DEPTH]
    rw [hpush]
    rfl

/-! ## Proofs -/

theorem branches_create (K : Keccak H) (L : List H) (d k : ℕ) :
    (create K (block L (d + 1) k) (d + 1)).leftAndRightBranches =
      some (create K (block L d (2 * k)) d, create K (block L d (2 * k + 1)) d) := by
  by_cases hempty : block L (d + 1) k = []
  · have hle := block_eq_nil.1 hempty
    have h1 : block L d (2 * k) = [] := by rw [← block_take, hempty, List.take_nil]
    have h2 : block L d (2 * k + 1) = [] := by rw [← block_drop, hempty, List.drop_nil]
    rw [hempty, h1, h2, create_nil, create_nil]
    rfl
  · rw [create_succ K hempty, block_take, block_drop]
    rfl

end MerkleTree

/-- the sibling of block `k` -/
def sibling (k : ℕ) : ℕ := if k % 2 = 1 then k - 1 else k + 1

theorem sibling_eq_xor (k : ℕ) : k ^^^ 1 = sibling k := by
  unfold sibling
  split_ifs with h
  · exact Nat.xor_one_of_odd (Nat.odd_iff.2 h)
  · exact Nat.xor_one_of_even (Nat.even_iff.2 (by omega))

theorem shift_child (index d : ℕ) :
    index >>> d = if (index >>> d) &&& 1 = 1 then 2 * (index >>> (d + 1)) + 1 else 2 * (index >>> (d + 1)) := by
  rw [Nat.shiftRight_succ, IncrementalMerkle.and_one_eq]
  split_ifs <;> omega

/-- the siblings of `index` in the tree over `leaf`, bottom-up, `d` levels -/
def siblings (K : Keccak H) (leaf : ℕ → H) (index d : ℕ) : List H :=
  (List.range d).map fun h => PerfectTree.node K.concat leaf h (sibling (index >>> h))

namespace MerkleTree

/-- **Proof generation.** Descending from block (d, index >> d) to a populated leaf collects the siblings top-down. -/
theorem generateProofLoop_create (K : Keccak H) (L : List H) (index d : ℕ) (hidx : index < L.length) (acc : List H) :
    generateProofLoop K index d (create K (block L d (index >>> d)) d) acc =
      some (L[index], siblings K (fun i => L.getD i K.zero) index d ++ acc.reverse) := by
  induction d generalizing acc with
  | zero =>
    have hb : block L 0 index = [L[index]] := by simp [block, List.take_one, hidx]
    simp [generateProofLoop, hb, create, isLeaf, hash, siblings]
  | succ d ih =>
    have hc := shift_child index d
    have hsib : siblings K (fun i => L.getD i K.zero) index (d + 1) =
        siblings K (fun i => L.getD i K.zero) index d ++
          [PerfectTree.node K.concat (fun i => L.getD i K.zero) d (sibling (index >>> d))] := by
      rw [siblings, List.range_succ, List.map_append]
      rfl
    rw [generateProofLoop, branches_create]
    simp only
    split_ifs with hbit
    · rw [if_pos hbit] at hc
      have hs : sibling (index >>> d) = 2 * (index >>> (d + 1)) := by
        rw [hc]; unfold sibling; rw [if_pos (by omega)]; rfl
      rw [hash_create, ← hc, ← hs, ih, hsib]
      simp
    · rw [if_neg hbit] at hc
      have hs : sibling (index >>> d) = 2 * (index >>> (d + 1)) + 1 := by
        rw [hc]; unfold sibling; rw [if_neg (by omega)]
      rw [hash_create, ← hs, ← hc, ih, hsib]
      simp

/-- the proof of a populated index against the tree of `L` -/
theorem proveAgainstCurrent_create (K : Keccak H) (L : List H) (hcap : L.length ≤ 2 ^ TREE_DEPTH) (index : ℕ)
    (hidx : index < L.length) :
    (create K L TREE_DEPTH).proveAgainstCurrent K index = some ⟨L[index], index,
      fun i => PerfectTree.node K.concat (fun i => L.getD i K.zero) i (sibling (index >>> i.val))⟩ := by
  have htop : index >>> TREE_DEPTH = 0 := by
    rw [Nat.shiftRight_eq_div_pow, Nat.div_eq_of_lt (by omega)]
  have hgen := generateProofLoop_create K L index TREE_DEPTH hidx []
  rw [htop, block_top hcap] at hgen
  unfold proveAgainstCurrent generateProof
  rw [hgen]
  simp only [List.reverse_nil, List.append_nil]
  rw [if_pos (by simp [siblings])]
  congr 2
  funext i
  simp [siblings, List.getD_eq_getElem?_getD]

end MerkleTree

/-- **Branch evaluation.** From node (i, index >> i), the sibling nodes lead to node (i + m, index >> (i + m)). -/
theorem branchLoop_node (K : Keccak H) (leaf : ℕ → H) (index : ℕ) (i m : ℕ) :
    branchLoop K index i ((List.range m).map fun h => PerfectTree.node K.concat leaf (i + h) (sibling (index >>> (i + h))))
        (PerfectTree.node K.concat leaf i (index >>> i)) =
      PerfectTree.node K.concat leaf (i + m) (index >>> (i + m)) := by
  induction m generalizing i with
  | zero => rfl
  | succ m ih =>
    have hstep : (if (index >>> i) &&& 1 = 1
        then K.concat (PerfectTree.node K.concat leaf i (sibling (index >>> i)))
          (PerfectTree.node K.concat leaf i (index >>> i))
        else K.concat (PerfectTree.node K.concat leaf i (index >>> i))
          (PerfectTree.node K.concat leaf i (sibling (index >>> i)))) =
        PerfectTree.node K.concat leaf (i + 1) (index >>> (i + 1)) := by
      rw [IncrementalMerkle.and_one_eq, Nat.shiftRight_succ]
      unfold sibling
      split_ifs with h
      · exact node_parent_right K.concat leaf i h
      · exact node_parent_left K.concat leaf i (by omega)
    rw [List.range_succ_eq_map, List.map_cons, List.map_map, branchLoop]
    simp only [Nat.add_zero]
    rw [hstep]
    have hrest := ih (i + 1)
    rw [show i + 1 + m = i + (m + 1) by omega] at hrest
    rw [← hrest]
    congr 2
    funext h
    simp only [Function.comp_apply]
    rw [show i + h.succ = i + 1 + h by omega]

/-- a proof made of the sibling nodes evaluates to the root -/
theorem proof_root (K : Keccak H) (leaf : ℕ → H) (index : ℕ) (hidx : index < 2 ^ TREE_DEPTH) :
    (⟨leaf index, index, fun i => PerfectTree.node K.concat leaf i (sibling (index >>> i.val))⟩ : Proof H).root K =
      some (PerfectTree.node K.concat leaf TREE_DEPTH 0) := by
  have h := branchLoop_node K leaf index 0 TREE_DEPTH
  have htop : index >>> TREE_DEPTH = 0 := by
    rw [Nat.shiftRight_eq_div_pow, Nat.div_eq_of_lt hidx]
  simp only [Nat.zero_add, htop, Nat.shiftRight_zero] at h
  rw [Proof.root, merkleRootFromBranch, if_pos (by simp)]
  rw [← h]
  rfl

end Hyperlane.Accumulator
