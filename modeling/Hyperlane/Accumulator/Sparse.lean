/-
Proofs against a previous root by gluing two current proofs (hyperlane-core/src/accumulator/sparse.rs).

`prove_against_previous` takes the proof of `root_index` as it was when that leaf was the latest one, the current proof
of `leaf_index`, turns both into trees whose siblings are fake leaves, and merges them by comparing hashes on the way
down. The merged tree is then asked for the proof of `leaf_index`.

The merge is followed down the common part of the two paths. There both siblings are fake leaves. Where the paths part,
`leaf_index` goes left into a block that was already complete at `root_index`, so its fake leaf carries the hash of the
real subtree and the comparison splices that subtree in. No property of the hash function is used.

- `asLatest_path`: the adjusted siblings of `root_index` are those of the tree cut after it.
- `merge_ofPath`: the merge never fails its assertion, keeps the cut root and contains the path of `leaf_index`.
- `proveAgainstPrevious_create`: the result is the proof of `leaf_index` in the tree of the prefix.
-/
import Hyperlane.Accumulator.Recursive

namespace Hyperlane.Accumulator

open Hyperlane.PerfectTree

variable {H : Type}

/-! ## Model -/

/-- the sibling at level `i`, read from the fixed-size path -/
def Proof.pathAt (p : Proof H) (i : ℕ) : H := if h : i < TREE_DEPTH then p.path ⟨i, h⟩ else p.leaf

/-- `as_latest`: right siblings become zero hashes -/
def Proof.asLatest (K : Keccak H) (p : Proof H) : Proof H where
  leaf := p.leaf
  index := p.index
  path i := if (p.index >>> i.val) &&& 1 = 1 then p.path i else K.zeroHashes i

namespace SparseMerkleTree

/-- `merge`; `none` is the `assert_eq!(merged_hash, a_hash)` -/
def merge [DecidableEq H] (K : Keccak H) : MerkleTree H → MerkleTree H → Option (MerkleTree H)
  | .zero d, _ => some (.zero d)
  | .leaf h, b => some (if h = b.hash K then b else .leaf h)
  | .node aHash aLeft aRight, .node _ bLeft bRight =>
    match merge K aLeft bLeft, merge K aRight bRight with
    | some left, some right =>
      if K.concat (left.hash K) (right.hash K) = aHash then some (.node aHash left right) else none
    | _, _ => none
  | .node h l r, .leaf _ => some (.node h l r)
  | .node h l r, .zero _ => some (.node h l r)

/-- `From<Proof>` after `i` rounds of its loop, for a leaf, its index and its siblings -/
def ofPath (K : Keccak H) (leaf : H) (index : ℕ) (path : ℕ → H) : ℕ → MerkleTree H
  | 0 => .leaf leaf
  | i + 1 =>
    let tree := ofPath K leaf index path i
    if (index >>> i) &&& 1 = 1 then .node (K.concat (path i) (tree.hash K)) (.leaf (path i)) tree
    else .node (K.concat (tree.hash K) (path i)) tree (.leaf (path i))

def ofProof (K : Keccak H) (p : Proof H) : MerkleTree H := ofPath K p.leaf p.index p.pathAt TREE_DEPTH

end SparseMerkleTree

/-- `prove_against_previous`; `none` is any of its assertions or expects -/
def MerkleTree.proveAgainstPrevious [DecidableEq H] (K : Keccak H) (t : MerkleTree H) (leafIndex rootIndex : ℕ) :
    Option (Proof H) :=
  if rootIndex < leafIndex then none
  else
    match t.proveAgainstCurrent K rootIndex, t.proveAgainstCurrent K leafIndex with
    | some rootProof, some leafProof =>
      (SparseMerkleTree.merge K (SparseMerkleTree.ofProof K (rootProof.asLatest K))
        (SparseMerkleTree.ofProof K leafProof)).bind (·.proveAgainstCurrent K leafIndex)
    | _, _ => none

/-! ## Blocks along one path -/

theorem sibling_right {k : ℕ} (h : ¬ k % 2 = 1) : sibling k = k + 1 := by simp [sibling, h]

theorem sibling_left {k : ℕ} (h : k % 2 = 1) : sibling k = k - 1 := by simp [sibling, h]

/-- two blocks with one parent are equal, or they are its two children -/
theorem eq_of_parent {a b : ℕ} (h : a / 2 = b / 2) (hab : a % 2 = 1 ↔ b % 2 = 1) : a = b := by omega

theorem left_of_parent {a b : ℕ} (h : a / 2 = b / 2) (ha : a % 2 = 1) (hb : ¬ b % 2 = 1) : b = a - 1 := by omega

/-- the block of an index ends no later than the block of the same index further up -/
theorem block_end_mono (index : ℕ) {i h : ℕ} (hi : i ≤ h) :
    ((index >>> i) + 1) * 2 ^ i ≤ ((index >>> h) + 1) * 2 ^ h := by
  rw [Nat.shiftRight_eq_div_pow, Nat.shiftRight_eq_div_pow]
  have hlt : index < (index / 2 ^ h + 1) * 2 ^ h := Nat.lt_mul_of_div_lt (Nat.lt_succ_self _) (by positivity)
  have hpow : (index / 2 ^ h + 1) * 2 ^ h = (index / 2 ^ h + 1) * 2 ^ (h - i) * 2 ^ i := by
    rw [mul_assoc, ← pow_add, Nat.sub_add_cancel hi]
  rw [hpow] at hlt ⊢
  exact Nat.mul_le_mul_right _ (Nat.div_lt_of_lt_mul (by rwa [mul_comm]))

/-- so does the block of the sibling one level below -/
theorem sibling_end_le (index : ℕ) {i h : ℕ} (hi : i < h) :
    (sibling (index >>> i) + 1) * 2 ^ i ≤ ((index >>> h) + 1) * 2 ^ h := by
  have hs : sibling (index >>> i) + 1 ≤ 2 * ((index >>> (i + 1)) + 1) := by
    rw [Nat.shiftRight_succ]
    generalize index >>> i = k
    unfold sibling
    split_ifs <;> omega
  calc (sibling (index >>> i) + 1) * 2 ^ i ≤ 2 * ((index >>> (i + 1)) + 1) * 2 ^ i := Nat.mul_le_mul_right _ hs
    _ = ((index >>> (i + 1)) + 1) * 2 ^ (i + 1) := by rw [pow_succ]; ring
    _ ≤ ((index >>> h) + 1) * 2 ^ h := block_end_mono index hi

/-! ## Path trees -/

namespace SparseMerkleTree

/-- a path tree of sibling nodes has the hash of its block -/
theorem hash_ofPath (K : Keccak H) (leaf : ℕ → H) (index h : ℕ) :
    (ofPath K (leaf index) index (fun i => node K.concat leaf i (sibling (index >>> i))) h).hash K =
      node K.concat leaf h (index >>> h) := by
  induction h with
  | zero => rfl
  | succ h ih =>
    have hbit := IncrementalMerkle.and_one_eq (index >>> h)
    rw [Nat.shiftRight_succ]
    simp only [ofPath]
    rw [ih, hbit]
    split_ifs with ho
    · simp only [MerkleTree.hash, sibling_left ho]
      exact node_parent_right K.concat leaf h ho
    · simp only [MerkleTree.hash, sibling_right ho]
      exact node_parent_left K.concat leaf h (by omega)

/-- descending a path tree along its own index gives back the path -/
theorem generateProofLoop_ofPath (K : Keccak H) (leaf : H) (index : ℕ) (path : ℕ → H) (h : ℕ) (acc : List H) :
    MerkleTree.generateProofLoop K index h (ofPath K leaf index path h) acc =
      some (leaf, (List.range h).map path ++ acc.reverse) := by
  induction h generalizing acc with
  | zero => simp [ofPath, MerkleTree.generateProofLoop, MerkleTree.isLeaf, MerkleTree.hash]
  | succ h ih =>
    simp only [ofPath, MerkleTree.generateProofLoop]
    split_ifs with hbit
    · simp only [MerkleTree.leftAndRightBranches, MerkleTree.hash]
      rw [ih]
      simp [List.range_succ]
    · simp only [MerkleTree.leftAndRightBranches, MerkleTree.hash]
      rw [ih]
      simp [List.range_succ]

theorem ofPath_congr (K : Keccak H) (leaf : H) (index : ℕ) {path path' : ℕ → H} (h : ℕ)
    (hp : ∀ i < h, path i = path' i) : ofPath K leaf index path h = ofPath K leaf index path' h := by
  induction h with
  | zero => rfl
  | succ h ih =>
    simp only [ofPath]
    rw [ih (fun i hi => hp i (by omega)), hp h (by omega)]

/-- the tree of a proof made of sibling nodes -/
theorem ofProof_nodes (K : Keccak H) (leaf : ℕ → H) (x : H) (index : ℕ) :
    ofProof K ⟨x, index, fun i => node K.concat leaf i (sibling (index >>> i.val))⟩ =
      ofPath K x index (fun i => node K.concat leaf i (sibling (index >>> i))) TREE_DEPTH := by
  apply ofPath_congr
  intro i hi
  rw [Proof.pathAt, dif_pos hi]

/-- the left sibling of a block ends before the leaves of the block -/
theorem left_sibling_end {index h : ℕ} (ho : index >>> h % 2 = 1) : (index >>> h - 1 + 1) * 2 ^ h ≤ index + 1 :=
  calc (index >>> h - 1 + 1) * 2 ^ h
    _ = index >>> h * 2 ^ h := by rw [Frontier.pred_succ_of_odd ho]
    _ = index / 2 ^ h * 2 ^ h := by rw [Nat.shiftRight_eq_div_pow]
    _ ≤ index := Nat.div_mul_le_self index (2 ^ h)
    _ ≤ index + 1 := Nat.le_succ index

/-- the siblings of an index as the latest leaf are its siblings in the tree cut after it -/
theorem asLatest_path (K : Keccak H) (leaf : ℕ → H) (index i : ℕ) :
    (if (index >>> i) &&& 1 = 1 then node K.concat leaf i (sibling (index >>> i)) else K.zeroHashes i) =
      node K.concat (upTo leaf K.zero (index + 1)) i (sibling (index >>> i)) := by
  rw [IncrementalMerkle.and_one_eq]
  split_ifs with ho
  · rw [sibling_left ho, node_upTo_complete K.concat leaf K.zero (left_sibling_end ho)]
  · rw [sibling_right ho, node_upTo_empty K.concat leaf K.zero]
    · rfl
    · rw [Nat.shiftRight_eq_div_pow]
      exact Nat.lt_mul_of_div_lt (Nat.lt_succ_self _) (by positivity)

theorem ofProof_asLatest (K : Keccak H) (leaf : ℕ → H) (x : H) (index : ℕ) :
    ofProof K (Proof.asLatest K ⟨x, index, fun i => node K.concat leaf i (sibling (index >>> i.val))⟩) =
      ofPath K x index (fun i => node K.concat (upTo leaf K.zero (index + 1)) i (sibling (index >>> i))) TREE_DEPTH := by
  apply ofPath_congr
  intro i hi
  rw [Proof.pathAt, dif_pos hi]
  exact asLatest_path K leaf index i

/-! ## The merge -/

/-- where the paths part, `leaf_index` lies in the left block, which is complete in the cut tree: its hash and its siblings
are those of the full tree -/
theorem parted_block (K : Keccak H) (leaf : ℕ → H) {leafIndex rootIndex h : ℕ}
    (hsame : rootIndex >>> h / 2 = leafIndex >>> h / 2) (hR : rootIndex >>> h % 2 = 1) (hL : ¬ leafIndex >>> h % 2 = 1) :
    (ofPath K (leaf leafIndex) leafIndex (fun i => node K.concat leaf i (sibling (leafIndex >>> i))) h).hash K =
        node K.concat (upTo leaf K.zero (rootIndex + 1)) h (sibling (rootIndex >>> h)) ∧
      sibling (leafIndex >>> h) = rootIndex >>> h ∧
      ∀ i < h, node K.concat leaf i (sibling (leafIndex >>> i)) =
        node K.concat (upTo leaf K.zero (rootIndex + 1)) i (sibling (leafIndex >>> i)) := by
  have hk : leafIndex >>> h = rootIndex >>> h - 1 := left_of_parent hsame hR hL
  have hend : ((leafIndex >>> h) + 1) * 2 ^ h ≤ rootIndex + 1 := by
    rw [hk]
    exact left_sibling_end hR
  refine ⟨?_, ?_, ?_⟩
  · rw [hash_ofPath K leaf leafIndex h, ← node_upTo_complete K.concat leaf K.zero hend, hk, sibling_left hR]
  · rw [sibling_right hL, hk, Frontier.pred_succ_of_odd hR]
  · intro i hi
    exact (node_upTo_complete K.concat leaf K.zero ((sibling_end_le leafIndex hi).trans hend)).symm

variable [DecidableEq H]

theorem merge_leaf_leaf (K : Keccak H) (x y : H) : merge K (.leaf x) (.leaf y) = some (.leaf x) := by
  by_cases h : x = y
  · subst h; simp [merge]
  · simp [merge, MerkleTree.hash, h]

/-- a path tree merged with a fake leaf stays as it is -/
theorem merge_ofPath_leaf (K : Keccak H) (leaf : H) (index : ℕ) (path : ℕ → H) (h : ℕ) (y : H) :
    merge K (ofPath K leaf index path h) (.leaf y) = some (ofPath K leaf index path h) := by
  cases h with
  | zero => exact merge_leaf_leaf K leaf y
  | succ h =>
    simp only [ofPath]
    split_ifs <;> rfl

/-- one level of a merge of two nodes whose parts merge to the recorded hashes -/
theorem merge_node {K : Keccak H} {al ar bl br l r : MerkleTree H} {x y b : H} (hl : merge K al bl = some l)
    (hr : merge K ar br = some r) (hlh : l.hash K = x) (hrh : r.hash K = y) :
    merge K (.node (K.concat x y) al ar) (.node b bl br) = some (.node (K.concat x y) l r) := by
  simp [merge, hl, hr, hlh, hrh]

/-- merging a tree into a fake leaf of its own hash puts the tree in the leaf's place -/
theorem merge_into_leaf {K : Keccak H} {x : H} {t : MerkleTree H} (h : t.hash K = x) : merge K (.leaf x) t = some t := by
  simp only [merge]
  rw [if_pos h.symm]

/-- **Merge.** In the block that holds both indices, merging the path tree of `root_index` in the cut tree with the path
tree of `leaf_index` in the full tree gives a tree with the cut hash whose descent to `leaf_index` collects the siblings
of the cut tree. -/
theorem merge_ofPath (K : Keccak H) (leaf : ℕ → H) {leafIndex rootIndex : ℕ} (hle : leafIndex ≤ rootIndex) (h : ℕ)
    (hsame : rootIndex >>> h = leafIndex >>> h) :
    ∃ t, merge K
        (ofPath K (upTo leaf K.zero (rootIndex + 1) rootIndex) rootIndex
          (fun i => node K.concat (upTo leaf K.zero (rootIndex + 1)) i (sibling (rootIndex >>> i))) h)
        (ofPath K (leaf leafIndex) leafIndex (fun i => node K.concat leaf i (sibling (leafIndex >>> i))) h) = some t ∧
      t.hash K = node K.concat (upTo leaf K.zero (rootIndex + 1)) h (rootIndex >>> h) ∧
      ∀ acc, MerkleTree.generateProofLoop K leafIndex h t acc = some (leaf leafIndex,
        (List.range h).map (fun i => node K.concat (upTo leaf K.zero (rootIndex + 1)) i (sibling (leafIndex >>> i))) ++
          acc.reverse) := by
  set cut := upTo leaf K.zero (rootIndex + 1) with hcut
  set pathR : ℕ → H := fun i => node K.concat cut i (sibling (rootIndex >>> i)) with hpR
  set pathL : ℕ → H := fun i => node K.concat leaf i (sibling (leafIndex >>> i)) with hpL
  have hleafR : cut rootIndex = leaf rootIndex := by simp [hcut, upTo]
  induction h with
  | zero =>
    have hidx : rootIndex = leafIndex := hsame
    refine ⟨.leaf (cut rootIndex), merge_leaf_leaf K _ _, rfl, fun acc => ?_⟩
    simp [MerkleTree.generateProofLoop, MerkleTree.isLeaf, MerkleTree.hash, hleafR, ← hidx]
  | succ h ih =>
    have hbR := IncrementalMerkle.and_one_eq (rootIndex >>> h)
    have hbL := IncrementalMerkle.and_one_eq (leafIndex >>> h)
    have hhash := hash_ofPath K cut rootIndex h
    rw [Nat.shiftRight_succ, Nat.shiftRight_succ] at hsame
    rw [Nat.shiftRight_succ]
    simp only [ofPath, hbR, hbL]
    by_cases hR : rootIndex >>> h % 2 = 1
    · by_cases hL : leafIndex >>> h % 2 = 1
      · -- both go right; the two left siblings are fake leaves
        have hk : rootIndex >>> h = leafIndex >>> h := eq_of_parent hsame (iff_of_true hR hL)
        obtain ⟨t, ht, hth, hgen⟩ := ih hk
        rw [if_pos hR, if_pos hL, hhash]
        refine ⟨_, merge_node (merge_leaf_leaf K _ _) ht rfl hth, ?_, fun acc => ?_⟩
        · simp only [MerkleTree.hash, hpR, sibling_left hR]
          exact node_parent_right K.concat cut h hR
        · simp only [MerkleTree.generateProofLoop, MerkleTree.leftAndRightBranches, hbL, if_pos hL, MerkleTree.hash]
          rw [hgen]
          simp [List.range_succ, hpR, hk]
      · -- the paths part
        obtain ⟨hblock, hs, hpath⟩ := parted_block K leaf hsame hR hL
        rw [← hcut] at hblock hpath
        rw [if_pos hR, if_neg hL, hhash]
        refine ⟨_, merge_node (merge_into_leaf hblock) (merge_ofPath_leaf K _ _ _ _ _) hblock hhash, ?_, fun acc => ?_⟩
        · simp only [MerkleTree.hash, hpR, sibling_left hR]
          exact node_parent_right K.concat cut h hR
        · simp only [MerkleTree.generateProofLoop, MerkleTree.leftAndRightBranches, hbL, if_neg hL]
          rw [generateProofLoop_ofPath, hhash, List.map_congr_left (fun i hi => hpath i (List.mem_range.1 hi))]
          simp [List.range_succ, hs]
    · -- `root_index` goes left, and `leaf_index` with it
      have hmono : leafIndex >>> h ≤ rootIndex >>> h := by
        rw [Nat.shiftRight_eq_div_pow, Nat.shiftRight_eq_div_pow]
        exact Nat.div_le_div_right hle
      have hL : ¬ leafIndex >>> h % 2 = 1 := fun hL => by
        have := left_of_parent hsame.symm hL hR
        omega
      have hk : rootIndex >>> h = leafIndex >>> h := eq_of_parent hsame (iff_of_false hR hL)
      obtain ⟨t, ht, hth, hgen⟩ := ih hk
      rw [if_neg hR, if_neg hL, hhash]
      refine ⟨_, merge_node ht (merge_leaf_leaf K _ _) hth rfl, ?_, fun acc => ?_⟩
      · simp only [MerkleTree.hash, hpR, sibling_right hR]
        exact node_parent_left K.concat cut h (by omega)
      · simp only [MerkleTree.generateProofLoop, MerkleTree.leftAndRightBranches, hbL, if_neg hL, MerkleTree.hash]
        rw [hgen]
        simp [List.range_succ, hpR, hk]

end SparseMerkleTree

/-! ## Against a previous root -/

/-- **Gluing.** On the tree of `L`, the proof of `leaf_index` against the root after `root_index` exists and consists of
the siblings of `leaf_index` in the tree cut after `root_index`. -/
theorem MerkleTree.proveAgainstPrevious_create [DecidableEq H] (K : Keccak H) (L : List H)
    (hcap : L.length ≤ 2 ^ TREE_DEPTH) {leafIndex rootIndex : ℕ} (hle : leafIndex ≤ rootIndex)
    (hroot : rootIndex < L.length) :
    (create K L TREE_DEPTH).proveAgainstPrevious K leafIndex rootIndex = some ⟨L.getD leafIndex K.zero, leafIndex,
      fun i => PerfectTree.node K.concat (upTo (fun i => L.getD i K.zero) K.zero (rootIndex + 1)) i
        (sibling (leafIndex >>> i.val))⟩ := by
  have hleaf : leafIndex < L.length := by omega
  have hget : ∀ {j : ℕ} (hj : j < L.length), L[j] = L.getD j K.zero := fun hj => by
    simp [List.getD_eq_getElem?_getD, hj]
  have htop : ∀ {j : ℕ}, j < L.length → j >>> TREE_DEPTH = 0 := fun hj => by
    rw [Nat.shiftRight_eq_div_pow, Nat.div_eq_of_lt (by omega)]
  obtain ⟨t, ht, -, hgen⟩ := SparseMerkleTree.merge_ofPath K (fun i => L.getD i K.zero) hle TREE_DEPTH
    (by rw [htop hroot, htop hleaf])
  have hself : upTo (fun i => L.getD i K.zero) K.zero (rootIndex + 1) rootIndex = L.getD rootIndex K.zero := by
    simp [upTo]
  rw [hself] at ht
  rw [proveAgainstPrevious, if_neg (by omega), proveAgainstCurrent_create K L hcap rootIndex hroot,
    proveAgainstCurrent_create K L hcap leafIndex hleaf]
  simp only [hget hroot, hget hleaf]
  rw [SparseMerkleTree.ofProof_asLatest, SparseMerkleTree.ofProof_nodes]
  rw [ht, Option.bind_some]
  unfold proveAgainstCurrent generateProof
  rw [hgen]
  simp only [List.reverse_nil, List.append_nil]
  rw [if_pos (by simp)]
  congr 2
  funext i
  simp [List.getD_eq_getElem?_getD]

end Hyperlane.Accumulator
