/-
Fraud proofs against signed checkpoints (contracts/CheckpointFraudProofs.sol, with `branchRoot` and `reconstructRoot` of
contracts/libs/Merkle.sol), as contracts/AttributeCheckpointFraud.sol uses them.

Anybody stores the latest checkpoint of a tree at any time, under its root. A checkpoint is fraudulent when some other
message is a member of a stored tree at its index, or when its own message is and the root rebuilt from that proof is not
the checkpoint's. The proof is chosen by the accuser. A revert is `none`.

A run inserts ids into the tree of one hook and stores checkpoints of any contract; contracts other than the hook answer
arbitrarily.

- `contains_binds`: a proof that is accepted is the proof of the leaf in the stored tree.
- `reconstructRoot_nodes`: from such a proof the root of the earlier tree is rebuilt.
- `fraud_proofs_exact`: honest checkpoints are never fraudulent, and the others are, by the historical proof.
-/
import Hyperlane.Accumulator.Sparse

namespace Hyperlane.Fraud

open Hyperlane.PerfectTree Hyperlane.Accumulator

variable {H A : Type}

/-! ## Model -/

structure Checkpoint (H : Type) where
  origin : UInt32
  merkleTree : H
  root : H
  index : UInt32
  messageId : H

structure StoredIndex where
  index : UInt32
  exists_ : Bool
deriving DecidableEq

/-- what the code at an address answers; `bytes32ToAddress` reverts on an overflow -/
structure Contracts (H A : Type) where
  bytes32ToAddress : H → Option A
  isContract : A → Bool
  localDomain : A → Option UInt32

/-- `MerkleLib.branchRoot` -/
def branchRoot (K : Keccak H) (item : H) (branch : Fin TREE_DEPTH → H) (index : ℕ) : H :=
  branchLoop K index 0 (List.ofFn branch) item

/-- `MerkleLib.reconstructRoot`: the loop of `rootWithCtx`, from the item -/
def reconstructRoot (K : Keccak H) (item : H) (branch : Fin TREE_DEPTH → H) (index : ℕ) : H :=
  MerkleLib.rootLoop K K.zeroHashes 0 (List.ofFn branch) index item

/-- `MerkleTreeHook.count` -/
def hookCount (t : MerkleLib.Tree H) : UInt32 := UInt32.ofNat t.count

/-- `MerkleTreeHook.latestCheckpoint`; the subtraction is checked -/
def latestCheckpoint (K : Keccak H) (t : MerkleLib.Tree H) : Option (H × UInt32) :=
  if hookCount t = 0 then none else some (MerkleLib.root K t, hookCount t - 1)

section Views

variable [DecidableEq H] (K : Keccak H) (E : Contracts H A) (stored : A → H → StoredIndex)

def storedCheckpointContainsMessage (merkleTree : A) (index : UInt32) (messageId : H) (proof : Fin TREE_DEPTH → H) : Bool :=
  let storedIndex := stored merkleTree (branchRoot K messageId proof index.toNat)
  storedIndex.exists_ && decide (index ≤ storedIndex.index)

def isLocal (checkpoint : Checkpoint H) : Option Bool := do
  let merkleTree ← E.bytes32ToAddress checkpoint.merkleTree
  if E.isContract merkleTree then
    let domain ← E.localDomain merkleTree
    return domain == checkpoint.origin
  else return false

/-- the modifier `onlyLocal` -/
def onlyLocal (checkpoint : Checkpoint H) : Option Unit := do
  let isLocal ← isLocal E checkpoint
  if isLocal then return () else none

/-- the modifier `onlyMessageInStoredCheckpoint` -/
def onlyMessageInStoredCheckpoint (checkpoint : Checkpoint H) (proof : Fin TREE_DEPTH → H) (messageId : H) : Option Unit := do
  let merkleTree ← E.bytes32ToAddress checkpoint.merkleTree
  if storedCheckpointContainsMessage K stored merkleTree checkpoint.index messageId proof then return () else none

def isFraudulentMessageId (checkpoint : Checkpoint H) (proof : Fin TREE_DEPTH → H) (actualMessageId : H) : Option Bool := do
  onlyLocal E checkpoint
  onlyMessageInStoredCheckpoint K E stored checkpoint proof actualMessageId
  return actualMessageId != checkpoint.messageId

def isFraudulentRoot (checkpoint : Checkpoint H) (proof : Fin TREE_DEPTH → H) : Option Bool := do
  onlyLocal E checkpoint
  onlyMessageInStoredCheckpoint K E stored checkpoint proof checkpoint.messageId
  return reconstructRoot K checkpoint.messageId proof checkpoint.index.toNat != checkpoint.root

end Views

/-- the tree of one hook, the ids inserted into it, and the stored checkpoints of all contracts -/
structure World (H A : Type) where
  tree : MerkleLib.Tree H
  leaves : List H
  storedCheckpoints : A → H → StoredIndex

def World.start (K : Keccak H) : World H A := ⟨MerkleLib.zeroed K, [], fun _ _ => ⟨0, false⟩⟩

inductive Op (H A : Type) where
  /-- the hook inserts a dispatched id -/
  | insert (id : H)
  /-- `storeLatestCheckpoint`; a contract other than the hook gives any answer, or reverts -/
  | storeLatestCheckpoint (merkleTree : A) (answer : Option (H × UInt32))

section Runs

variable [DecidableEq H] [DecidableEq A]

def World.step (K : Keccak H) (hook : A) (w : World H A) : Op H A → World H A
  | .insert id =>
    match MerkleLib.insert K w.tree id with
    | some tree => { w with tree, leaves := w.leaves ++ [id] }
    | none => w
  | .storeLatestCheckpoint merkleTree answer =>
    match if merkleTree = hook then latestCheckpoint K w.tree else answer with
    | some (root, index) =>
      { w with storedCheckpoints := Function.update w.storedCheckpoints merkleTree
                (Function.update (w.storedCheckpoints merkleTree) root ⟨index, true⟩) }
    | none => w

def World.run (K : Keccak H) (hook : A) (w : World H A) (ops : List (Op H A)) : World H A := ops.foldl (World.step K hook) w

end Runs

/-! ## Branches -/

theorem branchLoop_injective {K : Keccak H} (hf : Function.Injective2 K.concat) {index i : ℕ} {xs ys : List H} {x y : H}
    (hlen : xs.length = ys.length) (h : branchLoop K index i xs x = branchLoop K index i ys y) : x = y ∧ xs = ys := by
  induction xs generalizing i ys x y with
  | nil =>
    obtain rfl := List.length_eq_zero_iff.1 hlen.symm
    exact ⟨h, rfl⟩
  | cons a xs ih =>
    cases ys with
    | nil => cases hlen
    | cons b ys =>
      obtain ⟨hxy, rfl⟩ := ih (Nat.succ.inj hlen) h
      split_ifs at hxy
      · obtain ⟨rfl, rfl⟩ := hf hxy
        exact ⟨rfl, rfl⟩
      · obtain ⟨rfl, rfl⟩ := hf hxy
        exact ⟨rfl, rfl⟩

theorem branchRoot_injective {K : Keccak H} (hf : Function.Injective2 K.concat) {index : ℕ} {p q : Fin TREE_DEPTH → H} {x y : H}
    (h : branchRoot K x p index = branchRoot K y q index) : x = y ∧ p = q := by
  obtain ⟨hxy, hpq⟩ := branchLoop_injective hf (by rw [List.length_ofFn, List.length_ofFn]) h
  exact ⟨hxy, List.ofFn_injective hpq⟩

/-- the siblings of a leaf lead to the root -/
theorem branchRoot_nodes (K : Keccak H) (leaf : ℕ → H) {index : ℕ} (h : index < 2 ^ TREE_DEPTH) :
    branchRoot K (leaf index) (fun i => node K.concat leaf i (sibling (index >>> i.val))) index =
      node K.concat leaf TREE_DEPTH 0 := by
  have hroot := proof_root K leaf index h
  rw [Proof.root, merkleRootFromBranch, if_pos (List.length_ofFn), Option.some.injEq] at hroot
  exact hroot

theorem rootLoop_eq_branchLoop (K : Keccak H) (zeroes : ℕ → H) (index i : ℕ) (xs : List H) (x : H) :
    MerkleLib.rootLoop K zeroes i xs index x =
      branchLoop K index i ((xs.zipIdx i).map fun y => if (index >>> y.2) &&& 1 = 1 then y.1 else zeroes y.2) x := by
  induction xs generalizing i x with
  | nil => rfl
  | cons a xs ih =>
    rw [MerkleLib.rootLoop, ih, List.zipIdx_cons, List.map_cons, branchLoop]
    congr 1
    by_cases hbit : (index >>> i) &&& 1 = 1
    · simp only [if_pos hbit]
    · simp only [if_neg hbit]

/-- **Rebuilding.** From the siblings of a leaf in any tree that reaches it, the root of the tree that ends with it. -/
theorem reconstructRoot_nodes (K : Keccak H) (leaf : ℕ → H) {index : ℕ} (h : index < 2 ^ TREE_DEPTH) :
    reconstructRoot K (leaf index) (fun i => node K.concat leaf i (sibling (index >>> i.val))) index =
      node K.concat (upTo leaf K.zero (index + 1)) TREE_DEPTH 0 := by
  have hself : upTo leaf K.zero (index + 1) index = leaf index := if_pos (Nat.lt_succ_self index)
  rw [reconstructRoot, rootLoop_eq_branchLoop, ← branchRoot_nodes K (upTo leaf K.zero (index + 1)) h, hself, branchRoot]
  congr 1
  apply List.ext_getElem
  · simp
  · intro i h1 h2
    simp only [List.getElem_map, List.getElem_zipIdx, List.getElem_ofFn, Nat.zero_add]
    exact SparseMerkleTree.asLatest_path K leaf index i

/-! ## What is stored -/

/-- the tree holds the inserted ids, and every stored checkpoint of the hook is the root of one of their prefixes -/
structure Inv (K : Keccak H) (hook : A) (w : World H A) : Prop where
  tree : w.tree.Represents K w.leaves
  capacity : w.leaves.length ≤ U32_MAX
  stored : ∀ root, (w.storedCheckpoints hook root).exists_ = true →
    (w.storedCheckpoints hook root).index.toNat < w.leaves.length ∧
      root = K.merkleRoot (w.leaves.take ((w.storedCheckpoints hook root).index.toNat + 1))

theorem start_inv (K : Keccak H) (hook : A) : Inv K hook (World.start K : World H A) :=
  ⟨IncrementalMerkle.zeroed_represents K, Nat.zero_le _, nofun⟩

/-- the latest checkpoint is the root of all leaves, with the index of the last one -/
theorem Inv.latestCheckpoint {K : Keccak H} {hook : A} {w : World H A} (h : Inv K hook w) {root : H} {index : UInt32}
    (hl : latestCheckpoint K w.tree = some (root, index)) :
    index.toNat + 1 = w.leaves.length ∧ root = K.merkleRoot w.leaves := by
  unfold Fraud.latestCheckpoint at hl
  split_ifs at hl with hzero
  simp only [Option.some.injEq, Prod.mk.injEq] at hl
  obtain ⟨rfl, rfl⟩ := hl
  have hcount : (hookCount w.tree).toNat = w.leaves.length := by
    rw [hookCount, h.tree.count_eq, UInt32.toNat_ofNat_of_lt']
    exact Nat.lt_of_le_of_lt h.capacity (by decide)
  have hpos : 1 ≤ hookCount w.tree := by
    rw [UInt32.le_iff_toNat_le]
    exact Nat.one_le_iff_ne_zero.2 fun h0 => hzero (UInt32.toNat_inj.1 h0)
  refine ⟨?_, h.tree.solRoot_eq h.capacity⟩
  rw [UInt32.toNat_sub_of_le _ _ hpos, ← hcount]
  exact Nat.sub_add_cancel (UInt32.le_iff_toNat_le.1 hpos)

section Runs

variable [DecidableEq H] [DecidableEq A]

theorem step_inv {K : Keccak H} {hook : A} {w : World H A} (h : Inv K hook w) (op : Op H A) :
    Inv K hook (w.step K hook op) := by
  cases op with
  | insert id =>
    by_cases hroom : w.leaves.length < MerkleLib.MAX_LEAVES
    · obtain ⟨tree, hins, htree⟩ := h.tree.insert id hroom
      simp only [World.step, hins]
      refine ⟨htree, by simpa using hroom, ?_⟩
      intro root hroot
      obtain ⟨hlt, heq⟩ := h.stored root hroot
      refine ⟨hlt.trans_le (by simp), ?_⟩
      rw [List.take_append_of_le_length hlt]
      exact heq
    · have hnone : MerkleLib.insert K w.tree id = none := by
        rw [MerkleLib.insert, h.tree.count_eq, if_neg hroom]
      simp only [World.step, hnone]
      exact h
  | storeLatestCheckpoint merkleTree answer =>
    simp only [World.step]
    split
    · rename_i root index hanswer
      refine ⟨h.tree, h.capacity, ?_⟩
      intro root' hroot'
      by_cases hhook : merkleTree = hook
      · subst hhook
        rw [if_pos rfl] at hanswer
        simp only [Function.update_self] at hroot' ⊢
        by_cases he : root' = root
        · subst he
          obtain ⟨hindex, hroot⟩ := h.latestCheckpoint hanswer
          rw [Function.update_self]
          refine ⟨hindex.le, ?_⟩
          rw [hindex, List.take_length]
          exact hroot
        · rw [Function.update_of_ne he] at hroot' ⊢
          exact h.stored root' hroot'
      · simp only [Function.update_of_ne (Ne.symm hhook)] at hroot' ⊢
        exact h.stored root' hroot'
    · exact h

theorem run_inv {K : Keccak H} {hook : A} {w : World H A} (h : Inv K hook w) (ops : List (Op H A)) :
    Inv K hook (w.run K hook ops) := by
  induction ops generalizing w with
  | nil => exact h
  | cons op ops ih => exact ih (step_inv h op)

end Runs

/-! ## Proofs of membership -/

section Membership

variable {K : Keccak H} {E : Contracts H A} {hook : A} {w : World H A} {c : Checkpoint H}

/-- the padded leaves of the stored tree with last index `last` -/
def storedLeaf (K : Keccak H) (w : World H A) (last : ℕ) : ℕ → H := upTo (fun i => w.leaves.getD i K.zero) K.zero (last + 1)

theorem storedLeaf_self {index last : ℕ} (hle : index ≤ last) (hlt : index < w.leaves.length) :
    storedLeaf K w last index = w.leaves[index] := by
  rw [storedLeaf, upTo, if_pos (Nat.lt_succ_of_le hle)]
  simp [List.getD_eq_getElem?_getD, hlt]

/-- the tree that ends at `index`, cut out of a stored tree that reaches it -/
theorem storedLeaf_cut {index last : ℕ} (hle : index ≤ last) :
    node K.concat (upTo (storedLeaf K w last) K.zero (index + 1)) TREE_DEPTH 0 = K.merkleRoot (w.leaves.take (index + 1)) := by
  have hcut : upTo (storedLeaf K w last) K.zero (index + 1) = fun i => (w.leaves.take (index + 1)).getD i K.zero := by
    rw [getD_take]
    funext i
    unfold storedLeaf upTo
    split_ifs with h1 h2
    · rfl
    · exact absurd (h1.trans_le (Nat.succ_le_succ hle)) h2
    · rfl
  rw [hcut]
  rfl

/-- the path of the historical proof of a leaf against the stored tree with last index `last` -/
def historicalPath (K : Keccak H) (w : World H A) (index last : ℕ) (i : Fin TREE_DEPTH) : H :=
  node K.concat (storedLeaf K w last) i (sibling (index >>> i.val))

theorem branchRoot_stored (h : Inv K hook w) {index last : ℕ} (hle : index ≤ last) (hlast : last < w.leaves.length) :
    branchRoot K w.leaves[index] (historicalPath K w index last) index = K.merkleRoot (w.leaves.take (last + 1)) := by
  have hindex : index < 2 ^ TREE_DEPTH := (hle.trans_lt (hlast.trans_le h.capacity)).trans (by decide)
  rw [← storedLeaf_self (K := K) hle (hle.trans_lt hlast)]
  calc branchRoot K (storedLeaf K w last index) (historicalPath K w index last) index
    _ = node K.concat (storedLeaf K w last) TREE_DEPTH 0 := branchRoot_nodes K (storedLeaf K w last) hindex
    _ = K.merkleRoot (w.leaves.take (last + 1)) := by rw [storedLeaf, ← getD_take]; rfl

/-- **Binding.** Whatever proof is accepted, the message is the leaf and the proof is its path in a stored tree. -/
theorem contains_binds (hf : Function.Injective2 K.concat) (h : Inv K hook w) {index : UInt32} {messageId : H}
    {proof : Fin TREE_DEPTH → H}
    (hc : storedCheckpointContainsMessage K w.storedCheckpoints hook index messageId proof = true) :
    ∃ last, index.toNat ≤ last ∧ ∃ hlt : index.toNat < w.leaves.length, messageId = w.leaves[index.toNat] ∧
      proof = historicalPath K w index.toNat last := by
  simp only [storedCheckpointContainsMessage, Bool.and_eq_true, decide_eq_true_eq] at hc
  obtain ⟨hexists, hle⟩ := hc
  obtain ⟨hlast, hroot⟩ := h.stored _ hexists
  set last := (w.storedCheckpoints hook (branchRoot K messageId proof index.toNat)).index
  rw [UInt32.le_iff_toNat_le] at hle
  rw [← branchRoot_stored h hle hlast] at hroot
  obtain ⟨hmessage, hproof⟩ := branchRoot_injective hf hroot
  exact ⟨last.toNat, hle, hle.trans_lt hlast, hmessage, hproof⟩

/-- the historical proof is accepted against the stored checkpoint -/
theorem contains_historical (h : Inv K hook w) {index : UInt32} {root : H}
    (hexists : (w.storedCheckpoints hook root).exists_ = true) (hle : index ≤ (w.storedCheckpoints hook root).index)
    (hlt : index.toNat < w.leaves.length) :
    storedCheckpointContainsMessage K w.storedCheckpoints hook index w.leaves[index.toNat]
      (historicalPath K w index.toNat (w.storedCheckpoints hook root).index.toNat) = true := by
  obtain ⟨hlast, hroot⟩ := h.stored root hexists
  simp only [storedCheckpointContainsMessage, Bool.and_eq_true, decide_eq_true_eq]
  rw [branchRoot_stored h (UInt32.le_iff_toNat_le.1 hle) hlast, ← hroot]
  exact ⟨hexists, hle⟩

/-- from a path of a stored tree, the root of the tree that ends with the leaf -/
theorem reconstructRoot_stored (h : Inv K hook w) {index last : ℕ} (hle : index ≤ last) (hlt : index < w.leaves.length) :
    reconstructRoot K w.leaves[index] (historicalPath K w index last) index = K.merkleRoot (w.leaves.take (index + 1)) := by
  have hindex : index < 2 ^ TREE_DEPTH := (hlt.trans_le h.capacity).trans (by decide)
  rw [← storedLeaf_self (K := K) hle hlt, ← storedLeaf_cut hle]
  exact reconstructRoot_nodes K (storedLeaf K w last) hindex

section Decided

variable [DecidableEq H]

theorem isFraudulentMessageId_eq_true (hlocal : isLocal E c = some true) (haddr : E.bytes32ToAddress c.merkleTree = some hook)
    {proof : Fin TREE_DEPTH → H} {actualMessageId : H} :
    isFraudulentMessageId K E w.storedCheckpoints c proof actualMessageId = some true ↔
      storedCheckpointContainsMessage K w.storedCheckpoints hook c.index actualMessageId proof = true ∧
        actualMessageId ≠ c.messageId := by
  by_cases hcontains : storedCheckpointContainsMessage K w.storedCheckpoints hook c.index actualMessageId proof = true
  · simp [isFraudulentMessageId, onlyLocal, onlyMessageInStoredCheckpoint, hlocal, haddr, hcontains]
  · simp [isFraudulentMessageId, onlyLocal, onlyMessageInStoredCheckpoint, hlocal, haddr, hcontains]

theorem isFraudulentRoot_eq_true (hlocal : isLocal E c = some true) (haddr : E.bytes32ToAddress c.merkleTree = some hook)
    {proof : Fin TREE_DEPTH → H} :
    isFraudulentRoot K E w.storedCheckpoints c proof = some true ↔
      storedCheckpointContainsMessage K w.storedCheckpoints hook c.index c.messageId proof = true ∧
        reconstructRoot K c.messageId proof c.index.toNat ≠ c.root := by
  by_cases hcontains : storedCheckpointContainsMessage K w.storedCheckpoints hook c.index c.messageId proof = true
  · simp [isFraudulentRoot, onlyLocal, onlyMessageInStoredCheckpoint, hlocal, haddr, hcontains]
  · simp [isFraudulentRoot, onlyLocal, onlyMessageInStoredCheckpoint, hlocal, haddr, hcontains]

end Decided

end Membership

/-! ## Honest and dishonest checkpoints -/

variable [DecidableEq H] [DecidableEq A]

/-- **Fraud is exactly what can be proved.** In every run, for a local checkpoint below the count: when its message and its
root are the tree's, no proof makes it fraudulent; and against every stored checkpoint that reaches it, the historical
proof of the leaf exposes a wrong message, or a wrong root of the right message. -/
theorem fraud_proofs_exact (K : Keccak H) (hf : Function.Injective2 K.concat) (E : Contracts H A) (hook : A)
    (ops : List (Op H A)) (c : Checkpoint H) (hlocal : isLocal E c = some true)
    (haddr : E.bytes32ToAddress c.merkleTree = some hook)
    (hindex : c.index.toNat < ((World.start K).run K hook ops).leaves.length) :
    let w := (World.start K).run K hook ops
    let message := w.leaves[c.index.toNat]
    let root := K.merkleRoot (w.leaves.take (c.index.toNat + 1))
    (c.messageId = message → c.root = root → ∀ proof,
      (∀ actualMessageId, isFraudulentMessageId K E w.storedCheckpoints c proof actualMessageId ≠ some true) ∧
      isFraudulentRoot K E w.storedCheckpoints c proof ≠ some true) ∧
    ∀ storedRoot, (w.storedCheckpoints hook storedRoot).exists_ = true →
      c.index ≤ (w.storedCheckpoints hook storedRoot).index →
      ∃ proof, (MerkleTree.create K w.leaves TREE_DEPTH).proveAgainstPrevious K c.index.toNat
          (w.storedCheckpoints hook storedRoot).index.toNat = some proof ∧
        proof.leaf = message ∧ proof.root K = some storedRoot ∧
        (c.messageId ≠ message → isFraudulentMessageId K E w.storedCheckpoints c proof.path message = some true) ∧
        (c.messageId = message → c.root ≠ root → isFraudulentRoot K E w.storedCheckpoints c proof.path = some true) := by
  intro w message root
  have h : Inv K hook w := run_inv (start_inv K hook) ops
  refine ⟨?_, ?_⟩
  · intro hmessage hroot proof
    constructor
    · intro actualMessageId hfraud
      obtain ⟨hcontains, hne⟩ := (isFraudulentMessageId_eq_true hlocal haddr).1 hfraud
      obtain ⟨last, -, hlt, heq, -⟩ := contains_binds hf h hcontains
      exact hne (heq.trans hmessage.symm)
    · intro hfraud
      obtain ⟨hcontains, hne⟩ := (isFraudulentRoot_eq_true hlocal haddr).1 hfraud
      obtain ⟨last, hle, hlt, heq, rfl⟩ := contains_binds hf h hcontains
      rw [heq, reconstructRoot_stored h hle hlt] at hne
      exact hne hroot.symm
  · intro storedRoot hexists hle
    obtain ⟨hlast, hstored⟩ := h.stored storedRoot hexists
    have hle' := UInt32.le_iff_toNat_le.1 hle
    have hcapacity : w.leaves.length ≤ 2 ^ TREE_DEPTH := h.capacity.trans (by decide)
    have hcontains := contains_historical h hexists hle hindex
    set last := (w.storedCheckpoints hook storedRoot).index.toNat
    have hleaf : w.leaves.getD c.index.toNat K.zero = message := by
      simp [message, List.getD_eq_getElem?_getD, show c.index.toNat < w.leaves.length from hindex]
    refine ⟨_, MerkleTree.proveAgainstPrevious_create K w.leaves hcapacity hle' hlast, hleaf, ?_, ?_, ?_⟩
    · rw [Proof.root, merkleRootFromBranch, if_pos (List.length_ofFn), hleaf, hstored, ← branchRoot_stored h hle' hlast]
      rfl
    · intro hne
      exact (isFraudulentMessageId_eq_true hlocal haddr).2 ⟨hcontains, Ne.symm hne⟩
    · intro heq hne
      refine (isFraudulentRoot_eq_true hlocal haddr).2 ⟨heq ▸ hcontains, ?_⟩
      intro hroot
      apply hne
      rw [← hroot, heq]
      exact reconstructRoot_stored h hle' hindex

/-- one hook at address 9 on domain 1 -/
def toyContracts : Contracts ℕ ℕ := ⟨fun b => if b < 100 then some b else none, fun a => a = 9, fun _ => some 1⟩

def toyRun (n : ℕ) : World ℕ ℕ :=
  (World.start pairKeccak).run pairKeccak 9
    ([Op.insert 7, .storeLatestCheckpoint 9 none, .insert 8, .storeLatestCheckpoint 9 none].take n)

theorem toyRun_root (n : ℕ) : MerkleLib.root pairKeccak (toyRun n).tree = pairKeccak.merkleRoot (toyRun n).leaves := by
  have h : Inv pairKeccak 9 (toyRun n) := run_inv (start_inv pairKeccak 9) _
  exact h.tree.solRoot_eq h.capacity

/-- leaves 7 and 8, both trees stored, and checkpoints of index 0: an honest one, one with a wrong message and one with
the later root -/
theorem fraud_proofs_exact_two :
    let root := MerkleLib.root pairKeccak (toyRun 2).tree
    let later := MerkleLib.root pairKeccak (toyRun 4).tree
    let stored := (toyRun 4).storedCheckpoints
    (∀ proof, isFraudulentRoot pairKeccak toyContracts stored ⟨1, 9, root, 0, 7⟩ proof ≠ some true) ∧
    (∃ proof, isFraudulentMessageId pairKeccak toyContracts stored ⟨1, 9, root, 0, 8⟩ proof 7 = some true) ∧
    ∃ proof, isFraudulentRoot pairKeccak toyContracts stored ⟨1, 9, later, 0, 7⟩ proof = some true := by
  intro root later stored
  have hleaves : (toyRun 4).leaves = [7, 8] := by decide +kernel
  have hroot : root = pairKeccak.merkleRoot ((toyRun 4).leaves.take 1) := by
    rw [hleaves]
    exact toyRun_root 2
  have hstored : stored 9 later = ⟨1, true⟩ := by decide +kernel
  have hexists : (stored 9 later).exists_ = true := by rw [hstored]
  have hreach : (0 : UInt32) ≤ (stored 9 later).index := by rw [hstored]; decide
  have hne : later ≠ root := by decide +kernel
  have hexact := fraud_proofs_exact pairKeccak pairKeccak_injective toyContracts 9
    [.insert 7, .storeLatestCheckpoint 9 none, .insert 8, .storeLatestCheckpoint 9 none]
  have hlt : 0 < (toyRun 4).leaves.length := by decide +kernel
  have hzero : (toyRun 4).leaves[0] = 7 := by simp only [hleaves, List.getElem_cons_zero]
  refine ⟨?_, ?_, ?_⟩
  · intro proof
    exact ((hexact ⟨1, 9, root, 0, 7⟩ rfl rfl hlt).1 hzero.symm hroot proof).2
  · obtain ⟨proof, -, -, -, h, -⟩ := (hexact ⟨1, 9, root, 0, 8⟩ rfl rfl hlt).2 later hexists hreach
    refine ⟨proof.path, ?_⟩
    have h8 : 8 ≠ (toyRun 4).leaves[0] := by
      rw [hzero]
      decide
    rw [← hzero]
    exact h h8
  · obtain ⟨proof, -, -, -, -, h⟩ := (hexact ⟨1, 9, later, 0, 7⟩ rfl rfl hlt).2 later hexists hreach
    exact ⟨proof.path, h hzero.symm fun he => hne (he.trans hroot.symm)⟩

end Hyperlane.Fraud
