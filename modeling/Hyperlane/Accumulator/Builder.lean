/-
The relayer's `Prover` and `MerkleTreeBuilder` (agents/relayer/src/prover.rs, agents/relayer/src/merkle_tree/builder.rs)
and the agreement of all the append-only trees.

The builder feeds every message id to the packed tree and to the frontier tree and compares the two roots. A panic of
the source (`expect("tree full")`, the capacity assertion of the frontier tree, the packed tree's lookups) is an outer
`none`; the builder is returned next to the result, since the source has already mutated it when it reports an error.

- `trees_agree`: within capacity the frontier tree, the packed tree, the recursive tree (pushed or created) and the
  Solidity tree all have the plain root of the leaf list, and the builder never reports mismatched roots.
- `historical_proofs_agree`: the packed tree, the glued recursive proof and the recursive tree of the prefix give one
  and the same proof, which evaluates to the root of the prefix.
- `getProof_represents`: `get_proof` of the builder returns exactly those proofs and reports every other request.
-/
import Hyperlane.Accumulator.Packed
import Hyperlane.Accumulator.Sparse

namespace Hyperlane.Accumulator

open Hyperlane.PerfectTree

variable {H : Type}

/-! ## Model -/

inductive ProverError where
  | IndexTooHigh (index : ℕ)
  | ZeroProof (index count : ℕ)
  | MerkleTreeError (e : MerkleTreeError)
deriving DecidableEq

structure Prover (H : Type) where
  tree : PackedMerkle H

namespace Prover

def default (K : Keccak H) : Prover H := ⟨PackedMerkle.default K⟩

/-- `ingest`: the pushed tree and its root -/
def ingest (K : Keccak H) (p : Prover H) (element : H) : Option (Except ProverError (Prover H × H)) :=
  (p.tree.push K element).map fun
    | .ok t => .ok (⟨t⟩, t.root)
    | .error e => .error (.MerkleTreeError e)

def root (p : Prover H) : H := p.tree.root

def count (p : Prover H) : ℕ := p.tree.count

/-- `prove_against_previous`; `none` is a panic of the packed tree -/
def proveAgainstPrevious (K : Keccak H) (p : Prover H) (leafIndex rootIndex : ℕ) :
    Option (Except ProverError (Proof H)) :=
  if U32_MAX < rootIndex then some (.error (.IndexTooHigh rootIndex))
  else if p.count ≤ rootIndex then some (.error (.ZeroProof rootIndex p.count))
  else if rootIndex < leafIndex then some (.error (.ZeroProof leafIndex (satAdd64 rootIndex 1)))
  else (p.tree.prove K leafIndex rootIndex).map .ok

end Prover

inductive MerkleTreeBuilderError (H : Type) where
  | MismatchedRoots (proverRoot incrementalRoot : H)
  | ProverError (e : ProverError)

structure MerkleTreeBuilder (H : Type) where
  prover : Prover H
  incremental : IncrementalMerkle H

namespace MerkleTreeBuilder

def new (K : Keccak H) : MerkleTreeBuilder H := ⟨Prover.default K, IncrementalMerkle.default K⟩

/-- `get_proof` -/
def getProof (K : Keccak H) (b : MerkleTreeBuilder H) (leafIndex rootIndex : ℕ) :
    Option (Except (MerkleTreeBuilderError H) (Proof H)) :=
  (b.prover.proveAgainstPrevious K leafIndex rootIndex).map fun
    | .ok p => .ok p
    | .error e => .error (.ProverError e)

/-- `ingest_message_id`: the mutated builder and the result -/
def ingestMessageId [DecidableEq H] (K : Keccak H) (b : MerkleTreeBuilder H) (messageId : H) :
    Option (MerkleTreeBuilder H × Except (MerkleTreeBuilderError H) Unit) :=
  match b.prover.ingest K messageId with
  | some (.ok (prover, _)) =>
    match b.incremental.ingest K messageId with
    | none => none
    | some incremental =>
      some (⟨prover, incremental⟩,
        if prover.root = incremental.root K then .ok ()
        else .error (.MismatchedRoots prover.root (incremental.root K)))
  | _ => none

/-- ingest a list in order, whatever each call returns -/
def ingestMessageIds [DecidableEq H] (K : Keccak H) (b : MerkleTreeBuilder H) (L : List H) :
    Option (MerkleTreeBuilder H) :=
  L.foldlM (fun b x => (b.ingestMessageId K x).map Prod.fst) b

/-! ## The builder's invariant -/

/-- both trees of the builder hold exactly `L` -/
structure Represents (K : Keccak H) (b : MerkleTreeBuilder H) (L : List H) : Prop where
  incremental : b.incremental.Represents K L
  count_eq : b.prover.tree.count = L.length
  prover : b.prover.tree.Holds K (fun i => L.getD i K.zero)

theorem new_represents (K : Keccak H) : (new K).Represents K [] :=
  ⟨IncrementalMerkle.default_represents K, rfl, PackedMerkle.default_packed K _⟩

end MerkleTreeBuilder

/-- levels that hold the leaves of `L` hold those of every extension, up to the count -/
theorem PackedMerkle.Holds.extend {K : Keccak H} {t : PackedMerkle H} {L : List H} (hc : t.count = L.length)
    (h : t.Holds K (fun i => L.getD i K.zero)) (M : List H) : t.Holds K (fun i => (L ++ M).getD i K.zero) := by
  have hcut := upTo_getD_append L M K.zero
  have hlive : ∀ (i s : ℕ) (ls : List (Level H)), s * 2 ^ i ≤ L.length →
      PackedMerkle.Live K (fun i => L.getD i K.zero) i s ls →
      PackedMerkle.Live K (fun i => (L ++ M).getD i K.zero) i s ls := by
    intro i s ls
    induction ls generalizing i s with
    | nil => intro _ _; trivial
    | cons l ls ih =>
      rintro hs ⟨⟨h1, h2⟩, h3⟩
      refine ⟨⟨h1, fun k hk => ?_⟩, ih (i + 1) (s / 2) ?_ h3⟩
      · rw [h2 k hk, ← hcut, node_upTo_complete]
        exact (Nat.mul_le_mul_right _ hk).trans hs
      · calc s / 2 * 2 ^ (i + 1) = s / 2 * 2 * 2 ^ i := by rw [pow_succ]; ring
          _ ≤ s * 2 ^ i := Nat.mul_le_mul_right _ (Nat.div_mul_le_self s 2)
          _ ≤ L.length := hs
  refine ⟨hlive 0 t.count t.levels (by rw [hc]; simp) h.live, ?_⟩
  rw [h.root_eq, hc, hcut, upTo_getD L K.zero le_rfl]

namespace MerkleTreeBuilder

variable [DecidableEq H]

/-- a push beyond the frontier tree's capacity panics, so a successful call was within it -/
theorem ingestMessageId_room {K : Keccak H} {b b' : MerkleTreeBuilder H} {x : H}
    {r : Except (MerkleTreeBuilderError H) Unit} (h : b.ingestMessageId K x = some (b', r)) :
    b.incremental.count < U32_MAX := by
  unfold ingestMessageId at h
  split at h
  · split at h
    · cases h
    · rename_i incremental hinc
      by_contra hfull
      simp [IncrementalMerkle.ingest, hfull] at hinc
  · cases h

/-- **One step.** With room, ingesting succeeds without mismatch and both trees hold the longer list. -/
theorem ingestMessageId_represents {K : Keccak H} {b : MerkleTreeBuilder H} {L : List H} (h : b.Represents K L) (x : H)
    (hcap : L.length < U32_MAX) :
    ∃ b', b.ingestMessageId K x = some (b', .ok ()) ∧ b'.Represents K (L ++ [x]) := by
  have hU : U32_MAX < 2 ^ TREE_DEPTH := by decide
  obtain ⟨inc, hi1, hi2⟩ := h.incremental.ingest x hcap
  have hx : (L ++ [x]).getD b.prover.tree.count K.zero = x := by
    rw [h.count_eq]
    simp [List.getD_eq_getElem?_getD]
  obtain ⟨t, ht1, ht2, ht3⟩ := PackedMerkle.push_packed K (PackedMerkle.Holds.extend h.count_eq h.prover [x])
    (by rw [h.count_eq]; omega)
  simp only [hx] at ht1
  have hlen : t.count = (L ++ [x]).length := by rw [ht2, h.count_eq]; simp
  have hroot : t.root = inc.root K :=
    calc t.root = node K.concat (upTo (fun i => (L ++ [x]).getD i K.zero) K.zero (L ++ [x]).length) TREE_DEPTH 0 := by
          rw [ht3.root_eq, hlen]
      _ = K.merkleRoot (L ++ [x]) := by rw [upTo_getD _ K.zero le_rfl]; rfl
      _ = inc.root K := (hi2.root_eq (by simpa using hcap)).symm
  refine ⟨⟨⟨t⟩, inc⟩, ?_, hi2, hlen, ht3⟩
  have hp : b.prover.ingest K x = some (.ok (⟨t⟩, t.root)) := by simp [Prover.ingest, ht1]
  have hcmp : (Prover.mk t).root = inc.root K := hroot
  simp only [ingestMessageId, hp, hi1]
  rw [if_pos hcmp]

/-- **Every run.** Whatever the builder has ingested without panic, both its trees hold exactly that list. -/
theorem ingestMessageIds_represents {K : Keccak H} {b b' : MerkleTreeBuilder H} {L M : List H} (h : b.Represents K L)
    (hrun : b.ingestMessageIds K M = some b') : b'.Represents K (L ++ M) := by
  induction M generalizing b L with
  | nil =>
    simp only [ingestMessageIds, List.foldlM_nil] at hrun
    cases hrun
    simpa using h
  | cons x M ih =>
    simp only [ingestMessageIds, List.foldlM_cons, Option.bind_eq_bind, Option.bind_eq_some_iff] at hrun
    obtain ⟨b1, h1, h2⟩ := hrun
    obtain ⟨⟨b1', r⟩, hstep, rfl⟩ := Option.map_eq_some_iff.1 h1
    have hroom := ingestMessageId_room hstep
    rw [h.incremental.count_eq] at hroom
    obtain ⟨b2, hb2, hrep⟩ := ingestMessageId_represents h x hroom
    rw [hb2] at hstep
    cases hstep
    simpa using ih hrep h2

/-- within capacity the run does not panic -/
theorem ingestMessageIds_some {K : Keccak H} {b : MerkleTreeBuilder H} {L : List H} (h : b.Represents K L) (M : List H)
    (hcap : L.length + M.length ≤ U32_MAX) : ∃ b', b.ingestMessageIds K M = some b' := by
  induction M generalizing b L with
  | nil => exact ⟨b, rfl⟩
  | cons x M ih =>
    rw [List.length_cons] at hcap
    obtain ⟨b1, h1, h2⟩ := ingestMessageId_represents h x (by omega)
    obtain ⟨b', hb'⟩ := ih h2 (by rw [List.length_append, List.length_singleton]; omega)
    refine ⟨b', ?_⟩
    rw [ingestMessageIds, List.foldlM_cons, h1]
    exact hb'

end MerkleTreeBuilder

/-! ## Agreement -/

/-- **Agreement.** Every tree of the system has the plain root of the ingested list, and the builder, on every list it
can ingest, never reports mismatched roots. -/
theorem trees_agree [DecidableEq H] (K : Keccak H) (L : List H) :
    (L.length ≤ U32_MAX →
      (∃ t, IncrementalMerkle.ingestAll K (IncrementalMerkle.default K) L = some t ∧ t.root K = K.merkleRoot L) ∧
      (∃ t, (PackedMerkle.default K).pushAll K L = some (.ok t) ∧ t.root = K.merkleRoot L) ∧
      (∃ t, MerkleTree.pushAll K (.create K [] TREE_DEPTH) L TREE_DEPTH = .ok t ∧ t.hash K = K.merkleRoot L) ∧
      (MerkleTree.create K L TREE_DEPTH).hash K = K.merkleRoot L ∧
      (∃ t, MerkleLib.insertAll K (MerkleLib.zeroed K) L = some t ∧ MerkleLib.root K t = K.merkleRoot L) ∧
      ∃ b, (MerkleTreeBuilder.new K).ingestMessageIds K L = some b) ∧
    ∀ b, (MerkleTreeBuilder.new K).ingestMessageIds K L = some b →
      ∀ messageId b' r, b.ingestMessageId K messageId = some (b', r) → r = .ok () := by
  refine ⟨fun hcap => ?_, ?_⟩
  · have hcap' : L.length ≤ 2 ^ TREE_DEPTH := by unfold U32_MAX at hcap; unfold TREE_DEPTH; omega
    refine ⟨?_, ?_, ?_, MerkleTree.hash_create_top K L hcap', IncrementalMerkle.insertAll_zeroed K L hcap, ?_⟩
    · obtain ⟨t, h1, h2⟩ := IncrementalMerkle.ingestAll_default K L hcap
      exact ⟨t, h1, h2.root_eq hcap⟩
    · obtain ⟨t, h1, h2, h3⟩ := PackedMerkle.pushAll_default K L hcap'
      refine ⟨t, h1, ?_⟩
      rw [h3.root_eq, h2, upTo_getD L K.zero le_rfl]
      rfl
    · have hpush := MerkleTree.pushAll_create K [] L (by simpa using hcap')
      rw [List.nil_append] at hpush
      exact ⟨_, hpush, MerkleTree.hash_create_top K L hcap'⟩
    · exact MerkleTreeBuilder.ingestMessageIds_some (MerkleTreeBuilder.new_represents K) L (by simpa using hcap)
  · intro b hb messageId b' r hstep
    have hrep := MerkleTreeBuilder.ingestMessageIds_represents (MerkleTreeBuilder.new_represents K) hb
    rw [List.nil_append] at hrep
    have hroom := MerkleTreeBuilder.ingestMessageId_room hstep
    rw [hrep.incremental.count_eq] at hroom
    obtain ⟨b2, h2, _⟩ := MerkleTreeBuilder.ingestMessageId_represents hrep messageId hroom
    rw [h2] at hstep
    cases hstep
    rfl

theorem trees_agree_three :
    (∃ t, IncrementalMerkle.ingestAll toyKeccak (IncrementalMerkle.default toyKeccak) [7, 8, 9] = some t ∧
      t.root toyKeccak = toyKeccak.merkleRoot [7, 8, 9]) ∧
    ∃ b b' r, (MerkleTreeBuilder.new toyKeccak).ingestMessageIds toyKeccak [7, 8, 9] = some b ∧
      b.ingestMessageId toyKeccak 10 = some (b', r) ∧ r = .ok () := by
  have hag := trees_agree toyKeccak [7, 8, 9]
  obtain ⟨hinc, _, _, _, _, b, hb⟩ := hag.1 (by decide)
  have hrep := MerkleTreeBuilder.ingestMessageIds_represents (MerkleTreeBuilder.new_represents toyKeccak) hb
  obtain ⟨b', hb', _⟩ := MerkleTreeBuilder.ingestMessageId_represents hrep 10 (by decide)
  exact ⟨hinc, b, b', _, hb, hb', hag.2 b hb 10 b' _ hb'⟩

/-! ## Historical proofs -/

/-- a list that the packed tree holds fits into the tree -/
theorem PackedMerkle.pushAll_count {K : Keccak H} {t t' : PackedMerkle H} {L : List H}
    (h : t.pushAll K L = some (.ok t')) (hcap : t.count ≤ 2 ^ TREE_DEPTH) :
    t'.count = t.count + L.length ∧ t'.count ≤ 2 ^ TREE_DEPTH := by
  induction L generalizing t with
  | nil => simp only [pushAll] at h; cases h; exact ⟨rfl, hcap⟩
  | cons x xs ih =>
    have hstep : ∀ {t1}, t.push K x = some (.ok t1) → t.count < 2 ^ TREE_DEPTH ∧ t1.count = t.count + 1 := by
      intro t1 h1
      unfold push at h1
      split_ifs at h1 with hfull
      · cases h1
      · refine ⟨by omega, ?_⟩
        split at h1
        · cases h1
        · split at h1
          · cases h1
          · split at h1
            · cases h1; rfl
            · cases h1
    simp only [pushAll] at h
    split at h
    · rename_i t1 h1
      obtain ⟨hlt, hc⟩ := hstep h1
      have := ih h (by omega)
      rw [List.length_cons]
      omega
    · rename_i hno
      exact absurd h (hno t')

/-- **Historical proofs.** For every list the packed tree holds and all `leaf_index ≤ root_index < |L|`, the three ways
to prove a leaf against an earlier root return one proof, with the leaf asked for and the root of the prefix. -/
theorem historical_proofs_agree [DecidableEq H] (K : Keccak H) (L : List H) (t : PackedMerkle H)
    (ht : (PackedMerkle.default K).pushAll K L = some (.ok t)) (leafIndex rootIndex : ℕ)
    (hroot : rootIndex < L.length) (hle : leafIndex ≤ rootIndex) :
    ∃ full cut proof,
      MerkleTree.pushAll K (.create K [] TREE_DEPTH) L TREE_DEPTH = .ok full ∧
      MerkleTree.pushAll K (.create K [] TREE_DEPTH) (L.take (rootIndex + 1)) TREE_DEPTH = .ok cut ∧
      t.prove K leafIndex rootIndex = some proof ∧
      full.proveAgainstPrevious K leafIndex rootIndex = some proof ∧
      cut.proveAgainstCurrent K leafIndex = some proof ∧
      L[leafIndex]? = some proof.leaf ∧ proof.index = leafIndex ∧
      proof.root K = some (K.merkleRoot (L.take (rootIndex + 1))) := by
  have hcap : L.length ≤ 2 ^ TREE_DEPTH := by
    have := PackedMerkle.pushAll_count ht (Nat.zero_le _)
    have h0 : (PackedMerkle.default K).count = 0 := rfl
    omega
  obtain ⟨t', h1, h2, h3⟩ := PackedMerkle.pushAll_default K L hcap
  rw [ht] at h1
  cases h1
  have hlen : (L.take (rootIndex + 1)).length = rootIndex + 1 := by rw [List.length_take]; omega
  have hcapcut : (L.take (rootIndex + 1)).length ≤ 2 ^ TREE_DEPTH := by omega
  have hfull := MerkleTree.pushAll_create K [] L (by simpa using hcap)
  have hcut := MerkleTree.pushAll_create K [] (L.take (rootIndex + 1)) (by rw [List.length_nil]; omega)
  rw [List.nil_append] at hfull hcut
  have hleaf : leafIndex < L.length := by omega
  have hget : L.getD leafIndex K.zero = L[leafIndex] := by simp [List.getD_eq_getElem?_getD, hleaf]
  refine ⟨_, _, _, hfull, hcut, PackedMerkle.prove_packed K h3 (by omega) hle (by omega),
    MerkleTree.proveAgainstPrevious_create K L hcap hle hroot, ?_, ?_, rfl, ?_⟩
  · rw [MerkleTree.proveAgainstCurrent_create K _ hcapcut leafIndex (by omega)]
    rw [getD_take, List.getElem_take, hget]
  · rw [hget, List.getElem?_eq_getElem hleaf]
  · have hp := proof_root K (upTo (fun i => L.getD i K.zero) K.zero (rootIndex + 1)) leafIndex (by omega)
    have hself : upTo (fun i => L.getD i K.zero) K.zero (rootIndex + 1) leafIndex = L.getD leafIndex K.zero := by
      simp [upTo, Nat.lt_succ_of_le hle]
    rw [hself] at hp
    rw [hp, Keccak.merkleRoot, getD_take]

theorem historical_proofs_agree_three :
    ∃ t, (PackedMerkle.default toyKeccak).pushAll toyKeccak [7, 8, 9] = some (.ok t) ∧
      ∃ proof, t.prove toyKeccak 0 1 = some proof ∧ proof.root toyKeccak = some (toyKeccak.merkleRoot [7, 8]) := by
  obtain ⟨t, ht, _, _⟩ := PackedMerkle.pushAll_default toyKeccak [7, 8, 9] (by decide)
  obtain ⟨_, _, p, _, _, hp, _, _, _, _, hr⟩ :=
    historical_proofs_agree toyKeccak [7, 8, 9] t ht 0 1 (by decide) (by decide)
  exact ⟨t, ht, p, hp, hr⟩

/-- **`get_proof`.** On a builder that holds `L`, a request with `leaf_index ≤ root_index < |L|` gets the proof of that
leaf in the tree of the prefix; no request panics. -/
theorem MerkleTreeBuilder.getProof_represents {K : Keccak H} {b : MerkleTreeBuilder H} {L : List H}
    (h : b.Represents K L) (hcap : L.length ≤ U32_MAX) (leafIndex rootIndex : ℕ) :
    ∃ r, b.getProof K leafIndex rootIndex = some r ∧
      ∀ p, r = .ok p ↔ leafIndex ≤ rootIndex ∧ rootIndex < L.length ∧
        (MerkleTree.create K (L.take (rootIndex + 1)) TREE_DEPTH).proveAgainstCurrent K leafIndex = some p := by
  have hU : U32_MAX < 2 ^ TREE_DEPTH := by decide
  have hc : b.prover.count = L.length := h.count_eq
  unfold getProof Prover.proveAgainstPrevious
  rw [hc]
  split_ifs with h1 h2 h3
  · refine ⟨_, rfl, fun p => ⟨?_, fun hp => by omega⟩⟩
    rintro ⟨⟩
  · refine ⟨_, rfl, fun p => ⟨?_, fun hp => by omega⟩⟩
    rintro ⟨⟩
  · refine ⟨_, rfl, fun p => ⟨?_, fun hp => by omega⟩⟩
    rintro ⟨⟩
  · have hle : leafIndex ≤ rootIndex := by omega
    have hroot : rootIndex < b.prover.tree.count := by rw [h.count_eq]; omega
    have hp := PackedMerkle.prove_packed K h.prover (by rw [h.count_eq]; omega) hle hroot
    have hlen : (L.take (rootIndex + 1)).length = rootIndex + 1 := by rw [List.length_take]; omega
    rw [hp, MerkleTree.proveAgainstCurrent_create K _ (by omega) leafIndex (by omega), getD_take, List.getElem_take]
    refine ⟨_, rfl, fun p => ?_⟩
    have hleaf : leafIndex < L.length := by omega
    simp only [List.getD_eq_getElem?_getD, List.getElem?_eq_getElem hleaf, Option.getD_some, Except.ok.injEq,
      Option.some.injEq]
    exact ⟨fun he => ⟨by omega, by omega, he⟩, fun he => he.2.2⟩

end Hyperlane.Accumulator
