/-
The two frontier trees: the Rust `IncrementalMerkle` (hyperlane-core/src/accumulator/incremental.rs) and the Solidity
`MerkleLib` (contracts/libs/Merkle.sol).

Both keep one branch slot per level and the leaf count. They differ in three ways: the Rust default fills the branch
with zero hashes while Solidity storage starts from zero words; the Rust root skips the trailing zero bits of the count
with a precomputed zero hash; and falling off the append loop is silent in Rust and an `assert(false)` in Solidity.
Keccak is a parameter (`Keccak`): one pairing function and the zero word, with `ZERO_HASHES` its iterates.

- `ingest_holds`, `insert_holds`: appending the next leaf keeps the live slots right.
- `root_holds`, `solRoot_holds`: the root is the root of the perfect tree padded with zero leaves, whatever the dead
  slots hold. So a tree restored from a snapshot is as good as one that was built leaf by leaf.
- `ingestAll_default`: the tree after any leaf list within capacity.
- `ingestAll_injective`: under an injective pairing the root of a run determines the leaves it ingested, from any start.
-/
import Hyperlane.Core.Frontier

namespace Hyperlane.Accumulator

open Hyperlane.PerfectTree Hyperlane.Frontier

variable {H : Type}

/-! ## Model -/

/-- `hash_concat` (also `hash_pair` and `keccak256(abi.encodePacked(..))`) and `H256::zero()` -/
structure Keccak (H : Type) where
  concat : H → H → H
  zero : H

/-- a pairing on numbers, for runs on fixed leaves -/
def toyKeccak : Keccak ℕ := ⟨fun a b => 3 * a + 5 * b + 1, 0⟩

/-- an injective pairing on numbers that keeps zero subtrees at zero -/
def pairKeccak : Keccak ℕ := ⟨fun a b => if b = 0 then 2 * a else 2 * Nat.pair a (b - 1) + 1, 0⟩

theorem pairKeccak_injective : Function.Injective2 pairKeccak.concat := by
  intro a c b d h
  simp only [pairKeccak] at h
  split_ifs at h with hb hd hd
  · omega
  · omega
  · omega
  · have hp := Nat.pair_eq_pair.1 (show Nat.pair a (b - 1) = Nat.pair c (d - 1) by omega)
    omega

abbrev TREE_DEPTH : ℕ := 32

abbrev U32_MAX : ℕ := 2 ^ 32 - 1

/-- `ZERO_HASHES[i]`, `Z_i` -/
def Keccak.zeroHashes (K : Keccak H) (i : ℕ) : H := zeros K.concat K.zero i

/-- the plain definition: the depth-32 perfect tree over the list's leaves, zero leaves after them -/
def Keccak.merkleRoot (K : Keccak H) (L : List H) : H := node K.concat (fun i => L.getD i K.zero) TREE_DEPTH 0

structure IncrementalMerkle (H : Type) where
  branch : List H
  count : ℕ
  branch_len : branch.length = TREE_DEPTH
deriving DecidableEq

namespace IncrementalMerkle

/-- `IncrementalMerkle::default` -/
def default (K : Keccak H) : IncrementalMerkle H := ⟨(List.range TREE_DEPTH).map K.zeroHashes, 0, by simp⟩

/-- write back the branch of the append loop -/
def withBranch (t : IncrementalMerkle H) (bs : List H) : IncrementalMerkle H :=
  if h : bs.length = TREE_DEPTH then ⟨bs, t.count + 1, h⟩ else { t with count := t.count + 1 }

/-- `ingest`; `none` is the `assert!(self.count < u32::MAX)` -/
def ingest (K : Keccak H) (t : IncrementalMerkle H) (element : H) : Option (IncrementalMerkle H) :=
  if t.count < U32_MAX then
    match carry K.concat t.branch (t.count + 1) element with
    | some bs => some (t.withBranch bs)
    | none => some { t with count := t.count + 1 }
  else none

/-- `usize::trailing_zeros` on a word of `bits` bits -/
def trailingZeros : ℕ → ℕ → ℕ
  | 0, _ => 0
  | bits + 1, n => if n % 2 = 1 then 0 else trailingZeros bits (n / 2) + 1

/-- `root` -/
def root (K : Keccak H) (t : IncrementalMerkle H) : H :=
  let skip := trailingZeros 64 t.count
  if TREE_DEPTH ≤ skip then K.zeroHashes TREE_DEPTH
  else climb K.concat K.zeroHashes skip (t.branch.drop skip) (t.count >>> skip) (K.zeroHashes skip)

/-- `index`; `none` is the `assert!(self.count > 0)` -/
def index (t : IncrementalMerkle H) : Option ℕ := if t.count = 0 then none else some (t.count % 2 ^ 32 - 1)

/-- ingest a list in order -/
def ingestAll (K : Keccak H) (t : IncrementalMerkle H) (L : List H) : Option (IncrementalMerkle H) :=
  L.foldlM (ingest K) t

end IncrementalMerkle

namespace MerkleLib

/-- `MerkleLib.Tree` has the shape of the Rust tree -/
abbrev Tree (H : Type) := IncrementalMerkle H

abbrev MAX_LEAVES : ℕ := 2 ^ TREE_DEPTH - 1

/-- zeroed storage -/
def zeroed (K : Keccak H) : Tree H := ⟨List.replicate TREE_DEPTH K.zero, 0, by simp⟩

/-- `MerkleLib.insert`; `none` is a revert (`merkle tree full`, or the closing `assert(false)`) -/
def insert (K : Keccak H) (t : Tree H) (node : H) : Option (Tree H) :=
  if t.count < MAX_LEAVES then (carry K.concat t.branch (t.count + 1) node).map t.withBranch else none

/-- the loop of `rootWithCtx` from level `i`: the bit is `(_index >> i) & 1` -/
def rootLoop (K : Keccak H) (zeroes : ℕ → H) : ℕ → List H → ℕ → H → H
  | _, [], _, current => current
  | i, next :: rest, index, current =>
    rootLoop K zeroes (i + 1) rest index
      (if (index >>> i) &&& 1 = 1 then K.concat next current else K.concat current (zeroes i))

/-- `rootWithCtx`: the return variable starts as the zero word -/
def rootWithCtx (K : Keccak H) (t : Tree H) (zeroes : ℕ → H) : H := rootLoop K zeroes 0 t.branch t.count K.zero

/-- `MerkleLib.root`, with `zeroHashes()` -/
def root (K : Keccak H) (t : Tree H) : H := rootWithCtx K t K.zeroHashes

def insertAll (K : Keccak H) (t : Tree H) (L : List H) : Option (Tree H) := L.foldlM (insert K) t

end MerkleLib

/-! ## The live slots -/

namespace IncrementalMerkle

/-- `t` holds the first `t.count` leaves of `leaf` -/
def Holds (K : Keccak H) (t : IncrementalMerkle H) (leaf : ℕ → H) : Prop := Live K.concat leaf 0 t.count t.branch

/-- `t` holds exactly the leaves of `L` -/
structure Represents (K : Keccak H) (t : IncrementalMerkle H) (L : List H) : Prop where
  count_eq : t.count = L.length
  holds : t.Holds K (fun i => L.getD i K.zero)

theorem withBranch_eq {t : IncrementalMerkle H} {bs : List H} (h : bs.length = t.branch.length) :
    (t.withBranch bs).branch = bs ∧ (t.withBranch bs).count = t.count + 1 := by
  rw [t.branch_len] at h
  simp [withBranch, h]

/-- a live tree with room: the append loop writes a slot, and the result is live -/
theorem carry_holds (K : Keccak H) {t : IncrementalMerkle H} {leaf : ℕ → H} (h : t.Holds K leaf)
    (hroom : t.count < U32_MAX) :
    ∃ bs, carry K.concat t.branch (t.count + 1) (leaf t.count) = some bs ∧ (t.withBranch bs).count = t.count + 1 ∧
      (t.withBranch bs).Holds K leaf := by
  have hlen : t.count + 1 < 2 ^ t.branch.length := by
    rw [t.branch_len]
    unfold TREE_DEPTH
    unfold U32_MAX at hroom
    omega
  obtain ⟨bs, hbs, hl⟩ := carry_live K.concat leaf h hlen
  obtain ⟨h1, h2⟩ := withBranch_eq (carry_length hbs)
  refine ⟨bs, hbs, h2, ?_⟩
  unfold Holds
  rw [h1, h2]
  exact hl

theorem ingest_holds (K : Keccak H) {t : IncrementalMerkle H} {leaf : ℕ → H} (h : t.Holds K leaf)
    (hroom : t.count < U32_MAX) :
    ∃ t', ingest K t (leaf t.count) = some t' ∧ t'.count = t.count + 1 ∧ t'.Holds K leaf := by
  obtain ⟨bs, hbs, h1, h2⟩ := carry_holds K h hroom
  refine ⟨t.withBranch bs, ?_, h1, h2⟩
  simp [ingest, hroom, hbs]

theorem insert_holds (K : Keccak H) {t : MerkleLib.Tree H} {leaf : ℕ → H} (h : t.Holds K leaf)
    (hroom : t.count < MerkleLib.MAX_LEAVES) :
    ∃ t', MerkleLib.insert K t (leaf t.count) = some t' ∧ t'.count = t.count + 1 ∧ t'.Holds K leaf := by
  obtain ⟨bs, hbs, h1, h2⟩ := carry_holds K h hroom
  refine ⟨t.withBranch bs, ?_, h1, h2⟩
  simp only [MerkleLib.insert]
  rw [if_pos hroom, hbs]
  rfl

/-! ## The root -/

theorem trailingZeros_dvd (bits n : ℕ) : 2 ^ trailingZeros bits n ∣ n := by
  induction bits generalizing n with
  | zero => simp [trailingZeros]
  | succ bits ih =>
    unfold trailingZeros
    split_ifs with h
    · simp
    · rw [pow_succ']
      have h2 : n = 2 * (n / 2) := by omega
      rw [h2]
      exact Nat.mul_dvd_mul_left 2 (by simpa using ih (n / 2))

theorem live_drop {f : H → H → H} {leaf : ℕ → H} {i s : ℕ} {bs : List H} (h : Live f leaf i s bs) (k : ℕ) :
    Live f leaf (i + k) (s / 2 ^ k) (bs.drop k) := by
  induction k generalizing i s bs with
  | zero => simpa using h
  | succ k ih =>
    cases bs with
    | nil => simp [Live]
    | cons b bs =>
      have := ih h.2
      rwa [Nat.div_div_eq_div_mul, ← pow_succ', show i + 1 + k = i + (k + 1) by omega] at this

/-- **Rust root.** Skipping the trailing zero bits gives the same root as the plain definition. -/
theorem root_holds (K : Keccak H) {t : IncrementalMerkle H} {leaf : ℕ → H} (h : t.Holds K leaf)
    (hcap : t.count < 2 ^ 32) : t.root K = node K.concat (upTo leaf K.zero t.count) TREE_DEPTH 0 := by
  have hdvd := trailingZeros_dvd 64 t.count
  unfold root
  set skip := trailingZeros 64 t.count
  by_cases hs : TREE_DEPTH ≤ skip
  · -- every level of the tree is skipped: the count is zero
    have h0 : t.count = 0 :=
      Nat.eq_zero_of_dvd_of_lt ((pow_dvd_pow 2 hs).trans hdvd) hcap
    simp only [if_pos hs, h0]
    rw [node_upTo_empty K.concat leaf K.zero (by simp)]
    rfl
  · simp only [if_neg hs]
    have hlive := live_drop h skip
    rw [Nat.zero_add] at hlive
    have hacc : K.zeroHashes skip = node K.concat (upTo leaf K.zero t.count) skip (t.count / 2 ^ skip) := by
      rw [node_upTo_empty K.concat leaf K.zero (Nat.div_mul_cancel hdvd).ge]
      rfl
    have hlen : skip + (t.branch.drop skip).length = TREE_DEPTH := by
      rw [List.length_drop, t.branch_len]
      omega
    rw [Nat.shiftRight_eq_div_pow, hacc]
    have hroot := climb_live K.concat leaf K.zero t.count hlive
    rw [hlen, Nat.div_eq_of_lt hcap] at hroot
    exact hroot

theorem and_one_eq (n : ℕ) : n &&& 1 = n % 2 := Nat.and_one_is_mod n

/-- the Solidity loop shifts the count by the level where the Rust loop halves it -/
theorem rootLoop_eq_climb (K : Keccak H) (zeroes : ℕ → H) (i : ℕ) (bs : List H) (n : ℕ) (x : H) :
    MerkleLib.rootLoop K zeroes i bs n x = climb K.concat zeroes i bs (n / 2 ^ i) x := by
  induction bs generalizing i x with
  | nil => rfl
  | cons b bs ih =>
    rw [MerkleLib.rootLoop, climb, ih, and_one_eq, Nat.shiftRight_eq_div_pow, Nat.div_div_eq_div_mul, pow_succ]

/-- **Solidity root.** -/
theorem solRoot_holds (K : Keccak H) {t : MerkleLib.Tree H} {leaf : ℕ → H} (h : t.Holds K leaf)
    (hcap : t.count < 2 ^ 32) : MerkleLib.root K t = node K.concat (upTo leaf K.zero t.count) TREE_DEPTH 0 := by
  have hacc : K.zero = node K.concat (upTo leaf K.zero t.count) 0 (t.count / 2 ^ 0) := by
    simp [node, upTo]
  have hroot := climb_live K.concat leaf K.zero t.count (i := 0) (by simpa [Holds] using h)
  rw [← hacc, Nat.zero_add, t.branch_len, Nat.div_eq_of_lt hcap] at hroot
  rw [MerkleLib.root, MerkleLib.rootWithCtx, rootLoop_eq_climb]
  exact hroot

/-! ## Whole leaf lists -/

theorem default_holds (K : Keccak H) (leaf : ℕ → H) : (default K).Holds K leaf := live_zero K.concat leaf 0 _

theorem zeroed_holds (K : Keccak H) (leaf : ℕ → H) : (MerkleLib.zeroed K).Holds K leaf :=
  live_zero K.concat leaf 0 _

/-- any append step that keeps the live slots right ingests a whole list -/
theorem foldlM_holds (K : Keccak H) (step : IncrementalMerkle H → H → Option (IncrementalMerkle H))
    (hstep : ∀ (t : IncrementalMerkle H) (leaf : ℕ → H), t.Holds K leaf → t.count < U32_MAX →
      ∃ t', step t (leaf t.count) = some t' ∧ t'.count = t.count + 1 ∧ t'.Holds K leaf)
    (leaf : ℕ → H) (m : ℕ) (t : IncrementalMerkle H) (ht : t.Holds K leaf) (hcap : t.count + m ≤ U32_MAX) :
    ∃ t', ((List.range m).map (fun j => leaf (t.count + j))).foldlM step t = some t' ∧ t'.count = t.count + m ∧
      t'.Holds K leaf := by
  induction m generalizing t with
  | zero => exact ⟨t, rfl, by simp, ht⟩
  | succ m ih =>
    obtain ⟨t1, h1, hc1, hl1⟩ := hstep t leaf ht (by omega)
    obtain ⟨t2, h2, hc2, hl2⟩ := ih t1 hl1 (by omega)
    refine ⟨t2, ?_, by omega, hl2⟩
    rw [List.range_succ_eq_map, List.map_cons, List.foldlM_cons, Nat.add_zero, h1, List.map_map]
    rw [← h2, hc1]
    simp only [Option.bind_eq_bind, Option.bind_some]
    congr 2
    funext j
    simp only [Function.comp_apply]
    congr 1
    omega

theorem list_eq_map_range (L : List H) (z : H) : L = (List.range L.length).map (fun j => L.getD j z) := by
  apply List.ext_getElem
  · simp
  · intro i h1 h2
    simp [List.getD_eq_getElem?_getD, h1]

/-- the leaves of `M` are the leaves of `L ++ M` from `L.length` on -/
theorem suffix_eq_map_range (L M : List H) (z : H) :
    M = (List.range M.length).map (fun j => (L ++ M).getD (L.length + j) z) := by
  apply List.ext_getElem
  · simp
  · intro i h1 h2
    simp [List.getD_eq_getElem?_getD, List.getElem?_append_right, h1]

/-- a represented tree holds the leaves of every extension of its list -/
theorem Represents.extend {K : Keccak H} {t : IncrementalMerkle H} {L : List H} (h : t.Represents K L) (M : List H) :
    t.Holds K (fun i => (L ++ M).getD i K.zero) := by
  have hleaf : ∀ k < t.count, L.getD k K.zero = (L ++ M).getD k K.zero := by
    intro k hk
    rw [h.count_eq] at hk
    simp [List.getD_eq_getElem?_getD, List.getElem?_append_left hk]
  have hlive : Live K.concat (fun i => L.getD i K.zero) 0 (t.count / 2 ^ 0) t.branch := by
    simpa [Holds] using h.holds
  simpa [Holds] using hlive.congr hleaf

/-- a represented tree that ingests `M` represents `L ++ M` -/
theorem Represents.ingestAll {K : Keccak H} {t : IncrementalMerkle H} {L : List H} (h : t.Represents K L)
    (M : List H) (hcap : L.length + M.length ≤ U32_MAX) :
    ∃ t', IncrementalMerkle.ingestAll K t M = some t' ∧ t'.Represents K (L ++ M) := by
  have hl := h.extend M
  obtain ⟨t', h1, h2, h3⟩ := foldlM_holds K (ingest K) (fun _ _ => ingest_holds K) _ M.length t hl
    (by rw [h.count_eq]; exact hcap)
  refine ⟨t', ?_, by rw [h2, h.count_eq, List.length_append], h3⟩
  rw [IncrementalMerkle.ingestAll, ← h1, h.count_eq, ← suffix_eq_map_range]

theorem Represents.ingest {K : Keccak H} {t : IncrementalMerkle H} {L : List H} (h : t.Represents K L) (x : H)
    (hcap : L.length < U32_MAX) :
    ∃ t', IncrementalMerkle.ingest K t x = some t' ∧ t'.Represents K (L ++ [x]) := by
  obtain ⟨t', h1, h2⟩ := h.ingestAll [x] (by simpa using hcap)
  refine ⟨t', ?_, h2⟩
  simpa [IncrementalMerkle.ingestAll, List.foldlM] using h1

/-- an insertion on chain -/
theorem Represents.insert {K : Keccak H} {t : MerkleLib.Tree H} {L : List H} (h : t.Represents K L) (x : H)
    (hcap : L.length < MerkleLib.MAX_LEAVES) :
    ∃ t', MerkleLib.insert K t x = some t' ∧ t'.Represents K (L ++ [x]) := by
  obtain ⟨t', h1, h2, h3⟩ := insert_holds K (h.extend [x]) (by rw [h.count_eq]; exact hcap)
  refine ⟨t', ?_, by rw [h2, h.count_eq, List.length_append, List.length_singleton], h3⟩
  rw [← h1, h.count_eq]
  simp [List.getD_eq_getElem?_getD]

theorem Represents.solRoot_eq {K : Keccak H} {t : MerkleLib.Tree H} {L : List H} (h : t.Represents K L)
    (hcap : L.length ≤ U32_MAX) : MerkleLib.root K t = K.merkleRoot L := by
  have hlt : t.count < 2 ^ 32 := by
    rw [h.count_eq]
    exact Nat.lt_of_le_of_lt hcap (by decide)
  rw [solRoot_holds K h.holds hlt, h.count_eq, upTo_getD L K.zero le_rfl]
  rfl

theorem zeroed_represents (K : Keccak H) : (MerkleLib.zeroed K).Represents K [] := ⟨rfl, zeroed_holds K _⟩

theorem Represents.root_eq {K : Keccak H} {t : IncrementalMerkle H} {L : List H} (h : t.Represents K L)
    (hcap : L.length ≤ U32_MAX) : t.root K = K.merkleRoot L := by
  have hlt : t.count < 2 ^ 32 := by rw [h.count_eq]; unfold U32_MAX at hcap; omega
  rw [root_holds K h.holds hlt, h.count_eq, upTo_getD L K.zero le_rfl]
  rfl

theorem default_represents (K : Keccak H) : (default K).Represents K [] := ⟨rfl, default_holds K _⟩

/-! ## Runs from any frontier -/

theorem ingest_count {K : Keccak H} {t t' : IncrementalMerkle H} {x : H} (h : ingest K t x = some t') :
    t'.count = t.count + 1 ∧ t'.count ≤ U32_MAX := by
  unfold ingest at h
  split_ifs at h with hroom
  split at h
  · cases h
    unfold withBranch
    split_ifs <;> exact ⟨rfl, hroom⟩
  · cases h
    exact ⟨rfl, hroom⟩

theorem ingestAll_append {K : Keccak H} {t t' : IncrementalMerkle H} {S T : List H} (h : ingestAll K t S = some t') :
    ingestAll K t (S ++ T) = ingestAll K t' T := by
  rw [ingestAll, List.foldlM_append, show S.foldlM (ingest K) t = some t' from h]
  rfl

theorem ingestAll_concat {K : Keccak H} {t t' : IncrementalMerkle H} {S : List H} {x : H} :
    ingestAll K t (S ++ [x]) = some t' ↔ ∃ u, ingestAll K t S = some u ∧ ingest K u x = some t' := by
  rw [ingestAll, List.foldlM_append, Option.bind_eq_bind, Option.bind_eq_some_iff]
  simp [ingestAll]

theorem ingestAll_count {K : Keccak H} {t t' : IncrementalMerkle H} {S : List H} (h : ingestAll K t S = some t') :
    t'.count = t.count + S.length ∧ (t.count ≤ U32_MAX → t'.count ≤ U32_MAX) := by
  induction S using List.reverseRecOn generalizing t' with
  | nil => cases h; exact ⟨rfl, id⟩
  | append_singleton S x ih =>
    obtain ⟨u, hu, hx⟩ := ingestAll_concat.1 h
    obtain ⟨h1, h2⟩ := ingest_count hx
    obtain ⟨h3, _⟩ := ih hu
    refine ⟨?_, fun _ => h2⟩
    rw [h1, h3, List.length_append, List.length_singleton]
    omega

/-- equal roots at equal counts: the live slots agree -/
theorem agree_of_root_eq {K : Keccak H} (hf : Function.Injective2 K.concat) {t u : IncrementalMerkle H}
    (hc : t.count = u.count) (hcap : t.count ≤ U32_MAX) (h : t.root K = u.root K) :
    Agree t.count t.branch u.branch := by
  have hdvd := trailingZeros_dvd 64 t.count
  unfold root at h
  rw [← hc] at h
  set skip := trailingZeros 64 t.count
  by_cases hs : TREE_DEPTH ≤ skip
  · have h0 : t.count = 0 :=
      Nat.eq_zero_of_dvd_of_lt ((pow_dvd_pow 2 hs).trans hdvd) (lt_of_le_of_lt hcap (by decide))
    rw [h0]
    exact agree_zero (t.branch_len.trans u.branch_len.symm)
  · simp only [if_neg hs] at h
    have hlen : (t.branch.drop skip).length = (u.branch.drop skip).length := by
      rw [List.length_drop, List.length_drop, t.branch_len, u.branch_len]
    have hag := (climb_injective hf _ hlen h).2
    rw [Nat.shiftRight_eq_div_pow] at hag
    exact agree_of_drop (t.branch_len.trans u.branch_len.symm) hdvd hag

/-- an append after which the live slots agree added the same leaf to frontiers that agreed -/
theorem agree_of_ingest {K : Keccak H} (hf : Function.Injective2 K.concat) {t u t' u' : IncrementalMerkle H} {x y : H}
    (hc : t.count = u.count) (ht : ingest K t x = some t') (hu : ingest K u y = some u')
    (h : Agree t'.count t'.branch u'.branch) : x = y ∧ Agree t.count t.branch u.branch := by
  unfold ingest at ht hu
  rw [← hc] at hu
  split_ifs at ht hu with hroom
  obtain ⟨bs, hbs⟩ := carry_some K.concat t.branch x (s := t.count + 1) (by omega)
    (by rw [t.branch_len]; unfold U32_MAX at hroom; unfold TREE_DEPTH; omega)
  obtain ⟨cs, hcs⟩ := carry_some K.concat u.branch y (s := t.count + 1) (by omega)
    (by rw [u.branch_len]; unfold U32_MAX at hroom; unfold TREE_DEPTH; omega)
  rw [hbs] at ht
  rw [hcs] at hu
  cases ht
  cases hu
  rw [(withBranch_eq (carry_length hbs)).1, (withBranch_eq (carry_length hbs)).2,
    (withBranch_eq (carry_length hcs)).1] at h
  exact carry_injective hf (Nat.succ_pos _) hbs hcs h

/-- **Roots determine leaves.** Under an injective pairing, two runs of equal length from one frontier, whatever it
holds, that end in the same root have ingested the same leaves. -/
theorem ingestAll_injective {K : Keccak H} (hf : Function.Injective2 K.concat) {t0 t u : IncrementalMerkle H}
    {S T : List H} (hcap : t0.count ≤ U32_MAX) (ht : ingestAll K t0 S = some t) (hu : ingestAll K t0 T = some u)
    (hlen : S.length = T.length) (hroot : t.root K = u.root K) : S = T := by
  have hcount : t.count = u.count := by rw [(ingestAll_count ht).1, (ingestAll_count hu).1, hlen]
  have hag := agree_of_root_eq hf hcount ((ingestAll_count ht).2 hcap) hroot
  clear hroot
  induction S using List.reverseRecOn generalizing t u T with
  | nil => exact (List.length_eq_zero_iff.1 hlen.symm).symm
  | append_singleton S x ih =>
    obtain ⟨T, y, rfl⟩ : ∃ T' y, T = T' ++ [y] := by
      refine ⟨T.dropLast, T.getLast ?_, (List.dropLast_append_getLast _).symm⟩
      rintro rfl
      simp at hlen
    obtain ⟨t1, ht1, hx⟩ := ingestAll_concat.1 ht
    obtain ⟨u1, hu1, hy⟩ := ingestAll_concat.1 hu
    have hlen' : S.length = T.length := by simpa using hlen
    have hc1 : t1.count = u1.count := by rw [(ingestAll_count ht1).1, (ingestAll_count hu1).1, hlen']
    obtain ⟨hxy, hag1⟩ := agree_of_ingest hf hc1 hx hy hag
    rw [ih ht1 hu1 hlen' hc1 hag1, hxy]

/-! ## From the default tree -/

/-- **The Rust frontier tree.** Within capacity, ingesting `L` succeeds and the root is the plain one. -/
theorem ingestAll_default (K : Keccak H) (L : List H) (hcap : L.length ≤ U32_MAX) :
    ∃ t, ingestAll K (default K) L = some t ∧ t.Represents K L := by
  simpa using (default_represents K).ingestAll L (by simpa using hcap)

/-- **The Solidity frontier tree**, from zeroed storage -/
theorem insertAll_zeroed (K : Keccak H) (L : List H) (hcap : L.length ≤ U32_MAX) :
    ∃ t, MerkleLib.insertAll K (MerkleLib.zeroed K) L = some t ∧ MerkleLib.root K t = K.merkleRoot L := by
  have hz : (MerkleLib.zeroed K).count = 0 := rfl
  obtain ⟨t, h1, h2, h3⟩ := foldlM_holds K (MerkleLib.insert K) (fun _ _ => insert_holds K)
    (fun i => L.getD i K.zero) L.length _ (zeroed_holds K _) (by rw [hz]; omega)
  rw [hz] at h1 h2
  simp only [Nat.zero_add] at h1 h2
  have hlt : t.count < 2 ^ 32 := by rw [h2]; unfold U32_MAX at hcap; omega
  refine ⟨t, ?_, ?_⟩
  · rw [MerkleLib.insertAll, ← h1, ← list_eq_map_range]
  · rw [solRoot_holds K h3 hlt, h2, upTo_getD L K.zero le_rfl]
    rfl

end IncrementalMerkle

end Hyperlane.Accumulator
