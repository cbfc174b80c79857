/-
The relayer prover's tree `PackedMerkle` (agents/relayer/src/prover/packed.rs): level h stores the roots of the
complete 2^h-leaf subtrees in chunks of 256 hashes. Roots and proofs, also historical ones, are recomputed from the
complete subtrees and zero hashes.

A `Level` carries its chunk layout as fields, so the indexing of `push` cannot go out of bounds. The model keeps every
panic of the source (`Level::get`, the two `expect`s) as `none` and the full tree as an error.

- `pushLevels_live`: a push appends one entry to every level whose next block became complete.
- `subtreeRoot_node`: on levels that hold n leaves, `subtree_root` at any earlier count never panics and gives the node
  of the tree cut at that count. Level entries never change, so this is also the historical root.
- `push_packed`, `pushAll_packed`: a push below capacity succeeds and its cached root is the plain root.
- `prove_packed`: `prove` gives the sibling nodes of the tree cut after `root_index`.
-/
import Hyperlane.Accumulator.Recursive

namespace Hyperlane.Accumulator

open Hyperlane.PerfectTree

variable {H : Type}

/-! ## Levels -/

abbrev HASHES_PER_CHUNK : ℕ := 256

/-- completed roots of one height, `len` of them, in chunks that are allocated whole -/
structure Level (H : Type) where
  chunks : List (List H)
  len : ℕ
  chunks_len : chunks.length = (len + 255) / 256
  chunk_len : ∀ c ∈ chunks, c.length = HASHES_PER_CHUNK

namespace Level

def default : Level H := ⟨[], 0, by simp, by simp⟩

/-- the chunks after the conditional allocation of `push` -/
def grown (K : Keccak H) (l : Level H) : List (List H) :=
  if l.len % HASHES_PER_CHUNK = 0 then l.chunks ++ [List.replicate HASHES_PER_CHUNK K.zero] else l.chunks

theorem grown_length (K : Keccak H) (l : Level H) : (l.grown K).length = (l.len + 1 + 255) / 256 := by
  unfold grown HASHES_PER_CHUNK
  have := l.chunks_len
  split_ifs with h
  · rw [List.length_append, List.length_singleton]; omega
  · omega

theorem grown_chunk (K : Keccak H) (l : Level H) : ∀ c ∈ l.grown K, c.length = HASHES_PER_CHUNK := by
  intro c hc
  unfold grown at hc
  split_ifs at hc with h
  · rcases List.mem_append.1 hc with hc | hc
    · exact l.chunk_len c hc
    · rw [List.mem_singleton] at hc; subst hc; simp
  · exact l.chunk_len c hc

def push (K : Keccak H) (l : Level H) (hash : H) : Level H where
  chunks := (l.grown K).modify (l.len / HASHES_PER_CHUNK) (fun c => c.set (l.len % HASHES_PER_CHUNK) hash)
  len := l.len + 1
  chunks_len := by rw [List.length_modify]; exact grown_length K l
  chunk_len := by
    intro c hc
    obtain ⟨j, hj⟩ := List.mem_iff_getElem?.1 hc
    rw [List.getElem?_modify] at hj
    obtain ⟨c', hc', rfl⟩ := Option.map_eq_some_iff.1 hj
    have := grown_chunk K l c' (List.mem_of_getElem? hc')
    split_ifs
    · simpa using this
    · exact this

/-- `get`; `none` is the `assert!(index < self.len)` -/
def get (l : Level H) (index : ℕ) : Option H :=
  if index < l.len then (l.chunks[index / HASHES_PER_CHUNK]?).bind (·[index % HASHES_PER_CHUNK]?) else none

theorem push_len (K : Keccak H) (l : Level H) (x : H) : (l.push K x).len = l.len + 1 := rfl

theorem get_push_self (K : Keccak H) (l : Level H) (x : H) : (l.push K x).get l.len = some x := by
  have hlt : l.len / 256 < (l.grown K).length := by rw [grown_length]; omega
  have hc := grown_chunk K l (l.grown K)[l.len / 256] (List.getElem_mem hlt)
  rw [get, if_pos (by rw [push_len]; omega)]
  simp only [push, HASHES_PER_CHUNK, List.getElem?_modify, List.getElem?_eq_getElem hlt]
  simp only [Option.map_eq_map, Option.map_some, if_true, Option.bind_some]
  rw [List.getElem?_set_self (by rw [hc]; unfold HASHES_PER_CHUNK; omega)]

theorem get_push_lt (K : Keccak H) (l : Level H) (x : H) {i : ℕ} (hi : i < l.len) :
    (l.push K x).get i = l.get i := by
  have hin : i / 256 < l.chunks.length := by rw [l.chunks_len]; omega
  have hg : (l.grown K)[i / 256]? = l.chunks[i / 256]? := by
    unfold grown
    split_ifs
    · exact List.getElem?_append_left hin
    · rfl
  rw [get, get, if_pos hi, if_pos (by rw [push_len]; omega)]
  simp only [push, HASHES_PER_CHUNK, List.getElem?_modify, hg, List.getElem?_eq_getElem hin]
  simp only [Option.map_eq_map, Option.map_some, Option.bind_some]
  split_ifs with h
  · -- the same chunk, another offset
    rw [List.getElem?_set_ne (by omega)]
  · rfl

end Level

/-! ## The packed tree -/

/-- `u64::saturating_add` -/
def satAdd64 (a b : ℕ) : ℕ := min (a + b) (2 ^ 64 - 1)

structure PackedMerkle (H : Type) where
  levels : List (Level H)
  count : ℕ
  root : H
  levels_len : levels.length = TREE_DEPTH + 1

namespace PackedMerkle

def default (K : Keccak H) : PackedMerkle H :=
  ⟨List.replicate (TREE_DEPTH + 1) Level.default, 0, K.zeroHashes TREE_DEPTH, by simp⟩

/-- the loop of `push` over the levels -/
def pushLevels (K : Keccak H) : List (Level H) → ℕ → H → Option (List (Level H))
  | [], _, _ => some []
  | level :: levels, size, x =>
    let level := level.push K x
    if size % 2 = 1 then some (level :: levels)
    else if level.len < 2 then none
    else
      match level.get (level.len - 2) with
      | none => none
      | some left => (pushLevels K levels (size / 2) (K.concat left x)).map (level :: ·)

/-- `subtree_root` of `count` leaves; `none` is a panic of `Level::get` or of the `expect` at height 0 -/
def subtreeRoot (K : Keccak H) (levels : List (Level H)) : ℕ → ℕ → ℕ → Option H
  | height, start, count =>
    if count ≤ start then some (K.zeroHashes height)
    else if satAdd64 start (2 ^ height) ≤ count then (levels[height]?).bind (·.get (start >>> height))
    else
      match height with
      | 0 => none
      | child + 1 =>
        match subtreeRoot K levels child start count, subtreeRoot K levels child (satAdd64 start (2 ^ child)) count with
        | some left, some right => some (K.concat left right)
        | _, _ => none

/-- `push`; the outer `none` is a panic -/
def push (K : Keccak H) (t : PackedMerkle H) (leaf : H) : Option (Except MerkleTreeError (PackedMerkle H)) :=
  if 2 ^ TREE_DEPTH ≤ t.count then some (.error .MerkleTreeFull)
  else
    match pushLevels K t.levels (t.count + 1) leaf with
    | none => none
    | some levels =>
      match subtreeRoot K levels TREE_DEPTH 0 (t.count + 1) with
      | none => none
      | some root =>
        if h : levels.length = TREE_DEPTH + 1 then some (.ok ⟨levels, t.count + 1, root, h⟩) else none

/-- the sibling subtree of `leaf_index` at each height, for the tree of `root_index + 1` leaves -/
def siblingAt (K : Keccak H) (t : PackedMerkle H) (leafIndex rootIndex : ℕ) (height : Fin TREE_DEPTH) : Option H :=
  subtreeRoot K t.levels height (((leafIndex >>> height.val) ^^^ 1) <<< height.val) (satAdd64 rootIndex 1)

/-- `prove`; `none` is a panic of one of the lookups -/
def prove (K : Keccak H) (t : PackedMerkle H) (leafIndex rootIndex : ℕ) : Option (Proof H) :=
  match (t.levels[0]?).bind (·.get leafIndex) with
  | none => none
  | some leaf =>
    if h : ∀ i, (t.siblingAt K leafIndex rootIndex i).isSome then
      some ⟨leaf, leafIndex, fun i => (t.siblingAt K leafIndex rootIndex i).get (h i)⟩
    else none

/-- push a list in order; a panic or an error ends it -/
def pushAll (K : Keccak H) (t : PackedMerkle H) : List H → Option (Except MerkleTreeError (PackedMerkle H))
  | [] => some (.ok t)
  | x :: xs =>
    match t.push K x with
    | some (.ok t') => pushAll K t' xs
    | other => other

/-! ## What the levels hold -/

/-- from level `i` on, with `s` complete blocks there: every level holds all its complete blocks -/
def Live (K : Keccak H) (leaf : ℕ → H) : ℕ → ℕ → List (Level H) → Prop
  | _, _, [] => True
  | i, s, l :: ls =>
    (l.len = s ∧ ∀ k < s, l.get k = some (node K.concat leaf i k)) ∧ Live K leaf (i + 1) (s / 2) ls

/-- **Push.** The loop appends block `s` to level `i` and, when that completes a pair, the parent to the next level. -/
theorem pushLevels_live (K : Keccak H) (leaf : ℕ → H) {i s : ℕ} {ls : List (Level H)} (h : Live K leaf i s ls)
    (hroom : s + 1 < 2 ^ ls.length) :
    ∃ ls', pushLevels K ls (s + 1) (node K.concat leaf i s) = some ls' ∧ ls'.length = ls.length ∧
      Live K leaf i (s + 1) ls' := by
  induction ls generalizing i s with
  | nil => simp at hroom
  | cons l ls ih =>
    obtain ⟨⟨hlen, hget⟩, ht⟩ := h
    have hpush : (l.push K (node K.concat leaf i s)).len = s + 1 ∧
        ∀ k < s + 1, (l.push K (node K.concat leaf i s)).get k = some (node K.concat leaf i k) := by
      refine ⟨by rw [Level.push_len, hlen], fun k hk => ?_⟩
      by_cases hks : k = s
      · subst hks; rw [← hlen, Level.get_push_self]
      · rw [Level.get_push_lt K l _ (by omega), hget k (by omega)]
    simp only [pushLevels]
    by_cases hodd : (s + 1) % 2 = 1
    · refine ⟨l.push K (node K.concat leaf i s) :: ls, by rw [if_pos hodd], by simp, hpush, ?_⟩
      rw [show (s + 1) / 2 = s / 2 by omega]
      exact ht
    · have hs : s % 2 = 1 := by omega
      have hroom' : s / 2 + 1 < 2 ^ ls.length := by
        rw [List.length_cons, pow_succ] at hroom
        omega
      obtain ⟨ls', h1, h2, h3⟩ := ih ht hroom'
      refine ⟨l.push K (node K.concat leaf i s) :: ls', ?_, by simp [h2], hpush, ?_⟩
      · rw [if_neg hodd, if_neg (by rw [hpush.1]; omega), hpush.1, show s + 1 - 2 = s - 1 by omega,
          hpush.2 (s - 1) (by omega), show (s + 1) / 2 = s / 2 + 1 by omega]
        simp only
        rw [node_parent_right K.concat leaf i hs, h1]
        rfl
      · rw [show (s + 1) / 2 = s / 2 + 1 by omega]
        exact h3

theorem live_lookup {K : Keccak H} {leaf : ℕ → H} {i s : ℕ} {ls : List (Level H)} (h : Live K leaf i s ls) {j k : ℕ}
    (hj : j < ls.length) (hk : k < s / 2 ^ j) : (ls[j]?).bind (·.get k) = some (node K.concat leaf (i + j) k) := by
  induction ls generalizing i s j with
  | nil => simp at hj
  | cons l ls ih =>
    obtain ⟨⟨_, hget⟩, ht⟩ := h
    cases j with
    | zero => simpa using hget k (by simpa using hk)
    | succ j =>
      have := ih ht (j := j) (by simpa using hj) (by rwa [Nat.div_div_eq_div_mul, ← pow_succ'])
      rw [List.getElem?_cons_succ, this, show i + 1 + j = i + (j + 1) by omega]

/-- **Subtree roots.** On levels that hold `n` leaves, the root of block (h, k) of the tree cut at any `count ≤ n`. -/
theorem subtreeRoot_node (K : Keccak H) (leaf : ℕ → H) {n count : ℕ} {ls : List (Level H)} (h : Live K leaf 0 n ls)
    (hcount : count ≤ n) (hn : n ≤ 2 ^ 32) (height k : ℕ) (hh : height < ls.length) (hcap : height ≤ 32) :
    subtreeRoot K ls height (k * 2 ^ height) count =
      some (node K.concat (upTo leaf K.zero count) height k) := by
  induction height generalizing k with
  | zero =>
    unfold subtreeRoot
    split_ifs with h1 h2
    · rw [node_upTo_empty K.concat leaf K.zero h1]; rfl
    · have hlk := live_lookup h hh (k := k) (by simp at h1 ⊢; omega)
      rw [Nat.shiftRight_zero, pow_zero, Nat.mul_one, hlk, Nat.zero_add, node_upTo_complete K.concat leaf K.zero
        (show (k + 1) * 2 ^ 0 ≤ count by simp at h1 ⊢; omega)]
    · simp [satAdd64] at h1 h2; omega
  | succ height ih =>
    have hpow : 2 ^ (height + 1) ≤ 2 ^ 32 := Nat.pow_le_pow_right (by norm_num) hcap
    have hpow' : 2 ^ height ≤ 2 ^ 32 := Nat.pow_le_pow_right (by norm_num) (by omega)
    unfold subtreeRoot
    split_ifs with h1 h2
    · rw [node_upTo_empty K.concat leaf K.zero h1]; rfl
    · -- complete at `count`: the stored root is the same node in the cut tree
      have hle : (k + 1) * 2 ^ (height + 1) ≤ count := by
        rw [Nat.add_mul, Nat.one_mul]
        unfold satAdd64 at h2
        omega
      have hlk := live_lookup h hh (k := k) (by
        rw [Nat.lt_iff_add_one_le, Nat.le_div_iff_mul_le (by positivity)]; exact hle.trans hcount)
      rw [Nat.shiftRight_eq_div_pow, Nat.mul_div_cancel _ (by positivity), hlk, Nat.zero_add,
        node_upTo_complete K.concat leaf K.zero hle]
    · have hsat : satAdd64 (k * 2 ^ (height + 1)) (2 ^ height) = (2 * k + 1) * 2 ^ height := by
        rw [block_mid, ← block_start]
        unfold satAdd64
        omega
      dsimp only
      rw [hsat, block_start, ih (2 * k) (by omega) (by omega), ih (2 * k + 1) (by omega) (by omega)]
      rfl

/-! ## Pushing and proving -/

/-- the tree holds the first `count` leaves of `leaf` and caches their root -/
structure Holds (K : Keccak H) (t : PackedMerkle H) (leaf : ℕ → H) : Prop where
  live : Live K leaf 0 t.count t.levels
  root_eq : t.root = node K.concat (upTo leaf K.zero t.count) TREE_DEPTH 0

theorem live_default (K : Keccak H) (leaf : ℕ → H) (i n : ℕ) :
    Live K leaf i 0 (List.replicate n (Level.default : Level H)) := by
  induction n generalizing i with
  | zero => trivial
  | succ n ih => exact ⟨⟨rfl, by simp⟩, ih (i + 1)⟩

theorem default_packed (K : Keccak H) (leaf : ℕ → H) : (default K).Holds K leaf :=
  ⟨live_default K leaf 0 _, (node_upTo_empty K.concat leaf K.zero (Nat.zero_le _)).symm⟩

theorem push_packed (K : Keccak H) {t : PackedMerkle H} {leaf : ℕ → H} (h : t.Holds K leaf)
    (hroom : t.count < 2 ^ TREE_DEPTH) :
    ∃ t', t.push K (leaf t.count) = some (.ok t') ∧ t'.count = t.count + 1 ∧ t'.Holds K leaf := by
  have hlen := t.levels_len
  obtain ⟨ls, h1, h2, h3⟩ := pushLevels_live K leaf h.live (by
    rw [hlen]; unfold TREE_DEPTH at hroom ⊢; omega)
  have hroot := subtreeRoot_node K leaf h3 le_rfl (by unfold TREE_DEPTH at hroom; omega) TREE_DEPTH 0
    (by rw [h2, hlen]; omega) le_rfl
  rw [Nat.zero_mul] at hroot
  refine ⟨⟨ls, t.count + 1, node K.concat (upTo leaf K.zero (t.count + 1)) TREE_DEPTH 0, h2.trans hlen⟩, ?_, rfl, h3, rfl⟩
  rw [push, if_neg (by omega)]
  simp only [node] at h1
  simp only [h1, hroot, h2.trans hlen, dif_pos]

theorem pushAll_packed (K : Keccak H) (leaf : ℕ → H) (m : ℕ) (t : PackedMerkle H) (ht : t.Holds K leaf)
    (hcap : t.count + m ≤ 2 ^ TREE_DEPTH) :
    ∃ t', t.pushAll K ((List.range m).map fun j => leaf (t.count + j)) = some (.ok t') ∧ t'.count = t.count + m ∧
      t'.Holds K leaf := by
  induction m generalizing t with
  | zero => exact ⟨t, rfl, rfl, ht⟩
  | succ m ih =>
    obtain ⟨t1, h1, hc1, hl1⟩ := push_packed K ht (by omega)
    obtain ⟨t2, h2, hc2, hl2⟩ := ih t1 hl1 (by omega)
    refine ⟨t2, ?_, by omega, hl2⟩
    rw [List.range_succ_eq_map, List.map_cons, List.map_map, pushAll, Nat.add_zero, h1, ← h2, hc1]
    simp only
    congr 2
    funext j
    simp only [Function.comp_apply]
    congr 1
    omega

/-- **The packed tree** of a list within capacity -/
theorem pushAll_default (K : Keccak H) (L : List H) (hcap : L.length ≤ 2 ^ TREE_DEPTH) :
    ∃ t, (default K).pushAll K L = some (.ok t) ∧ t.count = L.length ∧ t.Holds K (fun i => L.getD i K.zero) := by
  have hz : (default K).count = 0 := rfl
  obtain ⟨t, h1, h2, h3⟩ := pushAll_packed K (fun i => L.getD i K.zero) L.length _ (default_packed K _)
    (by rw [hz]; omega)
  rw [hz] at h1 h2
  simp only [Nat.zero_add] at h1 h2
  exact ⟨t, by rw [← h1, ← IncrementalMerkle.list_eq_map_range], h2, h3⟩

/-- **Historical proofs.** `prove` never panics below the count, and its path is the siblings of `leaf_index` in the
tree cut after `root_index`. -/
theorem prove_packed (K : Keccak H) {t : PackedMerkle H} {leaf : ℕ → H} (h : t.Holds K leaf)
    (hcap : t.count ≤ 2 ^ TREE_DEPTH) {leafIndex rootIndex : ℕ} (hle : leafIndex ≤ rootIndex)
    (hroot : rootIndex < t.count) :
    t.prove K leafIndex rootIndex = some ⟨leaf leafIndex, leafIndex,
      fun i => node K.concat (upTo leaf K.zero (rootIndex + 1)) i (sibling (leafIndex >>> i.val))⟩ := by
  have hsat : satAdd64 rootIndex 1 = rootIndex + 1 := by
    unfold satAdd64; unfold TREE_DEPTH at hcap; omega
  have hsib : ∀ i, t.siblingAt K leafIndex rootIndex i =
      some (node K.concat (upTo leaf K.zero (rootIndex + 1)) i (sibling (leafIndex >>> i.val))) := by
    intro i
    rw [siblingAt, hsat, sibling_eq_xor, Nat.shiftLeft_eq]
    exact subtreeRoot_node K leaf h.live (by omega) hcap i _ (by rw [t.levels_len]; omega) i.isLt.le
  have hleaf : (t.levels[0]?).bind (·.get leafIndex) = some (leaf leafIndex) := by
    simpa [node] using live_lookup h.live (j := 0) (k := leafIndex) (by rw [t.levels_len]; omega)
      (by rw [pow_zero, Nat.div_one]; omega)
  have hall : ∀ i, (t.siblingAt K leafIndex rootIndex i).isSome := fun i => by rw [hsib i]; rfl
  rw [prove, hleaf]
  simp only [dif_pos hall]
  congr 2
  funext i
  simp [hsib i]

end PackedMerkle

end Hyperlane.Accumulator
