/-
Perfect binary trees over an arbitrary pairing function, addressed by (height, block).

`node f leaf h k` is the root of the `k`-th subtree of height `h` over an infinite leaf sequence: it covers the leaves
`k * 2 ^ h` up to `(k + 1) * 2 ^ h - 1`. An append-only tree of depth `d` that holds the first `n` leaves, and zero
leaves after them, has root `node f (upTo leaf z n) d 0`. The structures that compute such a root differ only in which
nodes they keep, so every one of them is described by saying which (height, block) each stored value is.

- `node_congr`: a node depends only on the leaves of its block.
- `node_upTo_complete`: a block that ends at or before the count is the same in every extension of the tree.
- `node_upTo_empty`: a block that starts at or after the count is the zero hash of its height.
- `node_parent_left`, `node_parent_right`: hashing a node with its sibling gives the parent.
-/
import Mathlib.Tactic

namespace Hyperlane.PerfectTree

variable {H : Type}

/-! ## Nodes and zero hashes -/

/-- root of the `k`-th subtree of height `h` -/
def node (f : H → H → H) (leaf : ℕ → H) : ℕ → ℕ → H
  | 0, k => leaf k
  | h + 1, k => f (node f leaf h (2 * k)) (node f leaf h (2 * k + 1))

/-- the iterates of `f` on `z`: roots of the subtrees whose leaves are all `z` -/
def zeros (f : H → H → H) (z : H) : ℕ → H
  | 0 => z
  | h + 1 => f (zeros f z h) (zeros f z h)

/-- the first `n` leaves of a sequence, then `z` -/
def upTo (leaf : ℕ → H) (z : H) (n k : ℕ) : H := if k < n then leaf k else z

/-- the padded leaf sequence of a list, cut at `n`, is the padded leaf sequence of its prefix -/
theorem getD_take (L : List H) (z : H) (n : ℕ) :
    (fun i => (L.take n).getD i z) = upTo (fun i => L.getD i z) z n := by
  funext i
  unfold upTo
  split_ifs with h
  · simp [List.getD_eq_getElem?_getD, h]
  · simp [List.getD_eq_getElem?_getD, h]

theorem upTo_getD (L : List H) (z : H) {n : ℕ} (h : L.length ≤ n) :
    upTo (fun i => L.getD i z) z n = fun i => L.getD i z := by
  rw [← getD_take, List.take_of_length_le h]

/-- the leaves of a list do not change when the list is extended -/
theorem upTo_getD_append (L M : List H) (z : H) :
    upTo (fun i => (L ++ M).getD i z) z L.length = fun i => L.getD i z := by
  rw [← getD_take, List.take_left']
  rfl

/-! ## A node depends on its block only -/

theorem block_start (k h : ℕ) : k * 2 ^ (h + 1) = 2 * k * 2 ^ h := by ring

theorem block_mid (k h : ℕ) : (2 * k + 1) * 2 ^ h = 2 * k * 2 ^ h + 2 ^ h := by ring

theorem block_end (k h : ℕ) : (k + 1) * 2 ^ (h + 1) = 2 * k * 2 ^ h + 2 ^ h + 2 ^ h := by ring

theorem block_end' (k h : ℕ) : (2 * k + 1 + 1) * 2 ^ h = 2 * k * 2 ^ h + 2 ^ h + 2 ^ h := by ring

theorem node_congr (f : H → H → H) {leaf leaf' : ℕ → H} (h k : ℕ)
    (hl : ∀ i, k * 2 ^ h ≤ i → i < (k + 1) * 2 ^ h → leaf i = leaf' i) : node f leaf h k = node f leaf' h k := by
  induction h generalizing k with
  | zero => exact hl k (by simp) (by simp)
  | succ h ih =>
    have hl' : ∀ i, 2 * k * 2 ^ h ≤ i → i < 2 * k * 2 ^ h + 2 ^ h + 2 ^ h → leaf i = leaf' i := by
      rw [← block_end, ← block_start]
      exact hl
    simp only [node]
    rw [ih (2 * k), ih (2 * k + 1)]
    · intro i h1 h2
      rw [block_mid] at h1
      rw [block_end'] at h2
      exact hl' i (le_trans (Nat.le_add_right _ _) h1) h2
    · intro i h1 h2
      rw [block_mid] at h2
      exact hl' i h1 (lt_of_lt_of_le h2 (Nat.le_add_right _ _))

/-- a block that is full at count `n` is the same node in every later tree -/
theorem node_upTo_complete (f : H → H → H) (leaf : ℕ → H) (z : H) {n h k : ℕ} (hk : (k + 1) * 2 ^ h ≤ n) :
    node f (upTo leaf z n) h k = node f leaf h k := by
  apply node_congr
  intro i _ hi
  simp [upTo, show i < n by omega]

/-- a block that starts at or after the count is a zero hash -/
theorem node_upTo_empty (f : H → H → H) (leaf : ℕ → H) (z : H) {n h k : ℕ} (hk : n ≤ k * 2 ^ h) :
    node f (upTo leaf z n) h k = zeros f z h := by
  induction h generalizing k with
  | zero => simp only [node, zeros, upTo]; rw [if_neg (by simpa using hk)]
  | succ h ih =>
    rw [block_start] at hk
    simp only [node, zeros]
    rw [ih (k := 2 * k) hk, ih (k := 2 * k + 1) (by rw [block_mid]; exact le_trans hk (Nat.le_add_right _ _))]

/-! ## Parents -/

/-- an odd block is the right child of its parent -/
theorem node_parent_right (f : H → H → H) (leaf : ℕ → H) (h : ℕ) {k : ℕ} (hk : k % 2 = 1) :
    f (node f leaf h (k - 1)) (node f leaf h k) = node f leaf (h + 1) (k / 2) := by
  simp only [node]
  rw [show 2 * (k / 2) = k - 1 by omega, show k - 1 + 1 = k by omega]

/-- an even block is the left child of its parent -/
theorem node_parent_left (f : H → H → H) (leaf : ℕ → H) (h : ℕ) {k : ℕ} (hk : k % 2 = 0) :
    f (node f leaf h k) (node f leaf h (k + 1)) = node f leaf (h + 1) (k / 2) := by
  simp only [node]
  rw [show 2 * (k / 2) = k by omega]

end Hyperlane.PerfectTree
