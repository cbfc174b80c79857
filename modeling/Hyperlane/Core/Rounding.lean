/-
Rounded products with a fraction: `down n d` is multiplication by `n / d` rounded down, `up n d` its inverse rounded up.

The two form a Galois connection, and with it the rest is order theory: `up` is the least preimage, going down and up
again never gains, and going down, up and down is going down once.

- `gc`: the connection.
- `up_mul_lt`: rounding up costs less than one unit.
- `down_down_le`: two roundings down in a row against the exact product.
-/
import Mathlib.Tactic
import Mathlib.Order.GaloisConnection.Basic

namespace Hyperlane.Rounding

def down (n d x : ℕ) : ℕ := x * n / d

def up (n d y : ℕ) : ℕ := (y * d + n - 1) / n

variable {n d n' d' x y : ℕ}

theorem up_le_iff (hn : 0 < n) : up n d y ≤ x ↔ y * d ≤ x * n := by
  rw [up, Nat.div_le_iff_le_mul_add_pred hn, Nat.mul_comm n x]
  omega

theorem le_down_iff (hd : 0 < d) : y ≤ down n d x ↔ y * d ≤ x * n := Nat.le_div_iff_mul_le hd

theorem gc (hn : 0 < n) (hd : 0 < d) : GaloisConnection (up n d) (down n d) :=
  fun _ _ => (up_le_iff hn).trans (le_down_iff hd).symm

theorem down_mul_le (n d x : ℕ) : down n d x * d ≤ x * n := Nat.div_mul_le_self _ _

theorem up_mul_lt (hn : 0 < n) : up n d y * n < y * d + n := by
  have hle : up n d y * n ≤ y * d + n - 1 := Nat.div_mul_le_self _ _
  omega

/-- what is left of an amount that is rounded down twice, for two fractions whose ratio is that of two units -/
theorem down_down_le {u v : ℕ} (hd : 0 < d) (hn' : 0 < n') (hunits : n * u * d' = n' * v * d) :
    down d' n' (down n d x) * u ≤ x * v := by
  have hfirst := down_mul_le n d x
  have hsecond := down_mul_le d' n' (down n d x)
  have hpos : 0 < n' * d := Nat.mul_pos hn' hd
  refine Nat.le_of_mul_le_mul_right ?_ hpos
  calc down d' n' (down n d x) * u * (n' * d) = down d' n' (down n d x) * n' * (d * u) := by ring
    _ ≤ down n d x * d' * (d * u) := Nat.mul_le_mul_right _ hsecond
    _ = down n d x * d * (d' * u) := by ring
    _ ≤ x * n * (d' * u) := Nat.mul_le_mul_right _ hfirst
    _ = x * (n * u * d') := by ring
    _ = x * v * (n' * d) := by rw [hunits]; ring

end Hyperlane.Rounding
