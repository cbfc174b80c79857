/-
The three curves of both chains: `FeeDataStrategy::compute_fee` (programs/hyperlane-sealevel-fee/src/fee_math.rs) and the
contracts LinearFee, RegressiveFee and ProgressiveFee (solidity/contracts/token/fees).

The regressive and the progressive curve are one curve `m * x / (k + x)`, of the amount and of its square. The floor of it
stays below `m` and grows with `x`, as a step of `x` adds at most `m` times the step to the numerator.

- `saturating_lt`, `saturating_mono`: the curve over all naturals.
- `computeFee_agrees`: 64-bit parameters stay within the checks of both chains.
- `fee_curves`: agreement, bounds and order.
-/
import Hyperlane.Fee.FeeAgreement

namespace Hyperlane.Fee

open Hyperlane.Outcome

/-! ## The contracts -/

/-- what the three contracts hold -/
structure BaseFee where
  maxFee : ℕ
  halfAmount : ℕ

/-- a checked `uint256` sum -/
def addUint256 (a b : ℕ) : Except Revert ℕ := if a + b < 2 ^ 256 then .ok (a + b) else .error .overflow

def LinearFee.quoteTransfer (c : BaseFee) (amount : ℕ) : Except Revert ℕ :=
  OffchainQuotedLinearFee.computeLinearFee c.maxFee c.halfAmount amount

def RegressiveFee.quoteTransfer (c : BaseFee) (amount : ℕ) : Except Revert ℕ := do
  let denominator ← addUint256 c.halfAmount amount
  if denominator = 0 then .ok 0
  else do
    let product ← OffchainQuotedLinearFee.mul c.maxFee amount
    .ok (product / denominator)

def ProgressiveFee.quoteTransfer (c : BaseFee) (amount : ℕ) : Except Revert ℕ :=
  if amount = 0 then .ok 0
  else do
    let amountSquared ← OffchainQuotedLinearFee.mul amount amount
    let product ← OffchainQuotedLinearFee.mul c.maxFee amountSquared
    let halfSquared ← OffchainQuotedLinearFee.mul c.halfAmount c.halfAmount
    let denominator ← addUint256 halfSquared amountSquared
    .ok (product / denominator)

/-- the contract of a curve, with the same parameters -/
def FeeDataStrategy.contractFee (a : FeeDataStrategy) (amount : ℕ) : Except Revert ℕ :=
  let c : BaseFee := ⟨a.params.maxFee.toNat, a.params.halfAmount.toNat⟩
  match a with
  | .linear _ => LinearFee.quoteTransfer c amount
  | .regressive _ => RegressiveFee.quoteTransfer c amount
  | .progressive _ => ProgressiveFee.quoteTransfer c amount

/-! ## The curve -/

section Saturating

variable {m k x y : ℕ}

theorem saturating_lt (hm : 0 < m) (hk : 0 < k) : m * x / (k + x) < m := by
  rw [Nat.div_lt_iff_lt_mul (by omega), Nat.mul_add]
  have hpos : 0 < m * k := Nat.mul_pos hm hk
  omega

theorem saturating_mono (hk : 0 < k) (h : x ≤ y) : m * x / (k + x) ≤ m * y / (k + y) := by
  obtain ⟨step, rfl⟩ := Nat.exists_eq_add_of_le h
  have hle : m * x / (k + x) ≤ m := by
    rw [Nat.div_le_iff_le_mul_add_pred (by omega)]
    calc m * x ≤ (k + x) * m := by rw [Nat.mul_comm m]; exact Nat.mul_le_mul_right m (by omega)
      _ ≤ (k + x) * m + (k + x - 1) := Nat.le_add_right _ _
  rw [Nat.le_div_iff_mul_le (by omega)]
  calc m * x / (k + x) * (k + (x + step)) = m * x / (k + x) * (k + x) + m * x / (k + x) * step := by
        rw [← Nat.add_assoc, Nat.mul_add]
    _ ≤ m * x + m * step := Nat.add_le_add (Nat.div_mul_le_self _ _) (Nat.mul_le_mul_right step hle)
    _ = m * (x + step) := (Nat.mul_add m x step).symm

end Saturating

/-- the fee over the naturals -/
def FeeDataStrategy.fee (a : FeeDataStrategy) (amount : ℕ) : ℕ :=
  let m := a.params.maxFee.toNat
  let h := a.params.halfAmount.toNat
  match a with
  | .linear _ => min (amount * m / (2 * h)) m
  | .regressive _ => m * amount / (h + amount)
  | .progressive _ => m * (amount * amount) / (h * h + amount * amount)

section Curves

variable {a : FeeDataStrategy}

theorem fee_le (hmax : 0 < a.params.maxFee) (hhalf : 0 < a.params.halfAmount) (amount : ℕ) :
    a.fee amount ≤ a.params.maxFee.toNat := by
  have hm : 0 < a.params.maxFee.toNat := hmax
  have hh : 0 < a.params.halfAmount.toNat := hhalf
  cases a with
  | linear p => exact min_le_right _ _
  | regressive p => exact (saturating_lt hm hh).le
  | progressive p => exact (saturating_lt hm (Nat.mul_pos hh hh)).le

theorem fee_lt (hmax : 0 < a.params.maxFee) (hhalf : 0 < a.params.halfAmount) (hcurved : ∀ p, a ≠ .linear p) (amount : ℕ) :
    a.fee amount < a.params.maxFee.toNat := by
  have hm : 0 < a.params.maxFee.toNat := hmax
  have hh : 0 < a.params.halfAmount.toNat := hhalf
  cases a with
  | linear p => exact absurd rfl (hcurved p)
  | regressive p => exact saturating_lt hm hh
  | progressive p => exact saturating_lt hm (Nat.mul_pos hh hh)

theorem fee_mono (hhalf : 0 < a.params.halfAmount) : Monotone a.fee := by
  have hh : 0 < a.params.halfAmount.toNat := hhalf
  intro x y h
  cases a with
  | linear p => exact min_le_min_right _ (Nat.div_le_div_right (Nat.mul_le_mul_right _ h))
  | regressive p => exact saturating_mono hh h
  | progressive p => exact saturating_mono (Nat.mul_pos hh hh) (Nat.mul_le_mul h h)

/-! ## Machine words -/

theorem addUint256_ok {x y : ℕ} (h : x + y < 2 ^ 256) : addUint256 x y = .ok (x + y) := if_pos h

theorem square_lt (w : UInt64) : w.toNat * w.toNat < 2 ^ 128 :=
  calc w.toNat * w.toNat < 2 ^ 64 * 2 ^ 64 := Nat.mul_lt_mul'' w.toNat_lt w.toNat_lt
    _ = 2 ^ 128 := by decide

/-- what the linear contract returns, when it does not revert -/
theorem computeLinearFee_value {maxFee halfAmount amount fee : ℕ} (hmax : 0 < maxFee) (hhalf : 0 < halfAmount)
    (h : OffchainQuotedLinearFee.computeLinearFee maxFee halfAmount amount = .ok fee) :
    fee = min (amount * maxFee / (2 * halfAmount)) maxFee := by
  rw [OffchainQuotedLinearFee.computeLinearFee, if_neg (by omega), OffchainQuotedLinearFee.mul] at h
  split_ifs at h with hproduct
  · rw [ok_bind, OffchainQuotedLinearFee.mul] at h
    split_ifs at h with hdenominator
    · rw [ok_bind] at h
      obtain rfl := Except.ok.inj h
      split_ifs with hcap
      · exact (min_eq_right hcap.le).symm
      · exact (min_eq_left (not_lt.1 hcap)).symm
    · cases h
  · cases h

theorem computeLinear_fee (p : FeeParams) (hmax : 0 < p.maxFee) (hhalf : 0 < p.halfAmount) (amount : UInt64) :
    (FeeDataStrategy.linear p).computeFee amount = .ok (UInt64.ofNat ((FeeDataStrategy.linear p).fee amount.toNat)) ∧
      (FeeDataStrategy.linear p).contractFee amount.toNat = .ok ((FeeDataStrategy.linear p).fee amount.toNat) := by
  obtain ⟨fee, hfee, hcontract⟩ := computeLinear_agrees p amount
  have hvalue : fee.toNat = (FeeDataStrategy.linear p).fee amount.toNat := computeLinearFee_value hmax hhalf hcontract
  refine ⟨?_, ?_⟩
  · rw [hfee, ← hvalue, UInt64.ofNat_toNat]
  · rw [← hvalue]
    exact hcontract

theorem computeRegressive_agrees (p : FeeParams) (hmax : 0 < p.maxFee) (hhalf : 0 < p.halfAmount) (amount : UInt64) :
    (FeeDataStrategy.regressive p).computeFee amount =
        .ok (UInt64.ofNat ((FeeDataStrategy.regressive p).fee amount.toNat)) ∧
      (FeeDataStrategy.regressive p).contractFee amount.toNat =
        .ok ((FeeDataStrategy.regressive p).fee amount.toNat) := by
  have hm : 0 < p.maxFee.toNat := hmax
  have hh : 0 < p.halfAmount.toNat := hhalf
  have hproduct : p.maxFee.toNat * amount.toNat < 2 ^ 256 :=
    calc p.maxFee.toNat * amount.toNat < 2 ^ 64 * 2 ^ 64 := Nat.mul_lt_mul'' p.maxFee.toNat_lt amount.toNat_lt
      _ ≤ 2 ^ 256 := by decide
  have hsum : p.halfAmount.toNat + amount.toNat < 2 ^ 256 :=
    calc p.halfAmount.toNat + amount.toNat < 2 ^ 64 + 2 ^ 64 := Nat.add_lt_add p.halfAmount.toNat_lt amount.toNat_lt
      _ ≤ 2 ^ 256 := by decide
  have hfee : p.maxFee.toNat * amount.toNat / (p.halfAmount.toNat + amount.toNat) < 2 ^ 64 :=
    (saturating_lt hm hh).trans p.maxFee.toNat_lt
  have hne : p.halfAmount.toNat + amount.toNat ≠ 0 := by omega
  constructor
  · rw [FeeDataStrategy.computeFee, computeRegressive, if_neg (by omega), checked_ok hproduct, ok_bind, checked_ok hsum,
      ok_bind, checkedDiv, if_neg hne, ok_bind, toU64, if_pos hfee]
    rfl
  · simp only [FeeDataStrategy.contractFee, FeeDataStrategy.params, RegressiveFee.quoteTransfer]
    rw [addUint256_ok hsum, ok_bind, if_neg hne, OffchainQuotedLinearFee.mul_ok hproduct, ok_bind]
    rfl

theorem computeProgressive_agrees (p : FeeParams) (hmax : 0 < p.maxFee) (hhalf : 0 < p.halfAmount) (amount : UInt64) :
    (FeeDataStrategy.progressive p).computeFee amount =
        .ok (UInt64.ofNat ((FeeDataStrategy.progressive p).fee amount.toNat)) ∧
      (FeeDataStrategy.progressive p).contractFee amount.toNat =
        .ok ((FeeDataStrategy.progressive p).fee amount.toNat) := by
  have hm : 0 < p.maxFee.toNat := hmax
  have hh : 0 < p.halfAmount.toNat := hhalf
  have hamount := square_lt amount
  have hhalfSq := square_lt p.halfAmount
  have hpos : 0 < p.halfAmount.toNat * p.halfAmount.toNat := Nat.mul_pos hh hh
  have hproduct : p.maxFee.toNat * (amount.toNat * amount.toNat) < 2 ^ 256 :=
    calc p.maxFee.toNat * (amount.toNat * amount.toNat) < 2 ^ 64 * 2 ^ 128 := Nat.mul_lt_mul'' p.maxFee.toNat_lt hamount
      _ ≤ 2 ^ 256 := by decide
  have hsum : p.halfAmount.toNat * p.halfAmount.toNat + amount.toNat * amount.toNat < 2 ^ 256 :=
    calc p.halfAmount.toNat * p.halfAmount.toNat + amount.toNat * amount.toNat < 2 ^ 128 + 2 ^ 128 :=
          Nat.add_lt_add hhalfSq hamount
      _ ≤ 2 ^ 256 := by decide
  have hfee : p.maxFee.toNat * (amount.toNat * amount.toNat) /
      (p.halfAmount.toNat * p.halfAmount.toNat + amount.toNat * amount.toNat) < 2 ^ 64 :=
    (saturating_lt hm hpos).trans p.maxFee.toNat_lt
  have hne : p.halfAmount.toNat * p.halfAmount.toNat + amount.toNat * amount.toNat ≠ 0 := by omega
  constructor
  · rw [FeeDataStrategy.computeFee, computeProgressive, if_neg (by omega), checked_ok (hamount.trans (by decide)), ok_bind,
      checked_ok (hhalfSq.trans (by decide)), ok_bind, checked_ok hsum, ok_bind, if_neg hne, checked_ok hproduct, ok_bind,
      checkedDiv, if_neg hne, ok_bind, toU64, if_pos hfee]
    rfl
  · simp only [FeeDataStrategy.contractFee, FeeDataStrategy.params, ProgressiveFee.quoteTransfer, FeeDataStrategy.fee]
    by_cases hzero : amount.toNat = 0
    · rw [if_pos hzero, hzero, Nat.mul_zero, Nat.mul_zero, Nat.zero_div]
    · rw [if_neg hzero, OffchainQuotedLinearFee.mul_ok (hamount.trans (by decide)), ok_bind,
        OffchainQuotedLinearFee.mul_ok hproduct, ok_bind, OffchainQuotedLinearFee.mul_ok (hhalfSq.trans (by decide)),
        ok_bind, addUint256_ok hsum, ok_bind]

/-- no check of either chain fails, and both compute the fee over the naturals -/
theorem computeFee_agrees (hmax : 0 < a.params.maxFee) (hhalf : 0 < a.params.halfAmount) (amount : UInt64) :
    a.computeFee amount = .ok (UInt64.ofNat (a.fee amount.toNat)) ∧ a.contractFee amount.toNat = .ok (a.fee amount.toNat) := by
  cases a with
  | linear p => exact computeLinear_fee p hmax hhalf amount
  | regressive p => exact computeRegressive_agrees p hmax hhalf amount
  | progressive p => exact computeProgressive_agrees p hmax hhalf amount

/-- **The curves of both chains.** For parameters that are not zero, every 64-bit amount has one fee on both chains; it is
at most the ceiling, below it on the two curved ones, and it does not fall when the amount grows. -/
theorem fee_curves (a : FeeDataStrategy) (hmax : 0 < a.params.maxFee) (hhalf : 0 < a.params.halfAmount) :
    ∃ fee : UInt64 → UInt64,
      (∀ amount, a.computeFee amount = .ok (fee amount) ∧ a.contractFee amount.toNat = .ok (fee amount).toNat) ∧
      (∀ amount, fee amount ≤ a.params.maxFee) ∧
      ((∀ p, a ≠ .linear p) → ∀ amount, fee amount < a.params.maxFee) ∧
      ∀ amount₁ amount₂, amount₁ ≤ amount₂ → fee amount₁ ≤ fee amount₂ := by
  have hvalue : ∀ amount : UInt64, (UInt64.ofNat (a.fee amount.toNat)).toNat = a.fee amount.toNat := by
    intro amount
    exact UInt64.toNat_ofNat_of_lt' ((fee_le hmax hhalf amount.toNat).trans_lt a.params.maxFee.toNat_lt)
  refine ⟨fun amount => UInt64.ofNat (a.fee amount.toNat), fun amount => ?_, fun amount => ?_, fun hcurved amount => ?_,
    fun amount₁ amount₂ h => ?_⟩
  · rw [hvalue]
    exact computeFee_agrees hmax hhalf amount
  · rw [UInt64.le_iff_toNat_le, hvalue]
    exact fee_le hmax hhalf amount.toNat
  · rw [UInt64.lt_iff_toNat_lt, hvalue]
    exact fee_lt hmax hhalf hcurved amount.toNat
  · rw [UInt64.le_iff_toNat_le, hvalue, hvalue]
    exact fee_mono hhalf h

theorem fee_curves_progressive : ∃ fee : UInt64 → UInt64,
    (∀ amount, (FeeDataStrategy.progressive ⟨1000, 500⟩).computeFee amount = .ok (fee amount) ∧
      (FeeDataStrategy.progressive ⟨1000, 500⟩).contractFee amount.toNat = .ok (fee amount).toNat) ∧
    ∀ amount, fee amount < 1000 := by
  obtain ⟨fee, hfee, -, hlt, -⟩ := fee_curves (.progressive ⟨1000, 500⟩) (by decide) (by decide)
  exact ⟨fee, hfee, hlt nofun⟩

end Curves

end Hyperlane.Fee
