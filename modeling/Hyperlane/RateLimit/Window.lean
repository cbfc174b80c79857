/-
What a rate limit lets through in a window of time (contracts/libs/RateLimited.sol): `_validateAndConsumeFilledLevel`
and `_credit` under a constant capacity, while no debt is outstanding.

All three contracts behave alike there, up to the first use: the level is the potential of `Core.TokenBucket`, and a
bucket that was not used yet counts as full. Rounding down at every touch only loses, a level above the capacity (the
constructor's) is cut when it is read, and a call that reverts is no touch.

- `step_metered`: one call.
- `run_metered`: whole runs are metered.
- `consume_reverts_iff`: a consumption within the reported level goes through, except that the refill of a bucket that
  was never used may not fit into 256 bits.
-/
import Hyperlane.Core.TokenBucket
import Hyperlane.RateLimit.RateLimited

namespace Hyperlane.RateLimit

open Hyperlane.Outcome Hyperlane.TokenBucket

inductive Limiter where
  | rateLimited
  | tvlRateLimited
  | delayedFlow
deriving DecidableEq

def Limiter.virtuals : Limiter → Virtuals
  | .rateLimited => RateLimited
  | .tvlRateLimited => TvlRateLimited
  | .delayedFlow => DelayedFlowRouterHookIsm

section NoDebt

variable {V : Limiter} {b : Bucket}

theorem adjustLevel_noDebt (h : b.debt = 0) (x : ℕ) : V.virtuals.adjustLevel b x = x := by
  cases V with
  | rateLimited => rfl
  | tvlRateLimited => rfl
  | delayedFlow =>
    simp only [Limiter.virtuals, DelayedFlowRouterHookIsm, h]
    split <;> omega

theorem settleDebt_noDebt (h : b.debt = 0) (refill : ℕ) : V.virtuals.settleDebt b refill = b := by
  cases V with
  | rateLimited => rfl
  | tvlRateLimited => rfl
  | delayedFlow => simp [Limiter.virtuals, DelayedFlowRouterHookIsm, h]

theorem applyCredit_noDebt (h : b.debt = 0) (amount : ℕ) : V.virtuals.applyCredit b amount = (b, amount) := by
  cases V with
  | rateLimited => rfl
  | tvlRateLimited => rfl
  | delayedFlow => simp [Limiter.virtuals, DelayedFlowRouterHookIsm, h]

/-- the first use is recorded, and nothing else -/
theorem setInitialized_spec (V : Limiter) (b : Bucket) :
    V.virtuals.isInitialized (V.virtuals.setInitialized b) = true ∧
      (V.virtuals.setInitialized b).filledLevel = b.filledLevel ∧
      (V.virtuals.setInitialized b).lastUpdated = b.lastUpdated ∧ (V.virtuals.setInitialized b).debt = b.debt := by
  cases V <;> exact ⟨rfl, rfl, rfl, rfl⟩

end NoDebt

/-- the level as a potential: a bucket that was not used yet is full -/
def potential (V : Limiter) (c : Context) (b : Bucket) : ℕ :=
  if V.virtuals.isInitialized b then b.filledLevel else c.maxCapacity

section Operations

variable {V : Limiter} {DURATION : ℕ} {c : Context} {b : Bucket}

theorem currentLevel_noDebt (h : b.debt = 0) :
    currentLevel V.virtuals DURATION c b = min c.maxCapacity (potential V c b + refill DURATION c b) := by
  unfold currentLevel potential
  cases hinit : V.virtuals.isInitialized b with
  | false =>
    simp only [if_true, Bool.false_eq_true, if_false]
    omega
  | true => simp only [Bool.true_eq_false, if_false, if_true, adjustLevel_noDebt h]

theorem validateAndConsume_eq_ok (h : b.debt = 0) {amount left : ℕ} {b' : Bucket} :
    validateAndConsumeFilledLevel V.virtuals DURATION c amount b = .ok (b', left) ↔
      Sums V.virtuals DURATION c b ∧ Refills c b ∧ amount ≤ currentLevel V.virtuals DURATION c b ∧
        left = currentLevel V.virtuals DURATION c b - amount ∧
        b' = V.virtuals.setInitialized { b with filledLevel := left, lastUpdated := c.timestamp } := by
  unfold validateAndConsumeFilledLevel requireWithin
  simp only [bind_eq_ok, calculateCurrentLevel_eq_ok, calculateRefilledAmount_eq_ok, settleDebt_noDebt h,
    Except.ok.injEq, Prod.mk.injEq]
  constructor
  · rintro ⟨level, ⟨hsums, rfl⟩, r, ⟨hrefills, -⟩, _, hwithin, rfl, rfl⟩
    split at hwithin
    next hle => exact ⟨hsums, hrefills, hle, rfl, rfl⟩
    next => exact nomatch hwithin
  · rintro ⟨hsums, hrefills, hle, rfl, rfl⟩
    exact ⟨_, ⟨hsums, rfl⟩, _, ⟨hrefills, rfl⟩, (), if_pos hle, rfl, rfl⟩

theorem credit_noDebt (h : b.debt = 0) (hcap : c.maxCapacity ≠ 0) {amount level : ℕ} {b' : Bucket}
    (hok : credit V.virtuals DURATION c amount b = .ok (b', level)) :
    Refills c b ∧ level = min c.maxCapacity (currentLevel V.virtuals DURATION c b + amount) ∧
      b' = V.virtuals.setInitialized { b with filledLevel := level, lastUpdated := c.timestamp } := by
  unfold credit at hok
  simp only [hcap, if_false, bind_eq_ok, calculateCurrentLevel_eq_ok, calculateRefilledAmount_eq_ok,
    settleDebt_noDebt h, applyCredit_noDebt h, uint256_eq_ok, Except.ok.injEq, Prod.mk.injEq] at hok
  obtain ⟨l, ⟨-, rfl⟩, r, ⟨hrefills, -⟩, credited, ⟨-, rfl⟩, rfl, rfl⟩ := hok
  refine ⟨hrefills, ?_, rfl⟩
  split <;> omega

/-- **A consumption within the reported level reverts only if the refill does not fit**, in a bucket never used. -/
theorem consume_reverts_iff (h : b.debt = 0) (htime : b.lastUpdated ≤ c.timestamp) (hcap : 0 < c.maxCapacity)
    {amount level : ℕ} (hlevel : calculateCurrentLevel V.virtuals DURATION c b = .ok level) (hle : amount ≤ level) :
    (∀ r, validateAndConsumeFilledLevel V.virtuals DURATION c amount b ≠ .ok r) ↔
      V.virtuals.isInitialized b = false ∧ 2 ^ 256 ≤ (c.timestamp - b.lastUpdated) * c.maxCapacity := by
  obtain ⟨hsums, rfl⟩ := calculateCurrentLevel_eq_ok.1 hlevel
  constructor
  · intro hrevert
    by_contra hcond
    have hrefills : Refills c b := by
      cases hinit : V.virtuals.isInitialized b with
      | false => exact ⟨htime, by simpa [hinit] using hcond⟩
      | true => exact (hsums hcap.ne' hinit).1
    exact hrevert _ ((validateAndConsume_eq_ok h).2 ⟨hsums, hrefills, hle, rfl, rfl⟩)
  · rintro ⟨-, hover⟩ ⟨b', left⟩ hok
    obtain ⟨-, ⟨-, hlt⟩, -⟩ := (validateAndConsume_eq_ok h).1 hok
    omega

end Operations

/-! ## Runs -/

inductive Operation where
  | validateAndConsume (amount : ℕ)
  | credit (amount : ℕ)
deriving DecidableEq

namespace Operation

def execute (V : Limiter) (DURATION : ℕ) (c : Context) (b : Bucket) : Operation → Except String (Bucket × ℕ)
  | .validateAndConsume amount => validateAndConsumeFilledLevel V.virtuals DURATION c amount b
  | .credit amount => RateLimit.credit V.virtuals DURATION c amount b

def touch (timestamp : ℕ) : Operation → Touch
  | .validateAndConsume amount => ⟨timestamp, amount, 0⟩
  | .credit amount => ⟨timestamp, 0, amount⟩

end Operation

/-- the operations that do not revert, as touches, and the bucket after them; the capacity is constant -/
def meteredRun (V : Limiter) (DURATION : ℕ) (capacity : { C : ℕ // C < 2 ^ 256 }) :
    Bucket → List (ℕ × Operation) → Bucket × List Touch
  | b, [] => (b, [])
  | b, (timestamp, op) :: ops =>
    match op.execute V DURATION ⟨timestamp, capacity.1, capacity.2⟩ b with
    | .ok (b', _) =>
      ((meteredRun V DURATION capacity b' ops).1, op.touch timestamp :: (meteredRun V DURATION capacity b' ops).2)
    | .error _ => meteredRun V DURATION capacity b ops

/-- one call leaves at most what was there -/
theorem step_metered {V : Limiter} {DURATION : ℕ} {c : Context} {b b' : Bucket} {op : Operation} {out : ℕ}
    (h : b.debt = 0) (hcap : c.maxCapacity ≠ 0) (hok : op.execute V DURATION c b = .ok (b', out)) :
    b'.debt = 0 ∧ b.lastUpdated ≤ c.timestamp ∧ b'.lastUpdated = c.timestamp ∧
      potential V c b' + (op.touch c.timestamp).spent ≤
        min c.maxCapacity (potential V c b + refill DURATION c b) + (op.touch c.timestamp).gained := by
  have hlevel : currentLevel V.virtuals DURATION c b = min c.maxCapacity (potential V c b + refill DURATION c b) :=
    currentLevel_noDebt h
  cases op with
  | validateAndConsume amount =>
    obtain ⟨-, hrefills, hle, rfl, rfl⟩ := (validateAndConsume_eq_ok h).1 hok
    obtain ⟨hinit, hfilled, hlast, hdebt⟩ := setInitialized_spec V { b with
      filledLevel := currentLevel V.virtuals DURATION c b - amount, lastUpdated := c.timestamp }
    refine ⟨hdebt.trans h, hrefills.1, hlast, ?_⟩
    rw [potential, hinit, if_pos rfl, hfilled, ← hlevel]
    simp only [Operation.touch]
    omega
  | credit amount =>
    obtain ⟨hrefills, rfl, rfl⟩ := credit_noDebt h hcap hok
    obtain ⟨hinit, hfilled, hlast, hdebt⟩ := setInitialized_spec V { b with
      filledLevel := min c.maxCapacity (currentLevel V.virtuals DURATION c b + amount), lastUpdated := c.timestamp }
    refine ⟨hdebt.trans h, hrefills.1, hlast, ?_⟩
    rw [potential, hinit, if_pos rfl, hfilled, ← hlevel]
    simp only [Operation.touch]
    omega

/-- whole runs are metered, and carry no debt -/
theorem run_metered (V : Limiter) (DURATION : ℕ) (capacity : { C : ℕ // C < 2 ^ 256 }) (hcap : capacity.1 ≠ 0)
    (ops : List (ℕ × Operation)) (b : Bucket) (h : b.debt = 0) (timestamp : ℕ) :
    (meteredRun V DURATION capacity b ops).1.debt = 0 ∧
    Metered capacity.1 (fun elapsed => elapsed * capacity.1 / DURATION)
      (potential V ⟨timestamp, capacity.1, capacity.2⟩ b) b.lastUpdated (meteredRun V DURATION capacity b ops).2 := by
  induction ops generalizing b timestamp with
  | nil => exact ⟨h, .nil _ _⟩
  | cons head ops ih =>
    obtain ⟨now, op⟩ := head
    rw [meteredRun]
    cases hexec : op.execute V DURATION ⟨now, capacity.1, capacity.2⟩ b with
    | error e => exact ih b h timestamp
    | ok r =>
      obtain ⟨b', out⟩ := r
      obtain ⟨hdebt, htime, hlast, hlevel⟩ := step_metered h hcap hexec
      obtain ⟨hfinal, hrest⟩ := ih b' hdebt now
      have hnow : (op.touch now).time = now := by cases op <;> rfl
      refine ⟨hfinal, .cons (hnow.symm ▸ htime) ?_ (hnow.symm ▸ hlast ▸ hrest)⟩
      rw [hnow]
      exact hlevel

/-- **The window bound.** -/
theorem window_bound (V : Limiter) (DURATION : ℕ) (capacity : { C : ℕ // C < 2 ^ 256 }) (hcap : capacity.1 ≠ 0)
    (ops : List (ℕ × Operation)) (b : Bucket) (h : b.debt = 0) (s e : ℕ) :
    spentIn s e (meteredRun V DURATION capacity b ops).2 ≤
      capacity.1 + (e - s) * capacity.1 / DURATION + gainedIn s e (meteredRun V DURATION capacity b ops).2 := by
  refine (run_metered V DURATION capacity hcap ops b h 0).2.spentIn_le (fun x y => ?_) s e
  rw [Nat.add_mul]
  exact Nat.div_add_div_le_add_div

end Hyperlane.RateLimit
