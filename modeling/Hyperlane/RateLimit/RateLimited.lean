/-
Token buckets: `RateLimited` (contracts/libs/RateLimited.sol) with the overrides of `TvlRateLimited`
(contracts/libs/TvlRateLimited.sol) and of `DelayedFlowRouterHookIsm`
(contracts/isms/warp-route/DelayedFlowRouterHookIsm.sol).

The virtual functions of the base are the fields of `Virtuals`, and the functions of the base take them as an argument.
The time and the capacity are what a call sees: the base derives its capacity from a stored rate, the other two from the
live collateral of the warp router, so that it may differ from call to call. Arithmetic is checked, as in the source.

- `calculateRefilledAmount_eq_ok`, `calculateCurrentLevel_eq_ok`: the refill and the level, and when they can be
  computed in 256 bits.
-/
import Hyperlane.Core.Outcome
import Mathlib.Algebra.Order.Ring.Star

namespace Hyperlane.RateLimit

open Hyperlane.Outcome

/-! ## Checked arithmetic -/

/-- a `uint256`, or a panic -/
def uint256 (x : ℕ) : Except String ℕ := if x < 2 ^ 256 then .ok x else .error "Panic(0x11)"

def uint256Sub (x y : ℕ) : Except String ℕ := if y ≤ x then .ok (x - y) else .error "Panic(0x11)"

/-- `Math.mulDiv` for a positive denominator -/
def mulDiv (x y d : ℕ) : Except String ℕ :=
  if x * y / d < 2 ^ 256 then .ok (x * y / d) else .error "Math: mulDiv overflow"

theorem guard_eq_ok {p : Prop} [Decidable p] {x y : ℕ} {e : String} :
    (if p then Except.ok x else Except.error e) = Except.ok y ↔ p ∧ y = x := by
  split
  next h => exact ⟨fun heq => ⟨h, (Except.ok.inj heq).symm⟩, fun ⟨_, heq⟩ => congrArg Except.ok heq.symm⟩
  next h => exact ⟨fun heq => (nomatch heq), fun ⟨hp, _⟩ => absurd hp h⟩

theorem uint256_eq_ok {x y : ℕ} : uint256 x = .ok y ↔ x < 2 ^ 256 ∧ y = x := guard_eq_ok

theorem uint256Sub_eq_ok {x y z : ℕ} : uint256Sub x y = .ok z ↔ y ≤ x ∧ z = x - y := guard_eq_ok

theorem mulDiv_eq_ok {x y d z : ℕ} : mulDiv x y d = .ok z ↔ x * y / d < 2 ^ 256 ∧ z = x * y / d := guard_eq_ok

/-! ## Storage -/

structure Bucket where
  filledLevel : ℕ
  lastUpdated : ℕ
  /-- `IS_INITIALIZED_SLOT` of `TvlRateLimited`; the base does not have it -/
  isInitialized : Bool
  /-- of `DelayedFlowRouterHookIsm`; the others do not have it -/
  debt : ℕ
deriving DecidableEq

/-- what a call sees: the block's time, and `maxCapacity()` -/
structure Context where
  timestamp : ℕ
  maxCapacity : ℕ
  capacity_lt : maxCapacity < 2 ^ 256
deriving DecidableEq

/-- the virtual functions; `_RateLimited_recordDeficit` reads `DURATION` -/
structure Virtuals where
  isInitialized : Bucket → Bool
  /-- `_RateLimited_initialize` -/
  setInitialized : Bucket → Bucket
  adjustLevel : Bucket → ℕ → ℕ
  settleDebt : Bucket → ℕ → Bucket
  recordDeficit : ℕ → Bucket → ℕ → ℕ → Except String (Bucket × ℕ)
  applyCredit : Bucket → ℕ → Bucket × ℕ

/-! ## The operations -/

section Operations

variable (V : Virtuals) (DURATION : ℕ) (c : Context)

def calculateRefilledAmount (b : Bucket) : Except String ℕ := do
  let elapsed ← uint256Sub c.timestamp b.lastUpdated
  let product ← uint256 (elapsed * c.maxCapacity)
  .ok (product / DURATION)

def calculateCurrentLevel (b : Bucket) : Except String ℕ :=
  if c.maxCapacity = 0 then .ok 0
  else if V.isInitialized b = false then .ok c.maxCapacity
  else do
    let refilled ← calculateRefilledAmount DURATION c b
    let sum ← uint256 (b.filledLevel + refilled)
    let replenishedLevel := V.adjustLevel b sum
    .ok (if replenishedLevel > c.maxCapacity then c.maxCapacity else replenishedLevel)

/-- the check of `_validateAndConsumeFilledLevel` -/
def requireWithin (amount level : ℕ) : Except String Unit :=
  if amount ≤ level then .ok () else .error "RateLimitExceeded"

/-- `_validateAndConsumeFilledLevel`, with the new level -/
def validateAndConsumeFilledLevel (consumedAmount : ℕ) (b : Bucket) : Except String (Bucket × ℕ) := do
  let adjustedFilledLevel ← calculateCurrentLevel V DURATION c b
  let refilled ← calculateRefilledAmount DURATION c b
  let b := V.settleDebt b refilled
  requireWithin consumedAmount adjustedFilledLevel
  let filledLevel := adjustedFilledLevel - consumedAmount
  .ok (V.setInitialized { b with filledLevel := filledLevel, lastUpdated := c.timestamp }, filledLevel)

/-- `_credit`, with the new level -/
def credit (amount : ℕ) (b : Bucket) : Except String (Bucket × ℕ) :=
  if c.maxCapacity = 0 then .ok (b, 0)
  else do
    let level ← calculateCurrentLevel V DURATION c b
    let refilled ← calculateRefilledAmount DURATION c b
    let b := V.settleDebt b refilled
    let (b, remainder) := V.applyCredit b amount
    let credited ← uint256 (level + remainder)
    let newLevel := if credited > c.maxCapacity then c.maxCapacity else credited
    .ok (V.setInitialized { b with filledLevel := newLevel, lastUpdated := c.timestamp }, newLevel)

/-- the two ends of `_consume`: within the level, and above it -/
def consumeFrom (amount level : ℕ) (b : Bucket) : Except String (Bucket × ℕ) :=
  if amount ≤ level then .ok ({ b with filledLevel := level - amount }, 0)
  else V.recordDeficit DURATION { b with filledLevel := 0 } (amount - level) c.maxCapacity

/-- `_consume`, with the seconds to wait -/
def consume (amount : ℕ) (b : Bucket) : Except String (Bucket × ℕ) := do
  let level ← calculateCurrentLevel V DURATION c b
  let refilled ← calculateRefilledAmount DURATION c b
  let b := V.settleDebt b refilled
  let (b, deficitSecs) ← consumeFrom V DURATION c amount level b
  .ok (V.setInitialized { b with lastUpdated := c.timestamp }, deficitSecs)

end Operations

/-! ## The contracts -/

/-- the wait for a deficit; an empty capacity never refills -/
def waitFor (deficit DURATION cap : ℕ) : Except String ℕ :=
  if cap = 0 then .ok (2 ^ 256 - 1) else mulDiv deficit DURATION cap

def RateLimited : Virtuals where
  isInitialized _ := true
  setInitialized b := b
  adjustLevel _ replenishedLevel := replenishedLevel
  settleDebt b _ := b
  recordDeficit DURATION b overage cap := do
    let wait ← waitFor overage DURATION cap
    .ok (b, wait)
  applyCredit b amount := (b, amount)

def TvlRateLimited : Virtuals :=
  { RateLimited with
    isInitialized := Bucket.isInitialized
    setInitialized := fun b => { b with isInitialized := true } }

def DelayedFlowRouterHookIsm : Virtuals :=
  { TvlRateLimited with
    adjustLevel := fun b replenishedLevel => if replenishedLevel > b.debt then replenishedLevel - b.debt else 0
    settleDebt := fun b refill =>
      if b.debt ≠ 0 then { b with debt := if refill ≥ b.debt then 0 else b.debt - refill } else b
    recordDeficit := fun DURATION b overage cap => do
      let debt ← uint256 (b.debt + overage)
      let wait ← waitFor debt DURATION cap
      .ok ({ b with debt := debt }, wait)
    applyCredit := fun b amount =>
      if b.debt = 0 then (b, amount)
      else if amount ≥ b.debt then ({ b with debt := 0 }, amount - b.debt)
      else ({ b with debt := b.debt - amount }, 0) }

/-! ## Capacities and constructors -/

/-- what a call at a time sees, if the capacity is a `uint256` -/
def Context.at (timestamp capacity : ℕ) : Except String Context :=
  if h : capacity < 2 ^ 256 then .ok ⟨timestamp, capacity, h⟩ else .error "Panic(0x11)"

namespace RateLimited

/-- `maxCapacity` -/
def context (DURATION refillRate timestamp : ℕ) : Except String Context := Context.at timestamp (refillRate * DURATION)

/-- the rate that `setRefillRate` stores -/
def refillRate (DURATION capacity : ℕ) : ℕ := capacity / DURATION

/-- the bucket after the constructor; the level is not rounded to the rate -/
def deployed (capacity timestamp : ℕ) : Bucket := ⟨capacity, timestamp, false, 0⟩

end RateLimited

namespace TvlRateLimited

def BPS_DENOMINATOR : ℕ := 10000

/-- `maxCapacity` -/
def context (thresholdBps localCollateral timestamp : ℕ) : Except String Context := do
  let product ← uint256 (localCollateral * thresholdBps)
  Context.at timestamp (product / BPS_DENOMINATOR)

/-- the bucket after the constructor -/
def deployed (timestamp : ℕ) : Bucket := ⟨0, timestamp, false, 0⟩

end TvlRateLimited

/-! ## Refill and level -/

/-- the refill since the last touch -/
def refill (DURATION : ℕ) (c : Context) (b : Bucket) : ℕ := (c.timestamp - b.lastUpdated) * c.maxCapacity / DURATION

/-- the refill can be computed -/
def Refills (c : Context) (b : Bucket) : Prop :=
  b.lastUpdated ≤ c.timestamp ∧ (c.timestamp - b.lastUpdated) * c.maxCapacity < 2 ^ 256

theorem calculateRefilledAmount_eq_ok {DURATION : ℕ} {c : Context} {b : Bucket} {r : ℕ} :
    calculateRefilledAmount DURATION c b = .ok r ↔ Refills c b ∧ r = refill DURATION c b := by
  unfold calculateRefilledAmount
  simp only [bind_eq_ok, uint256Sub_eq_ok, uint256_eq_ok, Except.ok.injEq]
  constructor
  · rintro ⟨elapsed, ⟨hle, rfl⟩, product, ⟨hlt, rfl⟩, rfl⟩
    exact ⟨⟨hle, hlt⟩, rfl⟩
  · rintro ⟨⟨hle, hlt⟩, rfl⟩
    exact ⟨_, ⟨hle, rfl⟩, _, ⟨hlt, rfl⟩, rfl⟩

/-- the sum of level and refill is only needed in an initialized bucket with a capacity -/
def Sums (V : Virtuals) (DURATION : ℕ) (c : Context) (b : Bucket) : Prop :=
  c.maxCapacity ≠ 0 → V.isInitialized b = true → Refills c b ∧ b.filledLevel + refill DURATION c b < 2 ^ 256

/-- the level that is reported -/
def currentLevel (V : Virtuals) (DURATION : ℕ) (c : Context) (b : Bucket) : ℕ :=
  if V.isInitialized b = false then c.maxCapacity
  else min c.maxCapacity (V.adjustLevel b (b.filledLevel + refill DURATION c b))

theorem calculateCurrentLevel_eq_ok {V : Virtuals} {DURATION : ℕ} {c : Context} {b : Bucket} {level : ℕ} :
    calculateCurrentLevel V DURATION c b = .ok level ↔
      Sums V DURATION c b ∧ level = currentLevel V DURATION c b := by
  unfold calculateCurrentLevel currentLevel
  by_cases hcap : c.maxCapacity = 0
  · have hsums : Sums V DURATION c b := fun h => absurd hcap h
    simp only [hsums, hcap, Nat.zero_min, ite_self, if_true, true_and, Except.ok.injEq]
    exact eq_comm
  cases hinit : V.isInitialized b with
  | false =>
    have hsums : Sums V DURATION c b := fun _ h => absurd h (by simp [hinit])
    simp only [hsums, hcap, if_false, if_true, true_and, Except.ok.injEq]
    exact eq_comm
  | true =>
    simp only [hcap, if_false, Bool.true_eq_false, bind_eq_ok, calculateRefilledAmount_eq_ok, uint256_eq_ok,
      Except.ok.injEq]
    constructor
    · rintro ⟨r, ⟨hr, rfl⟩, sum, ⟨hsum, rfl⟩, rfl⟩
      refine ⟨fun _ _ => ⟨hr, hsum⟩, ?_⟩
      split <;> omega
    · rintro ⟨hsums, rfl⟩
      obtain ⟨hr, hsum⟩ := hsums hcap hinit
      refine ⟨_, ⟨hr, rfl⟩, _, ⟨hsum, rfl⟩, ?_⟩
      split <;> omega

end Hyperlane.RateLimit
