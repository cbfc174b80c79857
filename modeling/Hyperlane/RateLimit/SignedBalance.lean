/-
The delayed-flow bucket as one signed balance (contracts/isms/warp-route/DelayedFlowRouterHookIsm.sol over
contracts/libs/RateLimited.sol).

The contract spreads the balance over two unsigned slots: what is left is in `filledLevel`, what is owed is in `debt`.
`Account` is the purpose: a balance that accrues towards the capacity, from which consumption is subtracted and to which
credit is added. A call that reverts changes nothing and is left out of what the account sees.

- `consume_eq_ok`, `credit_eq_ok`: an operation stores the account's new balance, and returns if the numbers fit.
- `run_refines`: whole runs.
- `delayed_flow_balance`: the results for every state that a run reaches, also that a consumption may be split.
-/
import Hyperlane.RateLimit.RateLimited

namespace Hyperlane.RateLimit

open Hyperlane.Outcome

/-! ## The purpose -/

/-- a signed balance at a time; `none` before the first use -/
structure Account where
  balance : Option ℤ
  since : ℕ
deriving DecidableEq

namespace Account

variable (DURATION : ℕ) (c : Context) (s : Account)

/-- the balance with the refill, at most the capacity. Before the first use it is full -/
def accrued : ℤ :=
  min c.maxCapacity (s.balance.getD c.maxCapacity + ((c.timestamp - s.since) * c.maxCapacity / DURATION : ℕ))

def consume (amount : ℕ) : Account := ⟨some (s.accrued DURATION c - amount), c.timestamp⟩

/-- seconds until a balance is refilled to zero -/
def wait (balance : ℤ) : ℕ := if c.maxCapacity = 0 then 2 ^ 256 - 1 else (-balance).toNat * DURATION / c.maxCapacity

/-- the wait of a consumption: none within the balance -/
def consumeWait (amount : ℕ) : ℕ :=
  if amount ≤ (s.accrued DURATION c).toNat then 0 else wait DURATION c (s.accrued DURATION c - amount)

def credit (amount : ℕ) : Account :=
  if c.maxCapacity = 0 then s else ⟨some (min c.maxCapacity (s.accrued DURATION c + amount)), c.timestamp⟩

end Account

/-! ## The contract's slots -/

/-- the account that a bucket stores -/
def Bucket.account (b : Bucket) : Account :=
  ⟨if b.isInitialized then some (b.filledLevel - b.debt) else none, b.lastUpdated⟩

/-- the slots that store a balance -/
def ofBalance (timestamp : ℕ) (balance : ℤ) : Bucket := ⟨balance.toNat, timestamp, true, (-balance).toNat⟩

/-- at most one of the two slots is in use, and none before the first use -/
structure Signed (b : Bucket) : Prop where
  oneSlot : b.filledLevel = 0 ∨ b.debt = 0
  fresh : b.isInitialized = false → b.filledLevel = 0 ∧ b.debt = 0

theorem signed_ofBalance (t : ℕ) (n : ℤ) : Signed (ofBalance t n) := by
  refine ⟨?_, fun h => (nomatch h)⟩
  rcases le_total n 0 with hn | hn
  · exact .inl (Int.toNat_of_nonpos hn)
  · exact .inr (Int.toNat_of_nonpos (Int.neg_nonpos_of_nonneg hn))

theorem ofBalance_account (t : ℕ) (n : ℤ) : (ofBalance t n).account = ⟨some n, t⟩ := by
  simp only [Bucket.account, ofBalance, if_true, Account.mk.injEq, Option.some.injEq, and_true]
  omega

@[simp]
theorem delayed_adjustLevel (b : Bucket) (x : ℕ) : DelayedFlowRouterHookIsm.adjustLevel b x = x - b.debt := by
  simp only [DelayedFlowRouterHookIsm]
  split <;> omega

@[simp]
theorem delayed_settleDebt (b : Bucket) (refill : ℕ) :
    DelayedFlowRouterHookIsm.settleDebt b refill = { b with debt := b.debt - refill } := by
  simp only [DelayedFlowRouterHookIsm]
  split
  · congr 1
    split <;> omega
  · rename_i hdebt
    rw [not_not] at hdebt
    rw [hdebt, Nat.zero_sub, ← hdebt]

@[simp]
theorem delayed_applyCredit (b : Bucket) (amount : ℕ) :
    DelayedFlowRouterHookIsm.applyCredit b amount = ({ b with debt := b.debt - amount }, amount - b.debt) := by
  simp only [DelayedFlowRouterHookIsm]
  split
  · rename_i hdebt
    rw [hdebt, Nat.zero_sub, Nat.sub_zero, ← hdebt]
  · split
    · rw [Nat.sub_eq_zero_of_le (by omega : b.debt ≤ amount)]
    · rw [Nat.sub_eq_zero_of_le (by omega : amount ≤ b.debt)]

@[simp]
theorem delayed_isInitialized (b : Bucket) : DelayedFlowRouterHookIsm.isInitialized b = b.isInitialized := rfl

@[simp]
theorem delayed_setInitialized (b : Bucket) :
    DelayedFlowRouterHookIsm.setInitialized b = { b with isInitialized := true } := rfl

section Operations

variable {DURATION : ℕ} {c : Context} {b : Bucket}

/-- the level that is reported is the positive part of the balance -/
theorem currentLevel_signed (h : Signed b) :
    currentLevel DelayedFlowRouterHookIsm DURATION c b = (b.account.accrued DURATION c).toNat := by
  have hone := h.oneSlot
  simp only [currentLevel, Account.accrued, Bucket.account, delayed_isInitialized, delayed_adjustLevel, refill]
  generalize (c.timestamp - b.lastUpdated) * c.maxCapacity / DURATION = r
  cases b.isInitialized with
  | false =>
    simp only [if_true, Bool.false_eq_true, if_false, Option.getD_none]
    omega
  | true =>
    simp only [Bool.true_eq_false, if_false, if_true, Option.getD_some]
    omega

/-- what is owed after the refill -/
theorem debt_settled (h : Signed b) :
    b.debt - refill DURATION c b = (-(b.account.accrued DURATION c)).toNat := by
  have hone := h.oneSlot
  have hfresh := h.fresh
  simp only [Account.accrued, Bucket.account, refill]
  generalize (c.timestamp - b.lastUpdated) * c.maxCapacity / DURATION = r
  cases hinit : b.isInitialized with
  | false =>
    obtain ⟨-, hdebt⟩ := hfresh hinit
    simp only [Bool.false_eq_true, if_false, Option.getD_none]
    omega
  | true =>
    simp only [if_true, Option.getD_some]
    omega

/-- an amount is within a balance, or the debt and the wait fit -/
def Fits (DURATION : ℕ) (c : Context) (amount : ℕ) (balance : ℤ) : Prop :=
  amount ≤ balance.toNat ∨ (amount - balance).toNat < 2 ^ 256 ∧
    (c.maxCapacity ≠ 0 → (amount - balance).toNat * DURATION / c.maxCapacity < 2 ^ 256)

/-- a consumption can be computed -/
def Consumes (DURATION : ℕ) (c : Context) (amount : ℕ) (b : Bucket) : Prop :=
  Sums DelayedFlowRouterHookIsm DURATION c b ∧ Refills c b ∧ Fits DURATION c amount (b.account.accrued DURATION c)

theorem waitFor_eq_ok {deficit D cap w : ℕ} :
    waitFor deficit D cap = .ok w ↔
      (cap ≠ 0 → deficit * D / cap < 2 ^ 256) ∧ w = if cap = 0 then 2 ^ 256 - 1 else deficit * D / cap := by
  unfold waitFor
  by_cases hcap : cap = 0
  · simp only [hcap, if_true, ne_eq, not_true_eq_false, false_imp_iff, true_and, Except.ok.injEq]
    exact eq_comm
  · simp only [hcap, if_false, ne_eq, not_false_eq_true, forall_const]
    exact mulDiv_eq_ok

/-- both ends of a consumption store the new balance -/
theorem consumeFrom_eq_ok {amount level debt : ℕ} {n : ℤ} (hlevel : level = n.toNat) (hdebt : debt = (-n).toNat)
    {b' : Bucket} {w t filled : ℕ} {init : Bool} :
    (consumeFrom DelayedFlowRouterHookIsm DURATION c amount level ⟨filled, t, init, debt⟩ = .ok (b', w)) ↔
      Fits DURATION c amount n ∧ b' = { ofBalance t (n - amount) with isInitialized := init } ∧
      w = if amount ≤ n.toNat then 0 else Account.wait DURATION c (n - amount) := by
  subst hlevel hdebt
  unfold consumeFrom Fits
  by_cases hle : amount ≤ n.toNat
  · have hfilled : n.toNat - amount = (n - amount).toNat := by omega
    have hdebt : (-n).toNat = (-(n - amount)).toNat := by omega
    simp only [hle, if_true, true_or, true_and, ofBalance, Except.ok.injEq, Prod.mk.injEq, hfilled, hdebt]
    exact and_congr eq_comm eq_comm
  · have hfilled : (n - amount).toNat = 0 := by omega
    have hover : (-n).toNat + (amount - n.toNat) = (amount - n).toNat := by omega
    have hneg : -(n - amount) = amount - n := by ring
    simp only [hle, if_false, false_or, DelayedFlowRouterHookIsm, bind_eq_ok, uint256_eq_ok, waitFor_eq_ok,
      Account.wait, ofBalance, hover, hfilled, hneg, Except.ok.injEq, Prod.mk.injEq]
    constructor
    · rintro ⟨d, ⟨hlt, rfl⟩, wait, ⟨hwait, rfl⟩, rfl, rfl⟩
      exact ⟨⟨hlt, hwait⟩, rfl, rfl⟩
    · rintro ⟨⟨hlt, hwait⟩, rfl, rfl⟩
      exact ⟨_, ⟨hlt, rfl⟩, _, ⟨hwait, rfl⟩, rfl, rfl⟩

/-- **A consumption stores the account's balance.** It returns exactly if the numbers fit. -/
theorem consume_eq_ok (h : Signed b) {amount : ℕ} {b' : Bucket} {w : ℕ} :
    consume DelayedFlowRouterHookIsm DURATION c amount b = .ok (b', w) ↔
      Consumes DURATION c amount b ∧ b' = ofBalance c.timestamp (b.account.accrued DURATION c - amount) ∧
        w = b.account.consumeWait DURATION c amount := by
  unfold consume Consumes Account.consumeWait
  simp only [bind_eq_ok, calculateCurrentLevel_eq_ok, calculateRefilledAmount_eq_ok, delayed_settleDebt,
    delayed_setInitialized, Prod.exists, Except.ok.injEq, Prod.mk.injEq]
  constructor
  · rintro ⟨level, ⟨hsums, rfl⟩, r, ⟨hrefills, rfl⟩, b1, w1, hfrom, rfl, rfl⟩
    rw [consumeFrom_eq_ok (currentLevel_signed h) (debt_settled h)] at hfrom
    obtain ⟨hfit, rfl, rfl⟩ := hfrom
    exact ⟨⟨hsums, hrefills, hfit⟩, rfl, rfl⟩
  · rintro ⟨⟨hsums, hrefills, hfit⟩, rfl, rfl⟩
    exact ⟨_, ⟨hsums, rfl⟩, _, ⟨hrefills, rfl⟩, _, _,
      (consumeFrom_eq_ok (currentLevel_signed h) (debt_settled h)).2 ⟨hfit, rfl, rfl⟩, rfl, rfl⟩

/-- a credit can be computed -/
def Credits (DURATION : ℕ) (c : Context) (amount : ℕ) (b : Bucket) : Prop :=
  Sums DelayedFlowRouterHookIsm DURATION c b ∧ Refills c b ∧ (b.account.accrued DURATION c + amount).toNat < 2 ^ 256

/-- **A credit stores the account's balance**, unless there is no capacity. -/
theorem credit_eq_ok (h : Signed b) (hcap : c.maxCapacity ≠ 0) {amount : ℕ} {b' : Bucket} {level : ℕ} :
    credit DelayedFlowRouterHookIsm DURATION c amount b = .ok (b', level) ↔
      Credits DURATION c amount b ∧
        b' = ofBalance c.timestamp (min c.maxCapacity (b.account.accrued DURATION c + amount)) ∧
        level = (min (c.maxCapacity : ℤ) (b.account.accrued DURATION c + amount)).toNat := by
  have hlevel : currentLevel DelayedFlowRouterHookIsm DURATION c b = (b.account.accrued DURATION c).toNat :=
    currentLevel_signed h
  have hdebt : b.debt - refill DURATION c b = (-(b.account.accrued DURATION c)).toNat := debt_settled h
  unfold credit Credits ofBalance
  simp only [hcap, if_false, bind_eq_ok, calculateCurrentLevel_eq_ok, calculateRefilledAmount_eq_ok,
    delayed_settleDebt, delayed_applyCredit, delayed_setInitialized, uint256_eq_ok, Except.ok.injEq, Prod.mk.injEq]
  generalize b.account.accrued DURATION c = n at *
  have hsum : currentLevel DelayedFlowRouterHookIsm DURATION c b + (amount - (b.debt - refill DURATION c b)) =
      (n + amount).toNat := by omega
  have hleft : b.debt - refill DURATION c b - amount = (-min (c.maxCapacity : ℤ) (n + amount)).toNat := by omega
  have hclamp : (if (n + amount).toNat > c.maxCapacity then c.maxCapacity else (n + amount).toNat) =
      (min (c.maxCapacity : ℤ) (n + amount)).toNat := by split <;> omega
  constructor
  · rintro ⟨l, ⟨hsums, rfl⟩, r, ⟨hrefills, rfl⟩, credited, ⟨hlt, rfl⟩, rfl, rfl⟩
    refine ⟨⟨hsums, hrefills, hsum ▸ hlt⟩, ?_⟩
    simp only [hsum, hleft, hclamp, and_self]
  · rintro ⟨⟨hsums, hrefills, hlt⟩, rfl, rfl⟩
    refine ⟨_, ⟨hsums, rfl⟩, _, ⟨hrefills, rfl⟩, _, ⟨hsum ▸ hlt, rfl⟩, ?_⟩
    simp only [hsum, hleft, hclamp, and_self]

/-! ## Splitting -/

/-- nothing accrues within one block -/
theorem accrued_ofBalance {n : ℤ} (hn : n ≤ c.maxCapacity) :
    (ofBalance c.timestamp n).account.accrued DURATION c = n := by
  rw [ofBalance_account]
  simp only [Account.accrued, Option.getD_some, Nat.sub_self, Nat.zero_mul, Nat.zero_div, Nat.cast_zero, add_zero]
  exact min_eq_right hn

theorem consumes_ofBalance {n : ℤ} (hn : n ≤ c.maxCapacity) (amount : ℕ) :
    Consumes DURATION c amount (ofBalance c.timestamp n) ↔ Fits DURATION c amount n := by
  have hlt := c.capacity_lt
  have hrefills : Refills c (ofBalance c.timestamp n) := by simp [Refills, ofBalance]
  have hsum : (ofBalance c.timestamp n).filledLevel + refill DURATION c (ofBalance c.timestamp n) < 2 ^ 256 := by
    simp only [refill, ofBalance, Nat.sub_self, Nat.zero_mul, Nat.zero_div, add_zero]
    omega
  rw [Consumes, accrued_ofBalance hn]
  exact ⟨fun h => h.2.2, fun h => ⟨fun _ _ => ⟨hrefills, hsum⟩, hrefills, h⟩⟩

/-- two amounts fit one after the other if their sum does -/
theorem fits_add (n : ℤ) (first second : ℕ) :
    Fits DURATION c first n ∧ Fits DURATION c second (n - first) ↔ Fits DURATION c (first + second) n := by
  have hsum : ((first + second : ℕ) - n : ℤ) = second - (n - first) := by push_cast; ring
  unfold Fits
  rw [hsum]
  constructor
  · rintro ⟨hfirst, hsecond | hsecond⟩
    · rcases Nat.eq_zero_or_pos second with rfl | hpos
      · rcases hfirst with hfirst | hfirst
        · exact .inl hfirst
        · refine .inr ?_
          rwa [show ((0 : ℕ) : ℤ) - (n - first) = first - n by push_cast; ring]
      · exact .inl (by omega)
    · exact .inr hsecond
  · rintro (hle | ⟨hlt, hwait⟩)
    · exact ⟨.inl (by omega), .inl (by omega)⟩
    · have hmono : (first - n).toNat ≤ (second - (n - first)).toNat := by omega
      refine ⟨.inr ⟨by omega, fun hcap => ?_⟩, .inr ⟨hlt, hwait⟩⟩
      exact lt_of_le_of_lt (Nat.div_le_div_right (Nat.mul_le_mul_right _ hmono)) (hwait hcap)

theorem sub_first_le (s : Account) (first : ℕ) : s.accrued DURATION c - first ≤ c.maxCapacity :=
  (Int.sub_le_self _ (Int.natCast_nonneg first)).trans (min_le_left _ _)

/-- the wait of the last part is the wait of the whole, if it is over the limit whenever the whole is -/
theorem consumeWait_add (s : Account) (first second : ℕ) (h : 0 < second ∨ first ≤ (s.accrued DURATION c).toNat) :
    (ofBalance c.timestamp (s.accrued DURATION c - first)).account.consumeWait DURATION c second =
      s.consumeWait DURATION c (first + second) := by
  unfold Account.consumeWait
  rw [accrued_ofBalance (sub_first_le s first), Nat.cast_add, sub_sub]
  exact if_congr (by omega) rfl rfl

/-- two consumptions in one block: the state is that of the sum, the wait is that of the last -/
theorem consume_consume_eq_ok (h : Signed b) {first second : ℕ} {b' : Bucket} {w : ℕ} :
    (∃ b₁ w₁, consume DelayedFlowRouterHookIsm DURATION c first b = .ok (b₁, w₁) ∧
      consume DelayedFlowRouterHookIsm DURATION c second b₁ = .ok (b', w)) ↔
    Consumes DURATION c (first + second) b ∧
      b' = ofBalance c.timestamp (b.account.accrued DURATION c - (first + second : ℕ)) ∧
      w = (ofBalance c.timestamp (b.account.accrued DURATION c - first)).account.consumeWait DURATION c second := by
  have hle : b.account.accrued DURATION c - first ≤ c.maxCapacity := sub_first_le b.account first
  have hsub : b.account.accrued DURATION c - first - second =
      b.account.accrued DURATION c - (first + second : ℕ) := by
    rw [Nat.cast_add, sub_sub]
  simp only [consume_eq_ok h]
  constructor
  · rintro ⟨b₁, w₁, ⟨⟨hsums, hrefills, hfirst⟩, rfl, -⟩, hsecond⟩
    obtain ⟨hconsumes, rfl, rfl⟩ := (consume_eq_ok (signed_ofBalance _ _)).1 hsecond
    rw [accrued_ofBalance hle, hsub]
    rw [consumes_ofBalance hle] at hconsumes
    exact ⟨⟨hsums, hrefills, (fits_add _ _ _).1 ⟨hfirst, hconsumes⟩⟩, rfl, rfl⟩
  · rintro ⟨⟨hsums, hrefills, hfits⟩, rfl, rfl⟩
    obtain ⟨hfirst, hsecond⟩ := (fits_add _ _ _).2 hfits
    refine ⟨_, _, ⟨⟨hsums, hrefills, hfirst⟩, rfl, rfl⟩, (consume_eq_ok (signed_ofBalance _ _)).2 ?_⟩
    rw [accrued_ofBalance hle, hsub]
    exact ⟨(consumes_ofBalance hle _).2 hsecond, rfl, rfl⟩

theorem max_zero_eq (n : ℤ) : max 0 n = n.toNat := by omega

theorem calculateCurrentLevel_signed (h : Signed b) {level : ℕ} :
    calculateCurrentLevel DelayedFlowRouterHookIsm DURATION c b = .ok level ↔
      Sums DelayedFlowRouterHookIsm DURATION c b ∧ (level : ℤ) = max 0 (b.account.accrued DURATION c) := by
  rw [calculateCurrentLevel_eq_ok, currentLevel_signed h, max_zero_eq, Int.natCast_inj]

theorem consumeWait_eq (s : Account) (amount : ℕ) :
    s.consumeWait DURATION c amount =
      if amount ≤ max 0 (s.accrued DURATION c) then 0
      else Account.wait DURATION c (s.accrued DURATION c - amount) := by
  refine if_congr ?_ rfl rfl
  rw [max_zero_eq, Nat.cast_le]

/-- **A consumption may be split**: the parts succeed if the whole does, and leave the same state. -/
theorem consume_split (h : Signed b) (first second : ℕ) (b' : Bucket) :
    (∃ b₁ w₁ w, consume DelayedFlowRouterHookIsm DURATION c first b = .ok (b₁, w₁) ∧
      consume DelayedFlowRouterHookIsm DURATION c second b₁ = .ok (b', w)) ↔
    ∃ w, consume DelayedFlowRouterHookIsm DURATION c (first + second) b = .ok (b', w) := by
  constructor
  · rintro ⟨b₁, w₁, w, hparts⟩
    obtain ⟨hconsumes, hb', -⟩ := (consume_consume_eq_ok h).1 ⟨b₁, w₁, hparts⟩
    exact ⟨_, (consume_eq_ok h).2 ⟨hconsumes, hb', rfl⟩⟩
  · rintro ⟨w, hwhole⟩
    obtain ⟨hconsumes, hb', -⟩ := (consume_eq_ok h).1 hwhole
    obtain ⟨b₁, w₁, hparts⟩ := (consume_consume_eq_ok h).2 ⟨hconsumes, hb', rfl⟩
    exact ⟨b₁, w₁, _, hparts⟩

theorem consume_split_wait (h : Signed b) {first second : ℕ}
    (hpart : 0 < second ∨ first ≤ max 0 (b.account.accrued DURATION c)) (b' : Bucket) (w : ℕ) :
    (∃ b₁ w₁, consume DelayedFlowRouterHookIsm DURATION c first b = .ok (b₁, w₁) ∧
      consume DelayedFlowRouterHookIsm DURATION c second b₁ = .ok (b', w)) ↔
    consume DelayedFlowRouterHookIsm DURATION c (first + second) b = .ok (b', w) := by
  rw [max_zero_eq, Nat.cast_le] at hpart
  rw [consume_consume_eq_ok h, consume_eq_ok h, consumeWait_add _ _ _ hpart]

end Operations

/-! ## Runs -/

inductive Call where
  | consume (amount : ℕ)
  | credit (amount : ℕ)
deriving DecidableEq

/-- a call of the contract, with what it returns -/
def Call.execute (DURATION : ℕ) (c : Context) (b : Bucket) : Call → Except String (Bucket × ℕ)
  | .consume amount => RateLimit.consume DelayedFlowRouterHookIsm DURATION c amount b
  | .credit amount => RateLimit.credit DelayedFlowRouterHookIsm DURATION c amount b

/-- the calls that do not revert, with what they return, and the bucket after all calls -/
def run (DURATION : ℕ) : Bucket → List (Context × Call) → Bucket × List ((Context × Call) × ℕ)
  | b, [] => (b, [])
  | b, (c, call) :: calls =>
    match call.execute DURATION c b with
    | .ok (b', out) => ((run DURATION b' calls).1, ((c, call), out) :: (run DURATION b' calls).2)
    | .error _ => run DURATION b calls

/-- a call of the account -/
def Account.perform (DURATION : ℕ) (c : Context) (s : Account) : Call → Account × ℕ
  | .consume amount => (s.consume DURATION c amount, s.consumeWait DURATION c amount)
  | .credit amount =>
    (s.credit DURATION c amount,
      if c.maxCapacity = 0 then 0 else (min (c.maxCapacity : ℤ) (s.accrued DURATION c + amount)).toNat)

def Account.run (DURATION : ℕ) : Account → List (Context × Call) → Account × List ((Context × Call) × ℕ)
  | s, [] => (s, [])
  | s, (c, call) :: calls =>
    ((Account.run DURATION (s.perform DURATION c call).1 calls).1,
      ((c, call), (s.perform DURATION c call).2) :: (Account.run DURATION (s.perform DURATION c call).1 calls).2)

theorem signed_deployed (t : ℕ) : Signed (TvlRateLimited.deployed t) := ⟨.inl rfl, fun _ => ⟨rfl, rfl⟩⟩

/-- one call: the bucket stays signed and does what the account does -/
theorem step_refines {DURATION : ℕ} {c : Context} {b b' : Bucket} {call : Call} {out : ℕ} (h : Signed b)
    (hok : call.execute DURATION c b = .ok (b', out)) :
    Signed b' ∧ b.account.perform DURATION c call = (b'.account, out) := by
  cases call with
  | consume amount =>
    obtain ⟨-, rfl, rfl⟩ := (consume_eq_ok h).1 hok
    refine ⟨signed_ofBalance _ _, ?_⟩
    rw [ofBalance_account]
    rfl
  | credit amount =>
    by_cases hcap : c.maxCapacity = 0
    · simp only [Call.execute, RateLimit.credit, hcap, if_true, Except.ok.injEq, Prod.mk.injEq] at hok
      obtain ⟨rfl, rfl⟩ := hok
      refine ⟨h, ?_⟩
      simp only [Account.perform, Account.credit, hcap, if_true]
    · obtain ⟨-, rfl, rfl⟩ := (credit_eq_ok h hcap).1 hok
      refine ⟨signed_ofBalance _ _, ?_⟩
      simp only [Account.perform, Account.credit, hcap, if_false, ofBalance_account]

/-- **Whole runs**: the bucket stays signed, and the calls that succeed are a run of the account, with its returns. -/
theorem run_refines (DURATION : ℕ) (b : Bucket) (calls : List (Context × Call)) (h : Signed b) :
    Signed (run DURATION b calls).1 ∧
      b.account.run DURATION ((run DURATION b calls).2.map Prod.fst) =
        ((run DURATION b calls).1.account, (run DURATION b calls).2) := by
  induction calls generalizing b with
  | nil => exact ⟨h, rfl⟩
  | cons head calls ih =>
    obtain ⟨c, call⟩ := head
    rw [run]
    cases hexec : call.execute DURATION c b with
    | error e => exact ih b h
    | ok r =>
      obtain ⟨b', out⟩ := r
      obtain ⟨hsigned, hperform⟩ := step_refines h hexec
      obtain ⟨hrun, heq⟩ := ih b' hsigned
      refine ⟨hrun, ?_⟩
      simp only [List.map_cons, Account.run, hperform, heq]

/-- **The delayed-flow bucket is one signed balance.** In every state that a run reaches, one of the two slots is zero;
the run is that of the account; the level is the positive part of the accrued balance `M`; a consumption leaves
`M - amount` and, over the limit, waits for the refill of what is owed; a credit leaves `M + amount`, at most the
capacity; and a consumption in two parts leaves the same state, with the same wait unless the second part is empty. -/
theorem delayed_flow_balance (DURATION deployedAt : ℕ) (calls : List (Context × Call)) :
    let b := (run DURATION (TvlRateLimited.deployed deployedAt) calls).1
    let accepted := (run DURATION (TvlRateLimited.deployed deployedAt) calls).2
    (Account.run DURATION ⟨none, deployedAt⟩ (accepted.map Prod.fst) = (b.account, accepted)) ∧
    (b.filledLevel = 0 ∨ b.debt = 0) ∧
    ∀ c : Context,
      let M := b.account.accrued DURATION c
      (∀ level, calculateCurrentLevel DelayedFlowRouterHookIsm DURATION c b = .ok level ↔
        Sums DelayedFlowRouterHookIsm DURATION c b ∧ (level : ℤ) = max 0 M) ∧
      (∀ amount b' w, consume DelayedFlowRouterHookIsm DURATION c amount b = .ok (b', w) ↔
        Consumes DURATION c amount b ∧ b' = ofBalance c.timestamp (M - amount) ∧
          w = if amount ≤ max 0 M then 0 else Account.wait DURATION c (M - amount)) ∧
      (c.maxCapacity ≠ 0 → ∀ amount b' level,
        credit DelayedFlowRouterHookIsm DURATION c amount b = .ok (b', level) ↔
          Credits DURATION c amount b ∧ b' = ofBalance c.timestamp (min c.maxCapacity (M + amount)) ∧
            (level : ℤ) = max 0 (min (c.maxCapacity : ℤ) (M + amount))) ∧
      ∀ first second b',
        ((∃ b₁ w₁ w, consume DelayedFlowRouterHookIsm DURATION c first b = .ok (b₁, w₁) ∧
            consume DelayedFlowRouterHookIsm DURATION c second b₁ = .ok (b', w)) ↔
          ∃ w, consume DelayedFlowRouterHookIsm DURATION c (first + second) b = .ok (b', w)) ∧
        (0 < second ∨ first ≤ max 0 M → ∀ w,
          (∃ b₁ w₁, consume DelayedFlowRouterHookIsm DURATION c first b = .ok (b₁, w₁) ∧
            consume DelayedFlowRouterHookIsm DURATION c second b₁ = .ok (b', w)) ↔
          consume DelayedFlowRouterHookIsm DURATION c (first + second) b = .ok (b', w)) := by
  intro b accepted
  obtain ⟨hsigned, hrun⟩ := run_refines DURATION _ calls (signed_deployed deployedAt)
  change Signed b at hsigned
  refine ⟨hrun, hsigned.oneSlot, fun c => ⟨fun level => calculateCurrentLevel_signed hsigned, fun amount b' w => ?_,
    fun hcap amount b' level => ?_, fun first second b' =>
    ⟨consume_split hsigned first second b', fun hpart w => consume_split_wait hsigned hpart b' w⟩⟩⟩
  · rw [consume_eq_ok hsigned, consumeWait_eq]
  · rw [credit_eq_ok hsigned hcap, max_zero_eq, Nat.cast_inj]

/-- without capacity a consumption also takes what is left; and the wait of an empty second part is zero, although the
first part is over the limit -/
theorem zero_capacity_and_empty_part :
    let funded : Context := ⟨0, 100, by norm_num⟩
    let drained : Context := ⟨0, 0, by norm_num⟩
    let full := (run 60 (TvlRateLimited.deployed 0) [(funded, .consume 0)]).1
    (∃ b' w, consume DelayedFlowRouterHookIsm 60 drained 5 full = .ok (b', w) ∧
      (b'.filledLevel - b'.debt : ℤ) ≠ (full.filledLevel - full.debt) - 5) ∧
    ∃ b₁ w₁ b' w w', consume DelayedFlowRouterHookIsm 60 funded 150 full = .ok (b₁, w₁) ∧
      consume DelayedFlowRouterHookIsm 60 funded 0 b₁ = .ok (b', w) ∧
      consume DelayedFlowRouterHookIsm 60 funded (150 + 0) full = .ok (b', w') ∧ w ≠ w' := by
  intro funded drained full
  have hdrained : consume DelayedFlowRouterHookIsm 60 drained 5 full = .ok (⟨0, 0, true, 5⟩, 2 ^ 256 - 1) := by
    decide +kernel
  have hfirst : consume DelayedFlowRouterHookIsm 60 funded 150 full = .ok (⟨0, 0, true, 50⟩, 30) := by decide +kernel
  have hsecond : consume DelayedFlowRouterHookIsm 60 funded 0 ⟨0, 0, true, 50⟩ = .ok (⟨0, 0, true, 50⟩, 0) := by
    decide +kernel
  exact ⟨⟨_, _, hdrained, by decide +kernel⟩, _, _, _, _, _, hfirst, hsecond, hfirst, by decide⟩

end Hyperlane.RateLimit
