/-
Token scales: typescript/sdk/src/utils/decimals.ts, its uses in typescript/rebalancer/src/utils/balanceUtils.ts, and the
conversions of TokenRouter.sol.

A `bigint` is an integer and `/` truncates. The two conversions of non-negative amounts are a rounded product and its least
preimage (module `Core.Rounding`); `verifyScale` compares every chain with the first one.

- `minLocalAmountForMessage_least`, `alignLocalAmountToMessage_spec`: the conversions.
- `outboundAmount_eq`, `inboundAmount_eq`: the contract's.
- `verifyScale_eq`: the comparison of all pairs.
- `sent_value_le`: what a verified route delivers.
-/
import Hyperlane.Core.Rounding
import Hyperlane.Rebalancer.Execution
import Hyperlane.Warp.TokenRouter

namespace Hyperlane.Sdk

open Hyperlane.Rounding

/-! ## Scales -/

structure NormalizedScale where
  numerator : ℤ
  denominator : ℤ
deriving DecidableEq

/-- the forms that the schema of a token's metadata accepts, and no scale -/
inductive ScaleInput where
  | undefined
  | number (n : ℤ)
  | fraction (numerator denominator : ℤ)
deriving DecidableEq

def DEFAULT_SCALE : NormalizedScale := ⟨1, 1⟩

def normalizeScale : ScaleInput → NormalizedScale
  | .undefined => DEFAULT_SCALE
  | .number n => ⟨n, 1⟩
  | .fraction numerator denominator => ⟨numerator, denominator⟩

def assert (condition : Bool) (message : String) : Except String Unit := if condition then .ok () else .error message

def assertValidScale (scale : NormalizedScale) : Except String Unit :=
  assert (decide (0 < scale.numerator) && decide (0 < scale.denominator))
    ("Scale must be positive, got " ++ toString scale.numerator ++ "/" ++ toString scale.denominator)

def ceilDiv (numerator denominator : ℤ) : Except String ℤ := do
  assert (decide (0 < denominator)) "Denominator must be positive"
  assert (decide (0 ≤ numerator)) "Numerator must be non-negative"
  if numerator = 0 then .ok 0 else .ok ((numerator + denominator - 1).tdiv denominator)

def messageAmountFromLocal (localAmount : ℤ) (scale : ScaleInput) : Except String ℤ := do
  assert (decide (0 ≤ localAmount)) "Local amount must be non-negative"
  let normalized := normalizeScale scale
  assertValidScale normalized
  .ok ((localAmount * normalized.numerator).tdiv normalized.denominator)

def localAmountFromMessage (messageAmount : ℤ) (scale : ScaleInput) : Except String ℤ := do
  assert (decide (0 ≤ messageAmount)) "Message amount must be non-negative"
  let normalized := normalizeScale scale
  assertValidScale normalized
  .ok ((messageAmount * normalized.denominator).tdiv normalized.numerator)

def minLocalAmountForMessage (messageAmount : ℤ) (scale : ScaleInput) : Except String ℤ := do
  assert (decide (0 ≤ messageAmount)) "Message amount must be non-negative"
  let normalized := normalizeScale scale
  assertValidScale normalized
  ceilDiv (messageAmount * normalized.denominator) normalized.numerator

structure ScaleAlignment where
  localAmount : ℤ
  messageAmount : ℤ
deriving DecidableEq

def alignLocalAmountToMessage (localAmount : ℤ) (scale : ScaleInput) : Except String ScaleAlignment := do
  assert (decide (0 ≤ localAmount)) "Local amount must be non-negative"
  let messageAmount ← messageAmountFromLocal localAmount scale
  if messageAmount = 0 then .ok ⟨0, 0⟩
  else do
    let aligned ← minLocalAmountForMessage messageAmount scale
    .ok ⟨aligned, messageAmount⟩

def scalesEqual (a b : ScaleInput) : Bool :=
  (normalizeScale a).numerator * (normalizeScale b).denominator ==
    (normalizeScale b).numerator * (normalizeScale a).denominator

/-! ## The scales of a route -/

/-- what `verifyScale` reads of a token's metadata -/
structure TokenMetadata where
  decimals : Option ℕ
  scale : ScaleInput

structure Entry where
  decimals : ℕ
  scale : ScaleInput

/-- the entry of a chain -/
def toEntry (config : String × TokenMetadata) : Except String Entry :=
  match config.2.decimals with
  | none => .error ("Decimals must be defined for token config on chain " ++ config.1)
  | some decimals => .ok ⟨decimals, config.2.scale⟩

def areDecimalsUniform : List Entry → Bool
  | [] => true
  | first :: rest => rest.all fun d => d.decimals == first.decimals

/-- `refEffective`, and `effective` of every other chain -/
def Entry.effective (e : Entry) : ℤ := (normalizeScale e.scale).numerator * 10 ^ e.decimals

/-- the loop over all chains but the first -/
def generalTest (ref : Entry) (rest : List Entry) : Bool :=
  rest.all fun e => ref.effective * (normalizeScale e.scale).denominator ==
    e.effective * (normalizeScale ref.scale).denominator

def uniformTest (ref : Entry) (entries : List Entry) : Bool := entries.all fun e => scalesEqual ref.scale e.scale

def verifyEntries : List Entry → Bool
  | [] => true
  | [_] => true
  | ref :: rest => if areDecimalsUniform (ref :: rest) then uniformTest ref (ref :: rest) else generalTest ref rest

def verifyScale (configs : List (String × TokenMetadata)) : Except String Bool := do
  let entries ← configs.mapM toEntry
  .ok (verifyEntries entries)

/-! ## The conversions -/

def Positive (scale : ScaleInput) : Prop := 0 < (normalizeScale scale).numerator ∧ 0 < (normalizeScale scale).denominator

/-- a positive scale in natural numbers, as the model of the rebalancer has it -/
theorem Positive.exists_nat {scale : ScaleInput} (h : Positive scale) : ∃ s : Rebalancer.NormalizedScale,
    (normalizeScale scale).numerator = s.numerator ∧ (normalizeScale scale).denominator = s.denominator := by
  obtain ⟨hn, hd⟩ := h
  refine ⟨⟨(normalizeScale scale).numerator.toNat, (normalizeScale scale).denominator.toNat, ?_, ?_⟩, ?_, ?_⟩
  · exact Int.pos_iff_toNat_pos.1 hn
  · exact Int.pos_iff_toNat_pos.1 hd
  · exact (Int.toNat_of_nonneg hn.le).symm
  · exact (Int.toNat_of_nonneg hd.le).symm

section Conversions

variable {scale : ScaleInput} {s : Rebalancer.NormalizedScale}

theorem assertValidScale_ok (h : Positive scale) : assertValidScale (normalizeScale scale) = .ok () := by
  rw [assertValidScale, assert, decide_eq_true h.1, decide_eq_true h.2]
  rfl

theorem assert_nonneg (x : ℕ) (message : String) : assert (decide ((0 : ℤ) ≤ x)) message = .ok () := by
  rw [assert, decide_eq_true (Int.natCast_nonneg x)]
  rfl

/-- the conversions are those of the rebalancer's model -/
theorem messageAmountFromLocal_eq (h : Positive scale) (hn : (normalizeScale scale).numerator = s.numerator)
    (hd : (normalizeScale scale).denominator = s.denominator) (localAmount : ℕ) :
    messageAmountFromLocal localAmount scale = .ok (Rebalancer.messageAmountFromLocal localAmount s : ℕ) := by
  rw [messageAmountFromLocal, assert_nonneg, Outcome.ok_bind]
  dsimp only
  rw [assertValidScale_ok h, Outcome.ok_bind, hn, hd, Rebalancer.messageAmountFromLocal]
  norm_cast

theorem localAmountFromMessage_eq (h : Positive scale) (hn : (normalizeScale scale).numerator = s.numerator)
    (hd : (normalizeScale scale).denominator = s.denominator) (messageAmount : ℕ) :
    localAmountFromMessage messageAmount scale = .ok (down s.denominator s.numerator messageAmount : ℕ) := by
  rw [localAmountFromMessage, assert_nonneg, Outcome.ok_bind]
  dsimp only
  rw [assertValidScale_ok h, Outcome.ok_bind, hn, hd, down]
  norm_cast

theorem ceilDiv_eq {n x : ℕ} (hn : 0 < n) : ceilDiv x n = .ok ((x + n - 1) / n : ℕ) := by
  have hpos : assert (decide ((0 : ℤ) < n)) "Denominator must be positive" = .ok () := by
    rw [assert, decide_eq_true (Int.natCast_pos.2 hn)]
    rfl
  rw [ceilDiv, hpos, Outcome.ok_bind, assert_nonneg, Outcome.ok_bind]
  split
  next hzero =>
    rw [Int.natCast_eq_zero.1 hzero, Nat.zero_add, Nat.div_eq_of_lt (by omega)]
    rfl
  next hzero =>
    rw [show (x : ℤ) + n - 1 = ((x + n - 1 : ℕ) : ℤ) by omega]
    norm_cast

theorem minLocalAmountForMessage_eq (h : Positive scale) (hn : (normalizeScale scale).numerator = s.numerator)
    (hd : (normalizeScale scale).denominator = s.denominator) (messageAmount : ℕ) :
    minLocalAmountForMessage messageAmount scale = .ok (Rebalancer.minLocalAmountForMessage messageAmount s : ℕ) := by
  rw [minLocalAmountForMessage, assert_nonneg, Outcome.ok_bind]
  dsimp only
  rw [assertValidScale_ok h, Outcome.ok_bind, hn, hd, ← Nat.cast_mul, ceilDiv_eq s.numerator_pos]
  rfl

/-- the least preimage -/
theorem minLocalAmountForMessage_least (h : Positive scale) {messageAmount : ℤ} (hm : 0 ≤ messageAmount) :
    ∃ l, minLocalAmountForMessage messageAmount scale = .ok l ∧
      IsLeast {l | 0 ≤ l ∧ ∃ m, messageAmountFromLocal l scale = .ok m ∧ messageAmount ≤ m} l := by
  obtain ⟨s, hn, hd⟩ := h.exists_nat
  lift messageAmount to ℕ using hm
  have hgc := gc (d := s.denominator) s.numerator_pos s.denominator_pos
  refine ⟨_, minLocalAmountForMessage_eq h hn hd messageAmount, ⟨Int.natCast_nonneg _, _,
    messageAmountFromLocal_eq h hn hd _, ?_⟩, ?_⟩
  · exact Int.ofNat_le.2 (hgc.le_u_l messageAmount)
  · rintro l ⟨hl, m, hmessage, hle⟩
    lift l to ℕ using hl
    rw [messageAmountFromLocal_eq h hn hd] at hmessage
    obtain rfl := Except.ok.inj hmessage
    exact Int.ofNat_le.2 ((hgc messageAmount l).2 (Int.ofNat_le.1 hle))

/-- nothing of a message amount is lost by aligning the local amount -/
theorem alignLocalAmountToMessage_spec (h : Positive scale) {localAmount : ℤ} (hl : 0 ≤ localAmount) :
    ∃ aligned, alignLocalAmountToMessage localAmount scale = .ok aligned ∧ 0 ≤ aligned.localAmount ∧
      aligned.localAmount ≤ localAmount ∧
      messageAmountFromLocal aligned.localAmount scale = .ok aligned.messageAmount ∧
      messageAmountFromLocal localAmount scale = .ok aligned.messageAmount := by
  obtain ⟨s, hn, hd⟩ := h.exists_nat
  lift localAmount to ℕ using hl
  have hgc := gc (d := s.denominator) s.numerator_pos s.denominator_pos
  have hmessage := messageAmountFromLocal_eq h hn hd localAmount
  rw [alignLocalAmountToMessage, assert_nonneg, Outcome.ok_bind, hmessage, Outcome.ok_bind]
  split
  next hzero =>
    have hnone : messageAmountFromLocal (0 : ℕ) scale = .ok (0 : ℕ) := by
      rw [messageAmountFromLocal_eq h hn hd, Rebalancer.messageAmountFromLocal, Nat.zero_mul, Nat.zero_div]
    exact ⟨_, rfl, le_rfl, Int.natCast_nonneg _, hnone, congrArg Except.ok hzero⟩
  next hzero =>
    rw [minLocalAmountForMessage_eq h hn hd, Outcome.ok_bind]
    refine ⟨_, rfl, Int.natCast_nonneg _, Int.ofNat_le.2 (hgc.l_u_le localAmount), ?_, rfl⟩
    rw [messageAmountFromLocal_eq h hn hd]
    exact congrArg (fun m : ℕ => Except.ok (m : ℤ)) (hgc.u_l_u_eq_u localAmount)

end Conversions

/-! ## The contract -/

section Contract

open Hyperlane.Warp Hyperlane.Tokens

variable {R U E C : Type}

/-- the scale of a deployed router -/
def routerScale (c : Config R U E C) (r : R) : ScaleInput := .fraction (c.scaleNumerator r) (c.scaleDenominator r)

def routerNormalized (c : Config R U E C) (r : R) : Rebalancer.NormalizedScale :=
  ⟨c.scaleNumerator r, c.scaleDenominator r, c.numerator_pos r, c.denominator_pos r⟩

theorem routerScale_positive (c : Config R U E C) (r : R) : Positive (routerScale c r) :=
  ⟨Int.natCast_pos.2 (c.numerator_pos r), Int.natCast_pos.2 (c.denominator_pos r)⟩

theorem checked_value {x y : ℕ} (h : checked x = .ok y) : y = x := by
  rw [checked] at h
  split at h
  · exact (Except.ok.inj h).symm
  · cases h

theorem outboundAmount_eq {c : Config R U E C} {r : R} {localAmount x : ℕ} (h : outboundAmount c r localAmount = .ok x) :
    messageAmountFromLocal localAmount (routerScale c r) = .ok x := by
  have heq := messageAmountFromLocal_eq (s := routerNormalized c r) (routerScale_positive c r) rfl rfl localAmount
  rw [heq, checked_value h]
  rfl

theorem inboundAmount_eq {c : Config R U E C} {r : R} {messageAmount x : ℕ} (h : inboundAmount c r messageAmount = .ok x) :
    localAmountFromMessage messageAmount (routerScale c r) = .ok x := by
  have heq := localAmountFromMessage_eq (s := routerNormalized c r) (routerScale_positive c r) rfl rfl messageAmount
  rw [heq, checked_value h]
  rfl

end Contract

/-! ## The pairs of a route -/

/-- `scale * 10^decimals` -/
def Entry.unit (e : Entry) : ℚ :=
  ((normalizeScale e.scale).numerator : ℚ) / (normalizeScale e.scale).denominator * 10 ^ e.decimals

section Pairs

variable {a b e ref : Entry} {rest entries : List Entry}

theorem unit_eq_iff (ha : Positive a.scale) (hb : Positive b.scale) : a.unit = b.unit ↔
    a.effective * (normalizeScale b.scale).denominator = b.effective * (normalizeScale a.scale).denominator := by
  have hda : ((normalizeScale a.scale).denominator : ℚ) ≠ 0 := Int.cast_ne_zero.2 ha.2.ne'
  have hdb : ((normalizeScale b.scale).denominator : ℚ) ≠ 0 := Int.cast_ne_zero.2 hb.2.ne'
  rw [Entry.unit, Entry.unit, div_mul_eq_mul_div, div_mul_eq_mul_div, div_eq_div_iff hda hdb, Entry.effective, Entry.effective]
  norm_cast

theorem scalesEqual_iff (ha : Positive a.scale) (hb : Positive b.scale) (hdecimals : a.decimals = b.decimals) :
    scalesEqual a.scale b.scale = true ↔ a.unit = b.unit := by
  have hten : (10 : ℤ) ^ b.decimals ≠ 0 := pow_ne_zero _ (by decide)
  rw [unit_eq_iff ha hb, Entry.effective, Entry.effective, hdecimals, mul_right_comm, mul_right_comm _ (10 ^ b.decimals),
    mul_left_inj' hten, scalesEqual, beq_iff_eq]

theorem generalTest_iff (hpos : ∀ e ∈ ref :: rest, Positive e.scale) :
    generalTest ref rest = true ↔ ∀ e ∈ rest, ref.unit = e.unit := by
  rw [generalTest, List.all_eq_true]
  refine forall₂_congr fun e he => ?_
  rw [beq_iff_eq, unit_eq_iff (hpos ref List.mem_cons_self) (hpos e (List.mem_cons_of_mem _ he))]

/-- the shortcut is the general test -/
theorem uniformTest_eq (hpos : ∀ e ∈ ref :: rest, Positive e.scale) (huniform : areDecimalsUniform (ref :: rest) = true) :
    uniformTest ref (ref :: rest) = generalTest ref rest := by
  rw [areDecimalsUniform, List.all_eq_true] at huniform
  have hself : scalesEqual ref.scale ref.scale = true := beq_self_eq_true _
  rw [uniformTest, List.all_cons, hself, Bool.true_and, Bool.eq_iff_iff, generalTest_iff hpos, List.all_eq_true]
  refine forall₂_congr fun e he => ?_
  exact scalesEqual_iff (hpos ref List.mem_cons_self) (hpos e (List.mem_cons_of_mem _ he)) (beq_iff_eq.1 (huniform e he)).symm

/-- all units are equal when each is the first one's -/
theorem verifyEntries_iff (hpos : ∀ e ∈ entries, Positive e.scale) :
    verifyEntries entries = true ↔ ∀ a ∈ entries, ∀ b ∈ entries, a.unit = b.unit := by
  match entries with
  | [] => exact iff_of_true rfl fun a ha => absurd ha List.not_mem_nil
  | [e] =>
    refine iff_of_true rfl fun a ha b hb => ?_
    rw [List.mem_singleton.1 ha, List.mem_singleton.1 hb]
  | ref :: second :: rest =>
    have hgeneral : verifyEntries (ref :: second :: rest) = generalTest ref (second :: rest) := by
      rw [verifyEntries]
      · split
        next huniform => exact uniformTest_eq hpos huniform
        · rfl
      · nofun
    rw [hgeneral, generalTest_iff hpos]
    constructor
    · intro h
      have hfirst : ∀ e ∈ ref :: second :: rest, ref.unit = e.unit := List.forall_mem_cons.2 ⟨rfl, h⟩
      exact fun a ha b hb => (hfirst a ha).symm.trans (hfirst b hb)
    · intro h e he
      exact h ref List.mem_cons_self e (List.mem_cons_of_mem _ he)

end Pairs

/-! ## A route -/

/-- the entry of a chain whose decimals are defined -/
def entryOf (config : String × TokenMetadata) : Entry := ⟨config.2.decimals.getD 0, config.2.scale⟩

/-- what the schema promises, and that the decimals are known -/
def Complete (configs : List (String × TokenMetadata)) : Prop :=
  ∀ config ∈ configs, config.2.decimals ≠ none ∧ Positive config.2.scale

section Route

variable {configs : List (String × TokenMetadata)}

theorem toEntry_eq {config : String × TokenMetadata} (h : config.2.decimals ≠ none) : toEntry config = .ok (entryOf config) := by
  obtain ⟨d, hd⟩ := Option.ne_none_iff_exists'.1 h
  rw [toEntry, hd, entryOf, hd]
  rfl

theorem mapM_toEntry (h : ∀ config ∈ configs, config.2.decimals ≠ none) :
    configs.mapM toEntry = .ok (configs.map entryOf) := by
  induction configs with
  | nil => rfl
  | cons config configs ih =>
    rw [List.mapM_cons, toEntry_eq (h config List.mem_cons_self), Outcome.ok_bind,
      ih fun c hc => h c (List.mem_cons_of_mem _ hc), Outcome.ok_bind]
    rfl

theorem verifyScale_eq (h : Complete configs) : verifyScale configs = .ok (verifyEntries (configs.map entryOf)) := by
  rw [verifyScale, mapM_toEntry fun config hc => (h config hc).1, Outcome.ok_bind]

theorem Complete.positive (h : Complete configs) : ∀ e ∈ configs.map entryOf, Positive e.scale :=
  List.forall_mem_map.2 fun config hc => (h config hc).2

theorem verified_iff (h : Complete configs) : verifyEntries (configs.map entryOf) = true ↔
    ∀ a ∈ configs, ∀ b ∈ configs, (entryOf a).unit = (entryOf b).unit := by
  rw [verifyEntries_iff h.positive]
  simp only [List.forall_mem_map]

theorem Complete.perm (h : Complete configs) {configs' : List (String × TokenMetadata)} (hperm : configs'.Perm configs) :
    Complete configs' := fun config hc => h config (hperm.subset hc)

theorem verifyScale_perm (h : Complete configs) {configs' : List (String × TokenMetadata)} (hperm : configs'.Perm configs) :
    verifyScale configs' = verifyScale configs := by
  rw [verifyScale_eq h, verifyScale_eq (h.perm hperm)]
  refine congrArg Except.ok (Bool.eq_iff_iff.2 ?_)
  rw [verified_iff h, verified_iff (h.perm hperm)]
  simp only [hperm.mem_iff]

/-- a transfer between two chains of the same unit gains nothing, in whole tokens -/
theorem sent_value_le {a b : Entry} (ha : Positive a.scale) (hb : Positive b.scale) (hunit : a.unit = b.unit) {l : ℤ}
    (hl : 0 ≤ l) : ∃ m x, messageAmountFromLocal l a.scale = .ok m ∧ localAmountFromMessage m b.scale = .ok x ∧
      (x : ℚ) / 10 ^ b.decimals ≤ (l : ℚ) / 10 ^ a.decimals := by
  rw [unit_eq_iff ha hb, Entry.effective, Entry.effective] at hunit
  obtain ⟨s, hn, hd⟩ := ha.exists_nat
  obtain ⟨t, hn', hd'⟩ := hb.exists_nat
  rw [hn, hd, hn', hd'] at hunit
  norm_cast at hunit
  lift l to ℕ using hl
  refine ⟨_, _, messageAmountFromLocal_eq ha hn hd l, localAmountFromMessage_eq hb hn' hd' _, ?_⟩
  rw [div_le_div_iff₀ (by positivity) (by positivity)]
  exact_mod_cast down_down_le s.denominator_pos t.numerator_pos hunit

end Route

/-- **Token scales.** On non-negative amounts and positive scales the smallest local amount of a message is the least one,
aligning keeps the message, and the contract converts alike where it does not overflow. On every complete route,
`verifyScale` answers whether all units are the same, in whatever order and with or without the shortcut, and on a verified
route no transfer gains. -/
theorem scale_arithmetic (R U E C : Type) :
    (∀ scale, Positive scale → ∀ m : ℤ, 0 ≤ m → ∃ l, minLocalAmountForMessage m scale = .ok l ∧
      IsLeast {l | 0 ≤ l ∧ ∃ m', messageAmountFromLocal l scale = .ok m' ∧ m ≤ m'} l) ∧
    (∀ scale, Positive scale → ∀ l : ℤ, 0 ≤ l → ∃ aligned, alignLocalAmountToMessage l scale = .ok aligned ∧
      0 ≤ aligned.localAmount ∧ aligned.localAmount ≤ l ∧
      messageAmountFromLocal aligned.localAmount scale = .ok aligned.messageAmount ∧
      messageAmountFromLocal l scale = .ok aligned.messageAmount) ∧
    (∀ (c : Warp.Config R U E C) (r : R) (amount x : ℕ),
      (Warp.outboundAmount c r amount = .ok x → messageAmountFromLocal amount (routerScale c r) = .ok x) ∧
      (Warp.inboundAmount c r amount = .ok x → localAmountFromMessage amount (routerScale c r) = .ok x)) ∧
    ∀ configs, Complete configs → ∃ verified, verifyScale configs = .ok verified ∧
      (verified = true ↔ ∀ a ∈ configs, ∀ b ∈ configs, (entryOf a).unit = (entryOf b).unit) ∧
      (∀ configs', configs'.Perm configs → verifyScale configs' = .ok verified) ∧
      (∀ ref rest, configs.map entryOf = ref :: rest → areDecimalsUniform (ref :: rest) = true →
        uniformTest ref (ref :: rest) = generalTest ref rest) ∧
      (verified = true → ∀ a ∈ configs, ∀ b ∈ configs, ∀ l : ℤ, 0 ≤ l → ∃ m x,
        messageAmountFromLocal l a.2.scale = .ok m ∧ localAmountFromMessage m b.2.scale = .ok x ∧
          (x : ℚ) / 10 ^ (entryOf b).decimals ≤ (l : ℚ) / 10 ^ (entryOf a).decimals) := by
  refine ⟨fun scale h m hm => minLocalAmountForMessage_least h hm, fun scale h l hl => alignLocalAmountToMessage_spec h hl,
    fun c r amount x => ⟨outboundAmount_eq, inboundAmount_eq⟩, fun configs h => ?_⟩
  refine ⟨_, verifyScale_eq h, verified_iff h, fun configs' hperm => ?_, fun ref rest heq huniform => ?_,
    fun hverified a ha b hb l hl => ?_⟩
  · rw [verifyScale_perm h hperm, verifyScale_eq h]
  · exact uniformTest_eq (heq ▸ h.positive) huniform
  · exact sent_value_le (h a ha).2 (h b hb).2 ((verified_iff h).1 hverified a ha b hb) hl

/-- a route of 18 and 6 decimals, scaled down to 6 -/
def sampleRoute : List (String × TokenMetadata) :=
  [("bsc", ⟨some 18, .fraction 1 1000000000000⟩), ("ethereum", ⟨some 6, .undefined⟩)]

/-- one router, that scales down by 10^12 -/
def sampleRouter : Warp.Config Unit Unit Unit Unit where
  chain _ := ()
  kind _ := .HypERC20
  scaleNumerator _ := 1
  scaleDenominator _ := 1000000000000
  feeHook _ := none
  numerator_pos _ := by decide
  denominator_pos _ := by decide
  feeHook_erc20 _ h := nomatch h

/-- 7 units of the message need 7 * 10^12 local ones; 7 * 10^12 + 5 are cut down to them, and arrive as 7; the two units of
the route are the same, in either order -/
theorem scale_arithmetic_sampleRoute :
    IsLeast {l | 0 ≤ l ∧ ∃ m', messageAmountFromLocal l (.fraction 1 1000000000000) = .ok m' ∧ 7 ≤ m'} 7000000000000 ∧
    messageAmountFromLocal 7000000000005 (.fraction 1 1000000000000) = .ok 7 ∧
    messageAmountFromLocal (7000000000005 : ℕ) (routerScale sampleRouter ()) = .ok (7 : ℕ) ∧
    verifyScale sampleRoute.reverse = .ok true ∧
    (∀ a ∈ sampleRoute, ∀ b ∈ sampleRoute, (entryOf a).unit = (entryOf b).unit) := by
  obtain ⟨hleast, haligns, hrouter, hroute⟩ := scale_arithmetic Unit Unit Unit Unit
  have hpositive : Positive (.fraction 1 1000000000000) := ⟨by decide, by decide⟩
  have hcomplete : Complete sampleRoute :=
    List.forall_mem_cons.2 ⟨⟨by decide, by decide, by decide⟩,
      List.forall_mem_cons.2 ⟨⟨by decide, by decide, by decide⟩, List.forall_mem_nil _⟩⟩
  have hverified : verifyScale sampleRoute = .ok true := by decide
  obtain ⟨l, hl, hleast⟩ := hleast _ hpositive 7 (by decide)
  obtain ⟨aligned, haligned, -, -, -, hmessage⟩ := haligns _ hpositive 7000000000005 (by decide)
  obtain ⟨verified, hanswer, hiff, hperm, -⟩ := hroute _ hcomplete
  obtain rfl := Except.ok.inj (hverified.symm.trans hanswer)
  have hl' : minLocalAmountForMessage 7 (.fraction 1 1000000000000) = .ok 7000000000000 := by decide
  have haligned' : alignLocalAmountToMessage 7000000000005 (.fraction 1 1000000000000) =
      .ok ⟨7000000000000, 7⟩ := by decide
  obtain rfl := Except.ok.inj (hl'.symm.trans hl)
  obtain rfl := Except.ok.inj (haligned'.symm.trans haligned)
  exact ⟨hleast, hmessage, (hrouter sampleRouter () 7000000000005 7).1 (by decide +kernel),
    hperm _ (List.reverse_perm _), hiff.1 rfl⟩

end Hyperlane.Sdk
