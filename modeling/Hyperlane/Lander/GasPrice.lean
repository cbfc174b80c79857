/-
The fees of an EVM transaction over its resubmissions: `estimate_gas_price` and `escalate_gas_price_if_needed`
(lander/src/adapter/chains/ethereum/adapter/gas_price).

Each price is estimated with the operator's overrides, and the price of a resubmission is escalated from the one before and
the new estimate. Escalation treats the two components of an EIP-1559 price alike, by a monotone function, so it keeps their
order. The overrides do not: they set and raise each component by itself, and only the max fee is capped.

- `escalatedPrice_mono`: escalation is monotone in the old and in the new price.
- `escalations_grows`, `escalations_bounded`: no component ever decreases, and each stays below its first value or the
  cap times the largest estimate.
- `escalation_valid`: the priority fee stays at or below the max fee when every estimate fits the overrides.
-/
import Hyperlane.Lander.NonceState

namespace Hyperlane.Lander.GasPrices

/-! ## Model -/

inductive GasPrice where
  | None
  | NonEip1559 (gasPrice : U256)
  | Eip1559 (maxFee maxPriorityFee : U256)
deriving DecidableEq

structure TransactionOverrides where
  gasPrice : Option U256 := none
  maxFeePerGas : Option U256 := none
  maxPriorityFeePerGas : Option U256 := none
  minGasPrice : Option U256 := none
  minFeePerGas : Option U256 := none
  minPriorityFeePerGas : Option U256 := none
  gasPriceCapMultiplier : Option U256 := none
  gasPriceCap : Option U256 := none

/-- `Eip1559Fee`, with the priority fee at most the max fee, as a node returns it -/
structure Eip1559Fee where
  baseFee : U256
  maxFee : U256
  maxPriorityFee : U256
  ordered : maxPriorityFee ≤ maxFee

/-- what one estimation finds: the gas price set in the transaction, and the fees from the node unless their estimation
fails -/
structure Surroundings where
  txGasPrice : Option U256
  fees : Option Eip1559Fee

def saturatingMul (a b : U256) : U256 := ⟨min (a.val * b.val) (2 ^ 256 - 1), by omega⟩

def ESCALATION_MULTIPLIER_NUMERATOR : U256 := ⟨110, by decide⟩
def ESCALATION_MULTIPLIER_DENOMINATOR : ℕ := 100
def GAS_PRICE_CAP_MULTIPLIER : U256 := ⟨3, by decide⟩

/-- `apply_gas_price_cap` -/
def applyGasPriceCap (gasPrice : U256) (o : TransactionOverrides) : U256 :=
  match o.gasPriceCap with
  | some cap => if cap < gasPrice then cap else gasPrice
  | none => gasPrice

/-- `apply_legacy_overrides` -/
def applyLegacyOverrides (txGasPrice : Option U256) (o : TransactionOverrides) : GasPrice :=
  match txGasPrice with
  | none => .None
  | some gasPrice => .NonEip1559 (applyGasPriceCap (max gasPrice (o.minGasPrice.getD 0)) o)

/-- `apply_1559_overrides` -/
def apply1559Overrides (maxFee maxPriorityFee : U256) (o : TransactionOverrides) : U256 × U256 :=
  let maxFee := o.maxFeePerGas.getD maxFee
  let maxFee := match o.minFeePerGas with
    | some minFee => max maxFee minFee
    | none => maxFee
  let maxPriorityFee := o.maxPriorityFeePerGas.getD maxPriorityFee
  let maxPriorityFee := match o.minPriorityFeePerGas with
    | some minPriorityFee => max maxPriorityFee minPriorityFee
    | none => maxPriorityFee
  (applyGasPriceCap maxFee o, maxPriorityFee)

/-- `estimate_gas_price` -/
def estimateGasPrice (o : TransactionOverrides) (env : Surroundings) : GasPrice :=
  match o.gasPrice with
  | some gasPrice => .NonEip1559 gasPrice
  | none =>
    match env.fees with
    | none => applyLegacyOverrides env.txGasPrice o
    | some fees =>
      if fees.baseFee = 0 then applyLegacyOverrides env.txGasPrice o
      else
        let (maxFee, maxPriorityFee) := apply1559Overrides fees.maxFee fees.maxPriorityFee o
        .Eip1559 maxFee maxPriorityFee

/-- `apply_escalation_multiplier` -/
def applyEscalationMultiplier (gasPrice : U256) : U256 :=
  ⟨(saturatingMul gasPrice ESCALATION_MULTIPLIER_NUMERATOR).val / ESCALATION_MULTIPLIER_DENOMINATOR,
    lt_of_le_of_lt (Nat.div_le_self _ _) (saturatingMul _ _).2⟩

def capMultiplier (o : TransactionOverrides) : U256 := o.gasPriceCapMultiplier.getD GAS_PRICE_CAP_MULTIPLIER

/-- `get_escalated_price_from_old_and_new` -/
def escalatedPrice (o : TransactionOverrides) (old new : U256) : U256 :=
  let escalatedPrice := applyEscalationMultiplier old
  let competitivePrice := max escalatedPrice new
  let escalationCap := saturatingMul new (capMultiplier o)
  let cappedPrice := min competitivePrice escalationCap
  max cappedPrice old

/-- `escalate_gas_price_if_needed` -/
def escalateGasPriceIfNeeded (o : TransactionOverrides) : GasPrice → GasPrice → GasPrice
  | .NonEip1559 old, .NonEip1559 estimated => .NonEip1559 (escalatedPrice o old estimated)
  | .Eip1559 oldMaxFee oldMaxPriorityFee, .Eip1559 estimatedMaxFee estimatedMaxPriorityFee =>
    .Eip1559 (escalatedPrice o oldMaxFee estimatedMaxFee) (escalatedPrice o oldMaxPriorityFee estimatedMaxPriorityFee)
  | _, _ => .None

/-- the price, and what it is escalated to with each of the estimates in turn -/
def escalations (o : TransactionOverrides) : GasPrice → List GasPrice → List GasPrice
  | price, [] => [price]
  | price, estimated :: rest => price :: escalations o (escalateGasPriceIfNeeded o price estimated) rest

/-- the prices of a transaction over its resubmissions -/
def prices (o : TransactionOverrides) (first : Surroundings) (later : List Surroundings) : List GasPrice :=
  escalations o (estimateGasPrice o first) (later.map (estimateGasPrice o))

/-! ## Components -/

inductive Component where
  | gasPrice
  | maxFee
  | maxPriorityFee
deriving DecidableEq

def GasPrice.part : GasPrice → Component → Option U256
  | .NonEip1559 gasPrice, .gasPrice => some gasPrice
  | .Eip1559 maxFee _, .maxFee => some maxFee
  | .Eip1559 _ maxPriorityFee, .maxPriorityFee => some maxPriorityFee
  | _, _ => none

/-- the priority fee is at most the max fee -/
def GasPrice.Valid (price : GasPrice) : Prop :=
  ∀ fee priority, price.part .maxFee = some fee → price.part .maxPriorityFee = some priority → priority ≤ fee

/-- no component is lower afterwards -/
def GasPrice.Grows (before after : GasPrice) : Prop :=
  ∀ c x y, before.part c = some x → after.part c = some y → x ≤ y

/-- the largest value of a component among the estimates -/
def largest (c : Component) (estimates : List GasPrice) : ℕ :=
  ((estimates.filterMap fun e => e.part c).map Fin.val).foldr max 0

/-- each component is at most its first value or the cap multiplier times the largest estimate -/
def GasPrice.Bounded (o : TransactionOverrides) (first : GasPrice) (estimates : List GasPrice) (price : GasPrice) : Prop :=
  ∀ c x, price.part c = some x → ∃ a, first.part c = some a ∧ x.val ≤ max a.val ((capMultiplier o).val * largest c estimates)

/-! ## One escalation -/

theorem saturatingMul_mono {a b : U256} (h : a ≤ b) (m : U256) : saturatingMul a m ≤ saturatingMul b m := by
  rw [Fin.le_def]
  exact min_le_min_right _ (Nat.mul_le_mul_right _ h)

theorem saturatingMul_le (a m : U256) : (saturatingMul a m).val ≤ m.val * a.val := by
  calc (saturatingMul a m).val ≤ a.val * m.val := min_le_left _ _
    _ = m.val * a.val := Nat.mul_comm _ _

theorem applyEscalationMultiplier_mono {a b : U256} (h : a ≤ b) :
    applyEscalationMultiplier a ≤ applyEscalationMultiplier b := by
  rw [Fin.le_def]
  exact Nat.div_le_div_right (saturatingMul_mono h _)

theorem escalatedPrice_mono (o : TransactionOverrides) {old old' new new' : U256} (hold : old ≤ old') (hnew : new ≤ new') :
    escalatedPrice o old new ≤ escalatedPrice o old' new' := by
  apply max_le_max _ hold
  apply min_le_min
  · exact max_le_max (applyEscalationMultiplier_mono hold) hnew
  · exact saturatingMul_mono hnew _

theorem le_escalatedPrice (o : TransactionOverrides) (old new : U256) : old ≤ escalatedPrice o old new := le_max_right _ _

theorem escalatedPrice_le (o : TransactionOverrides) (old new : U256) :
    (escalatedPrice o old new).val ≤ max old.val ((capMultiplier o).val * new.val) := by
  have hcapped : (min (max (applyEscalationMultiplier old) new) (saturatingMul new (capMultiplier o))).val ≤
      (capMultiplier o).val * new.val := by
    calc (min (max (applyEscalationMultiplier old) new) (saturatingMul new (capMultiplier o))).val
        ≤ (saturatingMul new (capMultiplier o)).val := min_le_right (α := U256) _ _
      _ ≤ (capMultiplier o).val * new.val := saturatingMul_le _ _
  rcases max_choice (min (max (applyEscalationMultiplier old) new) (saturatingMul new (capMultiplier o))) old with h | h
  · rw [escalatedPrice, h]
    exact le_max_of_le_right hcapped
  · rw [escalatedPrice, h]
    exact le_max_left _ _

/-- each component is escalated by itself -/
theorem escalate_part {o : TransactionOverrides} {old estimated : GasPrice} {c : Component} {x : U256}
    (h : (escalateGasPriceIfNeeded o old estimated).part c = some x) :
    ∃ a b, old.part c = some a ∧ estimated.part c = some b ∧ x = escalatedPrice o a b := by
  cases old with
  | None => cases c <;> cases h
  | NonEip1559 a =>
    cases estimated with
    | NonEip1559 b =>
      cases c <;> cases h
      exact ⟨a, b, rfl, rfl, rfl⟩
    | _ => cases c <;> cases h
  | Eip1559 f p =>
    cases estimated with
    | Eip1559 f' p' =>
      cases c <;> cases h
      · exact ⟨f, f', rfl, rfl, rfl⟩
      · exact ⟨p, p', rfl, rfl, rfl⟩
    | _ => cases c <;> cases h

theorem escalate_grows (o : TransactionOverrides) (old estimated : GasPrice) :
    old.Grows (escalateGasPriceIfNeeded o old estimated) := by
  intro c x y hx hy
  obtain ⟨a, b, ha, -, rfl⟩ := escalate_part hy
  rw [hx] at ha
  cases ha
  exact le_escalatedPrice o x b

theorem escalate_valid (o : TransactionOverrides) {old estimated : GasPrice} (hold : old.Valid) (hnew : estimated.Valid) :
    (escalateGasPriceIfNeeded o old estimated).Valid := by
  intro fee priority hfee hpriority
  obtain ⟨f, f', hf, hf', rfl⟩ := escalate_part hfee
  obtain ⟨p, p', hp, hp', rfl⟩ := escalate_part hpriority
  exact escalatedPrice_mono o (hold f p hf hp) (hnew f' p' hf' hp')

/-! ## Any number of escalations -/

theorem escalations_valid (o : TransactionOverrides) {first : GasPrice} {estimates : List GasPrice} (hfirst : first.Valid)
    (hestimates : ∀ e ∈ estimates, e.Valid) : ∀ price ∈ escalations o first estimates, price.Valid := by
  induction estimates generalizing first with
  | nil =>
    intro price hprice
    rw [List.mem_singleton.1 hprice]
    exact hfirst
  | cons e es ih =>
    intro price hprice
    rcases List.mem_cons.1 hprice with rfl | hprice
    · exact hfirst
    · apply ih _ (fun e' he' => hestimates e' (List.mem_cons_of_mem _ he')) price hprice
      exact escalate_valid o hfirst (hestimates e List.mem_cons_self)

theorem escalations_grows (o : TransactionOverrides) (first : GasPrice) (estimates : List GasPrice) :
    (escalations o first estimates).IsChain GasPrice.Grows := by
  induction estimates generalizing first with
  | nil => exact .singleton _
  | cons e es ih =>
    cases es with
    | nil => exact List.isChain_pair.2 (escalate_grows o first e)
    | cons e' es => exact List.isChain_cons_cons.2 ⟨escalate_grows o first e, ih _⟩

theorem largest_cons (c : Component) (e : GasPrice) (es : List GasPrice) :
    largest c es ≤ largest c (e :: es) ∧ ∀ b, e.part c = some b → b.val ≤ largest c (e :: es) := by
  cases he : e.part c with
  | none => exact ⟨by simp [largest, he], nofun⟩
  | some b =>
    have hcons : largest c (e :: es) = max b.val (largest c es) := by simp [largest, he]
    rw [hcons]
    refine ⟨le_max_right _ _, ?_⟩
    intro b' hb'
    cases hb'
    exact le_max_left _ _

theorem escalations_bounded (o : TransactionOverrides) (first : GasPrice) (estimates : List GasPrice) :
    ∀ price ∈ escalations o first estimates, GasPrice.Bounded o first estimates price := by
  induction estimates generalizing first with
  | nil =>
    intro price hprice c x hx
    rw [List.mem_singleton.1 hprice] at hx
    exact ⟨x, hx, le_max_left _ _⟩
  | cons e es ih =>
    intro price hprice c x hx
    rcases List.mem_cons.1 hprice with rfl | hprice
    · exact ⟨x, hx, le_max_left _ _⟩
    · obtain ⟨y, hy, hle⟩ := ih _ price hprice c x hx
      obtain ⟨a, b, ha, hb, rfl⟩ := escalate_part hy
      obtain ⟨hrest, hhead⟩ := largest_cons c e es
      refine ⟨a, ha, ?_⟩
      calc x.val ≤ max (escalatedPrice o a b).val ((capMultiplier o).val * largest c es) := hle
        _ ≤ max (max a.val ((capMultiplier o).val * b.val)) ((capMultiplier o).val * largest c es) :=
          max_le_max_right _ (escalatedPrice_le o a b)
        _ ≤ max a.val ((capMultiplier o).val * largest c (e :: es)) := by
          refine max_le (max_le_max_left _ (Nat.mul_le_mul_left _ (hhead b hb))) ?_
          exact le_max_of_le_right (Nat.mul_le_mul_left _ hrest)

/-! ## Valid fees over any number of resubmissions -/

/-- where an estimate becomes an EIP-1559 price: the priority fee in effect is at most the max fee in effect and the cap -/
def Surroundings.Fits (o : TransactionOverrides) (env : Surroundings) : Prop :=
  ∀ fees, o.gasPrice = none → env.fees = some fees → fees.baseFee ≠ 0 →
    max (o.maxPriorityFeePerGas.getD fees.maxPriorityFee) (o.minPriorityFeePerGas.getD 0) ≤
        max (o.maxFeePerGas.getD fees.maxFee) (o.minFeePerGas.getD 0) ∧
      ∀ cap, o.gasPriceCap = some cap →
        max (o.maxPriorityFeePerGas.getD fees.maxPriorityFee) (o.minPriorityFeePerGas.getD 0) ≤ cap

theorem le_applyGasPriceCap (o : TransactionOverrides) (x gasPrice : U256) :
    x ≤ applyGasPriceCap gasPrice o ↔ x ≤ gasPrice ∧ ∀ cap, o.gasPriceCap = some cap → x ≤ cap := by
  unfold applyGasPriceCap
  cases o.gasPriceCap with
  | none => simp
  | some cap =>
    dsimp only
    split
    · rename_i hlt
      constructor
      · intro hle
        refine ⟨hle.trans hlt.le, ?_⟩
        rintro _ ⟨⟩
        exact hle
      · rintro ⟨-, hcap⟩
        exact hcap cap rfl
    · rename_i hge
      constructor
      · intro hle
        refine ⟨hle, ?_⟩
        rintro _ ⟨⟩
        exact hle.trans (not_lt.1 hge)
      · rintro ⟨hle, -⟩
        exact hle

theorem max_getD (x : U256) (floor : Option U256) :
    (match floor with
      | some y => max x y
      | none => x) = max x (floor.getD 0) := by
  cases floor with
  | none => exact (max_eq_left (Fin.zero_le x)).symm
  | some y => rfl

theorem legacy_part (txGasPrice : Option U256) (o : TransactionOverrides) :
    (applyLegacyOverrides txGasPrice o).part .maxFee = none := by
  cases txGasPrice <;> rfl

/-- an estimate is valid exactly when it fits the overrides -/
theorem estimate_valid_iff (o : TransactionOverrides) (env : Surroundings) :
    (estimateGasPrice o env).Valid ↔ env.Fits o := by
  unfold estimateGasPrice Surroundings.Fits
  cases o.gasPrice with
  | some gasPrice =>
    constructor
    · rintro - _ ⟨⟩
    · rintro - _ _ ⟨⟩
  | none =>
    cases env.fees with
    | none =>
      constructor
      · rintro - _ - ⟨⟩
      · intro _ fee priority hfee
        rw [legacy_part] at hfee
        cases hfee
    | some fees =>
      dsimp only
      by_cases hbase : fees.baseFee = 0
      · rw [if_pos hbase]
        constructor
        · rintro - _ - ⟨⟩ hne
          exact absurd hbase hne
        · intro _ fee priority hfee
          rw [legacy_part] at hfee
          cases hfee
      · rw [if_neg hbase]
        have hpair : apply1559Overrides fees.maxFee fees.maxPriorityFee o =
            (applyGasPriceCap (max (o.maxFeePerGas.getD fees.maxFee) (o.minFeePerGas.getD 0)) o,
              max (o.maxPriorityFeePerGas.getD fees.maxPriorityFee) (o.minPriorityFeePerGas.getD 0)) := by
          unfold apply1559Overrides
          dsimp only
          rw [max_getD, max_getD]
        rw [hpair]
        constructor
        · rintro hvalid _ - ⟨⟩ -
          exact (le_applyGasPriceCap o _ _).1 (hvalid _ _ rfl rfl)
        · rintro hfits _ _ ⟨⟩ ⟨⟩
          exact (le_applyGasPriceCap o _ _).2 (hfits fees rfl rfl hbase)

/-- the fees of a transaction are valid, never decrease, and are bounded -/
structure Sound (o : TransactionOverrides) (first : Surroundings) (later : List Surroundings) : Prop where
  valid : ∀ price ∈ prices o first later, price.Valid
  grows : (prices o first later).IsChain GasPrice.Grows
  bounded : ∀ price ∈ prices o first later,
    GasPrice.Bounded o (estimateGasPrice o first) (later.map (estimateGasPrice o)) price

/-- **When the fees stay valid.** For all overrides and every sequence of estimates of which each fits the overrides: after
the first estimate and after any number of escalations the priority fee is at most the max fee, no component ever decreased,
and each is at most its first value or the cap multiplier times the largest estimate. The latter two hold of every sequence,
and a first estimate that does not fit makes the first price invalid. -/
theorem escalation_valid (o : TransactionOverrides) (first : Surroundings) (later : List Surroundings) :
    ((∀ env ∈ first :: later, env.Fits o) → Sound o first later) ∧
      (Sound o first later → first.Fits o) ∧ (prices o first later).IsChain GasPrice.Grows ∧
        ∀ price ∈ prices o first later,
          GasPrice.Bounded o (estimateGasPrice o first) (later.map (estimateGasPrice o)) price := by
  have hgrows := escalations_grows o (estimateGasPrice o first) (later.map (estimateGasPrice o))
  have hbounded := escalations_bounded o (estimateGasPrice o first) (later.map (estimateGasPrice o))
  refine ⟨?_, ?_, hgrows, hbounded⟩
  · intro hfits
    refine ⟨?_, hgrows, hbounded⟩
    apply escalations_valid
    · exact (estimate_valid_iff o first).2 (hfits first List.mem_cons_self)
    · intro e he
      obtain ⟨env, henv, rfl⟩ := List.mem_map.1 he
      exact (estimate_valid_iff o env).2 (hfits env (List.mem_cons_of_mem _ henv))
  · intro hsound
    have hfirst : estimateGasPrice o first ∈ prices o first later := by
      unfold prices
      cases later.map (estimateGasPrice o) <;> exact List.mem_cons_self
    exact (estimate_valid_iff o first).1 (hsound.valid _ hfirst)

/-- without overrides: the max fee is held at 3 times the estimate when the estimate falls -/
theorem escalation_valid_falling :
    let first : Surroundings := ⟨none, some ⟨10, 2000, 100, by decide⟩⟩
    let later : Surroundings := ⟨none, some ⟨10, 700, 100, by decide⟩⟩
    prices {} first [later] = [.Eip1559 2000 100, .Eip1559 2100 110] ∧ Sound {} first [later] := by
  refine ⟨by decide +kernel, (escalation_valid {} _ _).1 ?_⟩
  intro env henv fees _ hfees _
  simp only [List.mem_cons, List.not_mem_nil, or_false] at henv
  rcases henv with rfl | rfl <;> cases hfees <;> exact ⟨by decide, fun _ hcap => by cases hcap⟩

/-- with a gas price cap of 1000, the fees (2000, 1500) become a max fee of 1000 and a priority fee of 1500 -/
theorem capped_fees_invalid : ¬ ∀ (o : TransactionOverrides) (first : Surroundings) (later : List Surroundings),
    Sound o first later := by
  intro hsound
  let fees : Eip1559Fee := ⟨10, 2000, 1500, by decide⟩
  have hvalid := (hsound { gasPriceCap := some 1000 } ⟨none, some fees⟩ []).valid (.Eip1559 1000 1500) (by decide)
  exact absurd (hvalid 1000 1500 rfl rfl) (by decide)

end Hyperlane.Lander.GasPrices
