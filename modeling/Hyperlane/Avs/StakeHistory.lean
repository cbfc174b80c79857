/-
The histories of the stake registry over whole runs.

A call updates the weights of some operators and adds the sum of the changes to the total. Checkpoints are only pushed in
the current block, so what a past block says does not change any more.

- `updateOperatorWeights_shifted`: the returned delta is the change of the sum of the weights, also if an operator is
  named twice.
- `Op.step_evolves`: every entry point keeps `Sound`.
- `run_sound`, `run_evolves`: every list of transactions, with whatever the service manager does in between.
- `weights_conserved`: in every block the total weight is the sum of the weights, operators that are not registered
  weigh nothing, and `_totalOperators` counts the registered ones.
-/
import Hyperlane.Avs.StakeRegistry
import Hyperlane.Core.Outcome

namespace Hyperlane.Avs

open Hyperlane.Checkpoints Hyperlane.Reentrancy Hyperlane.Outcome

/-- the values that fit into a checkpoint -/
abbrev maxValue : ℕ := 2 ^ 224

variable {H : Type} {C : History H} {now now' : ℕ} {v : View} {r r' r'' : Registry H}

/-! ## Invariants -/

/-- the operators of the current set -/
def Registry.operators (r : Registry H) : Finset Address := Finset.univ.filter fun a => r.operatorRegistered a = true

variable (C now r) in
/-- the state of the registry in block `now` -/
structure Sound : Prop where
  balanced : Balanced C maxValue now r.operatorWeightHistory r.totalWeightHistory
  threshold_settled : Settled C maxValue now r.thresholdWeightHistory
  key_settled : ∀ a, Settled C maxValue now (r.operatorSigningKeyHistory a)
  unregistered : ∀ a, r.operatorRegistered a = false → C.latest (r.operatorWeightHistory a) = 0
  count : r.totalOperators = r.operators.card

variable (C now r r') in
/-- what calls in block `now` do to the registry -/
structure Evolves : Prop where
  weight : ∀ a, Later C maxValue now (r.operatorWeightHistory a) (r'.operatorWeightHistory a)
  total : Later C maxValue now r.totalWeightHistory r'.totalWeightHistory
  threshold : Later C maxValue now r.thresholdWeightHistory r'.thresholdWeightHistory
  key : ∀ a, Later C maxValue now (r.operatorSigningKeyHistory a) (r'.operatorSigningKeyHistory a)

theorem Evolves.refl (r : Registry H) : Evolves C now r r :=
  ⟨fun _ => Later.refl _, Later.refl _, Later.refl _, fun _ => Later.refl _⟩

theorem Evolves.trans (h₁ : Evolves C now r r') (h₂ : Evolves C now r' r'') : Evolves C now r r'' :=
  ⟨fun a => (h₁.weight a).trans (h₂.weight a), h₁.total.trans h₂.total, h₁.threshold.trans h₂.threshold,
    fun a => (h₁.key a).trans (h₂.key a)⟩

theorem Sound.mono (hs : Sound C now r) (hnow : now ≤ now') : Sound C now' r where
  balanced := hs.balanced.mono hnow
  threshold_settled := hs.threshold_settled.mono hnow
  key_settled a := (hs.key_settled a).mono hnow
  unregistered := hs.unregistered
  count := hs.count

theorem fresh_sound (hC : C.Lawful maxValue) (now : ℕ) : Sound C now (fresh C) where
  balanced := Balanced.empty hC now
  threshold_settled := Settled.empty hC now
  key_settled _ := Settled.empty hC now
  unregistered _ _ := hC.latest_empty
  count := by simp [fresh, Registry.operators]

/-! ## Arithmetic -/

theorem checked_eq_ok {x y : ℕ} (h : checked x = .ok y) : y = x ∧ x < 2 ^ 256 := by
  unfold checked at h
  split_ifs at h with hx
  cases h
  exact ⟨rfl, hx⟩

theorem checkedInt_eq_ok {x y : ℤ} (h : checkedInt x = .ok y) : y = x ∧ -2 ^ 255 ≤ x ∧ x < 2 ^ 255 := by
  unfold checkedInt at h
  split_ifs at h with hx
  cases h
  exact ⟨rfl, hx⟩

theorem int256_of_lt {x : ℕ} (h : x < 2 ^ 255) : int256 x = x := if_pos h

/-- a conversion that fits a checkpoint did not wrap -/
theorem uint256_of_fits {x : ℤ} (hlo : -2 ^ 255 ≤ x) (hhi : x < 2 ^ 255) (hfits : uint256 x < maxValue) :
    (uint256 x : ℤ) = x := by
  unfold uint256 at hfits ⊢
  norm_num at hlo hhi hfits ⊢
  omega

/-- what follows a check is reached if the check passes -/
theorem revertIf_bind {β : Type} {condition : Prop} [Decidable condition] {error : Error} {f : Unit → Except Error β}
    {b : β} : (revertIf condition error >>= f) = .ok b ↔ ¬condition ∧ f () = .ok b := by
  unfold revertIf
  split_ifs with hc
  · simp [hc, error_bind]
  · simp [hc, ok_bind]

theorem push_eq_ok {h h' : H} {value : ℕ} (hp : push C now h value = .ok h') : C.push now value h = some h' := by
  unfold push at hp
  split at hp
  · rename_i hs
    cases hp
    exact hs
  · cases hp

/-! ## Weights -/

theorem weigh_lt {strategyParams : List StrategyParams} {shares : List ℕ} {start weight : ℕ} (hstart : start < 2 ^ 256)
    (h : weigh strategyParams shares start = .ok weight) : weight < 2 ^ 256 := by
  induction strategyParams generalizing shares start with
  | nil =>
    cases h
    exact hstart
  | cons p strategyParams ih =>
    cases shares with
    | nil => cases h
    | cons share shares =>
      obtain ⟨product, -, h⟩ := bind_eq_ok.1 h
      obtain ⟨next, hnext, h⟩ := bind_eq_ok.1 h
      obtain ⟨rfl, hlt⟩ := checked_eq_ok hnext
      exact ih hlt h

theorem getOperatorWeight_lt {operator : Address} {weight : ℕ} (h : getOperatorWeight v r operator = .ok weight) :
    weight < 2 ^ 255 := by
  obtain ⟨sum, hsum, h⟩ := bind_eq_ok.1 h
  have hlt := weigh_lt (by norm_num) hsum
  dsimp only at h
  split_ifs at h
  · cases h
    unfold BPS
    omega
  · cases h
    norm_num

variable (C now r r') in
/-- some weights have changed by `delta` altogether -/
structure Shifted (delta : ℤ) : Prop where
  rest_eq : r' = { r with operatorWeightHistory := r'.operatorWeightHistory }
  later : ∀ a, Later C maxValue now (r.operatorWeightHistory a) (r'.operatorWeightHistory a)
  sum_eq : ∑ a, (C.latest (r'.operatorWeightHistory a) : ℤ) = ∑ a, (C.latest (r.operatorWeightHistory a) : ℤ) + delta
  unregistered : ∀ a, r.operatorRegistered a = false → C.latest (r.operatorWeightHistory a) = 0 →
    C.latest (r'.operatorWeightHistory a) = 0

theorem Shifted.refl (r : Registry H) : Shifted C now r r 0 :=
  ⟨rfl, fun _ => Later.refl _, (add_zero _).symm, fun _ _ h => h⟩

theorem Shifted.trans {delta delta' : ℤ} (h₁ : Shifted C now r r' delta) (h₂ : Shifted C now r' r'' delta') :
    Shifted C now r r'' (delta + delta') := by
  have hregistered : r'.operatorRegistered = r.operatorRegistered := by rw [h₁.rest_eq]
  refine ⟨?_, fun a => (h₁.later a).trans (h₂.later a), ?_, ?_⟩
  · rw [h₂.rest_eq, h₁.rest_eq]
  · rw [h₂.sum_eq, h₁.sum_eq, add_assoc]
  · intro a ha h0
    exact h₂.unregistered a (by rw [hregistered]; exact ha) (h₁.unregistered a ha h0)

/-- one operator gets a new checkpoint -/
theorem Shifted.push (hC : C.Lawful maxValue) {operator : Address} {newWeight : ℕ} {history : H}
    (hp : C.push now newWeight (r.operatorWeightHistory operator) = some history)
    (hnew : r.operatorRegistered operator = false → newWeight = 0) :
    Shifted C now r { r with operatorWeightHistory := Function.update r.operatorWeightHistory operator history }
      (newWeight - C.latest (r.operatorWeightHistory operator)) := by
  refine ⟨rfl, ?_, ?_, ?_⟩
  · intro a
    by_cases ha : a = operator
    · subst ha
      simpa using Later.push hC hp
    · simpa [ha] using Later.refl (r.operatorWeightHistory a)
  · rw [← hC.latest_push hp]
    exact sum_update _ _ _
  · intro a ha h0
    by_cases hop : a = operator
    · subst hop
      simpa [hC.latest_push hp] using hnew ha
    · simpa [hop] using h0

theorem updateOperatorWeight_shifted (hC : C.Lawful maxValue) {operator : Address} {delta : ℤ}
    (hlt : ∀ a, C.latest (r.operatorWeightHistory a) < maxValue)
    (h : updateOperatorWeight C now v r operator = .ok (delta, r')) :
    Shifted C now r r' delta ∧
      (r.operatorRegistered operator = false → C.latest (r'.operatorWeightHistory operator) = 0) := by
  have hold : int256 (C.latest (r.operatorWeightHistory operator)) = C.latest (r.operatorWeightHistory operator) :=
    int256_of_lt (lt_trans (hlt operator) (by norm_num))
  unfold updateOperatorWeight at h
  simp only [hold] at h
  by_cases hreg : r.operatorRegistered operator = false
  · rw [if_pos hreg] at h
    obtain ⟨d, hd, h⟩ := bind_eq_ok.1 h
    obtain ⟨rfl, -⟩ := checkedInt_eq_ok hd
    split_ifs at h with hzero
    · cases h
      rw [hzero]
      exact ⟨Shifted.refl r, fun _ => by omega⟩
    · obtain ⟨history, hp, h⟩ := bind_eq_ok.1 h
      cases h
      have hp := push_eq_ok hp
      refine ⟨?_, fun _ => by simpa using hC.latest_push hp⟩
      simpa using Shifted.push (r := r) hC hp fun _ => rfl
  · rw [if_neg hreg] at h
    obtain ⟨newWeight, hw, h⟩ := bind_eq_ok.1 h
    obtain ⟨d, hd, h⟩ := bind_eq_ok.1 h
    obtain ⟨rfl, -⟩ := checkedInt_eq_ok hd
    rw [int256_of_lt (getOperatorWeight_lt hw)] at h
    refine ⟨?_, fun hcontra => absurd hcontra hreg⟩
    split_ifs at h with hzero
    · cases h
      rw [hzero]
      exact Shifted.refl r
    · obtain ⟨history, hp, h⟩ := bind_eq_ok.1 h
      cases h
      exact Shifted.push (r := r) hC (push_eq_ok hp) fun hcontra => absurd hcontra hreg

/-- the settled weights stay below the bound -/
theorem Shifted.latest_lt {delta : ℤ} (h : Shifted C now r r' delta)
    (hs : ∀ a, Settled C maxValue now (r.operatorWeightHistory a)) (a : Address) :
    C.latest (r'.operatorWeightHistory a) < maxValue :=
  ((h.later a).settled (hs a)).latest_lt

/-- the delta of a list of operators is the change of the sum of all weights -/
theorem updateOperatorWeights_shifted (hC : C.Lawful maxValue) {operators : List Address} {delta delta' : ℤ}
    (hs : ∀ a, Settled C maxValue now (r.operatorWeightHistory a))
    (h : updateOperatorWeights C now v operators delta r = .ok (delta', r')) : Shifted C now r r' (delta' - delta) := by
  induction operators generalizing delta r with
  | nil =>
    cases h
    rw [sub_self]
    exact Shifted.refl _
  | cons operator operators ih =>
    obtain ⟨⟨change, r₁⟩, hone, h⟩ := bind_eq_ok.1 h
    obtain ⟨next, hnext, h⟩ := bind_eq_ok.1 h
    obtain ⟨rfl, -⟩ := checkedInt_eq_ok hnext
    have hfirst := (updateOperatorWeight_shifted hC (fun a => (hs a).latest_lt) hone).1
    have hrest := ih (fun a => (hfirst.later a).settled (hs a)) h
    have hsum : delta' - delta = change + (delta' - (delta + change)) := by ring
    rw [hsum]
    exact hfirst.trans hrest

/-! ## The total weight -/

/-- the total weight takes the delta, without wrapping -/
theorem updateTotalWeight_spec (hC : C.Lawful maxValue) {delta : ℤ} (hlt : C.latest r.totalWeightHistory < maxValue)
    (h : updateTotalWeight C now r delta = .ok r') :
    r' = { r with totalWeightHistory := r'.totalWeightHistory } ∧
      Later C maxValue now r.totalWeightHistory r'.totalWeightHistory ∧
      (C.latest r'.totalWeightHistory : ℤ) = C.latest r.totalWeightHistory + delta := by
  obtain ⟨newWeight, hnew, h⟩ := bind_eq_ok.1 h
  obtain ⟨rfl, hlo, hhi⟩ := checkedInt_eq_ok hnew
  obtain ⟨history, hp, h⟩ := bind_eq_ok.1 h
  cases h
  have hp := push_eq_ok hp
  have hold : int256 (C.latest r.totalWeightHistory) = C.latest r.totalWeightHistory :=
    int256_of_lt (lt_trans hlt (by norm_num))
  rw [hold] at hp hlo hhi
  refine ⟨rfl, Later.push hC hp, ?_⟩
  change (C.latest history : ℤ) = _
  rw [hC.latest_push hp]
  exact uint256_of_fits hlo hhi (hC.push_lt hp)

/-- the weights have changed by `delta`, and so does the total -/
theorem updateTotalWeight_sound (hC : C.Lawful maxValue) {delta : ℤ}
    (hbalanced : Balanced C maxValue now r.operatorWeightHistory r.totalWeightHistory)
    (hthreshold : Settled C maxValue now r.thresholdWeightHistory)
    (hkey : ∀ a, Settled C maxValue now (r.operatorSigningKeyHistory a)) (hcount : r.totalOperators = r.operators.card)
    (hshift : Shifted C now r r' delta)
    (hunregistered : ∀ a, r.operatorRegistered a = false → C.latest (r'.operatorWeightHistory a) = 0)
    (h : updateTotalWeight C now r' delta = .ok r'') : Evolves C now r r'' ∧ Sound C now r'' := by
  have htotal : r'.totalWeightHistory = r.totalWeightHistory := by rw [hshift.rest_eq]
  have hlt : C.latest r'.totalWeightHistory < maxValue := by
    rw [htotal]
    exact hbalanced.total_settled.latest_lt
  obtain ⟨hrest, hlater, hlatest⟩ := updateTotalWeight_spec hC hlt h
  rw [htotal] at hlater hlatest
  have hweights : r''.operatorWeightHistory = r'.operatorWeightHistory := by rw [hrest]
  have hkeys : r''.operatorSigningKeyHistory = r.operatorSigningKeyHistory := by rw [hrest, hshift.rest_eq]
  have hthresholds : r''.thresholdWeightHistory = r.thresholdWeightHistory := by rw [hrest, hshift.rest_eq]
  have hregistered : r''.operatorRegistered = r.operatorRegistered := by rw [hrest, hshift.rest_eq]
  have htotalOperators : r''.totalOperators = r.totalOperators := by rw [hrest, hshift.rest_eq]
  have hsum : ∑ a, C.latest (r''.operatorWeightHistory a) = C.latest r''.totalWeightHistory := by
    have hold : ∑ a, (C.latest (r.operatorWeightHistory a) : ℤ) = C.latest r.totalWeightHistory := by
      exact_mod_cast hbalanced.latest_eq
    have hnew : ∑ a, (C.latest (r''.operatorWeightHistory a) : ℤ) = C.latest r''.totalWeightHistory := by
      rw [hweights, hshift.sum_eq, hold, hlatest]
    exact_mod_cast hnew
  have hweight : ∀ a, Later C maxValue now (r.operatorWeightHistory a) (r''.operatorWeightHistory a) := by
    rw [hweights]
    exact hshift.later
  refine ⟨⟨hweight, hlater, ?_, ?_⟩, ⟨hbalanced.rebalance hweight hlater hsum, ?_, ?_, ?_, ?_⟩⟩
  · rw [hthresholds]
    exact Later.refl _
  · rw [hkeys]
    exact fun a => Later.refl _
  · rw [hthresholds]
    exact hthreshold
  · rw [hkeys]
    exact hkey
  · rw [hregistered, hweights]
    exact hunregistered
  · unfold Registry.operators
    rw [hregistered, htotalOperators]
    exact hcount

theorem updateOperators_sound (hC : C.Lawful maxValue) (hs : Sound C now r) {operators : List Address}
    (h : updateOperators C now v r operators = .ok r') : Evolves C now r r' ∧ Sound C now r' := by
  obtain ⟨⟨delta, r₁⟩, hweights, h⟩ := bind_eq_ok.1 h
  have hshift := updateOperatorWeights_shifted hC hs.balanced.parts_settled hweights
  rw [sub_zero] at hshift
  refine updateTotalWeight_sound hC hs.balanced hs.threshold_settled hs.key_settled hs.count hshift ?_ h
  intro a ha
  exact hshift.unregistered a ha (hs.unregistered a ha)

/-! ## Settings and signing keys -/

/-- only the settings differ -/
theorem Sound.settings (hs : Sound C now r) (hweight : r'.operatorWeightHistory = r.operatorWeightHistory)
    (htotal : r'.totalWeightHistory = r.totalWeightHistory)
    (hkey : r'.operatorSigningKeyHistory = r.operatorSigningKeyHistory)
    (hregistered : r'.operatorRegistered = r.operatorRegistered) (hcount : r'.totalOperators = r.totalOperators)
    (hthreshold : Later C maxValue now r.thresholdWeightHistory r'.thresholdWeightHistory) :
    Evolves C now r r' ∧ Sound C now r' := by
  refine ⟨⟨?_, ?_, hthreshold, ?_⟩, ⟨?_, hthreshold.settled hs.threshold_settled, ?_, ?_, ?_⟩⟩
  · rw [hweight]
    exact fun a => Later.refl _
  · rw [htotal]
    exact Later.refl _
  · rw [hkey]
    exact fun a => Later.refl _
  · rw [hweight, htotal]
    exact hs.balanced
  · rw [hkey]
    exact hs.key_settled
  · rw [hweight, hregistered]
    exact hs.unregistered
  · unfold Registry.operators
    rw [hregistered, hcount]
    exact hs.count

theorem updateStakeThreshold_sound (hC : C.Lawful maxValue) (hs : Sound C now r) {thresholdWeight : ℕ}
    (h : updateStakeThreshold C now r thresholdWeight = .ok r') : Evolves C now r r' ∧ Sound C now r' := by
  obtain ⟨history, hp, h⟩ := bind_eq_ok.1 h
  cases h
  exact hs.settings rfl rfl rfl rfl rfl (Later.push hC (push_eq_ok hp))

theorem updateQuorumConfig_sound (hs : Sound C now r) {quorum : List StrategyParams}
    (h : updateQuorumConfig r quorum = .ok r') : Evolves C now r r' ∧ Sound C now r' := by
  obtain ⟨valid, -, h⟩ := bind_eq_ok.1 h
  cases valid with
  | false => cases h
  | true =>
    cases h
    exact hs.settings rfl rfl rfl rfl rfl (Later.refl _)

theorem configure_sound (hC : C.Lawful maxValue) (hs : Sound C now r) {serviceManager : Address} {thresholdWeight : ℕ}
    {quorum : List StrategyParams} (h : configure C now v r serviceManager thresholdWeight quorum = .ok r') :
    Evolves C now r r' ∧ Sound C now r' := by
  obtain ⟨-, h⟩ := revertIf_bind.1 h
  obtain ⟨-, h⟩ := revertIf_bind.1 h
  obtain ⟨r₁, hthreshold, h⟩ := bind_eq_ok.1 h
  have hnamed : Evolves C now r { r with serviceManager := serviceManager } ∧
      Sound C now { r with serviceManager := serviceManager } := hs.settings rfl rfl rfl rfl rfl (Later.refl _)
  obtain ⟨he₁, hs₁⟩ := updateStakeThreshold_sound hC hnamed.2 hthreshold
  obtain ⟨he₂, hs₂⟩ := updateQuorumConfig_sound hs₁ h
  exact ⟨(hnamed.1.trans he₁).trans he₂, hs₂⟩

theorem updateOperatorSigningKey_sound (hC : C.Lawful maxValue) (hs : Sound C now r) {operator newSigningKey : Address}
    (h : updateOperatorSigningKey C now r operator newSigningKey = .ok r') : Evolves C now r r' ∧ Sound C now r' := by
  unfold updateOperatorSigningKey at h
  dsimp only at h
  split_ifs at h
  · cases h
    exact ⟨Evolves.refl _, hs⟩
  · obtain ⟨history, hp, h⟩ := bind_eq_ok.1 h
    cases h
    have hkey : ∀ a, Later C maxValue now (r.operatorSigningKeyHistory a)
        (Function.update r.operatorSigningKeyHistory operator history a) := by
      intro a
      by_cases ha : a = operator
      · subst ha
        simpa using Later.push hC (push_eq_ok hp)
      · simpa [ha] using Later.refl (r.operatorSigningKeyHistory a)
    refine ⟨⟨fun _ => Later.refl _, Later.refl _, Later.refl _, hkey⟩, ?_⟩
    exact ⟨hs.balanced, hs.threshold_settled, fun a => (hkey a).settled (hs.key_settled a), hs.unregistered, hs.count⟩

/-! ## Operators come and go -/

section Flags

variable {A : Type} [Fintype A] [DecidableEq A] {p : A → Bool} {a : A}

theorem card_flag_set (ha : p a = false) :
    (Finset.univ.filter fun x => Function.update p a true x = true).card =
      (Finset.univ.filter fun x => p x = true).card + 1 := by
  have hinsert : (Finset.univ.filter fun x => Function.update p a true x = true) =
      insert a (Finset.univ.filter fun x => p x = true) := by
    ext x
    by_cases hx : x = a
    · subst hx
      simp
    · simp [hx]
  rw [hinsert, Finset.card_insert_of_notMem (by simp [ha])]

theorem card_flag_clear (ha : p a = true) :
    (Finset.univ.filter fun x => Function.update p a false x = true).card + 1 =
      (Finset.univ.filter fun x => p x = true).card := by
  have hset := card_flag_set (p := Function.update p a false) (a := a) (Function.update_self a false p)
  rw [Function.update_idem] at hset
  rw [← hset]
  have hsame : Function.update p a true = p := by
    rw [← ha]
    exact Function.update_eq_self a p
  rw [hsame]

end Flags

theorem registerOperatorWithSig_sound (hC : C.Lawful maxValue) (hs : Sound C now r) {operator signingKey : Address}
    (h : registerOperatorWithSig C now v r operator signingKey = .ok r') : Evolves C now r r' ∧ Sound C now r' := by
  obtain ⟨hnew, h⟩ := revertIf_bind.1 h
  obtain ⟨n, hn, h⟩ := bind_eq_ok.1 h
  obtain ⟨rfl, -⟩ := checked_eq_ok hn
  obtain ⟨⟨delta, r₁⟩, hweight, h⟩ := bind_eq_ok.1 h
  obtain ⟨r₂, htotal, h⟩ := bind_eq_ok.1 h
  have hnew : r.operatorRegistered operator = false := by simpa using hnew
  have hshift := (updateOperatorWeight_shifted hC (by exact fun a => (hs.balanced.parts_settled a).latest_lt) hweight).1
  have hcount : r.totalOperators + 1 = (Finset.univ.filter fun a =>
      Function.update r.operatorRegistered operator true a = true).card := by
    rw [card_flag_set hnew, hs.count]
    rfl
  have hunregistered : ∀ a, Function.update r.operatorRegistered operator true a = false →
      C.latest (r₁.operatorWeightHistory a) = 0 := by
    intro a ha
    have hne : a ≠ operator := by
      intro heq
      simp [heq] at ha
    refine hshift.unregistered a ha (hs.unregistered a ?_)
    simpa [hne] using ha
  obtain ⟨he₁, hs₁⟩ := updateTotalWeight_sound
    (r := { r with
      totalOperators := r.totalOperators + 1
      operatorRegistered := Function.update r.operatorRegistered operator true })
    hC hs.balanced hs.threshold_settled hs.key_settled hcount hshift hunregistered htotal
  obtain ⟨he₂, hs₂⟩ := updateOperatorSigningKey_sound hC hs₁ h
  exact ⟨⟨fun a => (he₁.weight a).trans (he₂.weight a), he₁.total.trans he₂.total, he₁.threshold.trans he₂.threshold,
    fun a => (he₁.key a).trans (he₂.key a)⟩, hs₂⟩

theorem deregisterOperator_sound (hC : C.Lawful maxValue) (hs : Sound C now r) {operator : Address}
    (h : deregisterOperator C now v r operator = .ok r') : Evolves C now r r' ∧ Sound C now r' := by
  obtain ⟨hold, h⟩ := revertIf_bind.1 h
  obtain ⟨-, h⟩ := revertIf_bind.1 h
  obtain ⟨⟨delta, r₁⟩, hweight, h⟩ := bind_eq_ok.1 h
  have hold : r.operatorRegistered operator = true := by simpa using hold
  obtain ⟨hshift, hzero⟩ :=
    updateOperatorWeight_shifted hC (by exact fun a => (hs.balanced.parts_settled a).latest_lt) hweight
  have hcount : r.totalOperators - 1 = (Finset.univ.filter fun a =>
      Function.update r.operatorRegistered operator false a = true).card := by
    have hclear := card_flag_clear hold
    have hcard : r.totalOperators = (Finset.univ.filter fun a => r.operatorRegistered a = true).card := hs.count
    omega
  have hunregistered : ∀ a, Function.update r.operatorRegistered operator false a = false →
      C.latest (r₁.operatorWeightHistory a) = 0 := by
    intro a ha
    by_cases hne : a = operator
    · rw [hne] at ha ⊢
      exact hzero ha
    · refine hshift.unregistered a ha (hs.unregistered a ?_)
      simpa [hne] using ha
  obtain ⟨he, hs₁⟩ := updateTotalWeight_sound
    (r := { r with
      totalOperators := r.totalOperators - 1
      operatorRegistered := Function.update r.operatorRegistered operator false })
    hC hs.balanced hs.threshold_settled hs.key_settled hcount hshift hunregistered h
  exact ⟨⟨he.weight, he.total, he.threshold, he.key⟩, hs₁⟩

/-! ## Every entry point -/

theorem Op.step_evolves (hC : C.Lawful maxValue) (hs : Sound C now r) {op : Op} (h : op.step C now v r = .ok r') :
    Evolves C now r r' ∧ Sound C now r' := by
  have hsettings : ∀ r₁ : Registry H, r₁ = { r with
      initialized := r₁.initialized, owner := r₁.owner, minimumWeight := r₁.minimumWeight } →
      Evolves C now r r₁ ∧ Sound C now r₁ := by
    intro r₁ hr₁
    refine hs.settings ?_ ?_ ?_ ?_ ?_ ?_ <;> rw [hr₁]
    exact Later.refl _
  cases op with
  | init serviceManager thresholdWeight quorum =>
    obtain ⟨r₁, hinit, h⟩ := bind_eq_ok.1 h
    obtain ⟨-, hinit⟩ := revertIf_bind.1 hinit
    cases hinit
    obtain ⟨he₁, hs₁⟩ := hsettings { r with initialized := true, owner := v.sender } rfl
    obtain ⟨he₂, hs₂⟩ := configure_sound hC hs₁ h
    exact ⟨he₁.trans he₂, hs₂⟩
  | initializeOwner owner =>
    obtain ⟨r₁, hinit, h⟩ := bind_eq_ok.1 h
    obtain ⟨-, hinit⟩ := revertIf_bind.1 hinit
    cases hinit
    obtain ⟨-, h⟩ := revertIf_bind.1 h
    cases h
    exact hsettings _ rfl
  | configure serviceManager thresholdWeight quorum =>
    obtain ⟨-, h⟩ := revertIf_bind.1 h
    exact configure_sound hC hs h
  | registerOperatorWithSignature signingKey => exact registerOperatorWithSig_sound hC hs h
  | deregisterOperator => exact deregisterOperator_sound hC hs h
  | updateOperatorSigningKey newSigningKey =>
    obtain ⟨-, h⟩ := revertIf_bind.1 h
    exact updateOperatorSigningKey_sound hC hs h
  | updateOperators operators => exact updateOperators_sound hC hs h
  | updateQuorumConfig quorum operators =>
    obtain ⟨-, h⟩ := revertIf_bind.1 h
    obtain ⟨r₁, hquorum, h⟩ := bind_eq_ok.1 h
    obtain ⟨he₁, hs₁⟩ := updateQuorumConfig_sound hs hquorum
    obtain ⟨he₂, hs₂⟩ := updateOperators_sound hC hs₁ h
    exact ⟨he₁.trans he₂, hs₂⟩
  | updateMinimumWeight newMinimumWeight operators =>
    obtain ⟨-, h⟩ := revertIf_bind.1 h
    obtain ⟨he₁, hs₁⟩ := hsettings { r with minimumWeight := newMinimumWeight } rfl
    obtain ⟨he₂, hs₂⟩ := updateOperators_sound hC hs₁ h
    exact ⟨he₁.trans he₂, hs₂⟩
  | updateStakeThreshold thresholdWeight =>
    obtain ⟨-, h⟩ := revertIf_bind.1 h
    exact updateStakeThreshold_sound hC hs h
  | updateOperatorsForQuorum operatorsPerQuorum =>
    cases operatorsPerQuorum with
    | nil => cases h
    | cons operators rest =>
      obtain ⟨-, h⟩ := revertIf_bind.1 h
      exact updateOperators_sound hC hs h
  | transferOwnership newOwner =>
    obtain ⟨-, h⟩ := revertIf_bind.1 h
    obtain ⟨-, h⟩ := revertIf_bind.1 h
    cases h
    exact hsettings _ rfl
  | renounceOwnership =>
    obtain ⟨-, h⟩ := revertIf_bind.1 h
    cases h
    exact hsettings _ rfl

/-! ## Runs -/

variable (C now r r') in
/-- what any code does to a sound registry in block `now` -/
def Step : Prop := Sound C now r → Evolves C now r r' ∧ Sound C now r'

theorem Step.refl (r : Registry H) : Step C now r r := fun hs => ⟨Evolves.refl r, hs⟩

theorem Step.trans (h₁ : Step C now r r') (h₂ : Step C now r' r'') : Step C now r r'' := by
  intro hs
  obtain ⟨he₁, hs₁⟩ := h₁ hs
  obtain ⟨he₂, hs₂⟩ := h₂ hs₁
  exact ⟨he₁.trans he₂, hs₂⟩

theorem body_ensures (hC : C.Lawful maxValue) (call : View × Op) (r : Registry H) :
    (body C now call).Ensures (Step C now) (Step C now r) r := by
  have hstep : ∀ r', (call.2.step C now call.1 r).toOption = some r' → Step C now r r' :=
    fun r' h hs => Op.step_evolves hC hs (toOption_eq_some h)
  unfold body
  dsimp only
  split_ifs
  · intro r₁ h₁ r₂ h₂ answer r₃ h₃
    cases h₃
    exact (hstep r₁ h₁).trans h₂
  · exact hstep

theorem transact_step (hC : C.Lawful maxValue) (frame : Frame (View × Op)) (r : Registry H) :
    Step C now r (transact (body C now) r frame) := by
  unfold transact
  split
  · exact Step.refl r
  · rename_i answer r' hexec
    exact Frame.exec_guarantee Step.refl Step.trans (body_ensures hC) frame hexec

/-- the transactions of a chain, in blocks that do not go back -/
abbrev Chain (txs : List (ℕ × Frame (View × Op))) : Prop := (txs.map Prod.fst).Pairwise (· ≤ ·)

theorem run_sound (hC : C.Lawful maxValue) {txs : List (ℕ × Frame (View × Op))} (hchain : Chain txs) (hs : Sound C now r)
    (hlo : ∀ tx ∈ txs, now ≤ tx.1) (hhi : ∀ tx ∈ txs, tx.1 ≤ now') (hnow : now ≤ now') :
    Sound C now' (run (body C) r txs) := by
  induction txs generalizing r now with
  | nil => exact hs.mono hnow
  | cons tx txs ih =>
    obtain ⟨hfirst, hchain⟩ := List.pairwise_cons.1 hchain
    have hstep := transact_step hC tx.2 r (hs.mono (hlo tx List.mem_cons_self))
    refine ih hchain hstep.2 ?_ (fun tx' htx' => hhi tx' (List.mem_cons_of_mem tx htx')) (hhi tx List.mem_cons_self)
    intro tx' htx'
    exact hfirst tx'.1 (List.mem_map_of_mem htx')

/-- transactions after block `b` leave what the histories say about it -/
theorem run_frozen (hC : C.Lawful maxValue) {txs : List (ℕ × Frame (View × Op))} {b : ℕ} (hchain : Chain txs)
    (hs : Sound C now r) (hlo : ∀ tx ∈ txs, now ≤ tx.1) (hb : ∀ tx ∈ txs, b < tx.1) :
    (∀ a, C.lookup ((run (body C) r txs).operatorWeightHistory a) b = C.lookup (r.operatorWeightHistory a) b) ∧
      C.lookup (run (body C) r txs).totalWeightHistory b = C.lookup r.totalWeightHistory b ∧
      C.lookup (run (body C) r txs).thresholdWeightHistory b = C.lookup r.thresholdWeightHistory b ∧
      ∀ a, C.lookup ((run (body C) r txs).operatorSigningKeyHistory a) b = C.lookup (r.operatorSigningKeyHistory a) b := by
  induction txs generalizing r now with
  | nil => exact ⟨fun _ => rfl, rfl, rfl, fun _ => rfl⟩
  | cons tx txs ih =>
    obtain ⟨hfirst, hchain⟩ := List.pairwise_cons.1 hchain
    obtain ⟨he, hs₁⟩ := transact_step hC tx.2 r (hs.mono (hlo tx List.mem_cons_self))
    have hlt : b < tx.1 := hb tx List.mem_cons_self
    obtain ⟨hweight, htotal, hthreshold, hkey⟩ := ih hchain hs₁
      (fun tx' htx' => hfirst tx'.1 (List.mem_map_of_mem htx')) fun tx' htx' => hb tx' (List.mem_cons_of_mem tx htx')
    refine ⟨fun a => (hweight a).trans ((he.weight a).before b hlt), htotal.trans (he.total.before b hlt),
      hthreshold.trans (he.threshold.before b hlt), fun a => (hkey a).trans ((he.key a).before b hlt)⟩

/-- **Stake is conserved.** After every list of transactions, whatever foreign code did: in every block the total weight
is the sum of the weights of the operators; operators that are not registered weigh nothing; and `_totalOperators` is
the number of registered operators. -/
theorem weights_conserved (hC : C.Lawful maxValue) (txs : List (ℕ × Frame (View × Op))) (hchain : Chain txs) :
    let r := run (body C) (fresh C) txs
    (∀ b, ∑ a, C.lookup (r.operatorWeightHistory a) b = C.lookup r.totalWeightHistory b) ∧
      ∑ a, C.latest (r.operatorWeightHistory a) = C.latest r.totalWeightHistory ∧
      (∀ a, r.operatorRegistered a = false → C.latest (r.operatorWeightHistory a) = 0) ∧
      r.totalOperators = r.operators.card := by
  intro r
  obtain ⟨top, htop⟩ : ∃ top, ∀ tx ∈ txs, tx.1 ≤ top := by
    refine ⟨(txs.map Prod.fst).sum, fun tx htx => ?_⟩
    exact List.single_le_sum (fun _ _ => Nat.zero_le _) _ (List.mem_map_of_mem htx)
  have hs : Sound C top r :=
    run_sound hC hchain (fresh_sound hC 0) (fun _ _ => Nat.zero_le _) htop (Nat.zero_le _)
  exact ⟨hs.balanced.lookup_eq, hs.balanced.latest_eq, hs.unregistered, hs.count⟩

/-! ## A chain -/

/-- a caller, with the shares the delegation manager reports -/
def caller (sender : Address) (shares : ℕ) : View :=
  ⟨sender, fun _ => true, fun _ strategies => strategies.map fun _ => shares⟩

/-- the owner configures one strategy; two operators register, and the service manager calls back in between -/
def joined : List (ℕ × Frame (View × Op)) :=
  [(1, .call (caller 7 0, .initializeOwner 7) [] (.ret true)),
    (1, .call (caller 7 0, .configure 9 100 [⟨1, 10000⟩]) [] (.ret true)),
    (2, .call (caller 5 30, .registerOperatorWithSignature 50)
      [.call (caller 9 40, .updateOperators [5, 5]) [] (.ret true)] (.ret true)),
    (3, .call (caller 6 80, .registerOperatorWithSignature 60) [.ret true] (.ret true))]

/-- the first of them leaves -/
def left : List (ℕ × Frame (View × Op)) := [(5, .call (caller 5 30, .deregisterOperator) [.ret true] (.ret true))]

theorem weights_conserved_left :
    let r := run (body (listed maxValue)) (fresh (listed maxValue)) (joined ++ left)
    (listed maxValue).latest r.totalWeightHistory = 80 ∧ r.totalOperators = 1 ∧
      (listed maxValue).lookup r.totalWeightHistory 4 = 120 ∧
      ∑ a, (listed maxValue).lookup (r.operatorWeightHistory a) 4 = 120 := by
  refine ⟨by decide +kernel, by decide +kernel, by decide +kernel, ?_⟩
  refine ((weights_conserved (listed_lawful (by norm_num)) (joined ++ left) (by decide)).1 4).trans ?_
  decide +kernel

end Hyperlane.Avs
