/-
The two scans of the multisig modules: `AbstractMultisigIsm.verify` (contracts/isms/multisig/AbstractMultisigIsm.sol)
counts signatures, `AbstractStaticWeightedMultisigIsm.verify` (AbstractWeightedMultisigIsm.sol) adds the weights of the
signers in `uint96` and stops at the threshold weight. A revert is `none`.

Both walk the validators once for all signatures, so they take the greedy matching of the signers.

- `verifyLoop_iff`: counting succeeds if and only if all signers are recovered and matched.
- `weightLoop_sound`, `weightLoop_complete`: what the weighted scan adds up, and when it gets to the threshold weight.
- `scans_exact`: both modules accept exactly the signatures that can be matched at increasing positions, with enough
  weight. The weighted module accepts threshold weights from 1 to `TOTAL_WEIGHT` only.
-/
import Hyperlane.Relayer.MultisigMetadata

namespace Hyperlane.Isms

open Hyperlane.Bytes GreedyMatch
open Hyperlane.Relayer

/-! ## The weighted module -/

/-- `ValidatorInfo` of IWeightedMultisigIsm.sol; the weight is a `uint96` -/
structure ValidatorInfo where
  signingAddress : H160
  weight : ℕ
  weight_lt : weight < 2 ^ 96

def TOTAL_WEIGHT : ℕ := 10 ^ 10

/-- `+` on `uint96`, which reverts on overflow -/
def addUint96 (a b : ℕ) : Option ℕ := if a + b < 2 ^ 96 then some (a + b) else none

def signingAddresses (validators : List ValidatorInfo) : List H160 := validators.map ValidatorInfo.signingAddress

/-- the loop of `verify`, for `n` more signatures from the `i`-th on; the result is the last `_totalWeight` -/
def weightLoop (C : Crypto) (validators : List ValidatorInfo) (thresholdWeight : ℕ) (digest : H256)
    (signatureAt : ℕ → Option (Word 65)) : ℕ → ℕ → ℕ → ℕ → Option ℕ
  | 0, _, _, totalWeight => some totalWeight
  | n + 1, i, validatorIndex, totalWeight =>
    if totalWeight < thresholdWeight then
      match (signatureAt i).bind (C.recover digest) with
      | none => none
      | some signer =>
        match validators[seek (signingAddresses validators) signer validatorIndex]? with
        | none => none
        | some v =>
          match addUint96 totalWeight v.weight with
          | none => none
          | some total =>
            weightLoop C validators thresholdWeight digest signatureAt n (i + 1)
              (seek (signingAddresses validators) signer validatorIndex + 1) total
    else some totalWeight

/-- `AbstractStaticWeightedMultisigIsm.verify` -/
def weightedVerify (C : Crypto) (digest : Option H256) (signatureAt : ℕ → Option (Word 65)) (signatureCount : Option ℕ)
    (validators : List ValidatorInfo) (thresholdWeight : ℕ) : Option Bool := do
  let digest ← digest
  guard (0 < thresholdWeight ∧ thresholdWeight ≤ TOTAL_WEIGHT)
  let count ← signatureCount
  let totalWeight ← weightLoop C validators thresholdWeight digest signatureAt count 0 0 0
  guard (thresholdWeight ≤ totalWeight)
  return true

/-- `signatureCount` of both metadata libraries, with their `SIGNATURES_OFFSET` -/
def signatureCount (signaturesOffset : ℕ) (metadata : List UInt8) : Option ℕ := do
  guard (signaturesOffset ≤ metadata.length)
  guard ((metadata.length - signaturesOffset) % 65 = 0)
  return (metadata.length - signaturesOffset) / 65

/-- `StaticMessageIdWeightedMultisigIsm.verify` -/
def messageIdWeightedVerify (C : Crypto) (validators : List ValidatorInfo) (thresholdWeight : ℕ)
    (metadata message : List UInt8) : Option Bool :=
  weightedVerify C (messageIdDigest C metadata message) (MessageIdMultisigIsmMetadata.signatureAt metadata)
    (signatureCount 68 metadata) validators thresholdWeight

/-- `StaticMerkleRootWeightedMultisigIsm.verify` -/
def merkleRootWeightedVerify (C : Crypto) (validators : List ValidatorInfo) (thresholdWeight : ℕ)
    (metadata message : List UInt8) : Option Bool :=
  weightedVerify C (merkleRootDigest C metadata message) (MerkleRootMultisigIsmMetadata.signatureAt metadata)
    (signatureCount 1096 metadata) validators thresholdWeight

/-! ## Recovered signers -/

section Scans

variable {C : Crypto} {digest : H256} {signatureAt : ℕ → Option (Word 65)} {i start : ℕ}

/-- the signatures from the `i`-th on recover to the signers -/
def Recovered (C : Crypto) (digest : H256) (signatureAt : ℕ → Option (Word 65)) (i : ℕ) (signers : List H160) : Prop :=
  ∀ k (hk : k < signers.length), (signatureAt (i + k)).bind (C.recover digest) = some signers[k]

theorem recovered_nil : Recovered C digest signatureAt i [] := by
  intro k hk
  cases hk

theorem recovered_cons {signer : H160} {signers : List H160} : Recovered C digest signatureAt i (signer :: signers) ↔
    (signatureAt i).bind (C.recover digest) = some signer ∧ Recovered C digest signatureAt (i + 1) signers := by
  constructor
  · intro h
    refine ⟨h 0 (by simp), fun k hk => ?_⟩
    rw [Nat.add_assoc, Nat.add_comm 1 k]
    exact h (k + 1) (by simpa using hk)
  · rintro ⟨hfirst, hrest⟩ k hk
    cases k with
    | zero => exact hfirst
    | succ k =>
      rw [List.getElem_cons_succ, Nat.add_comm k 1, ← Nat.add_assoc]
      exact hrest k (by simpa using hk)

/-! ## Counting -/

theorem verifyLoop_cons {validators : List H160} {n : ℕ} :
    verifyLoop C validators digest signatureAt (n + 1) i start = some true ↔ ∃ signer,
      (signatureAt i).bind (C.recover digest) = some signer ∧ seek validators signer start < validators.length ∧
      verifyLoop C validators digest signatureAt n (i + 1) (seek validators signer start + 1) = some true := by
  rw [verifyLoop]
  cases hat : signatureAt i with
  | none => simp
  | some signature =>
    cases hrec : C.recover digest signature with
    | none => simp [hrec]
    | some signer =>
      simp only [Option.bind_some, hrec, Option.some.injEq, exists_eq_left']
      split
      · rename_i hlt
        exact ⟨fun h => ⟨hlt, h⟩, fun h => h.2⟩
      · rename_i hlt
        exact ⟨fun h => (by cases h), fun h => absurd h.1 hlt⟩

/-- the loop succeeds if and only if the next `n` signatures recover and the scan matches their signers -/
theorem verifyLoop_iff {validators : List H160} {n : ℕ} :
    verifyLoop C validators digest signatureAt n i start = some true ↔
      ∃ signers, signers.length = n ∧ Recovered C digest signatureAt i signers ∧
        ∃ positions, greedy validators start signers = some positions := by
  induction n generalizing i start with
  | zero =>
    constructor
    · intro _
      exact ⟨[], rfl, recovered_nil, [], rfl⟩
    · intro _
      rfl
  | succ n ih =>
    rw [verifyLoop_cons]
    constructor
    · rintro ⟨signer, hrec, hlt, hrest⟩
      obtain ⟨signers, hlen, hsigners, positions, hpositions⟩ := ih.1 hrest
      exact ⟨signer :: signers, by rw [List.length_cons, hlen], recovered_cons.2 ⟨hrec, hsigners⟩, _,
        greedy_cons.2 ⟨hlt, positions, hpositions, rfl⟩⟩
    · rintro ⟨signers, hlen, hsigners, positions, hpositions⟩
      cases signers with
      | nil => cases hlen
      | cons signer signers =>
        obtain ⟨hrec, hrest⟩ := recovered_cons.1 hsigners
        obtain ⟨hlt, rest, hscan, -⟩ := greedy_cons.1 hpositions
        exact ⟨signer, hrec, hlt, ih.2 ⟨signers, Nat.succ_inj.1 hlen, hrest, rest, hscan⟩⟩

/-! ## Weighing -/

variable {validators : List ValidatorInfo} {thresholdWeight : ℕ}

/-- the weight of the validator at a position -/
def weightAt (validators : List ValidatorInfo) (p : ℕ) : ℕ := (validators[p]?.map ValidatorInfo.weight).getD 0

/-- the weight of the validators at the positions -/
def weightOf (validators : List ValidatorInfo) (positions : List ℕ) : ℕ := (positions.map (weightAt validators)).sum

@[simp]
theorem weightOf_nil : weightOf validators [] = 0 := rfl

@[simp]
theorem weightOf_cons (p : ℕ) (positions : List ℕ) :
    weightOf validators (p :: positions) = weightAt validators p + weightOf validators positions := rfl

/-- what one turn of the loop does -/
theorem weightLoop_cons {n total w : ℕ} (h : total < thresholdWeight) :
    weightLoop C validators thresholdWeight digest signatureAt (n + 1) i start total = some w ↔ ∃ signer,
      (signatureAt i).bind (C.recover digest) = some signer ∧
      seek (signingAddresses validators) signer start < (signingAddresses validators).length ∧
      total + weightAt validators (seek (signingAddresses validators) signer start) < 2 ^ 96 ∧
      weightLoop C validators thresholdWeight digest signatureAt n (i + 1)
        (seek (signingAddresses validators) signer start + 1)
        (total + weightAt validators (seek (signingAddresses validators) signer start)) = some w := by
  rw [weightLoop, if_pos h]
  cases (signatureAt i).bind (C.recover digest) with
  | none => simp
  | some signer =>
    simp only [Option.some.injEq, exists_eq_left']
    have hlen : (signingAddresses validators).length = validators.length := List.length_map ..
    cases hat : validators[seek (signingAddresses validators) signer start]? with
    | none =>
      have hge := List.getElem?_eq_none_iff.1 hat
      exact ⟨fun h => (nomatch h), fun h => absurd h.1 (by omega)⟩
    | some v =>
      have hlt := (List.getElem?_eq_some_iff.1 hat).1
      have hweight : weightAt validators (seek (signingAddresses validators) signer start) = v.weight := by
        rw [weightAt, hat]
        rfl
      rw [hweight, hlen]
      by_cases hadd : total + v.weight < 2 ^ 96
      · simp only [addUint96, if_pos hadd]
        exact ⟨fun h => ⟨hlt, hadd, h⟩, fun h => h.2.2⟩
      · simp only [addUint96, if_neg hadd]
        exact ⟨fun h => (nomatch h), fun h => absurd h.2.1 hadd⟩

/-- the loop adds the weights at the positions that the scan takes for a first part of the signatures, and no more -/
theorem weightLoop_sound {n total w : ℕ} (htotal : total < 2 ^ 96)
    (h : weightLoop C validators thresholdWeight digest signatureAt n i start total = some w) :
    ∃ signers positions, signers.length ≤ n ∧ Recovered C digest signatureAt i signers ∧
      greedy (signingAddresses validators) start signers = some positions ∧ w = total + weightOf validators positions ∧
      w < 2 ^ 96 := by
  induction n generalizing i start total with
  | zero =>
    cases h
    exact ⟨[], [], le_rfl, recovered_nil, rfl, rfl, htotal⟩
  | succ n ih =>
    by_cases hlt : total < thresholdWeight
    · obtain ⟨signer, hrec, hin, hadd, hrest⟩ := (weightLoop_cons hlt).1 h
      obtain ⟨signers, positions, hlen, hsigners, hscan, hw, hbound⟩ := ih hadd hrest
      refine ⟨signer :: signers, _ :: positions, ?_, recovered_cons.2 ⟨hrec, hsigners⟩,
        greedy_cons.2 ⟨hin, positions, hscan, rfl⟩, ?_, hbound⟩
      · rw [List.length_cons]
        omega
      · rw [hw, weightOf_cons, Nat.add_assoc]
    · rw [weightLoop, if_neg hlt] at h
      cases h
      exact ⟨[], [], Nat.zero_le _, recovered_nil, rfl, rfl, htotal⟩

/-- the loop gets to the threshold weight if a first part of the signatures has it; it stops there or before -/
theorem weightLoop_complete {n total : ℕ} {signers : List H160} {positions : List ℕ} (hlen : signers.length ≤ n)
    (hsigners : Recovered C digest signatureAt i signers)
    (hscan : greedy (signingAddresses validators) start signers = some positions)
    (hweight : thresholdWeight ≤ total + weightOf validators positions)
    (hbound : total + weightOf validators positions < 2 ^ 96) :
    ∃ w, weightLoop C validators thresholdWeight digest signatureAt n i start total = some w ∧ thresholdWeight ≤ w := by
  induction signers generalizing n i start total positions with
  | nil =>
    cases hscan
    rw [weightOf_nil, Nat.add_zero] at hweight
    refine ⟨total, ?_, hweight⟩
    cases n with
    | zero => rfl
    | succ n => rw [weightLoop, if_neg (not_lt.2 hweight)]
  | cons signer signers ih =>
    cases n with
    | zero => cases hlen
    | succ n =>
      by_cases hlt : total < thresholdWeight
      · obtain ⟨hrec, hrest⟩ := recovered_cons.1 hsigners
        obtain ⟨hin, rest, hrestScan, rfl⟩ := greedy_cons.1 hscan
        rw [weightOf_cons, ← Nat.add_assoc] at hweight hbound
        obtain ⟨w, hw, hge⟩ := ih (Nat.le_of_succ_le_succ hlen) hrest hrestScan hweight hbound
        refine ⟨w, (weightLoop_cons hlt).2 ⟨signer, hrec, hin, ?_, hw⟩, hge⟩
        omega
      · refine ⟨total, ?_, not_lt.1 hlt⟩
        rw [weightLoop, if_neg hlt]

end Scans

/-! ## Exactness -/

/-- the weight that the scan matches the signers with -/
def greedyWeight (validators : List ValidatorInfo) (signers : List H160) : ℕ :=
  weightOf validators ((greedy (signingAddresses validators) 0 signers).getD [])

theorem verify_iff (C : Crypto) (digest : H256) (signatureAt : ℕ → Option (Word 65)) (validators : List H160)
    {threshold : ℕ} (h : 0 < threshold) :
    verify C (some digest) signatureAt validators threshold = some true ↔
      ∃ signers, signers.length = threshold ∧ Recovered C digest signatureAt 0 signers ∧
        ∃ positions, Matching validators 0 signers positions := by
  simp only [verify, if_pos h, verifyLoop_iff, exists_greedy_iff]

/-- acceptance is a threshold weight in range and a loop that gets there -/
theorem weightedVerify_eq (C : Crypto) (digest : H256) (signatureAt : ℕ → Option (Word 65)) (count : ℕ)
    (validators : List ValidatorInfo) (thresholdWeight : ℕ) :
    weightedVerify C (some digest) signatureAt (some count) validators thresholdWeight = some true ↔
      (0 < thresholdWeight ∧ thresholdWeight ≤ TOTAL_WEIGHT) ∧
        ∃ w, weightLoop C validators thresholdWeight digest signatureAt count 0 0 0 = some w ∧ thresholdWeight ≤ w := by
  simp only [weightedVerify, Option.bind_eq_bind, Option.bind_some]
  by_cases hrange : 0 < thresholdWeight ∧ thresholdWeight ≤ TOTAL_WEIGHT
  · cases weightLoop C validators thresholdWeight digest signatureAt count 0 0 0 with
    | none => simp [guard, hrange]
    | some w => by_cases hw : thresholdWeight ≤ w <;> simp [guard, hrange, hw]
  · simp [guard, hrange]

theorem weightedVerify_iff (C : Crypto) (digest : H256) (signatureAt : ℕ → Option (Word 65)) (count : ℕ)
    (validators : List ValidatorInfo) (thresholdWeight : ℕ) :
    weightedVerify C (some digest) signatureAt (some count) validators thresholdWeight = some true ↔
      (0 < thresholdWeight ∧ thresholdWeight ≤ TOTAL_WEIGHT) ∧
        ∃ signers, signers.length ≤ count ∧ Recovered C digest signatureAt 0 signers ∧
          (∃ positions, Matching (signingAddresses validators) 0 signers positions) ∧
          thresholdWeight ≤ greedyWeight validators signers ∧ greedyWeight validators signers < 2 ^ 96 := by
  rw [weightedVerify_eq]
  refine and_congr_right fun _ => ?_
  constructor
  · rintro ⟨w, hw, hge⟩
    obtain ⟨signers, positions, hlen, hsigners, hscan, rfl, hbound⟩ := weightLoop_sound (by norm_num) hw
    have hweight : greedyWeight validators signers = weightOf validators positions := by
      rw [greedyWeight, hscan]
      rfl
    rw [Nat.zero_add, ← hweight] at hge hbound
    exact ⟨signers, hlen, hsigners, ⟨positions, matching_of_greedy hscan⟩, hge, hbound⟩
  · rintro ⟨signers, hlen, hsigners, hmatching, hge, hbound⟩
    obtain ⟨positions, hscan⟩ := exists_greedy_iff.2 hmatching
    rw [greedyWeight, hscan, Option.getD_some] at hge hbound
    exact weightLoop_complete hlen hsigners hscan (by rwa [Nat.zero_add]) (by rwa [Nat.zero_add])

/-- **Both scans are exact.** `AbstractMultisigIsm.verify` succeeds if and only if the first `threshold` signatures recover
to signers at strictly increasing positions of the validators. `AbstractStaticWeightedMultisigIsm.verify` succeeds if and
only if the threshold weight is between 1 and `TOTAL_WEIGHT`, and some first part of the signatures recovers to signers
at strictly increasing positions whose weights in the scan add up to the threshold weight within `uint96`. Whatever the
scan adds up is the weight of strictly increasing positions: no validator counts twice. -/
theorem scans_exact (C : Crypto) (digest : H256) (signatureAt : ℕ → Option (Word 65)) :
    (∀ (validators : List H160) (threshold : ℕ), 1 ≤ threshold →
      (verify C (some digest) signatureAt validators threshold = some true ↔
        ∃ signers, signers.length = threshold ∧ Recovered C digest signatureAt 0 signers ∧
          ∃ positions, Matching validators 0 signers positions)) ∧
    (∀ (validators : List ValidatorInfo) (thresholdWeight count : ℕ),
      weightedVerify C (some digest) signatureAt (some count) validators thresholdWeight = some true ↔
        (1 ≤ thresholdWeight ∧ thresholdWeight ≤ TOTAL_WEIGHT) ∧
          ∃ signers, signers.length ≤ count ∧ Recovered C digest signatureAt 0 signers ∧
            (∃ positions, Matching (signingAddresses validators) 0 signers positions) ∧
            thresholdWeight ≤ greedyWeight validators signers ∧ greedyWeight validators signers < 2 ^ 96) ∧
    (∀ (validators : List ValidatorInfo) (thresholdWeight count w : ℕ),
      weightLoop C validators thresholdWeight digest signatureAt count 0 0 0 = some w →
        ∃ signers positions, signers.length ≤ count ∧ Recovered C digest signatureAt 0 signers ∧
          Matching (signingAddresses validators) 0 signers positions ∧ w = weightOf validators positions) := by
  refine ⟨fun validators threshold h => verify_iff C digest signatureAt validators h,
    fun validators thresholdWeight count => weightedVerify_iff C digest signatureAt count validators thresholdWeight, ?_⟩
  intro validators thresholdWeight count w hw
  obtain ⟨signers, positions, hlen, hsigners, hscan, rfl, -⟩ := weightLoop_sound (by norm_num) hw
  exact ⟨signers, positions, hlen, hsigners, matching_of_greedy hscan, Nat.zero_add _⟩

/-- a signer, and signatures that all recover to it -/
def someSigner : H160 := Word.filled 20 7

def oneSigner : Crypto := ⟨fun _ => Word.filled 32 0, fun _ _ => some someSigner⟩

def someDigest : H256 := Word.filled 32 1

def someSignature : Word 65 := Word.filled 65 0

/-- a validator that stands twice in the list signs twice; its signatures are at the positions 0 and 2 -/
theorem repeated_validator_accepted :
    verify oneSigner (some someDigest) (fun _ => some someSignature)
      [someSigner, ⟨List.replicate 20 8, rfl⟩, someSigner] 2 = some true := by
  refine ((scans_exact oneSigner someDigest fun _ => some someSignature).1 _ 2 (by decide)).2
    ⟨[someSigner, someSigner], rfl, ?_, [0, 2], by decide, by decide, ?_⟩
  · intro k hk
    rcases k with _ | _ | k
    · rfl
    · rfl
    · exact absurd hk (by simp)
  · exact .cons rfl (.cons rfl .nil)

/-- one validator with a weight right above `TOTAL_WEIGHT` -/
def heavyValidator : ValidatorInfo := ⟨someSigner, TOTAL_WEIGHT + 1, by decide⟩

/-- with a threshold weight above `TOTAL_WEIGHT` even a matched signer of that weight is refused -/
theorem weight_above_total_refused :
    (∃ signers, signers.length ≤ 1 ∧ Recovered oneSigner someDigest (fun _ => some someSignature) 0 signers ∧
      (∃ positions, Matching (signingAddresses [heavyValidator]) 0 signers positions) ∧
      TOTAL_WEIGHT + 1 ≤ greedyWeight [heavyValidator] signers ∧ greedyWeight [heavyValidator] signers < 2 ^ 96) ∧
    weightedVerify oneSigner (some someDigest) (fun _ => some someSignature) (some 1) [heavyValidator]
      (TOTAL_WEIGHT + 1) = none := by
  refine ⟨⟨[someSigner], le_rfl, ?_, ⟨[0], List.pairwise_singleton _ _, by decide, .cons rfl .nil⟩, ?_, ?_⟩, ?_⟩
  · intro k hk
    obtain rfl : k = 0 := by simpa using hk
    rfl
  · decide
  · decide
  · decide

end Hyperlane.Isms
