/-
What signatures the stake registry accepts for a reference block.

- `checkSigners_eq_ok`: the loop over the signers, read off its result.
- `checkSignatures_spec`: what is accepted in a sound state, and that `InvalidSignedWeight` never is the answer.
- `accepted_at_block`: the same over whole runs. Only the state at the end of the reference block counts: the keys, the
  weights and the threshold of that moment.
-/
import Hyperlane.Avs.StakeHistory

namespace Hyperlane.Avs

open Hyperlane.Checkpoints Hyperlane.Reentrancy Hyperlane.Outcome

variable {H : Type} {C : History H} {now top : ℕ} {r : Registry H}
variable {Digest Signature : Type} {isValidSignatureNow : Address → Digest → Signature → Bool}

/-! ## The loop over the signers -/

theorem atReference_eq_ok {h : H} {b x : ℕ} : atReference C now h b = .ok x ↔ b < now ∧ C.lookup h b = x := by
  unfold atReference
  rw [revertIf_bind, not_le]
  simp [pure, Except.pure]

variable (C r) in
/-- the weight of an operator in block `b` -/
def weightAt (b : ℕ) (operator : Address) : ℕ := C.lookup (r.operatorWeightHistory operator) b

variable (C r) in
/-- the signing key of an operator in block `b` -/
def keyAt (b : ℕ) (operator : Address) : Address := toAddress (C.lookup (r.operatorSigningKeyHistory operator) b)

theorem checkSigners_cons {dataHash : Digest} {b start w : ℕ} {operator last : Address} {signature : Signature}
    {signers : List (Address × Signature)} :
    checkSigners C now isValidSignatureNow r dataHash b ((operator, signature) :: signers) last start = .ok w ↔
      b < now ∧ last < operator ∧ isValidSignatureNow (keyAt C r b operator) dataHash signature = true ∧
        start + weightAt C r b operator < 2 ^ 256 ∧
        checkSigners C now isValidSignatureNow r dataHash b signers operator (start + weightAt C r b operator) = .ok w := by
  constructor
  · intro h
    obtain ⟨signer, hsigner, h⟩ := bind_eq_ok.1 h
    obtain ⟨key, hkey, hsigner⟩ := bind_eq_ok.1 hsigner
    obtain ⟨hlt, rfl⟩ := atReference_eq_ok.1 hkey
    cases hsigner
    obtain ⟨hsorted, h⟩ := revertIf_bind.1 h
    obtain ⟨hvalid, h⟩ := revertIf_bind.1 h
    obtain ⟨weight, hweight, h⟩ := bind_eq_ok.1 h
    obtain ⟨-, rfl⟩ := atReference_eq_ok.1 hweight
    obtain ⟨sum, hsum, h⟩ := bind_eq_ok.1 h
    obtain ⟨rfl, hbound⟩ := checked_eq_ok hsum
    exact ⟨hlt, not_le.1 hsorted, Bool.eq_true_of_not_eq_false hvalid, hbound, h⟩
  · intro ⟨hlt, hsorted, hvalid, hbound, h⟩
    refine bind_eq_ok.2 ⟨keyAt C r b operator, bind_eq_ok.2 ⟨_, atReference_eq_ok.2 ⟨hlt, rfl⟩, rfl⟩, ?_⟩
    refine revertIf_bind.2 ⟨not_le.2 hsorted, revertIf_bind.2 ⟨by simp [hvalid], ?_⟩⟩
    refine bind_eq_ok.2 ⟨_, atReference_eq_ok.2 ⟨hlt, rfl⟩, ?_⟩
    exact bind_eq_ok.2 ⟨_, if_pos hbound, h⟩

/-- the signers are sorted, each has signed with its key of the block, and their weights are added up -/
theorem checkSigners_eq_ok {dataHash : Digest} {b start w : ℕ} {last : Address} {signers : List (Address × Signature)}
    (h : checkSigners C now isValidSignatureNow r dataHash b signers last start = .ok w) :
    (signers ≠ [] → b < now) ∧ (last :: signers.map Prod.fst).IsChain (· < ·) ∧
      (∀ p ∈ signers, isValidSignatureNow (keyAt C r b p.1) dataHash p.2 = true) ∧
      w = start + (signers.map fun p => weightAt C r b p.1).sum := by
  induction signers generalizing last start with
  | nil =>
    cases h
    simp
  | cons p signers ih =>
    obtain ⟨operator, signature⟩ := p
    obtain ⟨hlt, hsorted, hvalid, -, h⟩ := checkSigners_cons.1 h
    obtain ⟨-, hchain, hrest, hsum⟩ := ih h
    refine ⟨fun _ => hlt, List.isChain_cons_cons.2 ⟨hsorted, hchain⟩, ?_, ?_⟩
    · intro p hp
      rcases List.mem_cons.1 hp with rfl | hp
      · exact hvalid
      · exact hrest p hp
    · simp [hsum, Nat.add_assoc]

theorem checkSigners_of {dataHash : Digest} {b start : ℕ} {last : Address} {signers : List (Address × Signature)}
    (hnow : b < now) (hchain : (last :: signers.map Prod.fst).IsChain (· < ·))
    (hvalid : ∀ p ∈ signers, isValidSignatureNow (keyAt C r b p.1) dataHash p.2 = true)
    (hbound : start + (signers.map fun p => weightAt C r b p.1).sum < 2 ^ 256) :
    checkSigners C now isValidSignatureNow r dataHash b signers last start =
      .ok (start + (signers.map fun p => weightAt C r b p.1).sum) := by
  induction signers generalizing last start with
  | nil => simp [checkSigners]
  | cons p signers ih =>
    obtain ⟨operator, signature⟩ := p
    obtain ⟨hsorted, hchain⟩ := List.isChain_cons_cons.1 hchain
    rw [List.map_cons, List.sum_cons, ← Nat.add_assoc] at hbound ⊢
    have hfirst : start + weightAt C r b operator < 2 ^ 256 := lt_of_le_of_lt (Nat.le_add_right _ _) hbound
    refine checkSigners_cons.2 ⟨hnow, hsorted, hvalid _ List.mem_cons_self, hfirst, ?_⟩
    exact ih hchain (fun p hp => hvalid p (List.mem_cons_of_mem _ hp)) hbound

/-- operators in ascending order above the zero address are distinct -/
theorem nodup_of_chain {operators : List Address} {last : Address} (h : (last :: operators).IsChain (· < ·)) :
    operators.Nodup := by
  have hpairwise := (List.pairwise_cons.1 (List.isChain_iff_pairwise.1 h)).2
  exact hpairwise.imp fun hlt => ne_of_lt hlt

/-! ## The whole check -/

theorem validateThresholdStake_eq {w b : ℕ} (hnow : b < now) (hw : w ≤ C.lookup r.totalWeightHistory b) :
    validateThresholdStake C now r w b =
      if w < C.lookup r.thresholdWeightHistory b then .error .InsufficientSignedStake else .ok () := by
  have hreference : ∀ h : H, atReference C now h b = .ok (C.lookup h b) := fun h => atReference_eq_ok.2 ⟨hnow, rfl⟩
  unfold validateThresholdStake
  rw [hreference, hreference, ok_bind, ok_bind]
  unfold revertIf
  rw [if_neg (not_lt.2 hw)]
  rfl

/-- the map over the signers of accepted lists -/
theorem map_zip_weight {operators : List Address} {signatures : List Signature}
    (hlen : operators.length = signatures.length) (f : Address → ℕ) :
    ((operators.zip signatures).map fun p => f p.1) = operators.map f := by
  have hfst : (operators.zip signatures).map Prod.fst = operators := List.map_fst_zip hlen.le
  calc ((operators.zip signatures).map fun p => f p.1) = ((operators.zip signatures).map Prod.fst).map f := by simp
    _ = operators.map f := by rw [hfst]

/-- distinct operators do not weigh more than the total, which fits a checkpoint -/
theorem signedWeight_le (hs : Sound C top r) (b : ℕ) {operators : List Address}
    (hchain : (0 :: operators).IsChain (· < ·)) :
    (operators.map (weightAt C r b)).sum ≤ C.lookup r.totalWeightHistory b ∧
      C.lookup r.totalWeightHistory b < maxValue :=
  ⟨hs.balanced.sum_le b (nodup_of_chain hchain), hs.balanced.total_settled.lookup_lt b⟩

/-- the lengths agree and are not zero -/
theorem validateSignaturesLength_eq_ok {n m : ℕ} {u : Unit} :
    validateSignaturesLength n m = .ok u ↔ n = m ∧ n ≠ 0 := by
  unfold validateSignaturesLength
  rw [revertIf_bind, not_not]
  unfold revertIf
  split_ifs with h0
  · simp [h0]
  · simp [h0]

section Errors

/-- the checks before the last one have errors of their own -/
abbrev Fails (e : Error) : Prop := e ≠ .InvalidSignedWeight

theorem revertIf_fails {condition : Prop} [Decidable condition] {e : Error} (he : Fails e) :
    Ends Fails (fun _ => True) (revertIf condition e) := by
  unfold revertIf
  split_ifs
  · exact he
  · trivial

theorem checked_fails (x : ℕ) : Ends Fails (fun _ => True) (checked x) := by
  unfold checked
  split_ifs
  · trivial
  · exact Error.noConfusion

theorem atReference_fails (h : H) (b : ℕ) : Ends Fails (fun _ => True) (atReference C now h b) :=
  (revertIf_fails Error.noConfusion).bind fun _ _ => trivial

theorem checkSigners_fails (dataHash : Digest) (b : ℕ) (signers : List (Address × Signature)) (last : Address)
    (start : ℕ) :
    Ends Fails (fun _ => True) (checkSigners C now isValidSignatureNow r dataHash b signers last start) := by
  induction signers generalizing last start with
  | nil => trivial
  | cons p signers ih =>
    obtain ⟨operator, signature⟩ := p
    have hkey : Ends Fails (fun _ => True) (getOperatorSigningKey C now r operator b) :=
      (atReference_fails _ b).bind fun _ _ => trivial
    refine hkey.bind fun signer _ => ?_
    refine (revertIf_fails Error.noConfusion).bind fun _ _ => ?_
    refine (revertIf_fails Error.noConfusion).bind fun _ _ => ?_
    refine (atReference_fails _ b).bind fun weight _ => ?_
    exact (checked_fails _).bind fun sum _ => ih operator sum

end Errors

/-- **What is accepted**: the signers are distinct operators, each has signed with its key of the reference block, and
their weights of that block reach the threshold of that block. The weights of signers never exceed the total. -/
theorem checkSignatures_spec (hs : Sound C top r) (dataHash : Digest) (operators : List Address)
    (signatures : List Signature) (b : ℕ) :
    (checkSignatures C now isValidSignatureNow r dataHash operators signatures b = .ok () ↔
      b < now ∧ operators ≠ [] ∧ operators.length = signatures.length ∧ (0 :: operators).IsChain (· < ·) ∧
        (∀ p ∈ operators.zip signatures, isValidSignatureNow (keyAt C r b p.1) dataHash p.2 = true) ∧
        C.lookup r.thresholdWeightHistory b ≤ (operators.map (weightAt C r b)).sum) ∧
      checkSignatures C now isValidSignatureNow r dataHash operators signatures b ≠ .error .InvalidSignedWeight := by
  have hsigners : ∀ w, checkSigners C now isValidSignatureNow r dataHash b (operators.zip signatures) 0 0 = .ok w →
      operators.length = signatures.length → operators ≠ [] →
      b < now ∧ (0 :: operators).IsChain (· < ·) ∧
        (∀ p ∈ operators.zip signatures, isValidSignatureNow (keyAt C r b p.1) dataHash p.2 = true) ∧
        w = (operators.map (weightAt C r b)).sum := by
    intro w h hlen hne
    obtain ⟨hnow, hchain, hvalid, hw⟩ := checkSigners_eq_ok h
    rw [List.map_fst_zip hlen.le] at hchain
    rw [map_zip_weight hlen (weightAt C r b), Nat.zero_add] at hw
    refine ⟨hnow ?_, hchain, hvalid, hw⟩
    intro hnil
    rw [List.zip_eq_nil_iff] at hnil
    rcases hnil with hnil | hnil
    · exact hne hnil
    · rw [hnil, List.length_nil, List.length_eq_zero_iff] at hlen
      exact hne hlen
  refine ⟨⟨?_, ?_⟩, ?_⟩
  · intro h
    obtain ⟨u, hlength, h⟩ := bind_eq_ok.1 h
    obtain ⟨hlen, h0⟩ := validateSignaturesLength_eq_ok.1 hlength
    have hne : operators ≠ [] := fun hnil => h0 (by simp [hnil])
    obtain ⟨w, hw, h⟩ := bind_eq_ok.1 h
    obtain ⟨hnow, hchain, hvalid, rfl⟩ := hsigners w hw hlen hne
    rw [validateThresholdStake_eq hnow (signedWeight_le hs b hchain).1] at h
    refine ⟨hnow, hne, hlen, hchain, hvalid, ?_⟩
    by_contra hlt
    rw [if_pos (not_le.1 hlt)] at h
    cases h
  · intro ⟨hnow, hne, hlen, hchain, hvalid, hthreshold⟩
    obtain ⟨hle, hlt⟩ := signedWeight_le hs b hchain
    have hbound : (operators.map (weightAt C r b)).sum < 2 ^ 256 := (hle.trans_lt hlt).trans (by norm_num)
    have h0 : operators.length ≠ 0 := fun h0 => hne (List.length_eq_zero_iff.1 h0)
    have hw := checkSigners_of hnow
      (by rw [List.map_fst_zip hlen.le]; exact hchain) hvalid
      (by rw [map_zip_weight hlen (weightAt C r b), Nat.zero_add]; exact hbound)
    rw [map_zip_weight hlen (weightAt C r b), Nat.zero_add] at hw
    refine bind_eq_ok.2 ⟨(), validateSignaturesLength_eq_ok.2 ⟨hlen, h0⟩, bind_eq_ok.2 ⟨_, hw, ?_⟩⟩
    rw [validateThresholdStake_eq hnow hle, if_neg (not_lt.2 hthreshold)]
  · intro h
    have hfails : Ends Fails (fun _ => True)
        (checkSignatures C now isValidSignatureNow r dataHash operators signatures b) := by
      unfold checkSignatures
      cases hlength : validateSignaturesLength operators.length signatures.length with
      | error e =>
        have hends : Ends Fails (fun _ => True) (validateSignaturesLength operators.length signatures.length) :=
          (revertIf_fails Error.noConfusion).bind fun _ _ => revertIf_fails Error.noConfusion
        exact hends.of_error hlength
      | ok u =>
        obtain ⟨hlen, h0⟩ := validateSignaturesLength_eq_ok.1 hlength
        have hne : operators ≠ [] := fun hnil => h0 (by simp [hnil])
        rw [ok_bind]
        cases hw : checkSigners C now isValidSignatureNow r dataHash b (operators.zip signatures) 0 0 with
        | error e => exact (checkSigners_fails dataHash b _ 0 0).of_error hw
        | ok w =>
          obtain ⟨hnow, hchain, -, rfl⟩ := hsigners w hw hlen hne
          rw [ok_bind, validateThresholdStake_eq hnow (signedWeight_le hs b hchain).1]
          split_ifs
          · exact Error.noConfusion
          · trivial
    exact hfails.of_error h rfl

/-! ## Whole runs -/

/-- **Acceptance is a fact about the end of the reference block.** Transactions up to block `b` and transactions after
it, with whatever foreign code did in them: signatures for `b` are accepted if and only if the signers are distinct
operators whose latest keys at the end of block `b` signed and whose latest weights at that time reached the threshold. -/
theorem accepted_at_block (hC : C.Lawful maxValue) {past after : List (ℕ × Frame (View × Op))} {b : ℕ}
    (hchain : Chain (past ++ after)) (hpast : ∀ tx ∈ past, tx.1 ≤ b) (hafter : ∀ tx ∈ after, b < tx.1)
    (dataHash : Digest) (operators : List Address) (signatures : List Signature) :
    let atEnd := run (body C) (fresh C) past
    let r := run (body C) atEnd after
    (checkSignatures C now isValidSignatureNow r dataHash operators signatures b = .ok () ↔
      b < now ∧ operators ≠ [] ∧ operators.length = signatures.length ∧ (0 :: operators).IsChain (· < ·) ∧
        (∀ p ∈ operators.zip signatures,
          isValidSignatureNow (toAddress (C.latest (atEnd.operatorSigningKeyHistory p.1))) dataHash p.2 = true) ∧
        C.latest atEnd.thresholdWeightHistory ≤ (operators.map fun a => C.latest (atEnd.operatorWeightHistory a)).sum) ∧
      checkSignatures C now isValidSignatureNow r dataHash operators signatures b ≠ .error .InvalidSignedWeight := by
  intro atEnd r
  have hchains := List.pairwise_append.1 (by rw [Chain, List.map_append] at hchain; exact hchain)
  have hend : Sound C b atEnd :=
    run_sound hC hchains.1 (fresh_sound hC 0) (fun _ _ => Nat.zero_le _) hpast (Nat.zero_le _)
  obtain ⟨top, htop, hbtop⟩ : ∃ top, (∀ tx ∈ after, tx.1 ≤ top) ∧ b ≤ top := by
    refine ⟨(after.map Prod.fst).sum + b, fun tx htx => ?_, Nat.le_add_left _ _⟩
    exact (List.single_le_sum (fun _ _ => Nat.zero_le _) _ (List.mem_map_of_mem htx)).trans (Nat.le_add_right _ _)
  have hlo : ∀ tx ∈ after, b ≤ tx.1 := fun tx htx => (hafter tx htx).le
  have hs : Sound C top r := run_sound hC hchains.2.1 hend hlo htop hbtop
  obtain ⟨hweight, -, hthreshold, hkey⟩ := run_frozen hC hchains.2.1 hend hlo hafter
  have hweight : ∀ a, weightAt C r b a = C.latest (atEnd.operatorWeightHistory a) :=
    fun a => (hweight a).trans ((hend.balanced.parts_settled a).lookup_eq b le_rfl)
  have hkey : ∀ a, keyAt C r b a = toAddress (C.latest (atEnd.operatorSigningKeyHistory a)) :=
    fun a => congrArg toAddress ((hkey a).trans ((hend.key_settled a).lookup_eq b le_rfl))
  have hthreshold : C.lookup r.thresholdWeightHistory b = C.latest atEnd.thresholdWeightHistory :=
    hthreshold.trans (hend.threshold_settled.lookup_eq b le_rfl)
  simp only [← hkey, ← hweight, ← hthreshold]
  exact checkSignatures_spec hs dataHash operators signatures b

/-- an operator that has left since then still signs for the block -/
theorem accepted_at_block_left :
    checkSignatures (listed maxValue) 9 (fun signer (_ : Unit) (signature : ℕ) => signer.val == signature)
      (run (body (listed maxValue)) (run (body (listed maxValue)) (fresh (listed maxValue)) joined) left)
      () [5, 6] [50, 60] 3 = .ok () := by
  refine (accepted_at_block (listed_lawful (by norm_num)) (by decide) (by decide) (by decide) () [5, 6] [50, 60]).1.2 ?_
  decide +kernel

end Hyperlane.Avs
