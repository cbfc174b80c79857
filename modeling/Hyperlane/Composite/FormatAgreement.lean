/-
The composite ISM and the contracts on the same metadata: `sub_metadata_at` and the `Aggregation` arm of `verify_node`
(rust/sealevel/programs/ism/composite-ism: metadata.rs, verify.rs) beside AggregationIsmMetadata.sol and
AbstractAggregationIsm.sol, and the message-id multisig of both sides (module `Sealevel.MultisigIsm`).

Both aggregations verify the present sub-modules in order and count them; one compares the count with the threshold at the
end, the other one counts the threshold down. The contract's index is a `uint8`, so it takes 255 sub-modules at most.

- `subMetadataAt_agrees`: the ranges of the table are read alike.
- `aggregation_agrees`: up to 255 sub-modules of the same verdicts, both sides accept or neither.
- `verifyArms_aggregation`: the arm over the nodes of the tree is this aggregation over what they do.
- `formats_agree`: the aggregation and the multisig.
-/
import Hyperlane.Composite.VerifyNode
import Hyperlane.Relayer.Aggregation

namespace Hyperlane.Composite

open Hyperlane.Bytes Hyperlane.Outcome Hyperlane.Sealevel
open Hyperlane.Relayer (H160 H256 Crypto HyperlaneMessage aggregationLoop aggregationVerify)
open Hyperlane.Relayer.AggregationIsmMetadata (metadataRange hasMetadata metadataAt)

/-! ## The table of ranges -/

/-- both sides find the same at an index: no metadata, these bytes, or an error and a revert -/
structure SubMetadataAgrees (metadata : List UInt8) (index : ℕ) : Prop where
  absent : subMetadataAt metadata index = .ok none ↔ hasMetadata metadata index = some false
  present : ∀ sub, subMetadataAt metadata index = .ok (some sub) ↔
    hasMetadata metadata index = some true ∧ metadataAt metadata index = some sub
  fails : (∃ e, subMetadataAt metadata index = .error e) ↔
    hasMetadata metadata index = none ∨ hasMetadata metadata index = some true ∧ metadataAt metadata index = none

variable {metadata : List UInt8} {i index : ℕ}

/-- the two words of a range, as both sides read them -/
theorem metadataRange_eq (metadata : List UInt8) (index : ℕ) : metadataRange metadata index =
    if metadata.length < index * 8 + 8 then none
    else some (UInt32.ofNat (ofBe ((metadata.drop (index * 8)).take 4)),
      UInt32.ofNat (ofBe ((metadata.drop (index * 8 + 4)).take 4))) := by
  unfold metadataRange uint32At slice
  have hstart : index * 4 * 2 = index * 8 := by omega
  rw [hstart]
  dsimp only
  by_cases hshort : metadata.length < index * 8 + 8
  · rw [if_pos hshort]
    by_cases hfirst : index * 8 + 4 ≤ metadata.length
    · rw [if_neg (by omega : ¬ (index * 8 + 4 ≤ index * 8 + 4 + 4 ∧ index * 8 + 4 + 4 ≤ metadata.length))]
      split <;> trivial
    · rw [if_neg (by omega)]
      rfl
  · rw [if_neg hshort, if_pos (by omega), if_pos (by omega)]
    simp

/-- a word of four bytes as a `uint32` -/
theorem toNat_word {bs : List UInt8} (h : bs.length ≤ 4) : (UInt32.ofNat (ofBe bs)).toNat = ofBe bs := by
  have hlt : ofBe bs < 2 ^ 32 :=
    calc ofBe bs < 256 ^ bs.length := ofBe_lt bs
      _ ≤ 256 ^ 4 := Nat.pow_le_pow_right (by decide) h
      _ = 2 ^ 32 := by decide
  exact UInt32.toNat_ofNat_of_lt' hlt

/-- what the contract reads, read by the program -/
theorem subMetadataAt_eq (metadata : List UInt8) (index : ℕ) : subMetadataAt metadata index =
    match hasMetadata metadata index with
    | none => .error .InvalidMetadata
    | some false => .ok none
    | some true => (metadataAt metadata index).elim (.error .InvalidMetadata) fun sub => .ok (some sub) := by
  rw [hasMetadata, metadataAt, metadataRange_eq, subMetadataAt]
  simp only [ENTRY_SIZE, RANGE_SIZE, Nat.reduceMul, Nat.add_sub_cancel_left,
    show index * 8 + 8 - (index * 8 + 4) = 4 by omega]
  by_cases hshort : metadata.length < index * 8 + 8
  · rw [if_pos hshort, if_pos hshort]
    rfl
  rw [if_neg hshort, if_neg hshort, Option.map_some, Option.bind_some]
  have hstart := toNat_word (List.length_take_le 4 (metadata.drop (index * 8)))
  have hstop := toNat_word (List.length_take_le 4 (metadata.drop (index * 8 + 4)))
  generalize ofBe ((metadata.drop (index * 8)).take 4) = start at hstart ⊢
  generalize ofBe ((metadata.drop (index * 8 + 4)).take 4) = stop at hstop ⊢
  dsimp only
  rw [hstart, hstop]
  by_cases hzero : start = 0
  · have hnot : ¬ (0 < UInt32.ofNat start) := by
      rw [UInt32.lt_iff_toNat_lt, hstart, hzero]
      exact lt_irrefl _
    rw [if_pos hzero, decide_eq_false hnot]
  · have hpos : 0 < UInt32.ofNat start := by
      rw [UInt32.lt_iff_toNat_lt, hstart]
      exact Nat.pos_of_ne_zero hzero
    rw [if_neg hzero, decide_eq_true hpos, slice]
    by_cases hrange : start ≤ stop ∧ stop ≤ metadata.length
    · rw [if_pos hrange, if_neg (by omega)]
      rfl
    · rw [if_neg hrange, if_pos (by omega)]
      rfl

theorem subMetadataAt_agrees (metadata : List UInt8) (index : ℕ) : SubMetadataAgrees metadata index := by
  have heq := subMetadataAt_eq metadata index
  cases hhas : hasMetadata metadata index with
  | none =>
    simp only [hhas] at heq
    refine ⟨?_, ?_, ?_⟩ <;> simp [heq, hhas]
  | some has => cases has with
    | false =>
      simp only [hhas] at heq
      refine ⟨?_, ?_, ?_⟩ <;> simp [heq, hhas]
    | true => cases hat : metadataAt metadata index with
      | none =>
        simp only [hhas, hat] at heq
        refine ⟨?_, ?_, ?_⟩ <;> simp [heq, hhas, hat]
      | some sub =>
        simp only [hhas, hat] at heq
        refine ⟨?_, ?_, ?_⟩ <;> simp [heq, hhas, hat]

/-! ## The aggregation -/

section Aggregation

variable {σ : Type}

/-- the loop of the `Aggregation` arm of `verify_node` from the sub-ISM `i` on. A sub-ISM takes accounts and changes its
state, so it leaves the next one something else -/
def verifySubIsms (metadata : List UInt8) :
    List (List UInt8 → σ → Except ProgramError σ) → ℕ → ℕ → σ → Except ProgramError (ℕ × σ)
  | [], _, verified, s => .ok (verified, s)
  | subIsm :: subIsms, i, verified, s =>
    match subMetadataAt metadata i with
    | .error e => .error e.into
    | .ok none => verifySubIsms metadata subIsms (i + 1) verified s
    | .ok (some subMeta) =>
      match subIsm subMeta s with
      | .error e => .error e
      | .ok s => verifySubIsms metadata subIsms (i + 1) (verified + 1) s

/-- the `Aggregation` arm of `verify_node` -/
def verifyAggregation (threshold : UInt8) (subIsms : List (List UInt8 → σ → Except ProgramError σ)) (metadata : List UInt8)
    (s : σ) : Except ProgramError σ :=
  match verifySubIsms metadata subIsms 0 0 s with
  | .error e => .error e
  | .ok (verified, s) => if verified ≠ threshold.toNat then .error Error.ThresholdNotMet.into else .ok s

/-- on its turn, each sub-ISM accepts its metadata if and only if the contract's sub-module does -/
def SameVerdicts (metadata : List UInt8) :
    List (List UInt8 → σ → Except ProgramError σ) → List (List UInt8 → Option Bool) → ℕ → σ → Prop
  | [], [], _, _ => True
  | subIsm :: subIsms, ism :: isms, i, s =>
    match subMetadataAt metadata i with
    | .error _ => True
    | .ok none => SameVerdicts metadata subIsms isms (i + 1) s
    | .ok (some subMeta) =>
      match subIsm subMeta s with
      | .error _ => ism subMeta ≠ some true
      | .ok s => ism subMeta = some true ∧ SameVerdicts metadata subIsms isms (i + 1) s
  | _, _, _, _ => False

variable {subIsms : List (List UInt8 → σ → Except ProgramError σ)} {isms : List (List UInt8 → Option Bool)} {s : σ}

theorem le_verified {verified n : ℕ} {s' : σ} (h : verifySubIsms metadata subIsms i verified s = .ok (n, s')) :
    verified ≤ n := by
  induction subIsms generalizing i verified s with
  | nil =>
    obtain ⟨rfl, -⟩ := Prod.mk.inj (Except.ok.inj h)
    exact le_rfl
  | cons subIsm subIsms ih =>
    rw [verifySubIsms] at h
    split at h
    · cases h
    · exact ih h
    · split at h
      · cases h
      · exact (Nat.le_succ _).trans (ih h)

/-- counting up to the threshold and counting it down -/
theorem loops_agree {verified threshold : ℕ} (hcount : i + subIsms.length ≤ 255)
    (hsame : SameVerdicts metadata subIsms isms i s) :
    (∃ s', verifySubIsms metadata subIsms i verified s = .ok (verified + threshold, s')) ↔
      aggregationLoop metadata isms i threshold = some 0 := by
  induction subIsms generalizing isms i verified threshold s with
  | nil =>
    cases isms with
    | nil =>
      rw [verifySubIsms, aggregationLoop]
      constructor
      · rintro ⟨s', h⟩
        have hsum := (Prod.mk.inj (Except.ok.inj h)).1
        exact congrArg some (by omega)
      · intro h
        obtain rfl := Option.some.inj h
        exact ⟨s, rfl⟩
    | cons ism isms => exact hsame.elim
  | cons subIsm subIsms ih =>
    cases isms with
    | nil => exact hsame.elim
    | cons ism isms =>
      rw [List.length_cons] at hcount
      have hindex : i < 255 := by omega
      have hread := subMetadataAt_agrees metadata i
      rw [SameVerdicts] at hsame
      rw [verifySubIsms]
      simp only [aggregationLoop, if_pos hindex]
      cases hsub : subMetadataAt metadata i with
      | error e =>
        refine iff_of_false (by rintro ⟨s', h⟩; cases h) ?_
        rcases hread.fails.1 ⟨e, hsub⟩ with hnone | ⟨hhas, hnone⟩
        · rw [hnone]
          exact fun h => by cases h
        · rw [hhas]
          dsimp only
          rw [hnone]
          exact fun h => by cases h
      | ok found =>
        rw [hsub] at hsame
        cases found with
        | none =>
          rw [hread.absent.1 hsub]
          exact ih (by omega) hsame
        | some subMeta =>
          obtain ⟨hhas, hat⟩ := (hread.present subMeta).1 hsub
          rw [hhas]
          dsimp only at hsame ⊢
          rw [hat]
          dsimp only
          cases hverdict : subIsm subMeta s with
          | error e =>
            rw [hverdict] at hsame
            refine iff_of_false (by rintro ⟨s', h⟩; cases h) ?_
            split
            · exact absurd ‹_› hsame
            · exact fun h => by cases h
          | ok s' =>
            rw [hverdict] at hsame
            obtain ⟨haccept, hsame⟩ := hsame
            rw [haccept]
            dsimp only
            cases threshold with
            | zero =>
              refine iff_of_false ?_ (by rw [if_pos rfl]; exact fun h => by cases h)
              rintro ⟨s'', h⟩
              have hle := le_verified h
              omega
            | succ threshold =>
              rw [if_neg (Nat.succ_ne_zero _), Nat.add_sub_cancel, show verified + (threshold + 1) = verified + 1 + threshold by omega]
              exact ih (by omega) hsame

/-- **The two aggregations** of at most 255 sub-modules with the same verdicts -/
theorem aggregation_agrees {threshold : UInt8} (hcount : subIsms.length ≤ 255)
    (hsame : SameVerdicts metadata subIsms isms 0 s) :
    (∃ s', verifyAggregation threshold subIsms metadata s = .ok s') ↔
      aggregationVerify isms threshold.toNat metadata = some true := by
  have hloops : (∃ s', verifySubIsms metadata subIsms 0 0 s = .ok (0 + threshold.toNat, s')) ↔
      aggregationLoop metadata isms 0 threshold.toNat = some 0 := loops_agree (by omega) hsame
  rw [Nat.zero_add] at hloops
  have hcontract : aggregationVerify isms threshold.toNat metadata = some true ↔
      aggregationLoop metadata isms 0 threshold.toNat = some 0 := by
    rw [aggregationVerify]
    split
    · exact iff_of_true rfl ‹_›
    · exact iff_of_false (fun h => by cases h) ‹_›
  rw [hcontract, ← hloops, verifyAggregation]
  cases hrun : verifySubIsms metadata subIsms 0 0 s with
  | error e => exact iff_of_false (by rintro ⟨s', h⟩; cases h) (by rintro ⟨s', h⟩; cases h)
  | ok r =>
    obtain ⟨verified, s'⟩ := r
    dsimp only
    by_cases hmet : verified = threshold.toNat
    · rw [if_neg (not_not.2 hmet), hmet]
      exact iff_of_true ⟨s', rfl⟩ ⟨s', rfl⟩
    · rw [if_pos hmet]
      refine iff_of_false (by rintro ⟨s'', h⟩; cases h) ?_
      rintro ⟨s'', h⟩
      exact hmet (Prod.mk.inj (Except.ok.inj h)).1

/-- the increment of a `uint8` that is 255 reverts, whatever the sub-modules say -/
theorem aggregationLoop_overflows {threshold : ℕ} (hi : i ≤ 255) (hcount : 255 < i + isms.length) :
    aggregationLoop metadata isms i threshold = none := by
  induction isms generalizing i threshold with
  | nil =>
    rw [List.length_nil] at hcount
    omega
  | cons ism isms ih =>
    rw [List.length_cons] at hcount
    have hnext : ∀ threshold, (if i < 255 then aggregationLoop metadata isms (i + 1) threshold else none) = none := by
      intro threshold
      split
      · exact ih (by omega) (by omega)
      · rfl
    simp only [aggregationLoop, hnext, ite_self]
    split
    · rfl
    · rfl
    · split
      · rfl
      · split <;> rfl

/-- **No metadata** passes the contract's aggregation of 256 sub-modules or more -/
theorem aggregationVerify_many {threshold : ℕ} (hcount : 255 < isms.length) :
    aggregationVerify isms threshold metadata = none := by
  rw [aggregationVerify, aggregationLoop_overflows (Nat.zero_le _) (by omega)]

/-- sub-ISMs without metadata are passed over -/
theorem verifySubIsms_absent {verified : ℕ}
    (h : ∀ j, i ≤ j → j < i + subIsms.length → subMetadataAt metadata j = .ok none) :
    verifySubIsms metadata subIsms i verified s = .ok (verified, s) := by
  induction subIsms generalizing i with
  | nil => rfl
  | cons subIsm subIsms ih =>
    rw [List.length_cons] at h
    rw [verifySubIsms, h i le_rfl (by omega)]
    exact ih fun j hij hj => h j (by omega) (by omega)

end Aggregation

section Node

variable {rt : Runtime} {ism : CompositeIsm} {message : HyperlaneMessage} {instructionAccounts : List Pubkey}
  {verifyStored : IsmNode → Walk} {reported : Fault → ProgramError} {threshold : UInt8} {s : VerifyState}

/-- what a node does with its metadata and the accounts, as a sub-ISM; `reported` is what comes of a panic -/
def asSubIsm (reported : Fault → ProgramError) (verifyNode : IsmNode → Walk) (node : IsmNode) (subMeta : List UInt8)
    (s : VerifyState) : Except ProgramError VerifyState :=
  ((verifyNode node subMeta s).map Prod.snd).mapError reported

theorem verifySubs_eq (hreported : ∀ e, reported (.Program e) = e) (subs : List IsmNode) (verified : ℕ) :
    ((verifySubs rt ism message instructionAccounts verifyStored subs metadata i verified s).map Prod.snd).mapError reported =
      verifySubIsms metadata
        (subs.map (asSubIsm reported (verifyArms rt ism message instructionAccounts verifyStored))) i verified s := by
  induction subs generalizing i verified s with
  | nil => rw [verifySubs, List.map_nil, verifySubIsms]; rfl
  | cons sub subs ih =>
    rw [verifySubs, List.map_cons, verifySubIsms]
    cases subMetadataAt metadata i with
    | error e => exact congrArg _ (hreported e.into)
    | ok found => cases found with
      | none =>
        dsimp only
        rw [← ih verified]
        cases verifySubs rt ism message instructionAccounts verifyStored subs metadata (i + 1) verified s <;> rfl
      | some subMeta =>
        dsimp only
        rw [asSubIsm]
        cases verifyArms rt ism message instructionAccounts verifyStored sub subMeta s with
        | error e => rfl
        | ok r =>
          obtain ⟨node, s'⟩ := r
          simp only [Except.map, Except.mapError, ok_bind]
          rw [← ih (verified + 1)]
          cases verifySubs rt ism message instructionAccounts verifyStored subs metadata (i + 1) (verified + 1) s' <;> rfl

/-- **The `Aggregation` arm** of the walk is the aggregation over its nodes. -/
theorem verifyArms_aggregation (hreported : ∀ e, reported (.Program e) = e) (subs : List IsmNode) :
    asSubIsm reported (verifyArms rt ism message instructionAccounts verifyStored) (.Aggregation threshold subs) metadata s =
      verifyAggregation threshold
        (subs.map (asSubIsm reported (verifyArms rt ism message instructionAccounts verifyStored))) metadata s := by
  rw [asSubIsm, verifyArms, verifyAggregation, ← verifySubs_eq hreported]
  cases verifySubs rt ism message instructionAccounts verifyStored subs metadata 0 0 s with
  | error e => rfl
  | ok r =>
    obtain ⟨subs', verified, s'⟩ := r
    simp only [ok_bind]
    by_cases hmet : verified ≠ threshold.toNat
    · rw [if_pos hmet]
      exact (congrArg _ (hreported _)).trans (if_pos hmet).symm
    · rw [if_neg hmet]
      exact (if_neg hmet).symm

/-- an `Aggregation` node of at most 255 sub-ISMs beside the contract, with sub-modules of the same verdicts -/
theorem verifyNode_agrees {depth : ℕ} {subs : List IsmNode} {isms : List (List UInt8 → Option Bool)}
    (hreported : ∀ e, reported (.Program e) = e) (hcount : subs.length ≤ 255)
    (hsame : SameVerdicts metadata
      (subs.map (asSubIsm reported (verifyNode rt ism message instructionAccounts depth))) isms 0 s) :
    (∃ r, verifyNode rt ism message instructionAccounts depth (.Aggregation threshold subs) metadata s = .ok r) ↔
      aggregationVerify isms threshold.toNat metadata = some true := by
  have harms : ∃ verifyStored, verifyNode rt ism message instructionAccounts depth =
      verifyArms rt ism message instructionAccounts verifyStored := by
    cases depth with
    | zero => exact ⟨_, by funext node; rw [verifyNode]⟩
    | succ depth => exact ⟨_, by funext node; rw [verifyNode]⟩
  obtain ⟨verifyStored, harms⟩ := harms
  rw [harms] at hsame ⊢
  rw [← aggregation_agrees (by rw [List.length_map]; exact hcount) hsame, ← verifyArms_aggregation hreported, asSubIsm]
  cases verifyArms rt ism message instructionAccounts verifyStored (.Aggregation threshold subs) metadata s with
  | error e => exact ⟨fun ⟨r, h⟩ => (by cases h), fun ⟨r, h⟩ => by cases h⟩
  | ok r => exact ⟨fun _ => ⟨r.2, rfl⟩, fun _ => ⟨r, rfl⟩⟩

end Node

/-! ## Both formats -/

/-- **The metadata of both sides.** The table of ranges is read alike at every index of the contract, aggregations of at
most 255 sub-modules of the same verdicts accept alike, and so do the multisigs on metadata with no spare signatures; with
spare ones, what the program accepts the contract accepts. -/
theorem formats_agree {C : Crypto} {secp : Secp256k1Recover} (hrecover : RecoversSame C secp) :
    (∀ (metadata : List UInt8), ∀ index ≤ 255, SubMetadataAgrees metadata index) ∧
      (∀ (σ : Type) (threshold : UInt8) (subIsms : List (List UInt8 → σ → Except ProgramError σ))
        (isms : List (List UInt8 → Option Bool)) (metadata : List UInt8) (s : σ), subIsms.length ≤ 255 →
          SameVerdicts metadata subIsms isms 0 s → ((∃ s', verifyAggregation threshold subIsms metadata s = .ok s') ↔
            aggregationVerify isms threshold.toNat metadata = some true)) ∧
      ∀ (validators : List H160) (threshold : UInt8) (metadata : List UInt8) (message : HyperlaneMessage),
        1 ≤ threshold.toNat →
          (multisigVerify C secp validators threshold metadata message = .ok () →
            Relayer.messageIdVerify C validators threshold.toNat metadata message.encode = some true) ∧
          (metadata.length = 68 + 65 * threshold.toNat →
            Relayer.messageIdVerify C validators threshold.toNat metadata message.encode = some true →
              multisigVerify C secp validators threshold metadata message = .ok ()) := by
  refine ⟨fun metadata index _ => subMetadataAt_agrees metadata index, ?_, fun validators threshold metadata message ht => ?_⟩
  · intro σ threshold subIsms isms metadata s hcount hsame
    exact aggregation_agrees hcount hsame
  · exact ⟨multisig_accepted_same hrecover ht, multisig_exact_same hrecover ht⟩

/-- a hash of the first byte -/
def firstByte (bytes : List UInt8) : H256 := Word.filled 32 (bytes.headD 0)

/-- a curve on which a signature is its own public key -/
def selfSigned : Secp256k1Recover := fun _ _ serializedRs => some serializedRs

def selfSignedCrypto : Crypto where
  keccak := firstByte
  recover digest signature := (EcdsaSignature.fromBytes signature.1).toOption.bind fun s =>
    (selfSigned digest s.recoveryId s.serializedRs).map fun publicKey => Relayer.toH160 (firstByte publicKey.1)

/-- `IsmNode::Test`, as a sub-ISM -/
def test (accept : Bool) (_ : List UInt8) (s : Unit) : Except ProgramError Unit :=
  if accept then .ok s else .error Error.VerifyRejected.into

/-- the table of two sub-modules, the first of which has metadata, of no bytes -/
def firstOfTwo : List UInt8 := [0, 0, 0, 16, 0, 0, 0, 16, 0, 0, 0, 0, 0, 0, 0, 0]

/-- the address of the key that starts with a byte, and its signature -/
def signer (b : UInt8) : H160 := Word.filled 20 b

def signedBy (b : UInt8) : List UInt8 := List.replicate 32 b ++ List.replicate 32 0 ++ [27]

/-- metadata with the signatures of the second and the third of three validators -/
def signedByTwo : List UInt8 := List.replicate 68 0 ++ signedBy 2 ++ signedBy 3

theorem formats_agree_firstOfTwo :
    (∃ s', verifyAggregation 1 [test true, test false] firstOfTwo () = .ok s') ∧
      multisigVerify selfSignedCrypto selfSigned [signer 1, signer 2, signer 3] 2 signedByTwo (Relayer.toyMessage 1) =
        .ok () ∧
      Relayer.messageIdVerify selfSignedCrypto [signer 1, signer 2, signer 3] 2 signedByTwo
        (Relayer.toyMessage 1).encode = some true := by
  have hrecover : RecoversSame selfSignedCrypto selfSigned := fun _ _ => rfl
  have hsame : SameVerdicts firstOfTwo [test true, test false] [fun _ => some true, fun _ => some false] 0 () :=
    ⟨rfl, trivial⟩
  obtain ⟨-, haggregation, hmultisig⟩ := formats_agree hrecover
  obtain ⟨haccepted, hexact⟩ := hmultisig [signer 1, signer 2, signer 3] 2 signedByTwo (Relayer.toyMessage 1) (by decide)
  have hprogram := hexact (by decide +kernel) (by decide +kernel)
  exact ⟨(haggregation Unit 1 _ _ firstOfTwo () (by decide) hsame).2 (by decide), hprogram, haccepted hprogram⟩

/-- a table with zeros, whose first sub-module has metadata, of no bytes -/
def firstOfMany (zeros : ℕ) : List UInt8 := [0, 0, 8, 0, 0, 0, 8, 0] ++ List.replicate zeros 0

/-- an entry of zeros is the entry of a sub-module without metadata -/
theorem subMetadataAt_zeros {head : List UInt8} {n i : ℕ} (hafter : head.length ≤ i * 8)
    (hwithin : i * 8 + 8 ≤ head.length + n) : subMetadataAt (head ++ List.replicate n 0) i = .ok none := by
  have hlength : (head ++ List.replicate n (0 : UInt8)).length = head.length + n := by simp
  have hentry : ((head ++ List.replicate n (0 : UInt8)).drop (i * 8)).take 4 = List.replicate 4 0 := by
    rw [List.drop_append, List.drop_eq_nil_of_le hafter, List.nil_append, List.drop_replicate, List.take_replicate]
    congr 1
    omega
  rw [subMetadataAt]
  simp only [ENTRY_SIZE, RANGE_SIZE, Nat.reduceMul, hlength, Nat.add_sub_cancel_left, hentry]
  rw [if_neg (by omega), if_pos (by decide)]

theorem sameVerdicts_accepting (metadata : List UInt8) (n i : ℕ) :
    SameVerdicts metadata (List.replicate n (test true)) (List.replicate n fun _ => some true) i () := by
  induction n generalizing i with
  | zero => trivial
  | succ n ih =>
    rw [List.replicate_succ, List.replicate_succ, SameVerdicts]
    split
    · trivial
    · exact ih (i + 1)
    · exact ⟨rfl, ih (i + 1)⟩

theorem validateConfigs_accepting (programId : Pubkey) (n : ℕ) (routingFound : Bool) :
    validateConfigs programId (List.replicate n (.Test true)) routingFound = .ok routingFound := by
  induction n with
  | zero => rw [List.replicate_zero, validateConfigs]
  | succ n ih =>
    rw [List.replicate_succ, validateConfigs, validateConfigInner]
    exact ih

/-- `validate_config` sets no bound on the number of sub-ISMs -/
theorem validateConfig_accepting (programId : Pubkey) {threshold : UInt8} {n : ℕ} (hpos : threshold ≠ 0)
    (hle : threshold.toNat ≤ n) :
    validateConfig programId (.Aggregation threshold (List.replicate n (.Test true))) = .ok () := by
  have hconfig : ¬ (threshold.toNat > (List.replicate n (IsmNode.Test true)).length ∨ threshold = 0) := by
    rw [List.length_replicate]
    rintro (hgt | hzero)
    · omega
    · exact hpos hzero
  have hlast : anyContainsFallbackRouting (List.replicate n (IsmNode.Test true)).dropLast = false := by
    refine anyContainsFallbackRouting_eq_false.2 fun sub hsub => ?_
    rw [List.eq_of_mem_replicate (List.mem_of_mem_dropLast hsub), containsFallbackRouting]
  rw [validateConfig, validateConfigInner, if_neg hconfig, hlast, if_neg Bool.false_ne_true, validateConfigs_accepting]
  rfl

/-- the program verifies the first of `n + 1` accepting sub-ISMs -/
theorem verifyAggregation_firstOfMany {n zeros : ℕ} (hzeros : 2040 ≤ zeros) (hn : n * 8 ≤ zeros) :
    verifyAggregation 1 (List.replicate (n + 1) (test true)) (firstOfMany zeros) () = .ok () := by
  have hfirst : subMetadataAt (firstOfMany zeros) 0 = .ok (some []) := by
    simp [subMetadataAt, firstOfMany, ENTRY_SIZE, RANGE_SIZE, ofBe]
    rw [if_neg (by omega), if_neg (by omega)]
  have hrest : verifySubIsms (firstOfMany zeros) (List.replicate n (test true)) 1 1 () = .ok (1, ()) := by
    refine verifySubIsms_absent fun j hj hlt => subMetadataAt_zeros ?_ ?_
    · rw [List.length_cons]
      simp
      omega
    · rw [List.length_replicate] at hlt
      simp
      omega
  rw [List.replicate_succ, verifyAggregation, verifySubIsms, hfirst]
  simp only [test, ↓reduceIte, Nat.zero_add, hrest]
  rfl

/-- the program takes a config of 256 accepting sub-ISMs, and verifies it; the contract's index overflows -/
theorem many_subModules_differ :
    validateConfig ⟨List.replicate 32 1, rfl⟩ (.Aggregation 1 (List.replicate 256 (.Test true))) = .ok () ∧
      ¬ ∀ (threshold : UInt8) (subIsms : List (List UInt8 → Unit → Except ProgramError Unit))
        (isms : List (List UInt8 → Option Bool)) (metadata : List UInt8), SameVerdicts metadata subIsms isms 0 () →
          ((∃ s', verifyAggregation threshold subIsms metadata () = .ok s') ↔
            aggregationVerify isms threshold.toNat metadata = some true) := by
  refine ⟨validateConfig_accepting _ (by decide) (by decide), fun h => ?_⟩
  have hiff := fun n => h 1 _ _ _ (sameVerdicts_accepting (firstOfMany 2040) n 0)
  have hcontract := (hiff 256).1 ⟨(), verifyAggregation_firstOfMany le_rfl (by decide)⟩
  rw [aggregationVerify_many (by rw [List.length_replicate]; decide)] at hcontract
  cases hcontract

end Hyperlane.Composite
