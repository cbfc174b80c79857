/-
When the metadata specification of the composite ISM is exact (rust/sealevel/programs/ism/composite-ism). The walk calls a
fallback that the message comes to. A call that fails takes the whole simulation with it, although an aggregation could do
without that member; and a fallback of the type `Unused` is taken to accept the empty metadata, whatever its `Verify` does.

- `besideTest_dependable`: next to a member that accepts everything, both make the specification wrong.
- `metadata_spec_exact`: the program.
-/
import Hyperlane.Composite.MetadataSpecExact

namespace Hyperlane.Composite

open Hyperlane.Bytes Hyperlane.Outcome Hyperlane.Sealevel Hyperlane.Passes
open Hyperlane.Relayer (H160 H256 HyperlaneMessage)

/-! ## A fallback next to a member that accepts everything -/

/-- an aggregation of a member that accepts everything and of a fallback, of which one is enough -/
def besideTest (fallbackIsm : Pubkey) : IsmNode := .Aggregation 1 [.Test true, .FallbackRouting fallbackIsm]

/-- metadata with an empty entry for the first of two members only -/
def firstEntry : List UInt8 := [0, 0, 0, 16, 0, 0, 0, 16, 0, 0, 0, 0, 0, 0, 0, 0]

/-- metadata with an empty entry for the second of two members only -/
def secondEntry : List UInt8 := [0, 0, 0, 0, 0, 0, 0, 0, 0, 0, 0, 16, 0, 0, 0, 16]

section BesideTest

variable {rt : Runtime} {ism : CompositeIsm} {chain : Chain} {message : HyperlaneMessage} {missing : ProgramError → Prop}
  {keys : List Pubkey} {spec : SpecWalk} {f : Pubkey}

/-- the member that accepts everything is enough -/
theorem verifyArms_firstEntry (verifyStored : IsmNode → Walk) (s : VerifyState) :
    verifyArms rt ism message keys verifyStored (besideTest f) firstEntry s = .ok (besideTest f, s) := by
  have hfirst : subMetadataAt firstEntry 0 = .ok (some []) := rfl
  have hsecond : subMetadataAt firstEntry (0 + 1) = .ok none := rfl
  rw [besideTest, verifyArms, verifySubs, hfirst]
  simp only [verifySubs, hsecond]
  rfl

/-- with an entry for the fallback only, the fallback accepts it -/
theorem verifyArms_secondEntry (hnone : storedDomainIsm ism chain (.newReadonly (domainPda rt ism message) false) = .ok none)
    {verifyStored : IsmNode → Walk} {s : VerifyState} {r : IsmNode × VerifyState} (hchain : s.chain = chain)
    (h : verifyArms rt ism message keys verifyStored (besideTest f) secondEntry s = .ok r) :
    ∃ accounts chain', (rt.programs f).verify chain accounts [] message = .ok chain' := by
  have hfirst : subMetadataAt secondEntry 0 = .ok none := rfl
  have hsecond : subMetadataAt secondEntry (0 + 1) = .ok (some []) := rfl
  rw [besideTest, verifyArms] at h
  obtain ⟨r', hsubs, -⟩ := bind_eq_ok.1 h
  rw [verifySubs, hfirst] at hsubs
  obtain ⟨rest, hrest, -⟩ := map_eq_ok.1 hsubs
  rw [verifySubs, hsecond] at hrest
  obtain ⟨routed, hrouted, -⟩ := bind_eq_ok.1 hrest
  rw [verifyArms] at hrouted
  obtain ⟨taken, htake, hrouted⟩ := bind_eq_ok.1 hrouted
  obtain ⟨tried, htry, hrouted⟩ := bind_eq_ok.1 hrouted
  obtain ⟨hkey, hsame⟩ := takeDomainPda_ok htake
  rcases tryVerify_ok htry with ⟨-, rfl⟩ | ⟨node, _, -, hstored, -⟩
  · dsimp only at hrouted
    rw [if_neg Bool.false_ne_true] at hrouted
    obtain ⟨s', hfallback, -⟩ := map_eq_ok.1 hrouted
    obtain ⟨-, accounts, hverify⟩ := verifyFallback_ok hfallback
    rw [hsame, hchain] at hverify
    exact ⟨accounts, _, hverify⟩
  · rw [hsame, hchain, storedDomainIsm_congr (y := .newReadonly (domainPda rt ism message) false) hkey, hnone] at hstored
    cases hstored

/-- without an ISM for the origin, a routing node is its fallback -/
theorem specOverDomain_absent (hreads : DomainReads rt ism chain message)
    (hnone : storedDomainIsm ism chain (.newReadonly (domainPda rt ism message) false) = .ok none)
    (absent : List AccountMeta → Except SpecFault MetadataSpecResult) {domainAcc : AccountMeta}
    (hkey : domainAcc.pubkey = domainPda rt ism message) (tail : List AccountMeta) :
    specOverDomain rt ism chain message spec absent (domainAcc :: tail) = absent tail := by
  rw [specOverDomain, if_pos hkey, loadForSpec]
  cases hload : loadAndValidateDomainIsmStorage rt ism chain message.origin domainAcc with
  | error e => exact absurd hload (hreads _ e hkey)
  | ok loaded =>
    have hstored := (load_stored hload).symm.trans
      ((storedDomainIsm_congr (y := .newReadonly (domainPda rt ism message) false) hkey).trans hnone)
    dsimp only
    rw [ok_bind, specForDomainOverride, Except.ok.inj hstored]
    rfl

/-- the specification of the aggregation, by that of its fallback -/
def beside : Except SpecFault MetadataSpecResult → Except SpecFault MetadataSpecResult
  | .ok ⟨none, accounts⟩ => .ok (requested accounts)
  | .ok ⟨some s, _⟩ => .ok (resolved (.Aggregation 1 [.Null, s]))
  | .error (.Returned e) => if e ∈ skippedErrors then .ok (resolved (.Aggregation 1 [.Null, .CannotVerify])) else specError e
  | .error .Panic => .error .Panic
  | .error (.Aborted e) => .error (.Aborted e)

theorem specArms_besideTest (hreads : DomainReads rt ism chain message)
    (hnone : storedDomainIsm ism chain (.newReadonly (domainPda rt ism message) false) = .ok none) (tail : List AccountMeta) :
    specArms rt ism chain message keys spec (besideTest f) (.newReadonly (domainPda rt ism message) false :: tail) =
      beside (specForFallback rt ism chain message keys f tail) := by
  rw [besideTest, specArms, specSubs, specArms]
  dsimp only [resolved]
  rw [specSubs, specArms, specOverDomain_absent hreads hnone _ rfl]
  cases specForFallback rt ism chain message keys f tail with
  | ok result =>
    obtain ⟨s, accounts⟩ := result
    cases s with
    | none => rfl
    | some s =>
      cases s with
      | _ => rfl
  | error fault =>
    cases fault with
    | Panic => rfl
    | Aborted e => rfl
    | Returned e =>
      by_cases he : e ∈ skippedErrors
      · rw [beside, if_pos he]
        simp only [if_pos he]
        rfl
      · rw [beside, if_neg he]
        simp only [if_neg he]
        rfl

variable (haccepted : SpecAccepted rt ism chain message missing)
  (hnone : storedDomainIsm ism chain (.newReadonly (domainPda rt ism message) false) = .ok none)
  {storage : CompositeIsmStorage} (hload : loadAndVerifyStorage rt ism chain (.newReadonly (vamPda rt ism.programId) false) =
    .ok storage) (hroot : storage.root = some (besideTest f))

/-- the passes of the program reach the accounts `inner` of the fallback -/
def Inner (rt : Runtime) (ism : CompositeIsm) (chain : Chain) (message : HyperlaneMessage) (f : Pubkey)
    (inner : List AccountMeta) : Prop :=
  SpecPass (specStarts rt ism message) (fun accounts => getMetadataSpec rt ism chain accounts message) []
    (.newReadonly (vamPda rt ism.programId) false :: aroundFallback rt ism message f inner)

/-- the keys of the accounts around the fallback's -/
def innerKeys (rt : Runtime) (ism : CompositeIsm) (message : HyperlaneMessage) (f : Pubkey) (inner : List AccountMeta) :
    List Pubkey :=
  (.newReadonly (vamPda rt ism.programId) false :: aroundFallback rt ism message f inner).map AccountMeta.pubkey

theorem mem_innerKeys (inner : List AccountMeta) : f ∈ innerKeys rt ism message f inner := by
  rw [innerKeys, aroundFallback, List.map_cons, List.map_cons, List.map_append]
  exact List.mem_cons_of_mem _ (List.mem_cons_of_mem _ (List.mem_append_right _ (List.mem_singleton_self f)))

include haccepted hnone hload hroot

/-- a pass with accounts of the fallback -/
theorem getMetadataSpec_besideTest (inner : List AccountMeta) :
    getMetadataSpec rt ism chain (.newReadonly (vamPda rt ism.programId) false :: aroundFallback rt ism message f inner)
      message = ((beside (specForFallback rt ism chain message (innerKeys rt ism message f inner) f
        (inner ++ [.newReadonly f false]))).mapError SpecFault.into).map (fromRoot rt ism) := by
  rw [getMetadataSpec_cons hload hroot]
  conv_lhs => rw [aroundFallback]
  rw [specArms_besideTest haccepted.domain.reads hnone]
  rfl

/-- the pass that asks for accounts of the fallback -/
theorem Inner.next {inner : List AccountMeta} {accounts : List Pubkey} (h : Inner rt ism chain message f inner)
    (hasked : specForFallback rt ism chain message (innerKeys rt ism message f inner) f (inner ++ [.newReadonly f false]) =
      .ok (requested (domainPda rt ism message :: accounts ++ [f]))) :
    Inner rt ism chain message f (accounts.map (.newReadonly · false)) := by
  obtain ⟨start, hstart, hreached⟩ := h
  refine ⟨start, hstart, hreached.next ?_⟩
  dsimp only
  rw [List.append_nil, getMetadataSpec_besideTest haccepted hnone hload hroot, hasked]
  rw [aroundFallback, List.cons_append]
  change some (List.map _ (_ :: _ :: (accounts ++ [f]))) = _
  rw [List.map_cons, List.map_cons, List.map_append]
  rfl

/-- the first accounts with which the fallback is called -/
theorem inner_sentinel : Inner rt ism chain message f [.newReadonly (vamPda rt f) false] := by
  refine ⟨[.newReadonly (vamPda rt ism.programId) false, .newReadonly (domainPda rt ism message) false],
    List.mem_cons_of_mem _ (List.mem_singleton_self _), (Reached.start rfl).next ?_⟩
  dsimp only
  rw [List.append_nil, getMetadataSpec_cons hload hroot, specArms_besideTest haccepted.domain.reads hnone]
  rfl

/-- the accounts with which a fallback is asked in its own passes are reached -/
theorem inner_of_asks (hexecutable : (chain f).executable = true) {t : ℕ} (htype : fallbackType rt chain f = .ok t)
    (hmultisig : t ≠ MESSAGE_ID_MULTISIG) (hunused : t ≠ UNUSED) {inner : List AccountMeta}
    (h : Asks rt chain message f [] inner) : Inner rt ism chain message f inner := by
  refine h.keeps (I := Inner rt ism chain message f) (fun a ha => ?_) fun a b ha hb => ?_
  · rw [← Option.some.inj ha]
    exact inner_sentinel haccepted hnone hload hroot
  · rw [askedNext] at hb
    split at hb
    next hhead =>
      obtain ⟨accounts, hpass, rfl⟩ := askedFor_eq_some hb
      refine ha.next haccepted hnone hload hroot ?_
      rw [specForFallback_called hhead (mem_innerKeys a) hexecutable, htype, ok_bind, if_neg hmultisig, if_neg hunused, hpass]
      rfl
    · cases hb

variable (hholds : ∀ x, SpecPass (specStarts rt ism message) (fun accounts => getMetadataSpec rt ism chain accounts message) []
  x → SpecHolds rt ism chain message x)

include hholds

/-- no call fails in a pass: the simulation would be lost, and the other member is enough -/
theorem besideTest_not_aborted {inner : List AccountMeta} (h : Inner rt ism chain message f inner) (e : ProgramError) :
    specForFallback rt ism chain message (innerKeys rt ism message f inner) f (inner ++ [.newReadonly f false]) ≠
      .error (.Aborted e) := by
  intro haborted
  have hopeless : Hopeless IsReturned (getMetadataSpec rt ism chain
      (.newReadonly (vamPda rt ism.programId) false :: aroundFallback rt ism message f inner) message) := by
    rw [getMetadataSpec_besideTest haccepted hnone hload hroot, haborted]
    exact fun h => by cases h
  have haccepts : verifyNode rt ism message [] rt.maxCallDepth (besideTest f) firstEntry ⟨chain, [], false⟩ =
      .ok (besideTest f, ⟨chain, [], false⟩) := by
    rw [verifyNode_eq]
    exact verifyArms_firstEntry _ _
  exact (hholds _ h).rejects hopeless _ storage _ hload hroot firstEntry [] ⟨chain, [], false⟩ _ rfl haccepts

theorem besideTest_executable : (chain f).executable = true := by
  by_contra hcall
  obtain ⟨e, haborted⟩ : ∃ e, specForFallback rt ism chain message (innerKeys rt ism message f
      [.newReadonly (vamPda rt f) false]) f ([.newReadonly (vamPda rt f) false] ++ [.newReadonly f false]) =
        .error (.Aborted e) := specForFallback_uncallable rfl fun h => hcall h.2
  exact besideTest_not_aborted haccepted hnone hload hroot hholds (inner_sentinel haccepted hnone hload hroot) e haborted

/-- one of the type `Unused` accepts the empty metadata -/
theorem besideTest_unused (htype : fallbackType rt chain f = .ok UNUSED) :
    ∃ accounts chain', (rt.programs f).verify chain accounts [] message = .ok chain' := by
  have hsentinel := inner_sentinel haccepted hnone hload hroot
  have hexecutable := besideTest_executable haccepted hnone hload hroot hholds
  have hspec : getMetadataSpec rt ism chain (.newReadonly (vamPda rt ism.programId) false :: aroundFallback rt ism message f
      [.newReadonly (vamPda rt f) false]) message = .ok (resolved (.Aggregation 1 [.Null, .Null])) := by
    rw [getMetadataSpec_besideTest haccepted hnone hload hroot, specForFallback_called rfl (mem_innerKeys _) hexecutable,
      htype, ok_bind, if_neg (by decide), if_pos rfl]
    rfl
  have hbuilt : Built rt message (.Aggregation 1 [.Null, .Null]) secondEntry := by
    rw [Built, BuiltSubs, BuiltSubs, BuiltSubs]
    exact .inl ⟨rfl, .inr ⟨[], 0, rfl, rfl, rfl, rfl⟩⟩
  obtain ⟨⟨accounts, hfound⟩, haccepts⟩ := (hholds _ hsentinel).accepts _ _ secondEntry hspec rfl hbuilt
  obtain ⟨r, hr⟩ := haccepts accounts hfound
  obtain ⟨info, storage', root, rest, s, hload', hroot', hnode⟩ := verify_ok hr
  have hsame : loadAndVerifyStorage rt ism chain info = .ok storage :=
    (loadAndVerifyStorage_congr (haccepted.accepted.key info storage' hload')).trans hload
  obtain rfl := Except.ok.inj (hload'.symm.trans hsame)
  obtain rfl := Option.some.inj (hroot.symm.trans hroot')
  rw [verifyNode_eq] at hnode
  exact verifyArms_secondEntry hnone rfl hnode

/-- **A fallback next to a member that accepts everything** is one with which the walk does not go wrong, if the specification
holds in every pass. -/
theorem besideTest_dependable : Dependable rt chain message f [] := by
  have hsentinel := inner_sentinel haccepted hnone hload hroot
  have hexecutable := besideTest_executable haccepted hnone hload hroot hholds
  have hnot := fun {inner : List AccountMeta} (h : Inner rt ism chain message f inner) =>
    besideTest_not_aborted haccepted hnone hload hroot hholds h
  constructor
  · exact hexecutable
  · intro e htype
    refine hnot hsentinel e ?_
    rw [specForFallback_called rfl (mem_innerKeys _) hexecutable, htype]
    rfl
  · intro htype e hvalidators
    have hcalled : ∀ inner : List AccountMeta, Inner rt ism chain message f inner →
        (inner ++ [AccountMeta.newReadonly f false]).head?.map AccountMeta.pubkey = some (vamPda rt f) →
        (inner ++ [AccountMeta.newReadonly f false])[1]?.map AccountMeta.pubkey ≠ some (domainDataPda rt f message.origin).1 := by
      intro inner h hhead hdata
      refine hnot h e ?_
      rw [specForFallback_called hhead (mem_innerKeys inner) hexecutable, htype, ok_bind, if_pos rfl, if_pos hdata,
        hvalidators]
    have hfirst := hcalled _ hsentinel rfl
    have hasked : specForFallback rt ism chain message (innerKeys rt ism message f [.newReadonly (vamPda rt f) false]) f
        ([.newReadonly (vamPda rt f) false] ++ [.newReadonly f false]) =
          .ok (requested (domainPda rt ism message :: [vamPda rt f, (domainDataPda rt f message.origin).1] ++ [f])) := by
      rw [specForFallback_called rfl (mem_innerKeys _) hexecutable, htype, ok_bind, if_pos rfl, if_neg hfirst]
      rfl
    exact hcalled _ (hsentinel.next haccepted hnone hload hroot hasked) rfl rfl
  · intro t htype hmultisig hunused inner hinner hhead e hpass
    refine hnot (inner_of_asks haccepted hnone hload hroot hexecutable htype hmultisig hunused hinner) e ?_
    rw [specForFallback_called hhead (mem_innerKeys inner) hexecutable, htype, ok_bind, if_neg hmultisig, if_neg hunused, hpass]
    rfl
  · exact besideTest_unused haccepted hnone hload hroot hholds

end BesideTest

/-! ## The program -/

/-- **The metadata specification is exact** in every pass, if no call into a fallback that the message comes to fails, and one of
the type `Unused` accepts the empty metadata; next to a member that accepts everything, it is exact in every pass only if that
holds. Over such fallbacks, a composite ISM can be a fallback itself. -/
theorem metadata_spec_exact {rt : Runtime} {ism : CompositeIsm} {chain : Chain} {message : HyperlaneMessage}
    {missing : ProgramError → Prop} (haccepted : SpecAccepted rt ism chain message missing) :
    (FallbacksDependable rt ism chain message [] → ∀ x,
      SpecPass (specStarts rt ism message) (fun accounts => getMetadataSpec rt ism chain accounts message) [] x →
        SpecHolds rt ism chain message x) ∧
    (∀ info storage f, loadAndVerifyStorage rt ism chain info = .ok storage → storage.root = some (besideTest f) →
      ((∀ x, SpecPass (specStarts rt ism message) (fun accounts => getMetadataSpec rt ism chain accounts message) [] x →
        SpecHolds rt ism chain message x) ↔ FallbacksDependable rt ism chain message [])) ∧
    ((∀ programs, FallbacksDependable rt ism chain message programs) →
      SpecExact rt chain message (specStarts rt ism message) (fun accounts => getMetadataSpec rt ism chain accounts message)
        IsReturned (compositeVerifier rt ism chain message)) := by
  refine ⟨fun hdependable x hx => specHolds_of_dependable haccepted hdependable hx, fun info storage f hload hroot =>
    ⟨fun hholds info' storage' root hload' hroot' hnone g hreaches => ?_,
      fun hdependable x hx => specHolds_of_dependable haccepted hdependable hx⟩,
    fun hdependable => specExact_of_dependable haccepted hdependable⟩
  have hkey := haccepted.accepted.key info storage hload
  have hsame := (loadAndVerifyStorage_congr ((haccepted.accepted.key info' storage' hload').trans hkey.symm)).symm.trans hload'
  obtain rfl := Except.ok.inj (hload.symm.trans hsame)
  obtain rfl := Option.some.inj (hroot.symm.trans hroot')
  have hg : g = f := List.mem_singleton.1 hreaches.mem
  rw [hg]
  exact besideTest_dependable haccepted hnone ((loadAndVerifyStorage_congr hkey.symm).trans hload) hroot hholds

/-! ## A deployment -/

/-- the test ISM after `SetAccept(false)` -/
def rejectingIsm : Program where
  type _ _ := .ok (.Value UNUSED)
  verify _ accounts _ _ := nextAccountInfo accounts >>= fun _ => .error (.Custom 69420)
  verifyAccountMetas _ _ _ _ := .ok (.Value [.newReadonly testStorageKey false])
  verifyMetadataSpec _ _ _ := .ok (.Value (resolved .Null))
  validatorsAndThreshold _ _ _ := .error .BorshIoError

def rejectingRuntime : Runtime := { testRuntime with programs := fun _ => rejectingIsm }

/-- a decidable look at a specification -/
def isNull : Except Fault MetadataSpecResult → Bool
  | .ok ⟨some .Null, []⟩ => true
  | _ => false

theorem eq_of_isNull {out : Except Fault MetadataSpecResult} (h : isNull out = true) : out = .ok (resolved .Null) := by
  unfold isNull at h
  split at h
  · rfl
  · cases h

/-- the accounts of the last pass for the test ISM -/
def testAsked : List AccountMeta :=
  [.newReadonly storageKey false, .newReadonly domainKey false, .newReadonly sentinelKey false, .newReadonly testIsmId false]

theorem testIsm_type (root : IsmNode) : fallbackType testRuntime (testChain root) testIsmId = .ok UNUSED := rfl

theorem testIsm_spec (root : IsmNode) : FallbackSpec testRuntime (testChain root) testMessage testIsmId := by
  have hkey : vamPda testRuntime testIsmId = sentinelKey := (vamPda_testRuntime testIsmId).trans (if_neg (by decide))
  refine ⟨fun e h => ?_, fun h => ?_, fun t ht _ hunused => ?_, fun _ _ => ⟨fun programs _ => ⟨_, rfl⟩, ?_⟩⟩
  · cases (testIsm_type root).symm.trans h
  · cases (testIsm_type root).symm.trans h
  · exact absurd (Except.ok.inj (ht.symm.trans (testIsm_type root))) hunused
  · intro programs accounts _ hfound
    obtain rfl := Option.some.inj hfound
    have hasked : withSentinel sentinelKey [.newReadonly testStorageKey false] =
        [.newReadonly sentinelKey false, .newReadonly testStorageKey false] := by decide
    rw [hkey, hasked]
    change ∃ chain', (nextAccountInfo (fallbackAccounts testRuntime (testChain root) testIsmId _)).map _ = .ok chain'
    cases hfirst : fallbackAccounts testRuntime (testChain root) testIsmId
      ([.newReadonly sentinelKey false, .newReadonly testStorageKey false] ++ programs) with
    | nil =>
      rw [List.cons_append, fallbackAccounts] at hfirst
      split at hfirst
      · cases hfirst
      · cases hfirst
    | cons first rest => exact ⟨_, rfl⟩

/-- the test ISM accepts the empty metadata -/
theorem testIsm_dependable (root : IsmNode) (programs : List AccountMeta) :
    Dependable testRuntime (testChain root) testMessage testIsmId programs := by
  refine ⟨rfl, fun e h => ?_, fun h => ?_, fun t ht _ hunused => ?_, fun _ => ⟨[.newReadonly testStorageKey false], _, rfl⟩⟩
  · cases (testIsm_type root).symm.trans h
  · cases (testIsm_type root).symm.trans h
  · exact absurd (Except.ok.inj (ht.symm.trans (testIsm_type root))) hunused

theorem domainPda_testRuntime (root : IsmNode) : domainPda testRuntime (testComposite root) testMessage = domainKey := by
  have hdomain : (deriveDomainPda testRuntime ismId testMessage.origin).1 = domainKey := by decide +kernel
  exact hdomain

theorem specAccepted_testComposite {root : IsmNode} (hvalid : validateConfig ismId root = .ok ())
    (hfallback : ∀ f ∈ fallbackIsms root, f = testIsmId) :
    SpecAccepted testRuntime (testComposite root) (testChain root) testMessage (· ∈ accountErrors) := by
  have haccepted := accepted_testComposite hvalid hfallback
  refine ⟨haccepted, ⟨haccepted.domain, fun domainAcc e hkey h => ?_, ?_, fun _ _ h => ?_⟩,
    fun info storage root' h hroot f hf => ?_, fun f accounts metadata chain' h key _ => ?_, ?_, fun bytes data h => ?_⟩
  · rw [domainPda_testRuntime] at hkey
    rw [loadAndValidateDomainIsmStorage, hkey] at h
    cases h
  · rw [domainPda_testRuntime]
    rfl
  · cases h
  · rw [(load_testComposite h).2] at hroot
    obtain rfl := Option.some.inj hroot
    rw [hfallback f hf]
    exact testIsm_spec root
  · obtain ⟨_, -, rfl⟩ := map_eq_ok.1 h
    rfl
  · have hkey : vamPda testRuntime (testComposite root).programId = storageKey := vamPda_testRuntime ismId
    rw [hkey]
    rfl
  · unfold testComposite at h
    dsimp only at h
    split at h
    next hle =>
      obtain rfl := Option.some.inj h
      exact hle
    · cases h

/-- the test ISM as the fallback: it is called with empty metadata, and accepts -/
theorem metadata_spec_exact_fallback :
    let root := IsmNode.FallbackRouting testIsmId
    let spec := fun accounts => getMetadataSpec testRuntime (testComposite root) (testChain root) accounts testMessage
    let pass := fun accounts => verifyAccountMetas testRuntime (testComposite root) (testChain root) accounts [] testMessage
    spec testAsked = .ok (resolved .Null) ∧ (∃ accounts, pass accounts = .ok accounts) ∧ ∀ accounts,
      pass accounts = .ok accounts → ∃ r, verify testRuntime (testComposite root) (testChain root) accounts [] testMessage =
        .ok r := by
  intro root spec pass
  have haccepted : SpecAccepted testRuntime (testComposite root) (testChain root) testMessage (· ∈ accountErrors) :=
    specAccepted_testComposite (by decide) fun f hf => List.mem_singleton.1 hf
  have hspec : spec testAsked = .ok (resolved .Null) := eq_of_isNull (by decide +kernel)
  have hpass : SpecPass (specStarts testRuntime (testComposite root) testMessage) spec [] testAsked := by
    refine ⟨[.newReadonly storageKey false], by decide +kernel, 2, ?_⟩
    decide +kernel
  have hdependable : FallbacksDependable testRuntime (testComposite root) (testChain root) testMessage [] := by
    intro info storage root' hload hroot hnone f hreaches
    rw [(load_testComposite hload).2] at hroot
    obtain rfl := Option.some.inj hroot
    rw [List.mem_singleton.1 hreaches.mem]
    exact testIsm_dependable root []
  exact ⟨hspec, ((metadata_spec_exact haccepted).1 hdependable testAsked hpass).accepts _ _ [] hspec rfl rfl⟩

/-- A test ISM that rejects: its specification is `Null`, and no accounts make `Verify` accept the empty metadata -/
theorem null_spec_rejected :
    let root := IsmNode.FallbackRouting testIsmId
    let spec := fun accounts => getMetadataSpec rejectingRuntime (testComposite root) (testChain root) accounts testMessage
    validateConfig ismId root = .ok () ∧
      SpecPass (specStarts rejectingRuntime (testComposite root) testMessage) spec [] testAsked ∧
      spec testAsked = .ok (resolved .Null) ∧ Built rejectingRuntime testMessage .Null [] ∧
      ∀ accounts r, verify rejectingRuntime (testComposite root) (testChain root) accounts [] testMessage ≠ .ok r := by
  intro root spec
  refine ⟨by decide, ⟨[.newReadonly storageKey false], by decide +kernel, 2, by decide +kernel⟩,
    eq_of_isNull (by decide +kernel), rfl, fun accounts r hok => ?_⟩
  obtain ⟨info, storage, root', rest, s, hload, hroot, hnode⟩ := verify_ok hok
  have hload : loadAndVerifyStorage testRuntime (testComposite root) (testChain root) info = .ok storage := hload
  rw [(load_testComposite hload).2] at hroot
  obtain rfl := Option.some.inj hroot
  rw [verifyNode_eq, verifyArms] at hnode
  obtain ⟨r', htake, hnode⟩ := bind_eq_ok.1 hnode
  obtain ⟨r'', htry, hnode⟩ := bind_eq_ok.1 hnode
  obtain ⟨hdomain, hchain⟩ := takeDomainPda_ok htake
  have hkey : r'.1.pubkey = domainKey := hdomain.trans (domainPda_testRuntime root)
  rcases tryVerify_ok htry with ⟨-, rfl⟩ | ⟨node, _, -, hstored, -⟩
  · dsimp only at hnode
    rw [if_neg Bool.false_ne_true] at hnode
    obtain ⟨s', hfallback, -⟩ := map_eq_ok.1 hnode
    obtain ⟨-, accounts', hverify⟩ := verifyFallback_ok hfallback
    obtain ⟨_, -, hrejected⟩ := bind_eq_ok.1 hverify
    cases hrejected
  · rw [storedDomainIsm, hchain, hkey] at hstored
    cases hstored

/-- the multisig ISM, without validators for the message's origin: the domain data PDA is not its own account -/
def unwiredIsm : Program where
  type _ _ := .ok (.Value MESSAGE_ID_MULTISIG)
  verify _ _ _ _ := .error (.Custom 3)
  verifyAccountMetas _ _ _ _ := .ok (.Value [.newReadonly domainKey false])
  verifyMetadataSpec _ _ _ := .error (.Custom 3)
  validatorsAndThreshold _ _ _ := .error (.Custom 3)

def unwiredRuntime : Runtime := { testRuntime with programs := fun _ => unwiredIsm }

/-- the accounts of the last pass for the multisig ISM -/
def unwiredAsked : List AccountMeta :=
  [.newReadonly storageKey false, .newReadonly domainKey false, .newReadonly sentinelKey false, .newReadonly domainKey false,
    .newReadonly testIsmId false]

/-- a decidable look at a failed call -/
def isFailedCall : Except Fault MetadataSpecResult → Bool
  | .error (.Program (.Callee e)) => e = .Custom 3
  | _ => false

theorem eq_of_isFailedCall {out : Except Fault MetadataSpecResult} (h : isFailedCall out = true) :
    out = .error (.Program (.Callee (.Custom 3))) := by
  unfold isFailedCall at h
  split at h
  · rw [of_decide_eq_true h]
  · cases h

/-- A fallback without validators, next to a member that accepts everything: the simulation of the pass fails, and `Verify`
accepts metadata with an entry for the other member. -/
theorem failed_call_lost :
    let root := besideTest testIsmId
    let spec := fun accounts => getMetadataSpec unwiredRuntime (testComposite root) (testChain root) accounts testMessage
    validateConfig ismId root = .ok () ∧
      SpecPass (specStarts unwiredRuntime (testComposite root) testMessage) spec [] unwiredAsked ∧
      spec unwiredAsked = .error (.Program (.Callee (.Custom 3))) ∧
      ∃ r, verify unwiredRuntime (testComposite root) (testChain root) [.newReadonly storageKey false] firstEntry testMessage =
        .ok r := by
  intro root spec
  refine ⟨by decide, ⟨[.newReadonly storageKey false], by decide +kernel, 3, by decide +kernel⟩,
    eq_of_isFailedCall (by decide +kernel), ?_⟩
  have hload : loadAndVerifyStorage unwiredRuntime (testComposite root) (testChain root) (.newReadonly storageKey false) =
      .ok (testStorage root) := load_storageKey root rfl
  rw [verify, nextAccountInfo, lift_ok, ok_bind]
  dsimp only
  rw [hload, lift_ok, ok_bind]
  dsimp only [testStorage]
  rw [verifyNode_eq, verifyArms_firstEntry]
  exact ⟨_, rfl⟩

/-- **The specification does not hold** over a fallback of the type `Unused` that rejects, nor over one into which a call fails. -/
theorem metadata_spec_fails :
    let spec := fun rt root accounts => getMetadataSpec rt (testComposite root) (testChain root) accounts testMessage
    let fallback := IsmNode.FallbackRouting testIsmId
    let beside := besideTest testIsmId
    (validateConfig ismId fallback = .ok () ∧
      SpecPass (specStarts rejectingRuntime (testComposite fallback) testMessage) (spec rejectingRuntime fallback) [] testAsked ∧
      ¬SpecHolds rejectingRuntime (testComposite fallback) (testChain fallback) testMessage testAsked) ∧
    validateConfig ismId beside = .ok () ∧
      SpecPass (specStarts unwiredRuntime (testComposite beside) testMessage) (spec unwiredRuntime beside) [] unwiredAsked ∧
      ¬SpecHolds unwiredRuntime (testComposite beside) (testChain beside) testMessage unwiredAsked := by
  intro spec fallback beside
  obtain ⟨hvalid, hpass, hnull, hbuilt, hrejects⟩ := null_spec_rejected
  obtain ⟨hvalid', hpass', hfailed, r, haccepts⟩ := failed_call_lost
  refine ⟨⟨hvalid, hpass, fun hholds => ?_⟩, hvalid', hpass', fun hholds => ?_⟩
  · obtain ⟨⟨accounts, hfound⟩, hverifies⟩ := hholds.accepts _ _ [] hnull rfl hbuilt
    obtain ⟨r, hr⟩ := hverifies accounts hfound
    exact hrejects accounts r hr
  · have hfailed : spec unwiredRuntime beside unwiredAsked = .error (.Program (.Callee (.Custom 3))) := hfailed
    have hopeless : Hopeless IsReturned (spec unwiredRuntime beside unwiredAsked) := by
      rw [hfailed]
      exact fun h => by cases h
    obtain ⟨info, storage, root, rest, s, hload, hroot, hnode⟩ := verify_ok haccepts
    exact hholds.rejects hopeless info storage root hload hroot _ _ ⟨_, rest, false⟩ s rfl hnode

end Hyperlane.Composite
