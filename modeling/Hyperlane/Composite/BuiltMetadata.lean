/-
Metadata that is built as the specification of the composite ISM says, and why `verify_node` accepts it: the walk over the
tree with the accounts that are discovered for such metadata passes every check.

- `Built`: the metadata for a specification.
- `verifyMultisig_of_quorum`, `verifyRateLimited_of_spec`: the leaves with checks.
- `required_found`, `verifyArms_accepts`: there are accounts for it, and the walk accepts with them.
-/
import Hyperlane.Composite.DiscoveryPasses
import Hyperlane.Composite.MetadataSpec

namespace Hyperlane.Composite

open Hyperlane.Bytes Hyperlane.Outcome Hyperlane.Sealevel
open Hyperlane.Relayer (H160 H256 HyperlaneMessage)

/-! ## Built metadata -/

/-- signatures of `threshold` validators, in the order of the validators; more may follow -/
def Quorum (rt : Runtime) (message : HyperlaneMessage) (validators : List H160) (threshold : UInt8) (metadata : List UInt8) :
    Prop :=
  ∃ (m : MultisigIsmMessageIdMetadata) (positions : List ℕ), MultisigIsmMessageIdMetadata.tryFrom metadata = .ok m ∧
    threshold.toNat ≤ m.validatorSignatures.length ∧ positions.Pairwise (· < ·) ∧
    List.Forall₂ (fun p s => ∃ signer, s.recoverAddress rt.crypto rt.secp256k1Recover
        ((m.checkpoint rt.crypto message).ethSignedMessageHash rt.crypto) = some signer ∧ validators[p]? = some signer)
      positions (m.validatorSignatures.take threshold.toNat)

section Built

variable (rt : Runtime) (message : HyperlaneMessage)

mutual

/-- metadata that is built according to a specification -/
def Built : MetadataSpec → List UInt8 → Prop
  | .Null, metadata => metadata = []
  | .MultisigMessageId validators threshold, metadata => Quorum rt message validators threshold metadata
  | .Aggregation threshold subSpecs, metadata => BuiltSubs subSpecs metadata 0 threshold.toNat
  | .TrustedRelayer _, metadata => metadata = []
  | .CannotVerify, _ => False

/-- the table from the member `i` on has entries for `count` members, and what they hold is built -/
def BuiltSubs : List MetadataSpec → List UInt8 → ℕ → ℕ → Prop
  | [], _, _, count => count = 0
  | spec :: subSpecs, metadata, i, count =>
    (subMetadataAt metadata i = .ok none ∧ BuiltSubs subSpecs metadata (i + 1) count) ∨
      ∃ subMeta rest, subMetadataAt metadata i = .ok (some subMeta) ∧ count = rest + 1 ∧ Built spec subMeta ∧
        BuiltSubs subSpecs metadata (i + 1) rest

end

end Built

/-- the accounts that are discovered for the metadata of a message, and `Verify` with accounts -/
structure Verifier (ε : Type) where
  programId : Pubkey
  discovery : List UInt8 → List AccountMeta → Option (List AccountMeta)
  verify : List UInt8 → List AccountMeta → Except ε Chain

/-- metadata is accepted: there are accounts that the discovery settles on, and `Verify` accepts with such accounts. Both hold
with accounts of programs after the discovered ones. -/
structure Verifier.Accepts {ε : Type} (v : Verifier ε) (rt : Runtime) (chain : Chain) (metadata : List UInt8) : Prop where
  found : ∀ programs, Programs chain programs → ∃ accounts, v.discovery metadata (accounts ++ programs) = some accounts
  accepts : ∀ programs accounts, Programs chain programs → v.discovery metadata (accounts ++ programs) = some accounts →
    ∃ chain', v.verify metadata (fallbackAccounts rt chain v.programId (accounts ++ programs)) = .ok chain'

/-- no metadata and no accounts are accepted -/
def Verifier.Rejects {ε : Type} (v : Verifier ε) : Prop := ∀ metadata accounts chain', v.verify metadata accounts ≠ .ok chain'

/-- a fallback as its caller uses it -/
def fallbackVerifier (rt : Runtime) (chain : Chain) (message : HyperlaneMessage) (fallbackIsm : Pubkey) :
    Verifier ProgramError where
  programId := fallbackIsm
  discovery metadata accounts := discoveryPass (vamPda rt fallbackIsm)
    ((rt.programs fallbackIsm).verifyAccountMetas chain accounts metadata message)
  verify metadata accounts := (rt.programs fallbackIsm).verify chain accounts metadata message

/-! ## The leaves -/

section Accepts

variable {rt : Runtime} {ism : CompositeIsm} {chain : Chain} {message : HyperlaneMessage} {missing : ProgramError → Prop}
  {keys : List Pubkey} {spec : SpecWalk} {required : List Pubkey → Required} {verifyStored : List Pubkey → IsmNode → Walk}

theorem verifySignatures_of_positions {digest : H256} {validators : List H160} {positions : List ℕ}
    {signatures : List EcdsaSignature} (hlt : positions.Pairwise (· < ·))
    (hsigned : List.Forall₂ (fun p s => ∃ signer, s.recoverAddress rt.crypto rt.secp256k1Recover digest = some signer ∧
      validators[p]? = some signer) positions signatures) {start : ℕ} (hstart : ∀ p ∈ positions, start ≤ p) :
    verifySignatures rt.crypto rt.secp256k1Recover digest validators signatures start = .ok () := by
  induction hsigned generalizing start with
  | nil => rfl
  | @cons p s positions signatures hd _ ih =>
    obtain ⟨signer, hrecover, hp⟩ := hd
    have hseek := GreedyMatch.seek_le (hstart p List.mem_cons_self) hp
    rw [verifySignatures, hrecover]
    dsimp only
    rw [if_pos (hseek.trans_lt (List.getElem?_eq_some_iff.1 hp).1)]
    apply ih (List.pairwise_cons.1 hlt).2
    intro q hq
    exact Nat.succ_le_of_lt (hseek.trans_lt ((List.pairwise_cons.1 hlt).1 q hq))

/-- a quorum is accepted -/
theorem verifyMultisig_of_quorum {validators : List H160} {threshold : UInt8} {metadata : List UInt8}
    (h : Quorum rt message validators threshold metadata) :
    verifyMultisig rt message validators threshold metadata = .ok () := by
  obtain ⟨m, positions, hm, hcount, hlt, hsigned⟩ := h
  have hverify := verifySignatures_of_positions hlt hsigned fun p _ => Nat.zero_le p
  rw [verifyMultisig, hm]
  dsimp only
  rw [if_neg (Nat.not_lt.2 hcount), MultisigIsm.verify, if_neg (Nat.not_lt.2 hcount), hverify]

theorem rateLimitedSpec_cases {clock : Option ℤ} {maxCapacity filledLevel : UInt64} {recipient : Option H256}
    {lastUpdated : ℤ} : Ends (fun _ => True) (fun s => s = .Null ∨ s = .CannotVerify)
      (rateLimitedSpec clock message maxCapacity recipient filledLevel lastUpdated) := by
  rw [rateLimitedSpec]
  split
  · exact .inr rfl
  · split
    · exact .inr rfl
    · split
      · exact .inr rfl
      · dsimp only
        split
        · exact .inr rfl
        · split
          · trivial
          · split
            · exact .inr rfl
            · exact .inl rfl

/-- a rate limit that the specification lets pass accepts, with its process authority -/
theorem verifyRateLimited_of_spec {n : RateLimitedNode} {f : Filled} {clock : Option ℤ} {rest : List AccountMeta}
    (h : rateLimitedSpec clock message n.maxCapacity n.recipient f.filledLevel f.lastUpdated = .ok .Null) :
    ∃ r, verifyRateLimited rt ism.programId n f message
      (.newReadonly (deriveProcessAuthority rt n.mailbox ism.programId).1 true :: rest) clock = .ok r := by
  obtain ⟨hrecipient, amount, now, adjusted, hamount, rfl, hadjusted, hwithin⟩ := rateLimitedSpec_null_iff.1 h
  have hcheck : checkProcess rt ism.programId n message
      (.newReadonly (deriveProcessAuthority rt n.mailbox ism.programId).1 true :: rest) = .ok rest := by
    rw [checkProcess, hrecipient, if_neg Bool.false_ne_true, nextAccountInfo]
    dsimp only [AccountMeta.newReadonly]
    rw [if_neg (not_not.2 rfl), if_neg (Bool.false_ne_true ∘ Eq.symm)]
  rw [verifyRateLimited, hcheck, ok_bind, hamount, ok_bind, clockGet, ok_bind, hadjusted, ok_bind, if_neg hwithin]
  split
  · exact ⟨_, rfl⟩
  · rw [subU64, if_pos (UInt64.not_lt.1 hwithin)]
    exact ⟨_, rfl⟩

/-! ## The ISM of a domain -/

/-- what the specification says of the ISM that is stored for the message's origin, for metadata that is built -/
structure StoredAccepts (rt : Runtime) (ism : CompositeIsm) (chain : Chain) (message : HyperlaneMessage) (spec : SpecWalk)
    (required : List Pubkey → Required) (verifyStored : List Pubkey → IsmNode → Walk) : Prop where
  reads : DomainReads rt ism chain message
  /-- the domain PDA is an address for data, which Borsh wrote -/
  data : (chain (domainPda rt ism message)).executable = false
  borsh : Borsh ism.deserializeDomain DomainIsmStorage.serialize
  noRoute : ∀ node, storedDomainIsm ism chain (.newReadonly (domainPda rt ism message) false) = .ok (some node) →
    routes node = false
  accepts : ∀ node, storedDomainIsm ism chain (.newReadonly (domainPda rt ism message) false) = .ok (some node) →
    ∀ x result s metadata, spec node x = .ok result → result.spec = some s → Built rt message s metadata →
      ∃ accounts, (∀ keys x, required keys node metadata x = .ok accounts) ∧
        ∀ instructionAccounts rest st, st.accountsIter = accounts ++ rest →
          ∃ r, verifyStored instructionAccounts node metadata st = .ok r ∧ Frame message node metadata st r

theorem fetchData_of_load {domainAcc : AccountMeta} {storage : DomainIsmStorage}
    (h : loadAndValidateDomainIsmStorage rt ism chain message.origin domainAcc = .ok (some storage)) :
    fetchData ism.deserializeDomain (chain domainAcc.pubkey).data = .ok (some storage) := by
  rw [loadAndValidateDomainIsmStorage] at h
  split at h
  · cases h
  · split at h
    · cases h
    · cases h
    next storage' hfetch =>
      split at h
      · cases h
      · split at h
        · cases h
        · obtain rfl := Option.some.inj (Except.ok.inj h)
          exact hfetch

/-- a domain ISM that accepts, and the write of its new state -/
theorem tryVerify_accepts (hreads : DomainReads rt ism chain message)
    (hdata : (chain (domainPda rt ism message)).executable = false)
    (hborsh : Borsh ism.deserializeDomain DomainIsmStorage.serialize) {domainAcc : AccountMeta} {node : IsmNode}
    {metadata : List UInt8} {s : VerifyState} {verifyStored : IsmNode → Walk} (hchain : s.chain = chain)
    (hkey : domainAcc.pubkey = domainPda rt ism message) (hstored : storedDomainIsm ism chain domainAcc = .ok (some node))
    (hroutes : routes node = false) (hwritable : domainAcc.isWritable = containsRateLimited node)
    (haccepts : ∃ r, verifyStored node metadata { s with didMutate := false } = .ok r ∧
      Frame message node metadata { s with didMutate := false } r) :
    ∃ s', tryVerifyDomainIsm rt ism message verifyStored domainAcc metadata s = .ok (true, s') := by
  obtain ⟨r, hverify, hframe⟩ := haccepts
  rw [tryVerifyDomainIsm, hchain]
  cases hload : loadAndValidateDomainIsmStorage rt ism chain message.origin domainAcc with
  | error e => exact absurd hload (hreads domainAcc e hkey)
  | ok loaded =>
    have hsome := (Except.ok.inj (hstored.symm.trans (load_stored hload))).symm
    cases loaded with
    | none => cases hsome
    | some storage =>
      rw [Option.bind_some] at hsome
      rw [lift_ok, ok_bind]
      dsimp only
      rw [hsome]
      dsimp only
      rw [hwritable, if_neg fun hboth => Bool.false_ne_true (hboth.2.symm.trans hboth.1), ← hchain, hverify, ok_bind]
      split
      next hmutated =>
        have hcontains : containsRateLimited node = true :=
          reachable_imp_contains ((hframe.mutated hmutated).resolve_left Bool.false_ne_true)
        rw [hcontains, if_neg (Bool.false_ne_true ∘ Eq.symm)]
        have hsize : ({ storage with ism := some r.1 } : DomainIsmStorage).serialize.length = storage.serialize.length := by
          simp only [DomainIsmStorage.serialize, hsome, Option.map_some, serializeOption, List.length_cons,
            List.length_append, hframe.size]
        have hwrite : ∃ chain', store r.2.chain domainAcc { storage with ism := some r.1 }.serialize = .ok chain' := by
          rw [hframe.chain hroutes]
          change ∃ chain', store s.chain domainAcc _ = .ok chain'
          rw [hchain, store_ok_iff, hsize, hwritable, hkey]
          refine ⟨hcontains, hdata, ?_⟩
          rw [← hkey]
          exact fetchData_length hborsh (fetchData_of_load hload)
        obtain ⟨chain', hwrite⟩ := hwrite
        rw [hwrite, lift_ok, ok_bind]
        exact ⟨_, rfl⟩
      · exact ⟨_, rfl⟩

/-! ## The tree -/

/-- the walk resolves a node, and the metadata is built for it -/
def Builds (rt : Runtime) (ism : CompositeIsm) (chain : Chain) (message : HyperlaneMessage) (keys : List Pubkey)
    (spec : SpecWalk) (x : List AccountMeta) (node : IsmNode) (metadata : List UInt8) : Prop :=
  ∃ result s, specArms rt ism chain message keys spec node x = .ok result ∧ result.spec = some s ∧ Built rt message s metadata

/-- the same of the sub-ISMs from `i` on, with entries for `count` of them -/
def BuildsSubs (rt : Runtime) (ism : CompositeIsm) (chain : Chain) (message : HyperlaneMessage) (keys : List Pubkey)
    (spec : SpecWalk) (x : List AccountMeta) (subs : List IsmNode) (metadata : List UInt8) (i count : ℕ) : Prop :=
  ∃ subSpecs, specSubs rt ism chain message keys spec subs x = .ok (.Resolved subSpecs) ∧
    BuiltSubs rt message subSpecs metadata i count

section Tree

variable {x : List AccountMeta} {metadata : List UInt8}

theorem Builds.amountRouting {threshold : ℕ} {lower upper : IsmNode}
    (h : Builds rt ism chain message keys spec x (.AmountRouting threshold lower upper) metadata) :
    ∃ amount, parseRoutingAmount message.body = some amount ∧
      (threshold ≤ amount → Builds rt ism chain message keys spec x upper metadata) ∧
      (¬threshold ≤ amount → Builds rt ism chain message keys spec x lower metadata) := by
  obtain ⟨result, s, hspec, hs, hb⟩ := h
  rw [specArms] at hspec
  cases hamount : parseRoutingAmount message.body with
  | none =>
    rw [hamount] at hspec
    cases hspec
  | some amount =>
    rw [hamount] at hspec
    dsimp only at hspec
    refine ⟨amount, rfl, fun hge => ?_, fun hlt => ?_⟩
    · rw [if_pos hge] at hspec
      exact ⟨result, s, hspec, hs, hb⟩
    · rw [if_neg hlt] at hspec
      exact ⟨result, s, hspec, hs, hb⟩

theorem Builds.aggregation {threshold : UInt8} {subIsms : List IsmNode}
    (h : Builds rt ism chain message keys spec x (.Aggregation threshold subIsms) metadata) :
    BuildsSubs rt ism chain message keys spec x subIsms metadata 0 threshold.toNat := by
  obtain ⟨result, s, hspec, hs, hb⟩ := h
  rw [specArms] at hspec
  obtain ⟨subs, hsubs, hspec⟩ := bind_eq_ok.1 hspec
  cases subs with
  | Requested accounts =>
    obtain rfl := Except.ok.inj hspec
    cases hs
  | Resolved subSpecs =>
    dsimp only at hspec
    split at hspec
    · cases hspec
    · obtain rfl := Except.ok.inj hspec
      obtain rfl := Option.some.inj hs
      exact ⟨subSpecs, hsubs, hb⟩

theorem BuildsSubs.nil {i count : ℕ} (h : BuildsSubs rt ism chain message keys spec x [] metadata i count) : count = 0 := by
  obtain ⟨subSpecs, hspecs, hb⟩ := h
  rw [specSubs] at hspecs
  cases hspecs
  exact hb

/-- a member without an entry, or one with metadata that is built for it -/
theorem BuildsSubs.cons {sub : IsmNode} {subs : List IsmNode} {i count : ℕ}
    (h : BuildsSubs rt ism chain message keys spec x (sub :: subs) metadata i count) :
    (subMetadataAt metadata i = .ok none ∧ BuildsSubs rt ism chain message keys spec x subs metadata (i + 1) count) ∨
      ∃ subMeta rest, subMetadataAt metadata i = .ok (some subMeta) ∧ count = rest + 1 ∧
        Builds rt ism chain message keys spec x sub subMeta ∧
        BuildsSubs rt ism chain message keys spec x subs metadata (i + 1) rest := by
  obtain ⟨subSpecs, hspecs, hb⟩ := h
  obtain ⟨first, rest, rfl, hrest, hfirst⟩ := specSubs_resolved hspecs
  rw [BuiltSubs] at hb
  rcases hb with ⟨hat, hb⟩ | ⟨subMeta, n, hat, hcount, hbuilt, hb⟩
  · exact .inl ⟨hat, rest, hrest, hb⟩
  · refine .inr ⟨subMeta, n, hat, hcount, ?_, rest, hrest, hb⟩
    rcases hfirst with ⟨result, hsub, hresult⟩ | ⟨e, -, rfl⟩
    · exact ⟨result, first, hsub, hresult, hbuilt⟩
    · cases hbuilt

/-- what a routing node resolves to -/
theorem domainSpec_resolved {absent : List AccountMeta → Except SpecFault MetadataSpecResult}
    {out : Except SpecFault MetadataSpecResult} (hout : DomainSpec rt ism chain message spec absent x out)
    {result : MetadataSpecResult} {s : MetadataSpec} (h : out = .ok result) (hs : result.spec = some s) :
    (∃ node, storedDomainIsm ism chain (.newReadonly (domainPda rt ism message) false) = .ok (some node) ∧
      spec node x = .ok result) ∨
    (storedDomainIsm ism chain (.newReadonly (domainPda rt ism message) false) = .ok none ∧
      x.head?.map AccountMeta.pubkey = some (domainPda rt ism message) ∧ absent x.tail = .ok result) := by
  cases hout with
  | asked =>
    obtain rfl := Except.ok.inj h
    cases hs
  | unreadable domainAcc e hkey hload => cases h
  | absent hhead hnone => exact .inr ⟨hnone, hhead, h⟩
  | present node hnode => exact .inl ⟨node, hnode, h⟩

/-- the accounts that are required with a domain ISM -/
theorem requiredForDomain_present {required : Required} {domainAcc : AccountMeta} {node : IsmNode}
    {accounts y : List AccountMeta} (hkey : domainAcc.pubkey = domainPda rt ism message)
    (hstored : storedDomainIsm ism chain (.newReadonly (domainPda rt ism message) false) = .ok (some node))
    (hrequired : required node metadata y = .ok accounts) :
    requiredForDomain rt ism chain message required domainAcc metadata y =
      .ok (some (⟨domainPda rt ism message, false, containsRateLimited node⟩ :: accounts)) := by
  rw [requiredForDomain, storedDomainIsm_congr (y := .newReadonly (domainPda rt ism message) false) hkey, hstored, ok_bind]
  dsimp only
  rw [hrequired, ok_bind]
  cases containsRateLimited node with
  | true => rfl
  | false => rfl

theorem requiredForDomain_absent {required : Required} {domainAcc : AccountMeta} {y : List AccountMeta}
    (hkey : domainAcc.pubkey = domainPda rt ism message)
    (hstored : storedDomainIsm ism chain (.newReadonly (domainPda rt ism message) false) = .ok none) :
    requiredForDomain rt ism chain message required domainAcc metadata y = .ok none := by
  rw [requiredForDomain, storedDomainIsm_congr (y := .newReadonly (domainPda rt ism message) false) hkey, hstored, ok_bind]

/-- what the specification of a fallback promises for an entry that it is handed -/
def LeafAccepts (rt : Runtime) (ism : CompositeIsm) (chain : Chain) (message : HyperlaneMessage) (keys : List Pubkey)
    (x : List AccountMeta) (fallbackIsm : Pubkey) (entry : List UInt8) : Prop :=
  ∀ result s, x.head?.map AccountMeta.pubkey = some (domainPda rt ism message) →
    storedDomainIsm ism chain (.newReadonly (domainPda rt ism message) false) = .ok none →
    specForFallback rt ism chain message keys fallbackIsm x.tail = .ok result → result.spec = some s →
      Built rt message s entry →
        (chain fallbackIsm).executable = true ∧ (fallbackVerifier rt chain message fallbackIsm).Accepts rt chain entry

/-- the fallbacks' part in the acceptance of metadata -/
def LeavesAccept (rt : Runtime) (ism : CompositeIsm) (chain : Chain) (message : HyperlaneMessage) (keys : List Pubkey)
    (x : List AccountMeta) (node : IsmNode) (metadata : List UInt8) : Prop :=
  ∀ f entry, Hands message node metadata f entry → LeafAccepts rt ism chain message keys x f entry

/-- the same of the sub-ISMs from `i` on -/
def LeavesAcceptSubs (rt : Runtime) (ism : CompositeIsm) (chain : Chain) (message : HyperlaneMessage) (keys : List Pubkey)
    (x : List AccountMeta) (subs : List IsmNode) (metadata : List UInt8) (i : ℕ) : Prop :=
  ∀ j sub subMeta, subs[j]? = some sub → subMetadataAt metadata (i + j) = .ok (some subMeta) →
    LeavesAccept rt ism chain message keys x sub subMeta

theorem LeavesAccept.subs {threshold : UInt8} {subs : List IsmNode}
    (h : LeavesAccept rt ism chain message keys x (.Aggregation threshold subs) metadata) :
    LeavesAcceptSubs rt ism chain message keys x subs metadata 0 := by
  intro j sub subMeta hsub hat f entry hands
  rw [Nat.zero_add] at hat
  exact h f entry (.member hsub hat hands)

theorem LeavesAcceptSubs.head {sub : IsmNode} {subs : List IsmNode} {i : ℕ} {subMeta : List UInt8}
    (h : LeavesAcceptSubs rt ism chain message keys x (sub :: subs) metadata i)
    (hat : subMetadataAt metadata i = .ok (some subMeta)) : LeavesAccept rt ism chain message keys x sub subMeta :=
  h 0 sub subMeta rfl hat

theorem LeavesAcceptSubs.tail {sub : IsmNode} {subs : List IsmNode} {i : ℕ}
    (h : LeavesAcceptSubs rt ism chain message keys x (sub :: subs) metadata i) :
    LeavesAcceptSubs rt ism chain message keys x subs metadata (i + 1) := by
  intro j sub' subMeta hsub hat
  rw [Nat.add_assoc, Nat.add_comm 1] at hat
  exact h (j + 1) sub' subMeta hsub hat

variable (hstored : StoredAccepts rt ism chain message spec required verifyStored)

theorem requiredSubs_found {subs : List IsmNode} (hsubs : ∀ sub ∈ subs, WellRouted sub →
      ∀ metadata, LeavesAccept rt ism chain message keys x sub metadata → ∀ programs,
      Builds rt ism chain message keys spec x sub metadata → (containsFallbackRouting sub = true → Programs chain programs) →
      ∃ accounts, ∀ keysOf, (∀ m ∈ accounts, m.pubkey ∈ keysOf) →
        requiredArms rt ism chain message keysOf (required keysOf) sub metadata (accounts ++ programs) = .ok accounts)
    (hw : AllWellRouted subs) {i count : ℕ} (hleaf : LeavesAcceptSubs rt ism chain message keys x subs metadata i)
    (hb : BuildsSubs rt ism chain message keys spec x subs metadata i count) {programs : List AccountMeta}
    (hprograms : anyContainsFallbackRouting subs = true → Programs chain programs) :
    ∃ accounts, ∀ keysOf, (∀ m ∈ accounts, m.pubkey ∈ keysOf) →
      requiredSubs rt ism chain message keysOf (required keysOf) subs metadata i (accounts ++ programs) = .ok accounts := by
  induction subs generalizing i count with
  | nil => exact ⟨[], fun _ _ => rfl⟩
  | cons sub subs ih =>
    obtain ⟨hwSub, -, hlast, hwSubs⟩ := hw
    have ih := @ih (fun sub hsub => hsubs sub (List.mem_cons_of_mem _ hsub)) hwSubs
    have hprograms' : anyContainsFallbackRouting subs = true → Programs chain programs :=
      fun hf => hprograms (by rw [anyContainsFallbackRouting, hf, Bool.or_true])
    rcases hb.cons with ⟨hat, hb⟩ | ⟨subMeta, rest, hat, -, hbuilds, hb⟩
    · obtain ⟨accounts, haccounts⟩ := ih hleaf.tail hb hprograms'
      refine ⟨accounts, fun keysOf hkeys => ?_⟩
      simp only [requiredSubs, hat]
      exact haccounts keysOf hkeys
    · obtain ⟨tail, htail⟩ := ih hleaf.tail hb hprograms'
      have hsubPrograms : containsFallbackRouting sub = true → Programs chain (tail ++ programs) := by
        intro hf
        -- a fallback is the last member
        obtain rfl := hlast hf
        have hnil := htail (tail.map AccountMeta.pubkey) fun m hm => List.mem_map_of_mem hm
        rw [requiredSubs] at hnil
        rw [← Except.ok.inj hnil, List.nil_append]
        exact hprograms (by rw [anyContainsFallbackRouting, hf, Bool.true_or])
      obtain ⟨head, hhead⟩ := hsubs sub List.mem_cons_self hwSub subMeta (hleaf.head hat) (tail ++ programs) hbuilds
        hsubPrograms
      refine ⟨head ++ tail, fun keysOf hkeys => ?_⟩
      simp only [requiredSubs, hat]
      rw [List.append_assoc, hhead keysOf fun m hm => hkeys m (List.mem_append_left _ hm), ok_bind, List.drop_left,
        htail keysOf fun m hm => hkeys m (List.mem_append_right _ hm), ok_bind]

include hstored

/-- **There are accounts** for metadata that is built: a fixpoint of the discovery. -/
theorem required_found {node : IsmNode} (hw : WellRouted node) (metadata : List UInt8)
    (hleaf : LeavesAccept rt ism chain message keys x node metadata) (programs : List AccountMeta)
    (hb : Builds rt ism chain message keys spec x node metadata)
    (hprograms : containsFallbackRouting node = true → Programs chain programs) :
    ∃ accounts, ∀ keysOf, (∀ m ∈ accounts, m.pubkey ∈ keysOf) →
      requiredArms rt ism chain message keysOf (required keysOf) node metadata (accounts ++ programs) = .ok accounts := by
  induction node generalizing metadata programs with
  | TrustedRelayer relayer => exact ⟨_, fun _ _ => rfl⟩
  | MultisigMessageId validators threshold => exact ⟨_, fun _ _ => rfl⟩
  | Test accept => exact ⟨_, fun _ _ => rfl⟩
  | Pausable paused => exact ⟨_, fun _ _ => rfl⟩
  | RateLimited maxCapacity recipient filledLevel lastUpdated mailbox => exact ⟨_, fun _ _ => rfl⟩
  | Aggregation threshold subIsms ih => exact requiredSubs_found ih hw hleaf.subs hb.aggregation hprograms
  | AmountRouting threshold lower upper ihLower ihUpper =>
    obtain ⟨amount, hamount, hupper, hlower⟩ := hb.amountRouting
    simp only [requiredArms, hamount]
    by_cases hge : threshold ≤ amount
    · simp only [if_pos hge]
      exact ihUpper hw.2 metadata (fun f entry h => hleaf f entry (.upper hamount hge h)) programs (hupper hge)
        fun hf => hprograms (by rw [containsFallbackRouting, hf, Bool.or_true])
    · simp only [if_neg hge]
      exact ihLower hw.1 metadata (fun f entry h => hleaf f entry (.lower hamount hge h)) programs (hlower hge)
        fun hf => hprograms (by rw [containsFallbackRouting, hf, Bool.true_or])
  | Routing =>
    obtain ⟨result, s, hspec, hs, hb⟩ := hb
    rw [specArms] at hspec
    rcases domainSpec_resolved (specOverDomain_spec _ x) hspec hs with ⟨node, hnode, hspec⟩ | ⟨-, -, habsent⟩
    · obtain ⟨accounts, hrequired, -⟩ := hstored.accepts node hnode x result s metadata hspec hs hb
      refine ⟨⟨domainPda rt ism message, false, containsRateLimited node⟩ :: accounts, fun keysOf _ => ?_⟩
      rw [requiredArms, List.cons_append, requiredForRouting_cons rfl,
        requiredForDomain_present rfl hnode (hrequired keysOf _)]
      rfl
    · cases habsent
  | FallbackRouting fallbackIsm =>
    obtain ⟨result, s, hspec, hs, hb⟩ := hb
    rw [specArms] at hspec
    rcases domainSpec_resolved (specOverDomain_spec _ x) hspec hs with ⟨node, hnode, hspec⟩ | ⟨hnone, hhead, habsent⟩
    · obtain ⟨accounts, hrequired, -⟩ := hstored.accepts node hnode x result s metadata hspec hs hb
      refine ⟨⟨domainPda rt ism message, false, containsRateLimited node⟩ :: accounts, fun keysOf _ => ?_⟩
      rw [requiredArms, List.cons_append, requiredForFallbackRouting_cons rfl,
        requiredForDomain_present rfl hnode (hrequired keysOf _), ok_bind, Option.elim_some]
    · obtain ⟨hexecutable, hfallback⟩ := hleaf fallbackIsm metadata (.fallback _ _) result s hhead hnone habsent hs hb
      have hprograms' : Programs chain (.newReadonly fallbackIsm false :: programs) :=
        List.forall_mem_cons.2 ⟨hexecutable, hprograms rfl⟩
      obtain ⟨inner, hinner⟩ := hfallback.found _ hprograms'
      refine ⟨aroundFallback rt ism message fallbackIsm inner, fun keysOf hkeys => ?_⟩
      have hmem : fallbackIsm ∈ keysOf := hkeys (.newReadonly fallbackIsm false)
        (List.mem_cons_of_mem _ (List.mem_append_right _ (List.mem_singleton_self _)))
      rw [requiredArms, aroundFallback, List.cons_append, requiredForFallbackRouting_cons rfl,
        requiredForDomain_absent rfl hnone, ok_bind, Option.elim_none, List.append_assoc, List.singleton_append]
      have hinnerHead : (inner ++ .newReadonly fallbackIsm false :: programs).head?.map AccountMeta.pubkey =
          some (vamPda rt fallbackIsm) := by
        have hfirst := discoveryPass_head hinner
        cases inner with
        | nil => cases hfirst
        | cons first rest => exact hfirst
      exact (requiredForFallback_value hinnerHead).2 ⟨hmem, hexecutable, inner, hinner, rfl⟩

omit hstored in
/-- nothing is stored: the fallback is next -/
theorem tryVerify_none {verifyStored : IsmNode → Walk} (hreads : DomainReads rt ism chain message) {domainAcc : AccountMeta}
    {s : VerifyState} (hchain : s.chain = chain) (hkey : domainAcc.pubkey = domainPda rt ism message)
    (hnone : storedDomainIsm ism chain domainAcc = .ok none) :
    tryVerifyDomainIsm rt ism message verifyStored domainAcc metadata s = .ok (false, s) := by
  rw [tryVerifyDomainIsm, hchain]
  cases hload : loadAndValidateDomainIsmStorage rt ism chain message.origin domainAcc with
  | error e => exact absurd hload (hreads domainAcc e hkey)
  | ok loaded =>
    have hbind := (Except.ok.inj (hnone.symm.trans (load_stored hload))).symm
    rw [lift_ok, ok_bind]
    cases loaded with
    | none => rfl
    | some storage =>
      rw [Option.bind_some] at hbind
      dsimp only
      rw [hbind]

/-- a routing node with a domain ISM that accepts -/
theorem routed_accepts {domainNode : IsmNode} {result : MetadataSpecResult} {s : MetadataSpec}
    (hnode : storedDomainIsm ism chain (.newReadonly (domainPda rt ism message) false) = .ok (some domainNode))
    (hspec : spec domainNode x = .ok result) (hs : result.spec = some s) (hb : Built rt message s metadata)
    {domainAcc : AccountMeta} {tail rest : List AccountMeta} {keysOf : List Pubkey} (instructionAccounts : List Pubkey)
    (st : VerifyState) (hkey : domainAcc.pubkey = domainPda rt ism message)
    (h : requiredForDomain rt ism chain message (required keysOf) domainAcc metadata (domainAcc :: (tail ++ rest)) =
      .ok (some (domainAcc :: tail))) (hiter : st.accountsIter = tail ++ rest) (hchain : st.chain = chain) :
    ∃ s', tryVerifyDomainIsm rt ism message (verifyStored instructionAccounts) domainAcc metadata st = .ok (true, s') := by
  obtain ⟨accounts, hrequired, haccepts⟩ := hstored.accepts domainNode hnode x result s metadata hspec hs hb
  rw [requiredForDomain_present hkey hnode (hrequired keysOf _)] at h
  obtain ⟨hmeta, rfl⟩ := List.cons.inj (Option.some.inj (Except.ok.inj h))
  refine tryVerify_accepts hstored.reads hstored.data hstored.borsh hchain hkey ?_ (hstored.noRoute domainNode hnode)
    (by rw [← hmeta]) (haccepts instructionAccounts rest _ hiter)
  rw [storedDomainIsm_congr (y := .newReadonly (domainPda rt ism message) false) hkey, hnode]

omit hstored in
/-- the fallback, with the accounts of a fixpoint -/
theorem verifyFallback_accepts {fallbackIsm : Pubkey} (hexecutable : (chain fallbackIsm).executable = true)
    (hfallback : (fallbackVerifier rt chain message fallbackIsm).Accepts rt chain metadata)
    {keysOf instructionAccounts : List Pubkey} {first : AccountMeta} {tail rest : List AccountMeta} (st : VerifyState)
    (h : requiredForFallback rt ism chain message keysOf fallbackIsm metadata (tail ++ rest) = .ok (first :: tail))
    (hiter : st.accountsIter = tail ++ rest) (hchain : st.chain = chain) (hprograms : Programs chain rest)
    (hkeys : ∀ m ∈ first :: tail, m.pubkey ∈ instructionAccounts) :
    ∃ s', verifyFallback rt message instructionAccounts fallbackIsm metadata st = .ok s' := by
  by_cases hhead : (tail ++ rest).head?.map AccountMeta.pubkey = some (vamPda rt fallbackIsm)
  · obtain ⟨-, -, inner, hpass, heq⟩ := (requiredForFallback_value hhead).1 h
    obtain ⟨-, rfl⟩ := List.cons.inj heq
    have hmem : fallbackIsm ∈ instructionAccounts := hkeys (.newReadonly fallbackIsm false)
      (List.mem_cons_of_mem _ (List.mem_append_right _ (List.mem_singleton_self _)))
    have hprograms' : Programs chain (.newReadonly fallbackIsm false :: rest) :=
      List.forall_mem_cons.2 ⟨hexecutable, hprograms⟩
    rw [List.append_assoc, List.singleton_append] at hpass hiter
    obtain ⟨chain', hverify⟩ := hfallback.accepts _ inner hprograms' hpass
    dsimp only [fallbackVerifier] at hverify
    rw [verifyFallback, hchain, hiter, Runtime.invoke, if_neg (not_not.2 hmem),
      if_neg (by rw [hexecutable]; exact Bool.false_ne_true ∘ Eq.symm), hverify]
    exact ⟨_, rfl⟩
  · rw [requiredForFallback, if_neg hhead] at h
    obtain ⟨-, rfl⟩ := List.cons.inj (Except.ok.inj h)
    exact absurd rfl hhead

variable (hdomain : DomainsExact rt ism chain message missing required verifyStored)

include hdomain

omit hstored in
theorem verifySubs_accepts {keysOf instructionAccounts : List Pubkey} {subs : List IsmNode}
    (hsubs : ∀ sub ∈ subs, WellRouted sub →
      (∀ f ∈ fallbackIsms sub, FallbackExact rt chain message missing f) → ∀ metadata,
      LeavesAccept rt ism chain message keys x sub metadata →
      Builds rt ism chain message keys spec x sub metadata → ∀ accounts rest st,
      requiredArms rt ism chain message keysOf (required keysOf) sub metadata (accounts ++ rest) = .ok accounts →
      st.accountsIter = accounts ++ rest → (routes sub = true → st.chain = chain) →
      (containsFallbackRouting sub = true → Programs chain rest) →
      (containsFallbackRouting sub = true → ∀ m ∈ accounts, m.pubkey ∈ instructionAccounts) →
      ∃ r, verifyArms rt ism message instructionAccounts (verifyStored instructionAccounts) sub metadata st = .ok r)
    (hw : AllWellRouted subs) (hexact : ∀ f ∈ allFallbackIsms subs, FallbackExact rt chain message missing f)
    {i count verified : ℕ} (hleaf : LeavesAcceptSubs rt ism chain message keys x subs metadata i)
    (hb : BuildsSubs rt ism chain message keys spec x subs metadata i count)
    {accounts rest : List AccountMeta} {st : VerifyState}
    (h : requiredSubs rt ism chain message keysOf (required keysOf) subs metadata i (accounts ++ rest) = .ok accounts)
    (hiter : st.accountsIter = accounts ++ rest) (hchain : anyRoutes subs = true → st.chain = chain)
    (hprograms : anyContainsFallbackRouting subs = true → Programs chain rest)
    (hkeys : anyContainsFallbackRouting subs = true → ∀ m ∈ accounts, m.pubkey ∈ instructionAccounts) :
    ∃ r, verifySubs rt ism message instructionAccounts (verifyStored instructionAccounts) subs metadata i verified st =
      .ok r ∧ r.2.1 = verified + count := by
  induction subs generalizing i count verified accounts st with
  | nil =>
    rw [hb.nil]
    exact ⟨_, rfl, rfl⟩
  | cons sub subs ih =>
    obtain ⟨hwSub, honly, hlast, hwSubs⟩ := hw
    have ih := @ih (fun sub hsub => hsubs sub (List.mem_cons_of_mem _ hsub)) hwSubs
      (fun f hf => hexact f (List.mem_append_right _ hf))
    have hchain' : anyRoutes subs = true → st.chain = chain := fun hr => hchain (by rw [anyRoutes, hr, Bool.or_true])
    have hprograms' : anyContainsFallbackRouting subs = true → Programs chain rest :=
      fun hf => hprograms (by rw [anyContainsFallbackRouting, hf, Bool.or_true])
    have hkeys' : anyContainsFallbackRouting subs = true → ∀ m ∈ accounts, m.pubkey ∈ instructionAccounts :=
      fun hf => hkeys (by rw [anyContainsFallbackRouting, hf, Bool.or_true])
    rw [requiredSubs] at h
    rw [verifySubs]
    rcases hb.cons with ⟨hat, hb⟩ | ⟨subMeta, n, hat, hcount, hbuilds, hb⟩
    · rw [hat] at h ⊢
      obtain ⟨r, hr, hverified⟩ := ih hleaf.tail hb h hiter hchain' hprograms' hkeys'
      dsimp only
      rw [hr]
      exact ⟨_, rfl, hverified⟩
    · rw [hat] at h ⊢
      obtain ⟨subAccounts, hsub, h⟩ := bind_eq_ok.1 h
      obtain ⟨accounts', hrest, h⟩ := bind_eq_ok.1 h
      obtain rfl := Except.ok.inj h
      rw [List.append_assoc] at hsub hiter
      rw [List.append_assoc, List.drop_left] at hrest
      have hsubPrograms : containsFallbackRouting sub = true → Programs chain (accounts' ++ rest) := by
        intro hf
        obtain rfl := hlast hf
        rw [requiredSubs] at hrest
        rw [← Except.ok.inj hrest, List.nil_append]
        exact hprograms (by rw [anyContainsFallbackRouting, hf, Bool.true_or])
      have hchainSub : routes sub = true → st.chain = chain := fun hr => hchain (by rw [anyRoutes, hr, Bool.true_or])
      have hexactSub := fun f hf => hexact f (List.mem_append_left _ hf)
      obtain ⟨r, hr⟩ := hsubs sub List.mem_cons_self hwSub hexactSub subMeta (hleaf.head hat) hbuilds subAccounts
        (accounts' ++ rest) st hsub hiter hchainSub hsubPrograms
        fun hf m hm => hkeys (by rw [anyContainsFallbackRouting, hf, Bool.true_or]) m (List.mem_append_left _ hm)
      have htaken := (verifyArms_exact (hdomain.exact keysOf instructionAccounts) hwSub hexactSub subMeta subAccounts
        (accounts' ++ rest) st hsub hiter hchainSub hsubPrograms).of_ok hr
      have hsubs' : ∃ r', verifySubs rt ism message instructionAccounts (verifyStored instructionAccounts) subs metadata
          (i + 1) (verified + 1) r.2 = .ok r' ∧ r'.2.1 = verified + 1 + n := by
        rcases htaken with htaken | ⟨hf, -⟩
        · exact ih hleaf.tail hb hrest htaken (((verifyArms_frame sub subMeta st).of_ok hr).next honly hchain') hprograms'
            fun hf m hm => hkeys' hf m (List.mem_append_right _ hm)
        · -- the fallback was the last one
          obtain rfl := hlast hf
          rw [hb.nil]
          exact ⟨_, rfl, rfl⟩
      obtain ⟨r', hr', hverified⟩ := hsubs'
      refine ⟨(r.1 :: r'.1, r'.2), ?_, ?_⟩
      · dsimp only
        rw [hr, ok_bind, hr', ok_bind]
      · rw [hcount, hverified, Nat.add_assoc, Nat.add_comm 1]

omit hstored hdomain in
/-- the discovery finds a domain ISM that is there -/
theorem requiredForDomain_some {required : Required} {domainAcc : AccountMeta} {node : IsmNode} {y : List AccountMeta}
    {found : Option (List AccountMeta)} (hkey : domainAcc.pubkey = domainPda rt ism message)
    (hnode : storedDomainIsm ism chain (.newReadonly (domainPda rt ism message) false) = .ok (some node))
    (h : requiredForDomain rt ism chain message required domainAcc metadata y = .ok found) :
    ∃ accounts, found = some accounts := by
  rcases requiredForDomain_cases h with ⟨-, hnone⟩ | ⟨_, _, -, -, heq⟩
  · rw [storedDomainIsm_congr (y := .newReadonly (domainPda rt ism message) false) hkey, hnode] at hnone
    cases hnone
  · exact ⟨_, heq⟩

include hstored

/-- **Metadata that is built is accepted**, with the accounts of a fixpoint. -/
theorem verifyArms_accepts {node : IsmNode} (hw : WellRouted node)
    (hexact : ∀ f ∈ fallbackIsms node, FallbackExact rt chain message missing f)
    (metadata : List UInt8) (hleaf : LeavesAccept rt ism chain message keys x node metadata)
    (hb : Builds rt ism chain message keys spec x node metadata) (keysOf instructionAccounts : List Pubkey)
    (accounts rest : List AccountMeta) (st : VerifyState)
    (h : requiredArms rt ism chain message keysOf (required keysOf) node metadata (accounts ++ rest) = .ok accounts)
    (hiter : st.accountsIter = accounts ++ rest) (hchain : routes node = true → st.chain = chain)
    (hprograms : containsFallbackRouting node = true → Programs chain rest)
    (hkeys : containsFallbackRouting node = true → ∀ m ∈ accounts, m.pubkey ∈ instructionAccounts) :
    ∃ r, verifyArms rt ism message instructionAccounts (verifyStored instructionAccounts) node metadata st = .ok r := by
  induction node generalizing metadata accounts rest st with
  | TrustedRelayer relayer =>
    rw [requiredArms] at h
    rw [← Except.ok.inj h] at hiter
    rw [verifyArms, verifyTrustedRelayer, VerifyState.next, hiter, List.singleton_append, nextAccountInfo, ok_bind]
    dsimp only
    rw [if_neg (not_not.2 rfl), if_neg (Bool.false_ne_true ∘ Eq.symm)]
    exact ⟨_, rfl⟩
  | MultisigMessageId validators threshold =>
    obtain ⟨result, s, hspec, hs, hb⟩ := hb
    obtain rfl := Except.ok.inj hspec
    obtain rfl := Option.some.inj hs
    rw [verifyArms, verifyMultisig_of_quorum hb]
    exact ⟨_, rfl⟩
  | Test accept =>
    obtain ⟨result, s, hspec, hs, hb⟩ := hb
    obtain rfl := Except.ok.inj hspec
    obtain rfl := Option.some.inj hs
    cases accept with
    | true => exact ⟨_, rfl⟩
    | false => cases hb
  | Pausable paused =>
    obtain ⟨result, s, hspec, hs, hb⟩ := hb
    obtain rfl := Except.ok.inj hspec
    obtain rfl := Option.some.inj hs
    cases paused with
    | true => cases hb
    | false => exact ⟨_, rfl⟩
  | RateLimited maxCapacity recipient filledLevel lastUpdated mailbox =>
    obtain ⟨result, s, hspec, hs, hb⟩ := hb
    rw [specArms] at hspec
    obtain ⟨spec', hlimit, rfl⟩ := map_eq_ok.1 hspec
    obtain rfl := Option.some.inj hs
    rw [requiredArms] at h
    rw [← Except.ok.inj h] at hiter
    rcases rateLimitedSpec_cases.of_ok hlimit with rfl | rfl
    · have hverify : ∃ r, verifyRateLimited rt ism.programId ⟨maxCapacity, recipient, mailbox⟩ ⟨filledLevel, lastUpdated⟩
          message (.newReadonly (deriveProcessAuthority rt mailbox ism.programId).1 true :: rest) rt.unixTimestamp = .ok r :=
        verifyRateLimited_of_spec hlimit
      obtain ⟨r, hr⟩ := hverify
      rw [verifyArms, hiter, List.singleton_append, hr]
      exact ⟨_, rfl⟩
    · cases hb
  | AmountRouting threshold lower upper ihLower ihUpper =>
    obtain ⟨amount, hamount, hupper, hlower⟩ := hb.amountRouting
    rw [requiredArms, hamount] at h
    rw [verifyArms, hamount]
    dsimp only at h ⊢
    by_cases hge : threshold ≤ amount
    · rw [if_pos hge] at h ⊢
      obtain ⟨r, hr⟩ := ihUpper hw.2 (fun f hf => hexact f (List.mem_append_right _ hf)) metadata
        (fun f entry h => hleaf f entry (.upper hamount hge h)) (hupper hge) accounts rest st h hiter
        (fun hr => hchain (by rw [routes, hr, Bool.or_true]))
        (fun hf => hprograms (by rw [containsFallbackRouting, hf, Bool.or_true]))
        (fun hf => hkeys (by rw [containsFallbackRouting, hf, Bool.or_true]))
      rw [hr]
      exact ⟨_, rfl⟩
    · rw [if_neg hge] at h ⊢
      obtain ⟨r, hr⟩ := ihLower hw.1 (fun f hf => hexact f (List.mem_append_left _ hf)) metadata
        (fun f entry h => hleaf f entry (.lower hamount hge h)) (hlower hge) accounts rest st h hiter
        (fun hr => hchain (by rw [routes, hr, Bool.true_or]))
        (fun hf => hprograms (by rw [containsFallbackRouting, hf, Bool.true_or]))
        (fun hf => hkeys (by rw [containsFallbackRouting, hf, Bool.true_or]))
      rw [hr]
      exact ⟨_, rfl⟩
  | Aggregation threshold subIsms ih =>
    have hsubs : ∃ r, verifySubs rt ism message instructionAccounts (verifyStored instructionAccounts) subIsms metadata 0 0
        st = .ok r ∧ r.2.1 = 0 + threshold.toNat :=
      verifySubs_accepts hdomain ih hw hexact hleaf.subs hb.aggregation h hiter hchain hprograms hkeys
    obtain ⟨r, hr, hverified⟩ := hsubs
    rw [Nat.zero_add] at hverified
    rw [verifyArms, hr, ok_bind]
    dsimp only
    rw [if_neg (not_not.2 hverified)]
    exact ⟨_, rfl⟩
  | Routing =>
    obtain ⟨result, s, hspec, hs, hb⟩ := hb
    rw [specArms] at hspec
    rcases domainSpec_resolved (specOverDomain_spec _ x) hspec hs with ⟨node, hnode, hspec⟩ | ⟨-, -, habsent⟩
    · obtain ⟨first, tail, rfl, hkey⟩ := requiredForRouting_head h
      rw [List.cons_append] at h hiter
      rw [requiredArms, requiredForRouting_cons hkey] at h
      obtain ⟨found, hfound, h⟩ := bind_eq_ok.1 h
      obtain ⟨accounts', rfl⟩ := requiredForDomain_some hkey hnode hfound
      rw [Option.getD_some] at h
      rw [Except.ok.inj h] at hfound
      obtain ⟨s', htry⟩ := routed_accepts hstored hnode hspec hs hb instructionAccounts
        { st with accountsIter := tail ++ rest } hkey hfound rfl (hchain rfl)
      rw [verifyArms, takeDomainPda_eq hkey hiter, ok_bind]
      dsimp only
      rw [htry, ok_bind]
      exact ⟨_, rfl⟩
    · cases habsent
  | FallbackRouting fallbackIsm =>
    obtain ⟨result, s, hspec, hs, hb⟩ := hb
    rw [specArms] at hspec
    obtain ⟨first, tail, rfl, hkey⟩ := requiredForFallbackRouting_head h
    rw [List.cons_append] at h hiter
    rw [requiredArms, requiredForFallbackRouting_cons hkey] at h
    obtain ⟨found, hfound, h⟩ := bind_eq_ok.1 h
    rw [verifyArms, takeDomainPda_eq hkey hiter, ok_bind]
    dsimp only
    rcases domainSpec_resolved (specOverDomain_spec _ x) hspec hs with ⟨node, hnode, hspec⟩ | ⟨hnone, hhead, habsent⟩
    · obtain ⟨accounts', rfl⟩ := requiredForDomain_some hkey hnode hfound
      rw [Option.elim_some] at h
      rw [Except.ok.inj h] at hfound
      obtain ⟨s', htry⟩ := routed_accepts hstored hnode hspec hs hb instructionAccounts
        { st with accountsIter := tail ++ rest } hkey hfound rfl (hchain rfl)
      rw [htry, ok_bind]
      exact ⟨_, rfl⟩
    · rw [requiredForDomain_absent hkey hnone] at hfound
      obtain rfl := Except.ok.inj hfound
      rw [Option.elim_none] at h
      obtain ⟨hexecutable, hfallback⟩ := hleaf fallbackIsm metadata (.fallback _ _) result s hhead hnone habsent hs hb
      obtain ⟨s', hverify⟩ := verifyFallback_accepts hexecutable hfallback
        { st with accountsIter := tail ++ rest } h rfl (hchain rfl) (hprograms rfl) (hkeys rfl)
      rw [tryVerify_none (s := { st with accountsIter := tail ++ rest }) hstored.reads (hchain rfl) hkey
        ((storedDomainIsm_congr (y := .newReadonly (domainPda rt ism message) false) hkey).trans hnone), ok_bind]
      dsimp only
      rw [if_neg Bool.false_ne_true, hverify]
      exact ⟨_, rfl⟩

end Tree

end Accepts

end Hyperlane.Composite
