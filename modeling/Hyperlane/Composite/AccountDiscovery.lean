/-
The accounts that `VerifyAccountMetas` of the composite ISM discovers are those that `Verify` takes
(rust/sealevel/programs/ism/composite-ism).

- `domainsExact`: stored domain ISMs.
- `account_discovery_exact`: the program.
-/
import Hyperlane.Composite.DiscoveryPasses

namespace Hyperlane.Composite

open Hyperlane.Bytes Hyperlane.Outcome Hyperlane.Sealevel Hyperlane.Passes
open Hyperlane.Relayer (H160 H256 HyperlaneMessage)

/-! ## The program -/

section Program

variable {rt : Runtime} {ism : CompositeIsm} {chain : Chain} {message : HyperlaneMessage} {missing : ProgramError → Prop}

/-- what a domain ISM requires, `depth` below the root -/
def storedRequired (rt : Runtime) (ism : CompositeIsm) (chain : Chain) (message : HyperlaneMessage) :
    ℕ → List Pubkey → Required
  | 0, _ => fun _ _ _ => .error .CallDepth
  | depth + 1, keys => requiredAccountsForNode rt ism chain message keys depth

/-- the walk over a domain ISM, `depth` below the root -/
def storedVerify (rt : Runtime) (ism : CompositeIsm) (message : HyperlaneMessage) : ℕ → List Pubkey → IsmNode → Walk
  | 0, _ => fun _ _ _ => .error (.Program .CallDepth)
  | depth + 1, keys => verifyNode rt ism message keys depth

theorem requiredAccountsForNode_eq (keys : List Pubkey) (depth : ℕ) :
    requiredAccountsForNode rt ism chain message keys depth =
      requiredArms rt ism chain message keys (storedRequired rt ism chain message depth keys) := by
  cases depth with
  | zero => rfl
  | succ depth => rfl

theorem verifyNode_eq (keys : List Pubkey) (depth : ℕ) : verifyNode rt ism message keys depth =
    verifyArms rt ism message keys (storedVerify rt ism message depth keys) := by
  cases depth with
  | zero => rfl
  | succ depth => rfl

/-- **The domain ISMs** that were accepted are exact, at any depth. -/
theorem domainsExact (hdomains : ∀ domainAcc node, domainAcc.pubkey = domainPda rt ism message →
    storedDomainIsm ism chain domainAcc = .ok (some node) → validateDomainIsm node = .ok ()) (depth : ℕ) :
    DomainsExact rt ism chain message missing (storedRequired rt ism chain message depth)
      (storedVerify rt ism message depth) := by
  induction depth with
  | zero =>
    refine ⟨fun keys keysVerify domainAcc node hkey hstored => ?_, fun _ _ _ _ _ _ _ => rfl⟩
    refine ⟨fun _ _ _ => rfl, fun metadata x e _ s r hok => ?_, fun metadata x accounts rest s h _ => ?_, fun _ _ => trivial⟩
    · cases hok
    · cases h
  | succ depth ih =>
    have hconst : ∀ node, routes node = false → ∀ metadata keys keys' x y,
        storedRequired rt ism chain message (depth + 1) keys node metadata x =
          storedRequired rt ism chain message (depth + 1) keys' node metadata y := by
      intro node hroutes metadata keys keys' x y
      rw [storedRequired, storedRequired, requiredAccountsForNode_eq, requiredAccountsForNode_eq]
      exact requiredArms_of_not_routes hroutes metadata x y
    refine ⟨fun keys keysVerify domainAcc node hkey hstored => ?_, fun domainAcc node hkey hstored metadata keys x => ?_⟩
    · have hroutes := validateDomainIsm_ok (hdomains domainAcc node hkey hstored)
      have hnoFallback : containsFallbackRouting node = false := by
        refine Bool.eq_false_of_not_eq_true fun hf => ?_
        rw [routes_of_containsFallbackRouting hf] at hroutes
        cases hroutes
      have hw := wellRouted_of_not_routes hroutes
      have hfallback : ∀ f ∈ fallbackIsms node, FallbackExact rt chain message missing f := by
        rw [fallbackIsms_eq_nil hnoFallback]
        exact fun _ h => absurd h List.not_mem_nil
      refine ⟨fun metadata x y => hconst node hroutes metadata keys keys x y, fun metadata x e h s r hok => ?_,
        fun metadata x accounts rest s h hiter => ?_, fun metadata s => verifyNode_frame depth node metadata s⟩
      · have hends := nodeEnds ih hw hfallback metadata x [] keys (fun a => a.map AccountMeta.pubkey)
          (fun a m hm => List.mem_map_of_mem hm)
          (fun f hf => by rw [fallbackIsms_eq_nil hnoFallback] at hf; exact absurd hf List.not_mem_nil)
          (fun hf => by rw [hnoFallback] at hf; cases hf)
        rw [storedRequired, requiredAccountsForNode_eq] at h
        rw [h] at hends
        rw [storedVerify, verifyNode_eq] at hok
        exact hends.of_none keysVerify s r (fun hr => by rw [hroutes] at hr; cases hr) hok
      · rw [hconst node hroutes metadata keys keys x (accounts ++ rest), storedRequired, requiredAccountsForNode_eq] at h
        rw [storedVerify, verifyNode_eq]
        refine (verifyArms_exact (ih.exact keys keysVerify) hw hfallback metadata accounts rest s h hiter
          (fun hr => by rw [hroutes] at hr; cases hr) (fun hf => by rw [hnoFallback] at hf; cases hf)).mono fun r hr => ?_
        rcases hr with hrest | ⟨hf, -⟩
        · exact hrest
        · rw [hnoFallback] at hf
          cases hf
    · exact hconst node (validateDomainIsm_ok (hdomains domainAcc node hkey hstored)) metadata keys [] x []

theorem loadAndVerifyStorage_congr {x y : AccountMeta} (h : x.pubkey = y.pubkey) :
    loadAndVerifyStorage rt ism chain x = loadAndVerifyStorage rt ism chain y := by
  rw [loadAndVerifyStorage, loadAndVerifyStorage, h]

/-- the account for the storage PDA -/
def storageMeta (rt : Runtime) (ism : CompositeIsm) (message : HyperlaneMessage) (root : IsmNode) (metadata : List UInt8) :
    AccountMeta :=
  ⟨vamPda rt ism.programId, false, reachableContainsRateLimited message root metadata⟩

theorem allVerifyAccountMetas_eq (keys : List Pubkey) (root : IsmNode) (metadata : List UInt8) (extra : List AccountMeta) :
    allVerifyAccountMetas rt ism chain message keys (vamPda rt ism.programId) root metadata extra =
      (requiredArms rt ism chain message keys (storedRequired rt ism chain message rt.maxCallDepth keys) root metadata
        extra).map (storageMeta rt ism message root metadata :: ·) := by
  have hmeta : (if reachableContainsRateLimited message root metadata = true then
      AccountMeta.new (vamPda rt ism.programId) false else .newReadonly (vamPda rt ism.programId) false) =
      storageMeta rt ism message root metadata := by
    unfold storageMeta
    cases reachableContainsRateLimited message root metadata with
    | true => rfl
    | false => rfl
  rw [allVerifyAccountMetas, hmeta, requiredAccountsForNode_eq]
  cases requiredArms rt ism chain message keys (storedRequired rt ism chain message rt.maxCallDepth keys) root metadata
    extra with
  | error e => rfl
  | ok accounts => rfl

/-- a pass that loads the storage -/
theorem verifyAccountMetas_cons {info : AccountMeta} {storage : CompositeIsmStorage} {root : IsmNode}
    (hload : loadAndVerifyStorage rt ism chain info = .ok storage) (hroot : storage.root = some root) (metadata : List UInt8)
    (extra : List AccountMeta) : verifyAccountMetas rt ism chain (info :: extra) metadata message =
      (requiredArms rt ism chain message ((info :: extra).map AccountMeta.pubkey) (storedRequired rt ism chain message
        rt.maxCallDepth ((info :: extra).map AccountMeta.pubkey)) root metadata extra).map
        (storageMeta rt ism message root metadata :: ·) := by
  rw [← allVerifyAccountMetas_eq, verifyAccountMetas, nextAccountInfo, ok_bind]
  dsimp only
  rw [hload, ok_bind, hroot]

theorem verifyAccountMetas_ok {accounts returned : List AccountMeta} {metadata : List UInt8}
    (h : verifyAccountMetas rt ism chain accounts metadata message = .ok returned) : ∃ info extra storage root,
      accounts = info :: extra ∧ loadAndVerifyStorage rt ism chain info = .ok storage ∧ storage.root = some root := by
  rw [verifyAccountMetas] at h
  cases accounts with
  | nil => cases h
  | cons info extra =>
    rw [nextAccountInfo, ok_bind] at h
    dsimp only at h
    obtain ⟨storage, hload, h⟩ := bind_eq_ok.1 h
    cases hroot : storage.root with
    | none =>
      rw [hroot] at h
      cases h
    | some root => exact ⟨info, extra, storage, root, rfl, hload, hroot⟩

theorem verify_ok {accounts : List AccountMeta} {metadata : List UInt8} {r : Chain × List AccountMeta}
    (h : verify rt ism chain accounts metadata message = .ok r) : ∃ info storage root rest s,
      loadAndVerifyStorage rt ism chain info = .ok storage ∧ storage.root = some root ∧
        verifyNode rt ism message (accounts.map AccountMeta.pubkey) rt.maxCallDepth root metadata ⟨chain, rest, false⟩ =
          .ok s := by
  rw [verify] at h
  obtain ⟨next, -, h⟩ := bind_eq_ok.1 h
  obtain ⟨storage, hload, h⟩ := bind_eq_ok.1 h
  cases hroot : storage.root with
  | none =>
    rw [hroot] at h
    cases h
  | some root =>
    rw [hroot] at h
    obtain ⟨s, hnode, -⟩ := bind_eq_ok.1 h
    exact ⟨next.1, storage, root, next.2, s, lift_eq_ok hload, hroot, hnode⟩

/-- the storage PDA goes first, so a caller adds no sentinel -/
theorem discoveryPass_verifyAccountMetas (accounts : List AccountMeta) (metadata : List UInt8) :
    discoveryPass (vamPda rt ism.programId) ((verifyAccountMetas rt ism chain accounts metadata message).map .Value) =
      (verifyAccountMetas rt ism chain accounts metadata message).toOption := by
  cases h : verifyAccountMetas rt ism chain accounts metadata message with
  | error e => rfl
  | ok returned =>
    obtain ⟨info, extra, storage, root, rfl, hload, hroot⟩ := verifyAccountMetas_ok h
    rw [verifyAccountMetas_cons hload hroot] at h
    obtain ⟨required, -, rfl⟩ := map_eq_ok.1 h
    exact congrArg some (withSentinel_eq rfl required)

/-- what is loaded, and from where -/
theorem load_ok {info : AccountMeta} {storage : CompositeIsmStorage}
    (h : loadAndVerifyStorage rt ism chain info = .ok storage) : (chain info.pubkey).owner = ism.programId ∧
      fetchData ism.deserializeStorage (chain info.pubkey).data = .ok (some storage) ∧
      rt.createProgramAddress (VERIFY_ACCOUNT_METAS_PDA_SEEDS ++ [[storage.bumpSeed]]) ism.programId = some info.pubkey := by
  rw [loadAndVerifyStorage] at h
  split at h
  · cases h
  next howner =>
    split at h
    · cases h
    · cases h
    next storage' hfetch =>
      split at h
      · cases h
      next key hkey =>
        split at h
        · cases h
        next hsame =>
          obtain rfl := Except.ok.inj h
          exact ⟨not_not.1 howner, hfetch, hkey.trans (congrArg some (not_not.1 hsame).symm)⟩

/-- a program that owns its storage is given it -/
theorem fallbackAccounts_of_ok {accounts returned : List AccountMeta} {metadata : List UInt8}
    (h : verifyAccountMetas rt ism chain accounts metadata message = .ok returned) :
    fallbackAccounts rt chain ism.programId accounts = accounts := by
  obtain ⟨info, extra, storage, root, rfl, hload, -⟩ := verifyAccountMetas_ok h
  exact if_neg fun hskip => hskip.2 (load_ok hload).1

/-- what `Initialize`, `UpdateConfig` and `SetDomainIsm` let be stored, over fallbacks that are exact -/
structure Accepted (rt : Runtime) (ism : CompositeIsm) (chain : Chain) (message : HyperlaneMessage)
    (missing : ProgramError → Prop) : Prop where
  key : ∀ info storage, loadAndVerifyStorage rt ism chain info = .ok storage → info.pubkey = vamPda rt ism.programId
  root : ∀ info storage root, loadAndVerifyStorage rt ism chain info = .ok storage → storage.root = some root →
    validateConfig ism.programId root = .ok () ∧ ∀ f ∈ fallbackIsms root, FallbackExact rt chain message missing f
  domain : ∀ domainAcc node, domainAcc.pubkey = domainPda rt ism message →
    storedDomainIsm ism chain domainAcc = .ok (some node) → validateDomainIsm node = .ok ()

variable (haccepted : Accepted rt ism chain message missing)

include haccepted

/-- **The passes of the program** -/
theorem verifyAccountMetas_ends (metadata : List UInt8) {start : AccountMeta} {programs : List AccountMeta}
    (hstart : start.pubkey = vamPda rt ism.programId) (hprograms : Programs chain programs) :
    PassesEnd (verifyAccountMetas rt ism chain (start :: programs) metadata message).toOption
      (fun accounts => (verifyAccountMetas rt ism chain (accounts ++ programs) metadata message).toOption)
      (∀ accounts r, verify rt ism chain accounts metadata message ≠ .ok r) := by
  have hload : ∀ info storage, loadAndVerifyStorage rt ism chain info = .ok storage →
      loadAndVerifyStorage rt ism chain start = .ok storage := fun info storage h =>
    (loadAndVerifyStorage_congr (hstart.trans (haccepted.key info storage h).symm)).trans h
  by_cases hfound : ∃ storage root, loadAndVerifyStorage rt ism chain start = .ok storage ∧ storage.root = some root
  · obtain ⟨storage, root, hstorage, hroot⟩ := hfound
    obtain ⟨hvalid, hfallback⟩ := haccepted.root start storage root hstorage hroot
    have hends := nodeEnds (domainsExact haccepted.domain rt.maxCallDepth)
      (wellRouted_of_validateConfig hvalid) hfallback metadata programs programs ((start :: programs).map AccountMeta.pubkey)
      (fun a => (storageMeta rt ism message root metadata :: (a ++ programs)).map AccountMeta.pubkey)
      (fun a m hm => List.mem_map_of_mem (List.mem_cons_of_mem _ (List.mem_append_left _ hm)))
      (fun f hf m hm hkey => ?_) fun _ => hprograms
    · refine hends.map (f := (storageMeta rt ism message root metadata :: ·)) ?_ (fun a => ?_)
        fun hrejects accounts r hok => ?_
      · rw [verifyAccountMetas_cons hstorage hroot]
        exact toOption_map _ _
      · rw [List.cons_append, verifyAccountMetas_cons ((loadAndVerifyStorage_congr hstart.symm).trans hstorage) hroot]
        exact toOption_map _ _
      · obtain ⟨info, storage', root', rest, s, hload', hroot', hnode⟩ := verify_ok hok
        obtain rfl := Except.ok.inj (hstorage.symm.trans (hload info storage' hload'))
        obtain rfl := Option.some.inj (hroot.symm.trans hroot')
        rw [verifyNode_eq] at hnode
        exact hrejects _ _ s (fun _ => rfl) hnode
    · -- an account of a program is no sentinel
      have hexecutable : (chain m.pubkey).executable = true := by
        rcases List.mem_append.1 hm with hm | hm
        · exact hprograms m hm
        · exact hprograms m hm
      rw [hkey, (hfallback f hf).data] at hexecutable
      cases hexecutable
  · refine .inr ⟨⟨0, ?_⟩, fun accounts r hok => ?_⟩
    · cases h : verifyAccountMetas rt ism chain (start :: programs) metadata message with
      | error e => rfl
      | ok returned =>
        obtain ⟨info, extra, storage, root, heq, hload', hroot⟩ := verifyAccountMetas_ok h
        obtain ⟨rfl, -⟩ := List.cons.inj heq
        exact absurd ⟨storage, root, hload', hroot⟩ hfound
    · obtain ⟨info, storage, root, rest, s, hload', hroot, -⟩ := verify_ok hok
      exact hfound ⟨storage, root, hload info storage hload', hroot⟩

/-- **`Verify` with the accounts of a fixpoint** -/
theorem verify_takes {metadata : List UInt8} {accounts programs : List AccountMeta} (hprograms : Programs chain programs)
    (h : verifyAccountMetas rt ism chain (accounts ++ programs) metadata message = .ok accounts) :
    Ends (fun e => ¬AccountFault missing e) (fun r => r.2 = programs ∨ r.2 = [])
      (verify rt ism chain (accounts ++ programs) metadata message) := by
  obtain ⟨info, extra, storage, root, heq, hload, hroot⟩ := verifyAccountMetas_ok h
  obtain ⟨hvalid, hfallback⟩ := haccepted.root info storage root hload hroot
  have hpass := h
  rw [heq, verifyAccountMetas_cons hload hroot] at hpass
  obtain ⟨required, hrequired, haccounts⟩ := map_eq_ok.1 hpass
  rw [← haccounts, List.cons_append] at heq
  obtain ⟨rfl, rfl⟩ := List.cons.inj heq
  rw [← haccounts, verify, List.cons_append, nextAccountInfo, lift_ok, ok_bind]
  dsimp only
  rw [hload, lift_ok, ok_bind, hroot]
  dsimp only
  rw [verifyNode_eq]
  generalize (storageMeta rt ism message root metadata :: (required ++ programs)).map AccountMeta.pubkey = keys at hrequired ⊢
  refine (Ends.and (verifyArms_exact ((domainsExact haccepted.domain rt.maxCallDepth).exact keys keys)
    (wellRouted_of_validateConfig hvalid) hfallback metadata required programs _ hrequired rfl (fun _ => rfl)
    fun _ => hprograms) (verifyArms_frame root metadata _)).bind fun r hr => ?_
  obtain ⟨htaken, hframe⟩ := hr
  have hleft : r.2.accountsIter = programs ∨ r.2.accountsIter = [] := htaken.imp_right And.right
  split
  next hmutated =>
    have hwritable : (storageMeta rt ism message root metadata).isWritable = true :=
      (hframe.mutated hmutated).resolve_left Bool.false_ne_true
    rw [hwritable, if_neg (Bool.false_ne_true ∘ Eq.symm)]
    exact store_fault.bind fun _ _ => hleft
  · exact hleft

/-- **Account discovery is exact.** For every message and metadata the passes reach a fixpoint, or one fails and then no
accounts make `Verify` accept; `Verify` with the accounts of a fixpoint never fails because of them, and takes them all when
it accepts. So a composite ISM can be a fallback itself. -/
theorem account_discovery_exact (metadata : List UInt8) :
    (∀ start : AccountMeta, start.pubkey = vamPda rt ism.programId →
      let pass := fun accounts => (verifyAccountMetas rt ism chain accounts metadata message).toOption
      Settles (pass [start]) pass ∨ Stops (pass [start]) pass ∧
        ∀ accounts r, verify rt ism chain accounts metadata message ≠ .ok r) ∧
    (∀ accounts, verifyAccountMetas rt ism chain accounts metadata message = .ok accounts →
      Ends (fun e => ¬AccountFault missing e) (fun r => r.2 = []) (verify rt ism chain accounts metadata message)) ∧
    AccountsExact rt chain ism.programId
      (fun accounts => discoveryPass (vamPda rt ism.programId)
        ((verifyAccountMetas rt ism chain accounts metadata message).map .Value))
      (fun accounts => (verify rt ism chain accounts metadata message).map Prod.fst) (AccountFault missing) := by
  have hnone : Programs chain [] := fun _ hm => absurd hm List.not_mem_nil
  refine ⟨fun start hstart => ?_, fun accounts hfix => ?_, ⟨fun start programs hstart hprograms => ?_, ?_⟩⟩
  · have hends := verifyAccountMetas_ends haccepted metadata hstart hnone
    simp only [List.append_nil] at hends
    exact hends
  · have hfix' : verifyAccountMetas rt ism chain (accounts ++ []) metadata message = .ok accounts := by
      rw [List.append_nil, hfix]
    have htakes := verify_takes haccepted hnone hfix'
    rw [List.append_nil] at htakes
    exact htakes.mono fun r hr => hr.elim id id
  · simp only [discoveryPass_verifyAccountMetas]
    refine (verifyAccountMetas_ends haccepted metadata hstart hprograms).imp fun hrejects accounts chain' hok => ?_
    obtain ⟨r, hr, -⟩ := map_eq_ok.1 hok
    exact hrejects accounts r hr
  · intro programs accounts hprograms hpass e herror
    rw [discoveryPass_verifyAccountMetas] at hpass
    have hfix := toOption_eq_some hpass
    rw [fallbackAccounts_of_ok hfix] at herror
    have htakes := verify_takes haccepted hprograms hfix
    cases hverify : verify rt ism chain (accounts ++ programs) metadata message with
    | error e' =>
      rw [hverify] at herror
      exact Except.error.inj herror ▸ htakes.of_error hverify
    | ok r =>
      rw [hverify] at herror
      cases herror

end Program

/-! ## A deployment -/

def ismId : Pubkey := Word.filled 32 1

def testIsmId : Pubkey := Word.filled 32 2

def storageKey : Pubkey := Word.filled 32 3

def testStorageKey : Pubkey := Word.filled 32 4

/-- the sentinel of the test ISM, which it does not use -/
def sentinelKey : Pubkey := Word.filled 32 5

def domainKey : Pubkey := Word.filled 32 6

/-- the test ISM: it looks at its storage alone -/
def testIsm : Program where
  type _ _ := .ok (.Value 0)
  verify chain accounts _ _ := (nextAccountInfo accounts).map fun _ => chain
  verifyAccountMetas _ _ _ _ := .ok (.Value [.newReadonly testStorageKey false])
  verifyMetadataSpec _ _ _ := .ok (.Value ⟨some .Null, []⟩)
  validatorsAndThreshold _ _ _ := .error .BorshIoError

/-- the composite ISM, with the test ISM beside it -/
def testRuntime : Runtime where
  crypto := ⟨fun _ => Word.filled 32 0, fun _ _ => none⟩
  secp256k1Recover _ _ _ := none
  findProgramAddress seeds programId :=
    (if seeds = VERIFY_ACCOUNT_METAS_PDA_SEEDS then if programId = ismId then storageKey else sentinelKey else domainKey, 255)
  createProgramAddress seeds programId :=
    if seeds = VERIFY_ACCOUNT_METAS_PDA_SEEDS ++ [[255]] ∧ programId = ismId then some storageKey else none
  unixTimestamp := some 0
  programs _ := testIsm
  maxCallDepth := 4

def testStorage (root : IsmNode) : CompositeIsmStorage := ⟨255, none, some root⟩

/-- an ISM that reads the one storage there is -/
def testComposite (root : IsmNode) : CompositeIsm where
  programId := ismId
  deserializeStorage bytes := if (testStorage root).serialize.length ≤ bytes.length then some (testStorage root) else none
  deserializeDomain _ := none

def testChain (root : IsmNode) : Chain := fun key =>
  if key = storageKey then ⟨ismId, false, 1 :: (testStorage root).serialize⟩ else ⟨Word.filled 32 0, key = testIsmId, []⟩

def testMessage : HyperlaneMessage := ⟨3, 0, 1, Word.filled 32 0, 2, Word.filled 32 0, []⟩

theorem vamPda_testRuntime (programId : Pubkey) :
    vamPda testRuntime programId = if programId = ismId then storageKey else sentinelKey :=
  if_pos rfl

theorem testIsm_exact (root : IsmNode) :
    FallbackExact testRuntime (testChain root) testMessage (· ∈ accountErrors) testIsmId := by
  have hkey : vamPda testRuntime testIsmId = sentinelKey := (vamPda_testRuntime testIsmId).trans (if_neg (by decide))
  refine ⟨fun metadata => ⟨fun start programs _ _ => .inl ⟨0, _, rfl, rfl⟩, fun programs accounts _ hpass e herror => ?_⟩, ?_⟩
  · obtain rfl := Option.some.inj hpass
    have hasked : withSentinel sentinelKey [.newReadonly testStorageKey false] =
        [.newReadonly sentinelKey false, .newReadonly testStorageKey false] := by decide
    rw [hkey, hasked] at herror
    cases hfirst : fallbackAccounts testRuntime (testChain root) testIsmId
      ([.newReadonly sentinelKey false, .newReadonly testStorageKey false] ++ programs) with
    | nil =>
      rw [List.cons_append, fallbackAccounts] at hfirst
      split at hfirst
      · cases hfirst
      · cases hfirst
    | cons first rest =>
      rw [hfirst] at herror
      cases herror
  · rw [hkey]
    rfl

theorem load_testComposite {root : IsmNode} {info : AccountMeta} {storage : CompositeIsmStorage}
    (h : loadAndVerifyStorage testRuntime (testComposite root) (testChain root) info = .ok storage) :
    info.pubkey = storageKey ∧ storage = testStorage root := by
  obtain ⟨-, hfetch, hcreate⟩ := load_ok h
  constructor
  · unfold testRuntime at hcreate
    dsimp only at hcreate
    split at hcreate
    · exact (Option.some.inj hcreate).symm
    · cases hcreate
  · cases hdata : (testChain root info.pubkey).data with
    | nil =>
      rw [hdata] at hfetch
      cases hfetch
    | cons initialized bytes =>
      rw [hdata, fetchData] at hfetch
      split at hfetch
      · cases hfetch
      · split at hfetch
        · split at hfetch
          · cases hfetch
          next read hread =>
            obtain rfl := Option.some.inj (Except.ok.inj hfetch)
            unfold testComposite at hread
            dsimp only at hread
            split at hread
            · exact (Option.some.inj hread).symm
            · cases hread
        · cases hfetch

theorem load_storageKey (root : IsmNode) {info : AccountMeta} (hkey : info.pubkey = storageKey) :
    loadAndVerifyStorage testRuntime (testComposite root) (testChain root) info = .ok (testStorage root) := by
  have howner : (testChain root info.pubkey).owner = (testComposite root).programId := congrArg Account.owner (if_pos hkey)
  have hfetch : fetchData (testComposite root).deserializeStorage (testChain root info.pubkey).data =
      .ok (some (testStorage root)) := by
    have hread : (testComposite root).deserializeStorage (testStorage root).serialize = some (testStorage root) :=
      if_pos le_rfl
    have hdata : (testChain root info.pubkey).data = 1 :: (testStorage root).serialize := congrArg Account.data (if_pos hkey)
    rw [hdata, fetchData, if_neg (by decide), if_pos rfl, hread]
  have hcreate : testRuntime.createProgramAddress (VERIFY_ACCOUNT_METAS_PDA_SEEDS ++ [[(testStorage root).bumpSeed]])
      (testComposite root).programId = some storageKey := if_pos ⟨rfl, rfl⟩
  rw [loadAndVerifyStorage, if_neg (not_not.2 howner), hfetch]
  dsimp only
  rw [hcreate]
  exact if_neg (not_not.2 hkey)

theorem accepted_testComposite {root : IsmNode} (hvalid : validateConfig ismId root = .ok ())
    (hfallback : ∀ f ∈ fallbackIsms root, f = testIsmId) :
    Accepted testRuntime (testComposite root) (testChain root) testMessage (· ∈ accountErrors) := by
  refine ⟨fun info storage h => ?_, fun info storage root' h hroot => ?_, fun domainAcc node hkey h => ?_⟩
  · rw [vamPda_testRuntime, (load_testComposite h).1]
    rfl
  · rw [(load_testComposite h).2] at hroot
    obtain rfl := Option.some.inj hroot
    refine ⟨hvalid, fun f hf => ?_⟩
    rw [hfallback f hf]
    exact testIsm_exact root
  · have hdomain : (deriveDomainPda testRuntime ismId testMessage.origin).1 = domainKey := by decide +kernel
    have hsame : domainAcc.pubkey = domainKey := hkey.trans hdomain
    rw [storedDomainIsm, hsame] at h
    cases h

/-- the test ISM is called with its storage, after the sentinel that it does not own -/
theorem account_discovery_exact_fallback :
    let root := IsmNode.FallbackRouting testIsmId
    let accounts : List AccountMeta := [.newReadonly storageKey false, .newReadonly domainKey false,
      .newReadonly sentinelKey false, .newReadonly testStorageKey false, .newReadonly testIsmId false]
    verifyAccountMetas testRuntime (testComposite root) (testChain root) accounts [] testMessage = .ok accounts ∧
      Ends (fun e => ¬AccountFault (· ∈ accountErrors) e) (fun r => r.2 = [])
        (verify testRuntime (testComposite root) (testChain root) accounts [] testMessage) := by
  intro root accounts
  have hfix : verifyAccountMetas testRuntime (testComposite root) (testChain root) accounts [] testMessage =
      .ok accounts := by
    decide +kernel
  have haccepted : Accepted testRuntime (testComposite root) (testChain root) testMessage (· ∈ accountErrors) :=
    accepted_testComposite (by decide) fun f hf => List.mem_singleton.1 hf
  exact ⟨hfix, (account_discovery_exact haccepted []).2.1 accounts hfix⟩

/-- an accepted aggregation whose metadata is no table: no pass returns -/
theorem no_fixpoint_without_table :
    let root := IsmNode.Aggregation 1 [.Test true]
    let pass := fun accounts =>
      (verifyAccountMetas testRuntime (testComposite root) (testChain root) accounts [] testMessage).toOption
    validateConfig ismId root = .ok () ∧
      loadAndVerifyStorage testRuntime (testComposite root) (testChain root) (.newReadonly storageKey false) =
        .ok (testStorage root) ∧
      ¬Settles (pass [.newReadonly storageKey false]) pass := by
  intro root pass
  refine ⟨by decide, load_storageKey root rfl, fun hs => ?_⟩
  obtain ⟨n, accounts, hpass, -⟩ := hs
  have hnone : ∀ n, passes (pass [.newReadonly storageKey false]) pass n = none := by
    intro n
    induction n with
    | zero => decide +kernel
    | succ n ih => rw [passes, ih, Option.bind_none]
  rw [hnone n] at hpass
  cases hpass

end Hyperlane.Composite
