/-
The metadata specification of the composite ISM is exact (rust/sealevel/programs/ism/composite-ism): metadata that is built as
it says is accepted with the accounts that are discovered for it, and where it is `CannotVerify` or an error nothing is.

- `storedRejects`, `storedAccepts`: stored domain ISMs.
- `specHolds_of_dependable`: the program, over fallbacks with which the walk does not go wrong.
-/
import Hyperlane.Composite.AccountDiscovery
import Hyperlane.Composite.SpecPasses

namespace Hyperlane.Composite

open Hyperlane.Bytes Hyperlane.Outcome Hyperlane.Sealevel Hyperlane.Passes
open Hyperlane.Relayer (H160 H256 HyperlaneMessage)

/-! ## Stored domain ISMs -/

section Stored

variable {rt : Runtime} {ism : CompositeIsm} {chain : Chain} {message : HyperlaneMessage} {missing : ProgramError → Prop}

/-- the walk over a domain ISM, `depth` below the root -/
def storedSpec (rt : Runtime) (ism : CompositeIsm) (chain : Chain) (message : HyperlaneMessage) (keys : List Pubkey) :
    ℕ → SpecWalk
  | 0 => fun _ _ => .error .Panic
  | depth + 1 => specAndAccountsForNode rt ism chain message keys depth

theorem specAndAccountsForNode_eq (keys : List Pubkey) (depth : ℕ) : specAndAccountsForNode rt ism chain message keys depth =
    specArms rt ism chain message keys (storedSpec rt ism chain message keys depth) := by
  cases depth with
  | zero => rfl
  | succ depth => rfl

/-- what `SetDomainIsm` lets be stored for the message's origin -/
structure DomainAccepted (rt : Runtime) (ism : CompositeIsm) (chain : Chain) (message : HyperlaneMessage) : Prop where
  valid : ∀ domainAcc node, domainAcc.pubkey = domainPda rt ism message →
    storedDomainIsm ism chain domainAcc = .ok (some node) → validateDomainIsm node = .ok ()
  reads : DomainReads rt ism chain message
  /-- the domain PDA is an address for data -/
  data : (chain (domainPda rt ism message)).executable = false
  borsh : Borsh ism.deserializeDomain DomainIsmStorage.serialize

theorem DomainAccepted.noRoute (h : DomainAccepted rt ism chain message) (node : IsmNode)
    (hnode : storedDomainIsm ism chain (.newReadonly (domainPda rt ism message) false) = .ok (some node)) :
    routes node = false :=
  validateDomainIsm_ok (h.valid _ node rfl hnode)

variable (haccepted : DomainAccepted rt ism chain message) (keys : List Pubkey)

include haccepted

/-- domain ISMs ask for nothing -/
theorem storedSpec_resolves (depth : ℕ) (node : IsmNode)
    (hnode : storedDomainIsm ism chain (.newReadonly (domainPda rt ism message) false) = .ok (some node))
    (x : List AccountMeta) (accounts : List Pubkey) :
    storedSpec rt ism chain message keys depth node x ≠ .ok (requested accounts) := by
  induction depth generalizing node x accounts with
  | zero => exact fun h => by cases h
  | succ depth ih =>
    intro h
    rw [storedSpec, specAndAccountsForNode_eq] at h
    have hroutes := (specArms_requested ih h).1
    rw [haccepted.noRoute node hnode] at hroutes
    cases hroutes

/-- domain ISMs call no fallback -/
theorem storedSpec_not_aborted (depth : ℕ) (node : IsmNode)
    (hnode : storedDomainIsm ism chain (.newReadonly (domainPda rt ism message) false) = .ok (some node))
    (x : List AccountMeta) (e : ProgramError) :
    storedSpec rt ism chain message keys depth node x ≠ .error (.Aborted e) := by
  induction depth generalizing node x e with
  | zero => exact fun h => by cases h
  | succ depth ih =>
    intro h
    rw [storedSpec, specAndAccountsForNode_eq] at h
    obtain ⟨f, hreaches, -⟩ := specArms_aborted ih h
    have hf := hreaches.mem
    rw [fallbackIsms_of_not_routes (haccepted.noRoute node hnode)] at hf
    exact List.not_mem_nil hf

/-- what the specification of a domain ISM rules out, at any depth -/
theorem storedRejects (depth : ℕ) : StoredRejects rt ism chain message (storedSpec rt ism chain message keys depth)
    (storedVerify rt ism message depth) := by
  induction depth with
  | zero =>
    refine ⟨haccepted.reads, fun _ _ _ => trivial, fun node _ x h instructionAccounts metadata s r hok => ?_⟩
    cases hok
  | succ depth ih =>
    refine ⟨haccepted.reads, fun node _ x => ?_, fun node hnode x h instructionAccounts metadata s r hok => ?_⟩
    · rw [storedSpec, specAndAccountsForNode_eq]
      exact specArms_skipped ih.reads ih.skipped node x
    · have hroutes := haccepted.noRoute node hnode
      rw [storedSpec, specAndAccountsForNode_eq] at h
      rw [storedVerify, verifyNode_eq] at hok
      refine specArms_rejects ih (wellRouted_of_not_routes hroutes) (fun f hf => ?_) h metadata instructionAccounts s r
        (fun hr => ?_) hok
      · rw [fallbackIsms_of_not_routes hroutes] at hf
        exact absurd hf List.not_mem_nil
      · rw [hroutes] at hr
        cases hr

/-- what the specification of a domain ISM promises, at any depth -/
theorem storedAccepts (depth : ℕ) : StoredAccepts rt ism chain message (storedSpec rt ism chain message keys depth)
    (storedRequired rt ism chain message depth) (storedVerify rt ism message depth) := by
  induction depth with
  | zero =>
    refine ⟨haccepted.reads, haccepted.data, haccepted.borsh, haccepted.noRoute, fun node _ x result s metadata h => ?_⟩
    cases h
  | succ depth ih =>
    refine ⟨haccepted.reads, haccepted.data, haccepted.borsh, haccepted.noRoute,
      fun node hnode x result s metadata hspec hs hb => ?_⟩
    have hroutes := haccepted.noRoute node hnode
    have hw := wellRouted_of_not_routes hroutes
    have hnone : ∀ f, f ∉ fallbackIsms node := fun f hf => by
      rw [fallbackIsms_of_not_routes hroutes] at hf
      exact absurd hf List.not_mem_nil
    have hnoFallback : containsFallbackRouting node ≠ true := fun hf => by
      rw [routes_of_containsFallbackRouting hf] at hroutes
      cases hroutes
    rw [storedSpec, specAndAccountsForNode_eq] at hspec
    have hbuilds : Builds rt ism chain message keys (storedSpec rt ism chain message keys depth) x node metadata :=
      ⟨result, s, hspec, hs, hb⟩
    have hleaf : LeavesAccept rt ism chain message keys x node metadata :=
      fun f entry hands => absurd hands.reaches.mem (hnone f)
    obtain ⟨accounts, hfound⟩ := required_found ih hw metadata hleaf [] hbuilds fun hf => absurd hf hnoFallback
    have hfound := hfound (accounts.map AccountMeta.pubkey) fun m hm => List.mem_map_of_mem hm
    have hconst : ∀ keys x, requiredArms rt ism chain message keys (storedRequired rt ism chain message depth keys) node
        metadata x = .ok accounts := fun keys x => (requiredArms_of_not_routes hroutes metadata x _).trans hfound
    refine ⟨accounts, fun keys x => ?_, fun instructionAccounts rest st hiter => ?_⟩
    · rw [storedRequired, requiredAccountsForNode_eq]
      exact hconst keys x
    · rw [storedVerify]
      have hdomains : DomainsExact rt ism chain message (fun _ => False) (storedRequired rt ism chain message depth)
        (storedVerify rt ism message depth) := domainsExact haccepted.valid depth
      obtain ⟨r, hr⟩ := verifyArms_accepts ih hdomains hw (fun f hf => absurd hf (hnone f)) metadata hleaf hbuilds []
        instructionAccounts accounts rest st (hconst [] _) hiter
        (fun hr => absurd hr (by rw [hroutes]; exact Bool.false_ne_true))
        (fun hf => absurd hf hnoFallback) (fun hf => absurd hf hnoFallback)
      rw [← verifyNode_eq] at hr
      exact ⟨r, hr, (verifyNode_frame depth node metadata st).of_ok hr⟩

end Stored

/-! ## Room for the storage -/

section Room

variable {rt : Runtime} {ism : CompositeIsm} {chain : Chain} {message : HyperlaneMessage} {missing : ProgramError → Prop}
  {required : Required} {verifyStored : IsmNode → Walk} {keys : List Pubkey} {key : Pubkey}

/-- an account keeps its room for data -/
def KeepsRoom (key : Pubkey) (chain chain' : Chain) : Prop :=
  (chain' key).executable = (chain key).executable ∧ (chain' key).data.length = (chain key).data.length

theorem KeepsRoom.of_eq {chain' : Chain} (h : chain' key = chain key) : KeepsRoom key chain chain' := by
  rw [KeepsRoom, h]
  exact ⟨rfl, rfl⟩

theorem KeepsRoom.trans {chain' chain'' : Chain} (h : KeepsRoom key chain chain') (h' : KeepsRoom key chain' chain'') :
    KeepsRoom key chain chain'' :=
  ⟨h'.1.trans h.1, h'.2.trans h.2⟩

theorem Frame.keepsRoom {node : IsmNode} {metadata : List UInt8} {s : VerifyState} {r : IsmNode × VerifyState}
    (h : Frame message node metadata s r) (hroutes : routes node = false) : KeepsRoom key s.chain r.2.chain :=
  .of_eq (congrFun (h.chain hroutes) key)

theorem store_room {chain' : Chain} {info : AccountMeta} {bytes : List UInt8} (h : store chain info bytes = .ok chain') :
    KeepsRoom key chain chain' := by
  rw [store] at h
  dsimp only at h
  split at h
  · cases h
  · split at h
    · cases h
    next hfits =>
      obtain rfl := Except.ok.inj h
      by_cases hkey : key = info.pubkey
      · rw [hkey, KeepsRoom, Function.update_self]
        refine ⟨rfl, ?_⟩
        rw [List.cons_append, List.length_cons, List.length_append, List.length_replicate]
        omega
      · rw [KeepsRoom, Function.update_of_ne hkey]
        exact ⟨rfl, rfl⟩

/-- a program leaves an account its room when it verifies -/
def LeavesRoom (rt : Runtime) (chain : Chain) (message : HyperlaneMessage) (key programId : Pubkey) : Prop :=
  ∀ accounts metadata chain', (rt.programs programId).verify chain accounts metadata message = .ok chain' →
    KeepsRoom key chain chain'

/-- a domain ISM is written back in its own account -/
theorem tryVerify_room (hdomain : DomainExact rt ism chain message missing required verifyStored)
    (hroutes : ∀ node, storedDomainIsm ism chain (.newReadonly (domainPda rt ism message) false) = .ok (some node) →
      routes node = false) {domainAcc : AccountMeta} (hkey : domainAcc.pubkey = domainPda rt ism message)
    {metadata : List UInt8} {s : VerifyState} {r : Bool × VerifyState} (hchain : s.chain = chain)
    (h : tryVerifyDomainIsm rt ism message verifyStored domainAcc metadata s = .ok r) : KeepsRoom key s.chain r.2.chain := by
  rw [tryVerifyDomainIsm, hchain] at h
  cases hload : loadAndValidateDomainIsmStorage rt ism chain message.origin domainAcc with
  | error e =>
    rw [hload] at h
    cases h
  | ok loaded =>
    rw [hload, lift_ok, ok_bind] at h
    cases loaded with
    | none =>
      obtain rfl := Except.ok.inj h
      exact .of_eq rfl
    | some storage =>
      dsimp only at h
      cases hism : storage.ism with
      | none =>
        rw [hism] at h
        obtain rfl := Except.ok.inj h
        exact .of_eq rfl
      | some node =>
        have hstored := load_stored hload
        rw [Option.bind_some, hism] at hstored
        have hnoRoute := hroutes node
          ((storedDomainIsm_congr (y := .newReadonly (domainPda rt ism message) false) hkey).symm.trans hstored)
        rw [hism] at h
        dsimp only at h
        split at h
        · cases h
        · obtain ⟨r', hverify, h⟩ := bind_eq_ok.1 h
          have hframe := ((hdomain domainAcc node hkey hstored).frame metadata _).of_ok hverify
          have hsame : r'.2.chain = s.chain := (hframe.chain hnoRoute).trans hchain.symm
          split at h
          · split at h
            · cases h
            · obtain ⟨chain', hwrite, h⟩ := bind_eq_ok.1 h
              obtain rfl := Except.ok.inj h
              exact (KeepsRoom.of_eq (congrFun hsame key)).trans (store_room (lift_eq_ok hwrite))
          · obtain rfl := Except.ok.inj h
            exact .of_eq (congrFun hsame key)

theorem verifySubs_room {subs : List IsmNode} (hsubs : ∀ sub ∈ subs, WellRouted sub →
      (∀ f ∈ fallbackIsms sub, LeavesRoom rt chain message key f) → ∀ metadata s r, (routes sub = true → s.chain = chain) →
      verifyArms rt ism message keys verifyStored sub metadata s = .ok r → KeepsRoom key s.chain r.2.chain)
    (hw : AllWellRouted subs) (hkeeps : ∀ f ∈ allFallbackIsms subs, LeavesRoom rt chain message key f)
    {metadata : List UInt8} {i verified : ℕ} {s : VerifyState} {r : List IsmNode × ℕ × VerifyState}
    (hchain : anyRoutes subs = true → s.chain = chain)
    (h : verifySubs rt ism message keys verifyStored subs metadata i verified s = .ok r) :
    KeepsRoom key s.chain r.2.2.chain := by
  induction subs generalizing i verified s r with
  | nil =>
    obtain rfl := Except.ok.inj h
    exact .of_eq rfl
  | cons sub subs ih =>
    obtain ⟨hwSub, honly, -, hwSubs⟩ := hw
    have ih := @ih (fun sub hsub => hsubs sub (List.mem_cons_of_mem _ hsub)) hwSubs
      fun f hf => hkeeps f (List.mem_append_right _ hf)
    have hchain' : anyRoutes subs = true → s.chain = chain := fun hr => hchain (by rw [anyRoutes, hr, Bool.or_true])
    rw [verifySubs] at h
    cases hat : subMetadataAt metadata i with
    | error e =>
      rw [hat] at h
      cases h
    | ok found =>
      rw [hat] at h
      cases found with
      | none =>
        obtain ⟨r', hrest, rfl⟩ := map_eq_ok.1 h
        have hroom := ih hchain' hrest
        exact hroom
      | some subMeta =>
        obtain ⟨r', hsub, h⟩ := bind_eq_ok.1 h
        obtain ⟨r'', hrest, h⟩ := bind_eq_ok.1 h
        obtain rfl := Except.ok.inj h
        have hfirst := hsubs sub List.mem_cons_self hwSub (fun f hf => hkeeps f (List.mem_append_left _ hf)) subMeta s r'
          (fun hr => hchain (by rw [anyRoutes, hr, Bool.true_or])) hsub
        have hroom := ih (((verifyArms_frame sub subMeta s).of_ok hsub).next honly hchain') hrest
        exact hfirst.trans hroom

/-- **The walk leaves room for the storage**, as does a fallback. -/
theorem verifyArms_room (hdomain : DomainExact rt ism chain message missing required verifyStored)
    (hroutes : ∀ node, storedDomainIsm ism chain (.newReadonly (domainPda rt ism message) false) = .ok (some node) →
      routes node = false) {node : IsmNode} (hw : WellRouted node)
    (hkeeps : ∀ f ∈ fallbackIsms node, LeavesRoom rt chain message key f)
    (metadata : List UInt8) (s : VerifyState) (r : IsmNode × VerifyState) (hchain : routes node = true → s.chain = chain)
    (h : verifyArms rt ism message keys verifyStored node metadata s = .ok r) : KeepsRoom key s.chain r.2.chain := by
  induction node generalizing metadata s r with
  | Aggregation threshold subIsms ih =>
    rw [verifyArms] at h
    obtain ⟨r', hsubs, h⟩ := bind_eq_ok.1 h
    have hroom := verifySubs_room ih hw hkeeps hchain hsubs
    dsimp only at h
    split at h
    · cases h
    · obtain rfl := Except.ok.inj h
      exact hroom
  | AmountRouting threshold lower upper ihLower ihUpper =>
    rw [verifyArms] at h
    cases hamount : parseRoutingAmount message.body with
    | none =>
      rw [hamount] at h
      cases h
    | some amount =>
      rw [hamount] at h
      dsimp only at h
      split at h
      · obtain ⟨r', hupper, rfl⟩ := map_eq_ok.1 h
        exact ihUpper hw.2 (fun f hf => hkeeps f (List.mem_append_right _ hf)) metadata s r'
          (fun hr => hchain (by rw [routes, hr, Bool.or_true])) hupper
      · obtain ⟨r', hlower, rfl⟩ := map_eq_ok.1 h
        exact ihLower hw.1 (fun f hf => hkeeps f (List.mem_append_left _ hf)) metadata s r'
          (fun hr => hchain (by rw [routes, hr, Bool.true_or])) hlower
  | Routing =>
    rw [verifyArms] at h
    obtain ⟨r', htake, h⟩ := bind_eq_ok.1 h
    obtain ⟨r'', htry, h⟩ := bind_eq_ok.1 h
    obtain ⟨hkey, hsame⟩ := takeDomainPda_ok htake
    have hroom : KeepsRoom key r'.2.chain r''.2.chain := tryVerify_room hdomain hroutes hkey (hsame.trans (hchain rfl)) htry
    dsimp only at h
    split at h
    · obtain rfl := Except.ok.inj h
      exact (KeepsRoom.of_eq (congrFun hsame key)).trans hroom
    · cases h
  | FallbackRouting fallbackIsm =>
    rw [verifyArms] at h
    obtain ⟨r', htake, h⟩ := bind_eq_ok.1 h
    obtain ⟨r'', htry, h⟩ := bind_eq_ok.1 h
    obtain ⟨hkey, hsame⟩ := takeDomainPda_ok htake
    have hroom : KeepsRoom key s.chain r''.2.chain := (KeepsRoom.of_eq (congrFun hsame key)).trans
      (tryVerify_room hdomain hroutes hkey (hsame.trans (hchain rfl)) htry)
    dsimp only at h
    split at h
    · obtain rfl := Except.ok.inj h
      exact hroom
    next hnot =>
      obtain ⟨s', hfallback, rfl⟩ := map_eq_ok.1 h
      obtain ⟨-, rfl⟩ | ⟨_, _, htrue, -, -⟩ := tryVerify_ok htry
      · obtain ⟨-, accounts, hverify⟩ := verifyFallback_ok hfallback
        rw [hsame, hchain rfl] at hverify
        rw [hchain rfl]
        exact hkeeps fallbackIsm (List.mem_singleton_self _) accounts metadata _ hverify
      · exact absurd htrue hnot
  | TrustedRelayer relayer => exact ((verifyArms_frame _ metadata s).of_ok h).keepsRoom rfl
  | MultisigMessageId validators threshold => exact ((verifyArms_frame _ metadata s).of_ok h).keepsRoom rfl
  | Test accept => exact ((verifyArms_frame _ metadata s).of_ok h).keepsRoom rfl
  | Pausable paused => exact ((verifyArms_frame _ metadata s).of_ok h).keepsRoom rfl
  | RateLimited maxCapacity recipient filledLevel lastUpdated mailbox =>
    exact ((verifyArms_frame _ metadata s).of_ok h).keepsRoom rfl

end Room

/-! ## The program -/

section Program

variable {rt : Runtime} {ism : CompositeIsm} {chain : Chain} {message : HyperlaneMessage} {missing : ProgramError → Prop}

/-- a result of the root, as the program returns it -/
def fromRoot (rt : Runtime) (ism : CompositeIsm) (result : MetadataSpecResult) : MetadataSpecResult :=
  result.spec.elim (requested (vamPda rt ism.programId :: result.accounts)) fun s => ⟨some s, result.accounts⟩

/-- a pass that loads the storage -/
theorem getMetadataSpec_cons {info : AccountMeta} {storage : CompositeIsmStorage} {root : IsmNode}
    (hload : loadAndVerifyStorage rt ism chain info = .ok storage) (hroot : storage.root = some root)
    (extra : List AccountMeta) : getMetadataSpec rt ism chain (info :: extra) message =
      ((specArms rt ism chain message ((info :: extra).map AccountMeta.pubkey) (storedSpec rt ism chain message
        ((info :: extra).map AccountMeta.pubkey) rt.maxCallDepth) root extra).mapError SpecFault.into).map
          (fromRoot rt ism) := by
  rw [getMetadataSpec, nextAccountInfo]
  dsimp only
  rw [hload]
  dsimp only
  rw [hroot]
  dsimp only
  rw [specAndAccountsForNode_eq]
  cases specArms rt ism chain message ((info :: extra).map AccountMeta.pubkey) (storedSpec rt ism chain message
    ((info :: extra).map AccountMeta.pubkey) rt.maxCallDepth) root extra with
  | error fault => rfl
  | ok result =>
    obtain ⟨s, accounts⟩ := result
    cases s with
    | none => rfl
    | some s => rfl

theorem getMetadataSpec_ok {accounts : List AccountMeta} {result : MetadataSpecResult}
    (h : getMetadataSpec rt ism chain accounts message = .ok result) : ∃ info extra storage root,
      accounts = info :: extra ∧ loadAndVerifyStorage rt ism chain info = .ok storage ∧ storage.root = some root := by
  rw [getMetadataSpec] at h
  cases accounts with
  | nil => cases h
  | cons info extra =>
    rw [nextAccountInfo] at h
    dsimp only at h
    cases hload : loadAndVerifyStorage rt ism chain info with
    | error e =>
      rw [hload] at h
      cases h
    | ok storage =>
      rw [hload] at h
      dsimp only at h
      cases hroot : storage.root with
      | none =>
        rw [hroot] at h
        cases h
      | some root => exact ⟨info, extra, storage, root, rfl, hload, hroot⟩

theorem fromRoot_requested {result : MetadataSpecResult} {accounts : List Pubkey}
    (h : fromRoot rt ism result = requested accounts) :
    ∃ accounts', result = requested accounts' ∧ accounts = vamPda rt ism.programId :: accounts' := by
  obtain ⟨s, accounts'⟩ := result
  cases s with
  | some s => cases h
  | none =>
    cases h
    exact ⟨accounts', rfl, rfl⟩

theorem fromRoot_spec (result : MetadataSpecResult) : (fromRoot rt ism result).spec = result.spec := by
  obtain ⟨s, accounts⟩ := result
  cases s with
  | none => rfl
  | some s => rfl

/-- an error of the program that is no panic -/
def IsReturned (fault : Fault) : Prop := fault ≠ .Overflow

theorem hopeless_root {out : Except SpecFault MetadataSpecResult}
    (h : Hopeless IsReturned ((out.mapError SpecFault.into).map (fromRoot rt ism))) :
    Hopeless SpecFault.IsReturned out ∨ ∃ e, out = .error (.Aborted e) := by
  cases out with
  | ok result => exact .inl ((fromRoot_spec result).symm.trans h)
  | error fault =>
    cases fault with
    | Panic => exact absurd rfl h
    | Returned e => exact .inl trivial
    | Aborted e => exact .inr ⟨e, rfl⟩

/-- the composite ISM as its callers use it -/
def compositeVerifier (rt : Runtime) (ism : CompositeIsm) (chain : Chain) (message : HyperlaneMessage) : Verifier Fault where
  programId := ism.programId
  discovery metadata accounts := discoveryPass (vamPda rt ism.programId)
    ((verifyAccountMetas rt ism chain accounts metadata message).map .Value)
  verify metadata accounts := (verify rt ism chain accounts metadata message).map Prod.fst

/-- what the program lets be stored, over fallbacks whose specification is exact -/
structure SpecAccepted (rt : Runtime) (ism : CompositeIsm) (chain : Chain) (message : HyperlaneMessage)
    (missing : ProgramError → Prop) : Prop where
  accepted : Accepted rt ism chain message missing
  domain : DomainAccepted rt ism chain message
  fallback : ∀ info storage root, loadAndVerifyStorage rt ism chain info = .ok storage → storage.root = some root →
    ∀ f ∈ fallbackIsms root, FallbackSpec rt chain message f
  /-- a program writes to accounts that it owns -/
  owners : ∀ f accounts metadata chain', (rt.programs f).verify chain accounts metadata message = .ok chain' →
    ∀ key, (chain key).owner ≠ f → chain' key = chain key
  /-- the storage PDA is an address for data, which Borsh wrote -/
  data : (chain (vamPda rt ism.programId)).executable = false
  borsh : Borsh ism.deserializeStorage CompositeIsmStorage.serialize

/-- the accounts that callers start with -/
def specStarts (rt : Runtime) (ism : CompositeIsm) (message : HyperlaneMessage) : List (List Pubkey) :=
  [[vamPda rt ism.programId], [vamPda rt ism.programId, domainPda rt ism message]]

/-- the storage PDA, and the accounts that the tree in it is given -/
def RootExtra (rt : Runtime) (ism : CompositeIsm) (chain : Chain) (message : HyperlaneMessage)
    (programs x : List AccountMeta) : Prop :=
  ∃ info extra, x = info :: extra ∧ info.pubkey = vamPda rt ism.programId ∧ ∀ storage root,
    loadAndVerifyStorage rt ism chain info = .ok storage → storage.root = some root →
      Extra rt ism chain message (fallbackIsms root) programs extra

/-- the fallbacks that the message comes to, where no ISM is stored for its origin -/
def FallbacksDependable (rt : Runtime) (ism : CompositeIsm) (chain : Chain) (message : HyperlaneMessage)
    (programs : List AccountMeta) : Prop :=
  ∀ info storage root, loadAndVerifyStorage rt ism chain info = .ok storage → storage.root = some root →
    storedDomainIsm ism chain (.newReadonly (domainPda rt ism message) false) = .ok none →
      ∀ f, Reaches message root f → Dependable rt chain message f programs

/-- what a pass specifies is what `Verify` does: metadata that is built as it says is accepted with the accounts that are
discovered for it, of which there are some; and where it is `CannotVerify` or an error, the root accepts no metadata -/
structure SpecHolds (rt : Runtime) (ism : CompositeIsm) (chain : Chain) (message : HyperlaneMessage)
    (x : List AccountMeta) : Prop where
  accepts : ∀ result s metadata, getMetadataSpec rt ism chain x message = .ok result → result.spec = some s →
    Built rt message s metadata →
      (∃ accounts, verifyAccountMetas rt ism chain accounts metadata message = .ok accounts) ∧
      ∀ accounts, verifyAccountMetas rt ism chain accounts metadata message = .ok accounts →
        ∃ r, verify rt ism chain accounts metadata message = .ok r
  rejects : Hopeless IsReturned (getMetadataSpec rt ism chain x message) → ∀ info storage root,
    loadAndVerifyStorage rt ism chain info = .ok storage → storage.root = some root →
      ∀ metadata instructionAccounts s r, s.chain = chain →
        verifyNode rt ism message instructionAccounts rt.maxCallDepth root metadata s ≠ .ok r

variable (haccepted : SpecAccepted rt ism chain message missing)

include haccepted

/-- **The accounts that the passes of the program reach** -/
theorem specPass_extra {programs x : List AccountMeta} (hprograms : Programs chain programs)
    (hx : SpecPass (specStarts rt ism message) (fun accounts => getMetadataSpec rt ism chain accounts message) programs x) :
    RootExtra rt ism chain message programs x := by
  obtain ⟨start, hstart, hreached⟩ := hx
  refine hreached.keeps (I := RootExtra rt ism chain message programs) (fun a ha => ?_) fun a b ha hpass => ?_
  · obtain rfl := Option.some.inj ha
    rcases List.mem_cons.1 hstart with hstart | hstart
    · obtain ⟨info, extra, rfl, hinfo, hextra⟩ := List.map_eq_cons_iff.1 hstart
      obtain rfl := List.map_eq_nil_iff.1 hextra
      exact ⟨info, [], rfl, hinfo, fun _ _ _ _ => .none⟩
    · obtain ⟨info, extra, rfl, hinfo, hextra⟩ := List.map_eq_cons_iff.1 (List.mem_singleton.1 hstart)
      obtain ⟨acc, extra, rfl, hacc, hextra⟩ := List.map_eq_cons_iff.1 hextra
      obtain rfl := List.map_eq_nil_iff.1 hextra
      exact ⟨info, [acc], rfl, hinfo, fun _ _ _ _ => .domain acc hacc⟩
  · obtain ⟨info, extra, rfl, hinfo, hextra⟩ := ha
    obtain ⟨accounts, hout, rfl⟩ := askedFor_eq_some hpass
    have hout : getMetadataSpec rt ism chain (info :: (extra ++ programs)) message = .ok (requested accounts) := hout
    obtain ⟨info', extra', storage, root, heq, hload, hroot⟩ := getMetadataSpec_ok hout
    obtain ⟨rfl, rfl⟩ := List.cons.inj heq
    rw [getMetadataSpec_cons hload hroot] at hout
    obtain ⟨result, hroot', hresult⟩ := map_eq_ok.1 hout
    obtain ⟨accounts', rfl, rfl⟩ := fromRoot_requested hresult
    refine ⟨.newReadonly (vamPda rt ism.programId) false, accounts'.map (.newReadonly · false), rfl, rfl,
      fun storage' root' hload' hroot'' => ?_⟩
    have hsame : loadAndVerifyStorage rt ism chain info = .ok storage' :=
      (loadAndVerifyStorage_congr hinfo).trans hload'
    obtain rfl := Except.ok.inj (hload.symm.trans hsame)
    obtain rfl := Option.some.inj (hroot.symm.trans hroot'')
    obtain ⟨hvalid, hfallback⟩ := haccepted.accepted.root info storage root hload hroot
    obtain ⟨found, hfound, -⟩ := map_eq_ok.1 hvalid
    rcases (specArms_requested (storedSpec_resolves haccepted.domain _ _) (mapError_eq_ok hroot')).2 with
      rfl | ⟨hhead, f, hf, hasked⟩
    · exact .domain _ rfl
    · exact (hextra storage root hload hroot).next haccepted.domain.data (fun f hf => (hfallback f hf).data) hprograms
        (fallbackIsms_unique hfound) hf hhead hasked

/-- **Metadata that is built is accepted** with the accounts of a fixpoint: the root accepts, and is written back. -/
theorem verify_accepts {storage : CompositeIsmStorage} {root : IsmNode} {info : AccountMeta} {keys : List Pubkey}
    {x : List AccountMeta} {metadata : List UInt8} (hload : loadAndVerifyStorage rt ism chain info = .ok storage)
    (hroot : storage.root = some root) (hleaf : LeavesAccept rt ism chain message keys x root metadata)
    (hb : Builds rt ism chain message keys (storedSpec rt ism chain message keys rt.maxCallDepth) x root metadata)
    {accounts programs : List AccountMeta} (hprograms : Programs chain programs)
    (h : verifyAccountMetas rt ism chain (accounts ++ programs) metadata message = .ok accounts) :
    ∃ r, verify rt ism chain (accounts ++ programs) metadata message = .ok r := by
  obtain ⟨info', extra, storage', root', heq, hload', hroot'⟩ := verifyAccountMetas_ok h
  have hsame : info'.pubkey = info.pubkey :=
    (haccepted.accepted.key info' storage' hload').trans (haccepted.accepted.key info storage hload).symm
  obtain rfl := Except.ok.inj (hload.symm.trans ((loadAndVerifyStorage_congr hsame).symm.trans hload'))
  obtain rfl := Option.some.inj (hroot.symm.trans hroot')
  obtain ⟨hvalid, hexact⟩ := haccepted.accepted.root info' storage root hload' hroot
  obtain ⟨found, hfound, -⟩ := map_eq_ok.1 hvalid
  have hw := wellRouted_of_validateConfig hvalid
  rw [heq, verifyAccountMetas_cons hload' hroot] at h
  obtain ⟨required, hrequired, haccounts⟩ := map_eq_ok.1 h
  rw [← haccounts, List.cons_append] at heq
  obtain ⟨rfl, rfl⟩ := List.cons.inj heq
  have hdomains : DomainsExact rt ism chain message missing (storedRequired rt ism chain message rt.maxCallDepth)
    (storedVerify rt ism message rt.maxCallDepth) := domainsExact haccepted.accepted.domain rt.maxCallDepth
  rw [← haccounts, verify, List.cons_append, nextAccountInfo, lift_ok, ok_bind]
  dsimp only
  rw [hload', lift_ok, ok_bind, hroot]
  dsimp only
  rw [verifyNode_eq]
  have hkeys : ∀ m ∈ required, m.pubkey ∈
      (storageMeta rt ism message root metadata :: (required ++ programs)).map AccountMeta.pubkey := fun m hm =>
    List.mem_map_of_mem (List.mem_cons_of_mem _ (List.mem_append_left _ hm))
  generalize (storageMeta rt ism message root metadata :: (required ++ programs)).map AccountMeta.pubkey = keysVerify
    at hrequired hkeys ⊢
  obtain ⟨r, hr⟩ := verifyArms_accepts (storedAccepts haccepted.domain keys rt.maxCallDepth) hdomains hw hexact
    metadata hleaf hb keysVerify keysVerify required programs ⟨chain, required ++ programs, false⟩ hrequired rfl
    (fun _ => rfl) (fun _ => hprograms) fun _ => hkeys
  have hframe := (verifyArms_frame root metadata _).of_ok hr
  rw [hr, ok_bind]
  split
  next hmutated =>
    have hwritable : (storageMeta rt ism message root metadata).isWritable = true :=
      (hframe.mutated hmutated).resolve_left Bool.false_ne_true
    rw [hwritable, if_neg (Bool.false_ne_true ∘ Eq.symm)]
    obtain ⟨howner, hfetch, -⟩ := load_ok hload'
    have hkeeps : ∀ f ∈ fallbackIsms root, LeavesRoom rt chain message (vamPda rt ism.programId) f := by
      -- the storage is owned by this program, and a fallback is another one
      refine fun f hf accounts metadata chain' hverify =>
        .of_eq (haccepted.owners f accounts metadata chain' hverify _ fun hself => ?_)
      exact fallbackIsms_ne_self hfound f hf (hself.symm.trans howner)
    have hroom := verifyArms_room (hdomains.exact keysVerify keysVerify) haccepted.domain.noRoute hw hkeeps metadata _ r
      (fun _ => rfl) hr
    have hsize : ({ storage with root := some r.1 } : CompositeIsmStorage).serialize.length = storage.serialize.length := by
      simp only [CompositeIsmStorage.serialize, hroot, Option.map_some, serializeOption, List.length_cons,
        List.length_append, hframe.size]
    have hwrite : ∃ chain', store r.2.chain (storageMeta rt ism message root metadata)
        { storage with root := some r.1 }.serialize = .ok chain' := by
      rw [store_ok_iff, hsize]
      refine ⟨hwritable, hroom.1.trans haccepted.data, ?_⟩
      exact (fetchData_length haccepted.borsh hfetch).trans hroom.2.ge
    obtain ⟨chain', hwrite⟩ := hwrite
    rw [hwrite, lift_ok, ok_bind]
    exact ⟨_, rfl⟩
  · exact ⟨_, rfl⟩

/-- what a pass of the program comes to over its fallback -/
theorem root_passCase {info : AccountMeta} {extra programs : List AccountMeta} {storage : CompositeIsmStorage}
    {root : IsmNode} (hextra : Extra rt ism chain message (fallbackIsms root) programs extra)
    (hload : loadAndVerifyStorage rt ism chain info = .ok storage) (hroot : storage.root = some root)
    (hprograms : Programs chain programs) {keys : List Pubkey} (hkeys : ∀ m ∈ extra, m.pubkey ∈ keys) {f : Pubkey}
    (hf : f ∈ fallbackIsms root)
    (hhead : (extra ++ programs).head?.map AccountMeta.pubkey = some (domainPda rt ism message)) :
    PassCase rt ism chain message f programs (specForFallback rt ism chain message keys f (extra ++ programs).tail) := by
  obtain ⟨hvalid, hexact⟩ := haccepted.accepted.root info storage root hload hroot
  obtain ⟨found, hfound, -⟩ := map_eq_ok.1 hvalid
  exact hextra.passCase haccepted.domain.data (fun f hf => (hexact f hf).data) hprograms (fallbackIsms_unique hfound) hf
    hkeys hhead

/-- where a pass comes to `CannotVerify` or to an error, the root accepts nothing -/
theorem root_rejects {x programs : List AccountMeta} (hprograms : Programs chain programs)
    (hdependable : FallbacksDependable rt ism chain message programs) (hx : RootExtra rt ism chain message programs x)
    (h : Hopeless IsReturned (getMetadataSpec rt ism chain (x ++ programs) message)) {info : AccountMeta}
    {storage : CompositeIsmStorage} {root : IsmNode} (hload : loadAndVerifyStorage rt ism chain info = .ok storage)
    (hroot : storage.root = some root) (metadata : List UInt8) (instructionAccounts : List Pubkey) (s : VerifyState)
    (r : IsmNode × VerifyState) (hchain : s.chain = chain) :
    verifyNode rt ism message instructionAccounts rt.maxCallDepth root metadata s ≠ .ok r := by
  obtain ⟨first, extra, rfl, hfirst, hextra⟩ := hx
  have hload' : loadAndVerifyStorage rt ism chain first = .ok storage :=
    (loadAndVerifyStorage_congr (hfirst.trans (haccepted.accepted.key info storage hload).symm)).trans hload
  obtain ⟨hvalid, -⟩ := haccepted.accepted.root info storage root hload hroot
  have hkeys : ∀ m ∈ extra, m.pubkey ∈ (first :: (extra ++ programs)).map AccountMeta.pubkey := fun m hm =>
    List.mem_map_of_mem (List.mem_cons_of_mem _ (List.mem_append_left _ hm))
  have hcase := fun (f : Pubkey) => root_passCase haccepted (hextra storage root hload' hroot) hload' hroot hprograms hkeys
    (f := f)
  rw [List.cons_append, getMetadataSpec_cons hload' hroot] at h
  rcases hopeless_root h with hopeless | ⟨e, haborted⟩
  · rw [verifyNode_eq]
    exact specArms_rejects (storedRejects haccepted.domain _ rt.maxCallDepth) (wellRouted_of_validateConfig hvalid)
      (fun f hf hhead => (hcase f hf hhead).rejects hprograms (haccepted.fallback info storage root hload hroot f hf))
      hopeless metadata instructionAccounts s r fun _ => hchain
  · -- the message comes to a fallback, and a call into it fails
    obtain ⟨f, hreaches, hhead, hnone, hfallback⟩ := specArms_aborted (storedSpec_not_aborted haccepted.domain _ _) haborted
    have hf := hdependable info storage root hload hroot hnone f hreaches
    exact absurd hfallback ((hcase f hreaches.mem hhead).not_aborted hf e)

/-- metadata that is built as a pass says is accepted -/
theorem root_accepts {x programs : List AccountMeta} (hprograms : Programs chain programs)
    (hdependable : FallbacksDependable rt ism chain message programs) (hx : RootExtra rt ism chain message programs x)
    {result : MetadataSpecResult} {s : MetadataSpec} {metadata : List UInt8}
    (h : getMetadataSpec rt ism chain (x ++ programs) message = .ok result) (hs : result.spec = some s)
    (hb : Built rt message s metadata) : (compositeVerifier rt ism chain message).Accepts rt chain metadata := by
  obtain ⟨info, extra, rfl, hinfo, hextra⟩ := hx
  obtain ⟨info', extra', storage, root, heq, hload, hroot⟩ := getMetadataSpec_ok h
  rw [List.cons_append] at heq
  obtain ⟨rfl, rfl⟩ := List.cons.inj heq
  rw [List.cons_append, getMetadataSpec_cons hload hroot] at h
  obtain ⟨rootResult, hspec, rfl⟩ := map_eq_ok.1 h
  rw [fromRoot_spec] at hs
  have hkeys : ∀ m ∈ extra, m.pubkey ∈ (info :: (extra ++ programs)).map AccountMeta.pubkey := fun m hm =>
    List.mem_map_of_mem (List.mem_cons_of_mem _ (List.mem_append_left _ hm))
  have hleaf : LeavesAccept rt ism chain message ((info :: (extra ++ programs)).map AccountMeta.pubkey)
      (extra ++ programs) root metadata := by
    intro f entry hands result' s' hhead hnone hresult hs' hbuilt
    have hreaches := hands.reaches
    have hfallback := hdependable info storage root hload hroot hnone f hreaches
    refine ⟨hfallback.executable, ?_⟩
    exact (root_passCase haccepted (hextra storage root hload hroot) hload hroot hprograms hkeys hreaches.mem hhead).accepts
      hprograms (haccepted.fallback info storage root hload hroot f hreaches.mem) hfallback hresult hs' hbuilt
  have hbuilds : Builds rt ism chain message _ _ (extra ++ programs) root metadata :=
    ⟨rootResult, s, mapError_eq_ok hspec, hs, hb⟩
  obtain ⟨hvalid, -⟩ := haccepted.accepted.root info storage root hload hroot
  constructor
  · intro programs' hprograms'
    obtain ⟨accounts, hfound⟩ := required_found (storedAccepts haccepted.domain _ rt.maxCallDepth)
      (wellRouted_of_validateConfig hvalid) metadata hleaf programs' hbuilds fun _ => hprograms'
    refine ⟨storageMeta rt ism message root metadata :: accounts, ?_⟩
    have hload' : loadAndVerifyStorage rt ism chain (storageMeta rt ism message root metadata) = .ok storage :=
      (loadAndVerifyStorage_congr hinfo.symm).trans hload
    change discoveryPass _ _ = _
    rw [discoveryPass_verifyAccountMetas, List.cons_append, verifyAccountMetas_cons hload' hroot, hfound _ fun m hm =>
      List.mem_map_of_mem (List.mem_cons_of_mem _ (List.mem_append_left _ hm))]
    rfl
  · intro programs' accounts hprograms' hdiscovered
    change discoveryPass _ _ = _ at hdiscovered
    rw [discoveryPass_verifyAccountMetas] at hdiscovered
    have hfix := toOption_eq_some hdiscovered
    obtain ⟨r, hr⟩ := verify_accepts haccepted hload hroot hleaf hbuilds hprograms' hfix
    refine ⟨r.1, ?_⟩
    change (verify rt ism chain _ metadata message).map Prod.fst = _
    rw [show (compositeVerifier rt ism chain message).programId = ism.programId from rfl, fallbackAccounts_of_ok hfix, hr]
    rfl

/-- **The metadata specification is exact** in a pass, with fallbacks with which the walk does not go wrong. -/
theorem specHolds_of_dependable (hdependable : FallbacksDependable rt ism chain message []) {x : List AccountMeta}
    (hx : SpecPass (specStarts rt ism message) (fun accounts => getMetadataSpec rt ism chain accounts message) [] x) :
    SpecHolds rt ism chain message x := by
  have hnone : Programs chain [] := fun _ hm => absurd hm List.not_mem_nil
  have hextra := specPass_extra haccepted hnone hx
  constructor
  · intro result s metadata h hs hb
    rw [← List.append_nil x] at h
    obtain ⟨hfound, haccepts⟩ := root_accepts haccepted hnone hdependable hextra h hs hb
    refine ⟨?_, fun accounts hfix => ?_⟩
    · obtain ⟨accounts, hfound⟩ := hfound [] hnone
      change discoveryPass _ _ = _ at hfound
      rw [discoveryPass_verifyAccountMetas, List.append_nil] at hfound
      exact ⟨accounts, toOption_eq_some hfound⟩
    · obtain ⟨chain', hverify⟩ := haccepts [] accounts hnone (by
        change discoveryPass _ _ = _
        rw [discoveryPass_verifyAccountMetas, List.append_nil, hfix]
        rfl)
      rw [List.append_nil, show (compositeVerifier rt ism chain message).programId = ism.programId from rfl,
        fallbackAccounts_of_ok hfix] at hverify
      obtain ⟨r, hr, -⟩ := map_eq_ok.1 hverify
      exact ⟨r, hr⟩
  · intro hopeless info storage root hload hroot
    rw [← List.append_nil x] at hopeless
    exact root_rejects haccepted hnone hdependable hextra hopeless hload hroot

/-- so a composite ISM can be a fallback itself -/
theorem specExact_of_dependable (hdependable : ∀ programs, FallbacksDependable rt ism chain message programs) :
    SpecExact rt chain message (specStarts rt ism message) (fun accounts => getMetadataSpec rt ism chain accounts message)
      IsReturned (compositeVerifier rt ism chain message) := by
  intro programs x hprograms hx
  have hextra := specPass_extra haccepted hprograms hx
  refine ⟨fun result s metadata h hs hb => root_accepts haccepted hprograms (hdependable programs) hextra h hs hb,
    fun hopeless metadata accounts chain' hok => ?_⟩
  obtain ⟨r, hr, -⟩ := map_eq_ok.1 hok
  obtain ⟨info, storage, root, rest, s, hload, hroot, hnode⟩ := verify_ok hr
  exact root_rejects haccepted hprograms (hdependable programs) hextra hopeless hload hroot metadata _ _ s rfl hnode

end Program

end Hyperlane.Composite
