/-
The accounts of the composite ISM (rust/sealevel/programs/ism/composite-ism): the load of its storage and of its domain ISMs
(accounts.rs, processor.rs), and the discovery of the accounts that `Verify` needs (account_metas.rs).

A pass is given the accounts that the pass before it returned, and reads the domain PDA and the fallback's accounts at their
positions in that list. Borsh's deserialization of the program's accounts is a parameter (`CompositeIsm`), as is the rest of
the chain (`Runtime`); domain ISMs are walked as deep as the call depth allows.

- `reachable_imp_contains`: a `RateLimited` node that is reached is in the tree.
- `requiredArms_of_not_routes`: a tree without routing nodes reads none of the accounts that it is given.
-/
import Hyperlane.Composite.RateLimit

namespace Hyperlane.Composite

open Hyperlane.Bytes Hyperlane.Outcome Hyperlane.Sealevel
open Hyperlane.Relayer (H160 H256 HyperlaneMessage)

/-! ## Stored accounts -/

/-- a deployed composite ISM, with what Borsh reads from its accounts -/
structure CompositeIsm where
  programId : Pubkey
  deserializeStorage : List UInt8 → Option CompositeIsmStorage
  deserializeDomain : List UInt8 → Option DomainIsmStorage

def DOMAIN_ISM_SEED : List UInt8 := "domain_ism".toUTF8.toList

/-- `derive_domain_pda` -/
def deriveDomainPda (rt : Runtime) (programId : Pubkey) (domain : UInt32) : Pubkey × UInt8 :=
  rt.findProgramAddress [DOMAIN_ISM_SEED, le 4 domain.toNat] programId

/-- the PDA that `VerifyAccountMetas` of an ISM program starts with; the storage PDA of a composite ISM -/
def vamPda (rt : Runtime) (programId : Pubkey) : Pubkey := (rt.findProgramAddress VERIFY_ACCOUNT_METAS_PDA_SEEDS programId).1

/-- `load_and_validate_domain_ism_storage` -/
def loadAndValidateDomainIsmStorage (rt : Runtime) (ism : CompositeIsm) (chain : Chain) (domain : UInt32)
    (account : AccountMeta) : Except ProgramError (Option DomainIsmStorage) :=
  if (chain account.pubkey).owner ≠ ism.programId then .ok none
  else
    match fetchData ism.deserializeDomain (chain account.pubkey).data with
    | .error e => .error e
    | .ok none => .error .UninitializedAccount
    | .ok (some storage) =>
      match rt.createProgramAddress [DOMAIN_ISM_SEED, le 4 domain.toNat, [storage.bumpSeed]] ism.programId with
      | none => .error .InvalidSeeds
      | some expectedKey => if account.pubkey ≠ expectedKey then .error .InvalidAccountData else .ok (some storage)

/-- `load_and_verify_storage` -/
def loadAndVerifyStorage (rt : Runtime) (ism : CompositeIsm) (chain : Chain) (storagePdaAccount : AccountMeta) :
    Except ProgramError CompositeIsmStorage :=
  if (chain storagePdaAccount.pubkey).owner ≠ ism.programId then .error Error.ProgramIdNotOwner.into
  else
    match fetchData ism.deserializeStorage (chain storagePdaAccount.pubkey).data with
    | .error e => .error e
    | .ok none => .error Error.AccountNotInitialized.into
    | .ok (some storage) =>
      match rt.createProgramAddress (VERIFY_ACCOUNT_METAS_PDA_SEEDS ++ [[storage.bumpSeed]]) ism.programId with
      | none => .error .InvalidSeeds
      | some storagePdaKey =>
        if storagePdaAccount.pubkey ≠ storagePdaKey then .error Error.InvalidStoragePda.into else .ok storage

/-! ## Writable accounts -/

mutual

/-- `contains_rate_limited` -/
def containsRateLimited : IsmNode → Bool
  | .RateLimited .. => true
  | .Aggregation _ subIsms => anyContainsRateLimited subIsms
  | .AmountRouting _ lower upper => containsRateLimited lower || containsRateLimited upper
  | .Routing | .FallbackRouting _ | .MultisigMessageId .. | .TrustedRelayer _ | .Pausable _ | .Test _ => false

def anyContainsRateLimited : List IsmNode → Bool
  | [] => false
  | sub :: subs => containsRateLimited sub || anyContainsRateLimited subs

end

section Reachable

variable (message : HyperlaneMessage)

mutual

/-- `reachable_contains_rate_limited` -/
def reachableContainsRateLimited : IsmNode → List UInt8 → Bool
  | .RateLimited .., _ => true
  | .Aggregation _ subIsms, metadata => anyReachable subIsms metadata 0
  | .AmountRouting threshold lower upper, metadata =>
    match parseRoutingAmount message.body with
    | none => false
    | some amount =>
      if threshold ≤ amount then reachableContainsRateLimited upper metadata else reachableContainsRateLimited lower metadata
  | .Routing, _ | .FallbackRouting _, _ | .MultisigMessageId .., _ | .TrustedRelayer _, _ | .Pausable _, _ | .Test _, _ =>
    false

/-- from the sub-ISM `i` on -/
def anyReachable : List IsmNode → List UInt8 → ℕ → Bool
  | [], _, _ => false
  | sub :: subs, metadata, i =>
    (match subMetadataAt metadata i with
      | .ok (some subMeta) => reachableContainsRateLimited sub subMeta
      | _ => false) || anyReachable subs metadata (i + 1)

end

end Reachable

/-! ## Required accounts -/

section Required

variable (rt : Runtime) (ism : CompositeIsm) (chain : Chain) (message : HyperlaneMessage)

/-- a walk over the nodes of a tree, with the metadata and the accounts that are given -/
abbrev Required := IsmNode → List UInt8 → List AccountMeta → Except ProgramError (List AccountMeta)

def domainPda : Pubkey := (deriveDomainPda rt ism.programId message.origin).1

/-- the ISM that is read from a domain PDA -/
def storedDomainIsm (domainAcc : AccountMeta) : Except ProgramError (Option IsmNode) :=
  if (chain domainAcc.pubkey).owner ≠ ism.programId then .ok none
  else
    match fetchData ism.deserializeDomain (chain domainAcc.pubkey).data with
    | .ok (some storage) => .ok storage.ism
    | .ok none => .ok none
    | .error _ => .error .InvalidAccountData

/-- the domain PDA and the accounts of the ISM in it, where there is one -/
def requiredForDomain (required : Required) (domainAcc : AccountMeta) (metadata : List UInt8)
    (extraAccounts : List AccountMeta) : Except ProgramError (Option (List AccountMeta)) := do
  let stored ← storedDomainIsm ism chain domainAcc
  match stored with
  | none => .ok none
  | some node => do
    let nodeAccounts ← required node metadata extraAccounts
    let domainMeta : AccountMeta :=
      if containsRateLimited node = true then .new (domainPda rt ism message) false
      else .newReadonly (domainPda rt ism message) false
    .ok (some (domainMeta :: nodeAccounts))

def requiredForRouting (required : Required) (metadata : List UInt8) (extraAccounts : List AccountMeta) :
    Except ProgramError (List AccountMeta) :=
  let domainOnly : List AccountMeta := [.newReadonly (domainPda rt ism message) false]
  match extraAccounts with
  | [] => .ok domainOnly
  | domainAcc :: _ =>
    if domainAcc.pubkey = domainPda rt ism message then do
      let domain ← requiredForDomain rt ism chain message required domainAcc metadata extraAccounts
      .ok (domain.getD domainOnly)
    else .ok domainOnly

/-- the sentinel and the accounts that a fallback asked for; a sentinel that it asked for itself is not doubled -/
def withSentinel (sentinel : Pubkey) : List AccountMeta → List AccountMeta
  | [] => [.newReadonly sentinel false]
  | first :: inner =>
    if first.pubkey = sentinel then ⟨sentinel, false || first.isSigner, false || first.isWritable⟩ :: inner
    else .newReadonly sentinel false :: first :: inner

/-- the passes for a fallback: its storage PDA and its program, then what its `VerifyAccountMetas` returns -/
def requiredForFallback (instructionAccounts : List Pubkey) (fallbackIsm : Pubkey) (metadata : List UInt8)
    (extraAccounts : List AccountMeta) : Except ProgramError (List AccountMeta) :=
  let domainMeta : AccountMeta := .newReadonly (domainPda rt ism message) false
  let program : AccountMeta := .newReadonly fallbackIsm false
  let storageKey := vamPda rt fallbackIsm
  if extraAccounts.head?.map AccountMeta.pubkey = some storageKey then do
    let returned ← rt.invoke chain instructionAccounts fallbackIsm
      fun p => p.verifyAccountMetas chain extraAccounts metadata message
    match returned with
    | .Absent => .error Error.InvalidFallbackIsmAccount.into
    | .Malformed => .error .BorshIoError
    | .Value accounts => .ok (domainMeta :: withSentinel storageKey accounts ++ [program])
  else .ok [domainMeta, .newReadonly storageKey false, program]

def requiredForFallbackRouting (required : Required) (instructionAccounts : List Pubkey) (fallbackIsm : Pubkey)
    (metadata : List UInt8) (extraAccounts : List AccountMeta) : Except ProgramError (List AccountMeta) :=
  let domainOnly : List AccountMeta := [.newReadonly (domainPda rt ism message) false]
  match extraAccounts with
  | [] => .ok domainOnly
  | domainAcc :: rest =>
    if domainAcc.pubkey = domainPda rt ism message then do
      let domain ← requiredForDomain rt ism chain message required domainAcc metadata extraAccounts
      match domain with
      | some accounts => .ok accounts
      | none => requiredForFallback rt ism chain message instructionAccounts fallbackIsm metadata rest
    else .ok domainOnly

variable (instructionAccounts : List Pubkey) (required : Required)

mutual

/-- the arms of `required_accounts_for_node`, over what a domain ISM requires -/
def requiredArms : Required
  | .TrustedRelayer relayer, _, _ => .ok [⟨relayer, true, false⟩]
  | .MultisigMessageId .., _, _ => .ok []
  | .Aggregation _ subIsms, metadata, extraAccounts => requiredSubs subIsms metadata 0 extraAccounts
  | .AmountRouting threshold lower upper, metadata, extraAccounts =>
    match parseRoutingAmount message.body with
    | none => .error Error.InvalidMessageBody.into
    | some amount =>
      if threshold ≤ amount then requiredArms upper metadata extraAccounts else requiredArms lower metadata extraAccounts
  | .Routing, metadata, extraAccounts => requiredForRouting rt ism chain message required metadata extraAccounts
  | .FallbackRouting fallbackIsm, metadata, extraAccounts =>
    requiredForFallbackRouting rt ism chain message required instructionAccounts fallbackIsm metadata extraAccounts
  | .RateLimited _ _ _ _ mailbox, _, _ => .ok [.newReadonly (deriveProcessAuthority rt mailbox ism.programId).1 true]
  | .Test _, _, _ | .Pausable _, _, _ => .ok []

/-- from the sub-ISM `i` on; what one returns is passed over for the next -/
def requiredSubs : List IsmNode → List UInt8 → ℕ → List AccountMeta → Except ProgramError (List AccountMeta)
  | [], _, _, _ => .ok []
  | sub :: subs, metadata, i, extraCursor =>
    match subMetadataAt metadata i with
    | .error e => .error e.into
    | .ok none => requiredSubs subs metadata (i + 1) extraCursor
    | .ok (some subMeta) => do
      let subAccounts ← requiredArms sub subMeta extraCursor
      let accounts ← requiredSubs subs metadata (i + 1) (extraCursor.drop subAccounts.length)
      .ok (subAccounts ++ accounts)

end

end Required

section

variable (rt : Runtime) (ism : CompositeIsm) (chain : Chain) (message : HyperlaneMessage) (instructionAccounts : List Pubkey)

/-- `required_accounts_for_node`; `depth` bounds how deep domain ISMs nest -/
def requiredAccountsForNode : ℕ → Required
  | 0 => requiredArms rt ism chain message instructionAccounts fun _ _ _ => .error .CallDepth
  | depth + 1 => requiredArms rt ism chain message instructionAccounts (requiredAccountsForNode depth)

/-- `all_verify_account_metas` -/
def allVerifyAccountMetas (vamPdaKey : Pubkey) (root : IsmNode) (metadata : List UInt8) (extraAccounts : List AccountMeta) :
    Except ProgramError (List AccountMeta) := do
  let storageMeta : AccountMeta :=
    if reachableContainsRateLimited message root metadata = true then .new vamPdaKey false else .newReadonly vamPdaKey false
  let required ← requiredAccountsForNode rt ism chain message instructionAccounts rt.maxCallDepth root metadata extraAccounts
  .ok (storageMeta :: required)

end

/-- `verify_account_metas` -/
def verifyAccountMetas (rt : Runtime) (ism : CompositeIsm) (chain : Chain) (accounts : List AccountMeta)
    (metadata : List UInt8) (message : HyperlaneMessage) : Except ProgramError (List AccountMeta) := do
  let (storageInfo, extra) ← nextAccountInfo accounts
  let storage ← loadAndVerifyStorage rt ism chain storageInfo
  match storage.root with
  | none => .error Error.ConfigNotSet.into
  | some root =>
    allVerifyAccountMetas rt ism chain message (accounts.map AccountMeta.pubkey) (vamPda rt ism.programId) root metadata extra

/-! ## What a walk reads -/

section Reads

variable {rt : Runtime} {ism : CompositeIsm} {chain : Chain} {message : HyperlaneMessage}
  {instructionAccounts instructionAccounts' : List Pubkey} {required required' : Required}

/-- the stored ISM depends on the key alone -/
theorem storedDomainIsm_congr {x y : AccountMeta} (h : x.pubkey = y.pubkey) :
    storedDomainIsm ism chain x = storedDomainIsm ism chain y := by
  rw [storedDomainIsm, storedDomainIsm, h]

/-- the load for `Verify` finds what the discovery of accounts reads -/
theorem load_stored {domainAcc : AccountMeta} {loaded : Option DomainIsmStorage}
    (h : loadAndValidateDomainIsmStorage rt ism chain message.origin domainAcc = .ok loaded) :
    storedDomainIsm ism chain domainAcc = .ok (loaded.bind DomainIsmStorage.ism) := by
  rw [loadAndValidateDomainIsmStorage] at h
  rw [storedDomainIsm]
  split at h
  next howner =>
    rw [if_pos howner, ← Except.ok.inj h]
    rfl
  next howner =>
    rw [if_neg howner]
    split at h
    · cases h
    · cases h
    next storage hfetch =>
      rw [hfetch]
      split at h
      · cases h
      · split at h
        · cases h
        · rw [← Except.ok.inj h]
          rfl

theorem anyReachable_imp_contains {subs : List IsmNode} (hsubs : ∀ sub ∈ subs, ∀ metadata,
    reachableContainsRateLimited message sub metadata = true → containsRateLimited sub = true) {metadata : List UInt8} {i : ℕ}
    (h : anyReachable message subs metadata i = true) : anyContainsRateLimited subs = true := by
  induction subs generalizing i with
  | nil => cases h
  | cons sub subs ih =>
    rw [anyReachable, Bool.or_eq_true] at h
    rw [anyContainsRateLimited, Bool.or_eq_true]
    rcases h with hsub | hrest
    · split at hsub
      · exact .inl (hsubs sub List.mem_cons_self _ hsub)
      · cases hsub
    · exact .inr (ih (fun sub hsub => hsubs sub (List.mem_cons_of_mem _ hsub)) hrest)

/-- the static check covers the one for a message -/
theorem reachable_imp_contains {node : IsmNode} {metadata : List UInt8}
    (h : reachableContainsRateLimited message node metadata = true) : containsRateLimited node = true := by
  induction node generalizing metadata with
  | RateLimited maxCapacity recipient filledLevel lastUpdated mailbox => rfl
  | Aggregation threshold subIsms ih => exact anyReachable_imp_contains (fun sub hsub _ => ih sub hsub) h
  | AmountRouting threshold lower upper ihLower ihUpper =>
    rw [reachableContainsRateLimited] at h
    rw [containsRateLimited, Bool.or_eq_true]
    split at h
    · cases h
    · split at h
      · exact .inr (ihUpper h)
      · exact .inl (ihLower h)
  | TrustedRelayer relayer => cases h
  | MultisigMessageId validators threshold => cases h
  | Test accept => cases h
  | Pausable paused => cases h
  | Routing => cases h
  | FallbackRouting fallbackIsm => cases h

theorem requiredSubs_of_not_routes {subs : List IsmNode} (hsubs : ∀ sub ∈ subs, routes sub = false → ∀ metadata x y,
    requiredArms rt ism chain message instructionAccounts required sub metadata x =
      requiredArms rt ism chain message instructionAccounts' required' sub metadata y) (h : anyRoutes subs = false)
    (metadata : List UInt8) (i : ℕ) (x y : List AccountMeta) :
    requiredSubs rt ism chain message instructionAccounts required subs metadata i x =
      requiredSubs rt ism chain message instructionAccounts' required' subs metadata i y := by
  induction subs generalizing i x y with
  | nil => rw [requiredSubs, requiredSubs]
  | cons sub subs ih =>
    rw [anyRoutes, Bool.or_eq_false_iff] at h
    have ih := ih (fun sub hsub => hsubs sub (List.mem_cons_of_mem _ hsub)) h.2
    rw [requiredSubs, requiredSubs]
    cases subMetadataAt metadata i with
    | error e => rfl
    | ok found =>
      cases found with
      | none => exact ih (i + 1) x y
      | some subMeta =>
        dsimp only
        rw [hsubs sub List.mem_cons_self h.1 subMeta x y]
        refine congrArg _ (funext fun subAccounts => ?_)
        rw [ih (i + 1) (x.drop subAccounts.length) (y.drop subAccounts.length)]

/-- **A tree without routing nodes** reads none of the accounts that it is given, and calls nothing -/
theorem requiredArms_of_not_routes {node : IsmNode} (h : routes node = false) (metadata : List UInt8)
    (x y : List AccountMeta) : requiredArms rt ism chain message instructionAccounts required node metadata x =
      requiredArms rt ism chain message instructionAccounts' required' node metadata y := by
  induction node generalizing metadata x y with
  | Aggregation threshold subIsms ih =>
    exact requiredSubs_of_not_routes (fun sub hsub hr => ih sub hsub hr) h metadata 0 x y
  | AmountRouting threshold lower upper ihLower ihUpper =>
    rw [routes, Bool.or_eq_false_iff] at h
    rw [requiredArms, requiredArms]
    cases parseRoutingAmount message.body with
    | none => rfl
    | some amount =>
      dsimp only
      rw [ihLower h.1 metadata x y, ihUpper h.2 metadata x y]
  | RateLimited maxCapacity recipient filledLevel lastUpdated mailbox => rw [requiredArms, requiredArms]
  | TrustedRelayer relayer => rw [requiredArms, requiredArms]
  | MultisigMessageId validators threshold => rw [requiredArms, requiredArms]
  | Test accept => rw [requiredArms, requiredArms]
  | Pausable paused => rw [requiredArms, requiredArms]
  | Routing => cases h
  | FallbackRouting fallbackIsm => cases h

end Reads

end Hyperlane.Composite
