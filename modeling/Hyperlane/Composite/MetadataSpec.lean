/-
The metadata that the composite ISM asks for (rust/sealevel/programs/ism/composite-ism, metadata_spec.rs): a walk over the
tree for a message, without metadata, that returns a specification or asks for accounts.

- `specOverDomain_spec`: what a routing node comes to, by what is stored for the message's origin.
- `specArms_skipped`: the errors that a tree returns are those that an aggregation takes for a member that cannot be verified.
-/
import Hyperlane.Composite.AccountMetas

namespace Hyperlane.Composite

open Hyperlane.Bytes Hyperlane.Outcome Hyperlane.Sealevel
open Hyperlane.Relayer (H160 H256 HyperlaneMessage)

/-! ## The walk -/

/-- a panic, an error that is returned, or a call that failed and did not return -/
inductive SpecFault where
  | Panic
  | Returned (e : Error)
  | Aborted (e : ProgramError)
deriving DecidableEq

/-- an error that the walk returns -/
def SpecFault.IsReturned : SpecFault → Prop
  | .Panic | .Aborted _ => False
  | .Returned _ => True

/-- an error of the walk -/
def specError {α : Type} (e : Error) : Except SpecFault α := .error (.Returned e)

/-- resolved -/
def resolved (spec : MetadataSpec) : MetadataSpecResult := ⟨some spec, []⟩

/-- the accounts for the next pass -/
def requested (accounts : List Pubkey) : MetadataSpecResult := ⟨none, accounts⟩

/-- `matches!(s, MetadataSpec::CannotVerify)` -/
def cannotVerify : MetadataSpec → Bool
  | .CannotVerify => true
  | .Null | .MultisigMessageId .. | .Aggregation .. | .TrustedRelayer _ => false

/-- `rate_limited_spec` -/
def rateLimitedSpec (clock : Option ℤ) (message : HyperlaneMessage) (maxCapacity : UInt64) (recipient : Option H256)
    (filledLevel : UInt64) (lastUpdated : ℤ) : Except SpecFault MetadataSpec :=
  if recipient.any fun r => message.recipient ≠ r then .ok .CannotVerify
  else if message.body.length < 64 then .ok .CannotVerify
  else if ((message.body.drop 32).take 24).any fun b => b != 0 then .ok .CannotVerify
  else
    let amount := UInt64.ofNat (ofBe ((message.body.drop 56).take 8))
    match clock with
    | none => .ok .CannotVerify
    | some now =>
      match calculateCurrentLevel filledLevel lastUpdated now maxCapacity with
      | .error _ => .error .Panic
      | .ok adjusted => if adjusted < amount then .ok .CannotVerify else .ok .Null

def UNUSED : ℕ := 0

def MESSAGE_ID_MULTISIG : ℕ := 5

/-- `domain_data_pda` of a multisig ISM -/
def domainDataPda (rt : Runtime) (programId : Pubkey) (domain : UInt32) : Pubkey × UInt8 :=
  rt.findProgramAddress ["multisig_ism_message_id".toUTF8.toList, "-".toUTF8.toList, le 4 domain.toNat, "-".toUTF8.toList,
    "domain_data".toUTF8.toList] programId

/-- the answer of a fallback; `map_err` on a failed call is never reached -/
def fallbackAnswer {α : Type} : Except ProgramError (ReturnData α) → Except SpecFault α
  | .ok (.Value a) => .ok a
  | .ok .Absent | .ok .Malformed => specError .FallbackIsmCallFailed
  | .error e => .error (.Aborted e)

section Spec

variable (rt : Runtime) (ism : CompositeIsm) (chain : Chain) (message : HyperlaneMessage)

/-- a walk over the nodes of a tree, with the accounts that are given -/
abbrev SpecWalk := IsmNode → List AccountMeta → Except SpecFault MetadataSpecResult

/-- the load of a domain PDA; whatever is wrong with it, the config is -/
def loadForSpec (domainPdaInfo : AccountMeta) : Except SpecFault (Option DomainIsmStorage) :=
  match loadAndValidateDomainIsmStorage rt ism chain message.origin domainPdaInfo with
  | .error _ => specError .InvalidConfig
  | .ok loaded => .ok loaded

/-- `spec_for_domain_override` -/
def specForDomainOverride (spec : SpecWalk) (loaded : Option DomainIsmStorage) (extraAccounts : List AccountMeta) :
    Except SpecFault (Option MetadataSpecResult) :=
  match loaded.bind DomainIsmStorage.ism with
  | none => .ok none
  | some node => (spec node extraAccounts).map some

/-- what both routing nodes do: the domain PDA, and the ISM that is stored in it; `absent` is what is done without one -/
def specOverDomain (spec : SpecWalk) (absent : List AccountMeta → Except SpecFault MetadataSpecResult)
    (extraAccounts : List AccountMeta) : Except SpecFault MetadataSpecResult :=
  match extraAccounts with
  | [] => .ok (requested [domainPda rt ism message])
  | domainPdaInfo :: rest =>
    if domainPdaInfo.pubkey = domainPda rt ism message then do
      let loaded ← loadForSpec rt ism chain message domainPdaInfo
      let result ← specForDomainOverride spec loaded extraAccounts
      match result with
      | some result => .ok result
      | none => absent rest
    else .ok (requested [domainPda rt ism message])

variable (instructionAccounts : List Pubkey)

/-- a fallback of the type `MessageIdMultisig`, which need not have `VerifyMetadataSpec` -/
def specForMultisigFallback (fallbackIsm : Pubkey) (extraAccounts : List AccountMeta) : Except SpecFault MetadataSpecResult :=
  let multisigDomainPda := (domainDataPda rt fallbackIsm message.origin).1
  if extraAccounts[1]?.map AccountMeta.pubkey = some multisigDomainPda then do
    let vat ← fallbackAnswer (rt.invoke chain instructionAccounts fallbackIsm
      fun p => p.validatorsAndThreshold chain [.newReadonly multisigDomainPda false] message)
    .ok (resolved (.MultisigMessageId vat.validators vat.threshold))
  else .ok (requested [domainPda rt ism message, vamPda rt fallbackIsm, multisigDomainPda, fallbackIsm])

/-- the passes for a fallback; `extraAccounts` are those after the domain PDA -/
def specForFallback (fallbackIsm : Pubkey) (extraAccounts : List AccountMeta) : Except SpecFault MetadataSpecResult :=
  let fallbackVamPda := vamPda rt fallbackIsm
  if extraAccounts.head?.map AccountMeta.pubkey = some fallbackVamPda then do
    let fallbackType ← fallbackAnswer (rt.invoke chain instructionAccounts fallbackIsm
      fun p => p.type chain [.newReadonly fallbackVamPda false])
    if fallbackType = MESSAGE_ID_MULTISIG then
      specForMultisigFallback rt ism chain message instructionAccounts fallbackIsm extraAccounts
    else if fallbackType = UNUSED then .ok (resolved .Null)
    else do
      let result ← fallbackAnswer (rt.invoke chain instructionAccounts fallbackIsm
        fun p => p.verifyMetadataSpec chain extraAccounts message)
      match result.spec with
      | some spec => .ok (resolved spec)
      | none => .ok (requested (domainPda rt ism message :: result.accounts ++ [fallbackIsm]))
  else .ok (requested [domainPda rt ism message, fallbackVamPda, fallbackIsm])

/-- the errors that an aggregation takes for a member that cannot be verified -/
def skippedErrors : List Error := [.NoRouteForDomain, .InvalidMessageBody, .ThresholdNotMet, .FallbackIsmCallFailed]

/-- what the loop of an aggregation comes to: accounts that a member asks for, or the members' specifications -/
inductive SubSpecs where
  | Requested (accounts : List Pubkey)
  | Resolved (subSpecs : List MetadataSpec)

def SubSpecs.cons (spec : MetadataSpec) : SubSpecs → SubSpecs
  | .Requested accounts => .Requested accounts
  | .Resolved subSpecs => .Resolved (spec :: subSpecs)

variable (spec : SpecWalk)

mutual

/-- the arms of `spec_and_accounts_for_node`, over what is done with a domain ISM -/
def specArms : SpecWalk
  | .MultisigMessageId validators threshold, _ => .ok (resolved (.MultisigMessageId validators threshold))
  | .Aggregation threshold subIsms, extraAccounts => do
    let subs ← specSubs subIsms extraAccounts
    match subs with
    | .Requested accounts => .ok (requested accounts)
    | .Resolved subSpecs =>
      if (subSpecs.filter fun s => !cannotVerify s).length < threshold.toNat then specError .ThresholdNotMet
      else .ok (resolved (.Aggregation threshold subSpecs))
  | .AmountRouting threshold lower upper, extraAccounts =>
    match parseRoutingAmount message.body with
    | none => specError .InvalidMessageBody
    | some amount => if threshold ≤ amount then specArms upper extraAccounts else specArms lower extraAccounts
  | .Routing, extraAccounts => specOverDomain rt ism chain message spec (fun _ => specError .NoRouteForDomain) extraAccounts
  | .FallbackRouting fallbackIsm, extraAccounts =>
    specOverDomain rt ism chain message spec (specForFallback rt ism chain message instructionAccounts fallbackIsm)
      extraAccounts
  | .TrustedRelayer relayer, _ => .ok (resolved (.TrustedRelayer relayer))
  | .Test accept, _ => .ok (resolved (if accept = true then .Null else .CannotVerify))
  | .Pausable paused, _ => .ok (resolved (if paused = false then .Null else .CannotVerify))
  | .RateLimited maxCapacity recipient filledLevel lastUpdated _, _ =>
    (rateLimitedSpec rt.unixTimestamp message maxCapacity recipient filledLevel lastUpdated).map resolved

/-- the loop of the `Aggregation` arm -/
def specSubs : List IsmNode → List AccountMeta → Except SpecFault SubSpecs
  | [], _ => .ok (.Resolved [])
  | sub :: subs, extraAccounts =>
    match specArms sub extraAccounts with
    | .ok result =>
      match result.spec with
      | some s => (specSubs subs extraAccounts).map (.cons s)
      | none => .ok (.Requested result.accounts)
    | .error (.Returned e) =>
      if e ∈ skippedErrors then (specSubs subs extraAccounts).map (.cons .CannotVerify) else specError e
    | .error .Panic => .error .Panic
    | .error (.Aborted e) => .error (.Aborted e)

end

end Spec

/-- `spec_and_accounts_for_node`; `depth` bounds how deep domain ISMs nest -/
def specAndAccountsForNode (rt : Runtime) (ism : CompositeIsm) (chain : Chain) (message : HyperlaneMessage)
    (instructionAccounts : List Pubkey) : ℕ → SpecWalk
  | 0 => specArms rt ism chain message instructionAccounts fun _ _ => .error .Panic
  | depth + 1 =>
    specArms rt ism chain message instructionAccounts (specAndAccountsForNode rt ism chain message instructionAccounts depth)

/-- an error as the program returns it -/
def SpecFault.into : SpecFault → Fault
  | .Panic => .Overflow
  | .Returned e => .Program e.into
  | .Aborted e => .Program e

/-- `get_metadata_spec` -/
def getMetadataSpec (rt : Runtime) (ism : CompositeIsm) (chain : Chain) (accounts : List AccountMeta)
    (message : HyperlaneMessage) : Except Fault MetadataSpecResult :=
  match nextAccountInfo accounts with
  | .error e => .error (.Program e)
  | .ok (storageInfo, extra) =>
    match loadAndVerifyStorage rt ism chain storageInfo with
    | .error e => .error (.Program e)
    | .ok storage =>
      match storage.root with
      | none => .error (.Program Error.ConfigNotSet.into)
      | some root =>
        match specAndAccountsForNode rt ism chain message (accounts.map AccountMeta.pubkey) rt.maxCallDepth root extra with
        | .error e => .error e.into
        | .ok result =>
          match result.spec with
          | some spec => .ok ⟨some spec, result.accounts⟩
          | none => .ok (requested (vamPda rt ism.programId :: result.accounts))

/-! ## What the walk comes to -/

section Walk

variable {rt : Runtime} {ism : CompositeIsm} {chain : Chain} {message : HyperlaneMessage} {keys : List Pubkey}
  {spec : SpecWalk}

/-- what a routing node comes to, by what is stored for the message's origin -/
inductive DomainSpec (rt : Runtime) (ism : CompositeIsm) (chain : Chain) (message : HyperlaneMessage) (spec : SpecWalk)
    (absent : List AccountMeta → Except SpecFault MetadataSpecResult) (x : List AccountMeta) :
    Except SpecFault MetadataSpecResult → Prop
  | asked : DomainSpec rt ism chain message spec absent x (.ok (requested [domainPda rt ism message]))
  | unreadable (domainAcc : AccountMeta) (e : ProgramError) (hkey : domainAcc.pubkey = domainPda rt ism message)
    (hload : loadAndValidateDomainIsmStorage rt ism chain message.origin domainAcc = .error e) :
    DomainSpec rt ism chain message spec absent x (specError .InvalidConfig)
  | absent (hhead : x.head?.map AccountMeta.pubkey = some (domainPda rt ism message))
    (hstored : storedDomainIsm ism chain (.newReadonly (domainPda rt ism message) false) = .ok none) :
    DomainSpec rt ism chain message spec absent x (absent x.tail)
  | present (node : IsmNode)
    (hstored : storedDomainIsm ism chain (.newReadonly (domainPda rt ism message) false) = .ok (some node)) :
    DomainSpec rt ism chain message spec absent x (spec node x)

theorem specOverDomain_spec (absent : List AccountMeta → Except SpecFault MetadataSpecResult) (x : List AccountMeta) :
    DomainSpec rt ism chain message spec absent x (specOverDomain rt ism chain message spec absent x) := by
  cases x with
  | nil => exact .asked
  | cons domainAcc rest =>
    rw [specOverDomain]
    split
    next hkey =>
      rw [loadForSpec]
      cases hload : loadAndValidateDomainIsmStorage rt ism chain message.origin domainAcc with
      | error e => exact .unreadable domainAcc e hkey hload
      | ok loaded =>
        have hstored := load_stored hload
        rw [storedDomainIsm_congr (y := .newReadonly (domainPda rt ism message) false) hkey] at hstored
        dsimp only
        rw [ok_bind, specForDomainOverride]
        cases hnode : loaded.bind DomainIsmStorage.ism with
        | none =>
          rw [hnode] at hstored
          exact .absent (congrArg some hkey) hstored
        | some node =>
          rw [hnode] at hstored
          have hpresent : DomainSpec rt ism chain message spec absent (domainAcc :: rest) (spec node (domainAcc :: rest)) :=
            .present node hstored
          dsimp only
          cases hspec : spec node (domainAcc :: rest) with
          | error e =>
            rw [hspec] at hpresent
            exact hpresent
          | ok result =>
            rw [hspec] at hpresent
            exact hpresent
    · exact .asked

/-- the guards of a rate limit, as the walk makes them -/
theorem rateLimitedSpec_null_iff {clock : Option ℤ} {maxCapacity filledLevel : UInt64} {recipient : Option H256}
    {lastUpdated : ℤ} : rateLimitedSpec clock message maxCapacity recipient filledLevel lastUpdated = .ok .Null ↔
      (recipient.any fun r => message.recipient ≠ r) = false ∧ ∃ amount now adjusted, tokenAmount message.body = .ok amount ∧
        clock = some now ∧ calculateCurrentLevel filledLevel lastUpdated now maxCapacity = .ok adjusted ∧
          ¬adjusted < amount := by
  rw [rateLimitedSpec, tokenAmount]
  cases recipient.any fun r => message.recipient ≠ r with
  | true => exact ⟨fun h => (by cases h), fun h => (by cases h.1)⟩
  | false =>
    rw [if_neg Bool.false_ne_true]
    split
    · refine ⟨fun h => (by cases h), ?_⟩
      rintro ⟨-, _, _, _, h, -⟩
      cases h
    · split
      · refine ⟨fun h => (by cases h), ?_⟩
        rintro ⟨-, _, _, _, h, -⟩
        cases h
      · constructor
        · intro h
          dsimp only at h
          split at h
          · cases h
          next now =>
            split at h
            · cases h
            next adjusted hadjusted =>
              split at h
              · cases h
              next hwithin => exact ⟨rfl, _, now, adjusted, rfl, rfl, hadjusted, hwithin⟩
        · rintro ⟨-, amount, now, adjusted, hamount, rfl, hadjusted, hwithin⟩
          obtain rfl := Except.ok.inj hamount
          dsimp only
          rw [hadjusted]
          exact if_neg hwithin

/-- a fallback whose answer is not understood, or a call that failed -/
def FallbackFault : SpecFault → Prop
  | .Panic => False
  | .Returned e => e = .FallbackIsmCallFailed
  | .Aborted _ => True

theorem fallbackAnswer_fault {α : Type} (answer : Except ProgramError (ReturnData α)) :
    Ends FallbackFault (fun _ => True) (fallbackAnswer answer) := by
  unfold fallbackAnswer
  split
  · trivial
  · exact rfl
  · exact rfl
  · trivial

/-- how a fallback fails -/
theorem specForFallback_fault (fallbackIsm : Pubkey) (x : List AccountMeta) :
    Ends FallbackFault (fun _ => True) (specForFallback rt ism chain message keys fallbackIsm x) := by
  have hanswer : ∀ {α : Type} (answer : Except ProgramError (ReturnData α)),
      Ends FallbackFault (fun _ => True) (fallbackAnswer answer) := fun answer => fallbackAnswer_fault answer
  rw [specForFallback]
  split
  · refine (hanswer _).bind fun fallbackType _ => ?_
    split
    · rw [specForMultisigFallback]
      split
      · exact (hanswer _).bind fun vat _ => trivial
      · trivial
    · split
      · trivial
      · refine (hanswer _).bind fun result _ => ?_
        split
        · trivial
        · trivial
  · trivial

/-- the specifications of members: one each, and `CannotVerify` for a member with an error -/
theorem specSubs_resolved {sub : IsmNode} {subs : List IsmNode} {x : List AccountMeta} {subSpecs : List MetadataSpec}
    (h : specSubs rt ism chain message keys spec (sub :: subs) x = .ok (.Resolved subSpecs)) : ∃ first rest,
      subSpecs = first :: rest ∧ specSubs rt ism chain message keys spec subs x = .ok (.Resolved rest) ∧
        ((∃ result, specArms rt ism chain message keys spec sub x = .ok result ∧ result.spec = some first) ∨
          ∃ e, specArms rt ism chain message keys spec sub x = .error (.Returned e) ∧ first = .CannotVerify) := by
  have hcons : ∀ {first : MetadataSpec},
      (specSubs rt ism chain message keys spec subs x).map (SubSpecs.cons first) = .ok (.Resolved subSpecs) →
        ∃ rest, subSpecs = first :: rest ∧ specSubs rt ism chain message keys spec subs x = .ok (.Resolved rest) := by
    intro first h
    obtain ⟨subSpecs', hrest, heq⟩ := map_eq_ok.1 h
    cases subSpecs' with
    | Requested accounts => cases heq
    | Resolved rest =>
      cases heq
      exact ⟨rest, rfl, hrest⟩
  rw [specSubs] at h
  cases hsub : specArms rt ism chain message keys spec sub x with
  | ok result =>
    rw [hsub] at h
    cases hresult : result.spec with
    | none =>
      simp only [hresult] at h
      cases h
    | some s =>
      simp only [hresult] at h
      obtain ⟨rest, heq, hrest⟩ := hcons h
      exact ⟨s, rest, heq, hrest, .inl ⟨result, rfl, hresult⟩⟩
  | error fault =>
    rw [hsub] at h
    cases fault with
    | Panic => cases h
    | Aborted e => cases h
    | Returned e =>
      dsimp only at h
      split at h
      · obtain ⟨rest, heq, hrest⟩ := hcons h
        exact ⟨.CannotVerify, rest, heq, hrest, .inr ⟨e, rfl, rfl⟩⟩
      · cases h

/-- the errors that an aggregation is left with -/
def Skipped : SpecFault → Prop
  | .Panic | .Aborted _ => True
  | .Returned e => e ∈ skippedErrors

/-- an aggregation of members that return no other errors returns none itself -/
theorem specSubs_skipped {subs : List IsmNode} {x : List AccountMeta} (hsubs : ∀ sub ∈ subs,
    Ends Skipped (fun _ => True) (specArms rt ism chain message keys spec sub x)) :
    Ends (¬SpecFault.IsReturned ·) (fun _ => True) (specSubs rt ism chain message keys spec subs x) := by
  induction subs with
  | nil => trivial
  | cons sub subs ih =>
    have ih := ih fun sub hsub => hsubs sub (List.mem_cons_of_mem _ hsub)
    rw [specSubs]
    cases hsub : specArms rt ism chain message keys spec sub x with
    | ok result =>
      dsimp only
      split
      · exact Ends.map (ih.mono fun _ _ => trivial)
      · trivial
    | error fault =>
      have hfault := (hsubs sub List.mem_cons_self).of_error hsub
      cases fault with
      | Panic => exact id
      | Aborted e => exact id
      | Returned e =>
        have hskipped : e ∈ skippedErrors := hfault
        dsimp only
        rw [if_pos hskipped]
        exact Ends.map (ih.mono fun _ _ => trivial)

/-- the domain PDA holds what `SetDomainIsm` stored there, or nothing -/
def DomainReads (rt : Runtime) (ism : CompositeIsm) (chain : Chain) (message : HyperlaneMessage) : Prop :=
  ∀ domainAcc e, domainAcc.pubkey = domainPda rt ism message →
    loadAndValidateDomainIsmStorage rt ism chain message.origin domainAcc ≠ .error e

/-- **The errors of a tree**, if the domain PDA can be read, are those that an aggregation skips. -/
theorem specArms_skipped (hreads : DomainReads rt ism chain message)
    (hstored : ∀ node, storedDomainIsm ism chain (.newReadonly (domainPda rt ism message) false) = .ok (some node) →
      ∀ x, Ends Skipped (fun _ => True) (spec node x)) (node : IsmNode) (x : List AccountMeta) :
    Ends Skipped (fun _ => True) (specArms rt ism chain message keys spec node x) := by
  have hdomain : ∀ (absent : List AccountMeta → Except SpecFault MetadataSpecResult) {out},
      (∀ x, Ends Skipped (fun _ => True) (absent x)) → DomainSpec rt ism chain message spec absent x out →
        Ends Skipped (fun _ => True) out := by
    intro absent out habsent hout
    cases hout with
    | asked => trivial
    | unreadable domainAcc e hkey hload => exact absurd hload (hreads domainAcc e hkey)
    | absent => exact habsent _
    | present node hnode => exact hstored node hnode x
  induction node with
  | Aggregation threshold subIsms ih =>
    rw [specArms]
    have hskipped : ∀ fault : SpecFault, ¬fault.IsReturned → Skipped fault := by
      intro fault h
      cases fault with
      | Panic => trivial
      | Aborted e => trivial
      | Returned e => exact absurd trivial h
    refine ((specSubs_skipped ih).imp hskipped fun _ h => h).bind fun subs _ => ?_
    cases subs with
    | Requested accounts => trivial
    | Resolved subSpecs =>
      dsimp only
      split
      · exact (by decide : Error.ThresholdNotMet ∈ skippedErrors)
      · trivial
  | AmountRouting threshold lower upper ihLower ihUpper =>
    rw [specArms]
    cases parseRoutingAmount message.body with
    | none => exact (by decide : Error.InvalidMessageBody ∈ skippedErrors)
    | some amount =>
      dsimp only
      split
      · exact ihUpper
      · exact ihLower
  | Routing =>
    rw [specArms]
    refine hdomain (fun _ => specError .NoRouteForDomain) (fun _ => ?_) (specOverDomain_spec _ x)
    exact (by decide : Error.NoRouteForDomain ∈ skippedErrors)
  | FallbackRouting fallbackIsm =>
    rw [specArms]
    refine hdomain (specForFallback rt ism chain message keys fallbackIsm) (fun y => ?_) (specOverDomain_spec _ x)
    refine (specForFallback_fault fallbackIsm y).imp (fun fault hfault => ?_) fun _ _ => trivial
    cases fault with
    | Panic => trivial
    | Aborted e => trivial
    | Returned e =>
      have hfailed : e = .FallbackIsmCallFailed := hfault
      rw [hfailed]
      exact (by decide : Error.FallbackIsmCallFailed ∈ skippedErrors)
  | RateLimited maxCapacity recipient filledLevel lastUpdated mailbox =>
    rw [specArms]
    refine Ends.map ?_
    rw [rateLimitedSpec]
    split
    · trivial
    · split
      · trivial
      · split
        · trivial
        · dsimp only
          split
          · trivial
          · split
            · trivial
            · split
              · trivial
              · trivial
  | TrustedRelayer relayer => trivial
  | MultisigMessageId validators threshold => trivial
  | Test accept => trivial
  | Pausable paused => trivial

end Walk

end Hyperlane.Composite
