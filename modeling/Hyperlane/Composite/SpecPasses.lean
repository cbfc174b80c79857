/-
The passes of `VerifyMetadataSpec` over a tree of the composite ISM: what they ask for of a fallback, and what the answers of
a fallback say about it.

- `specForFallback_case`: what a routing node comes to over its fallback.
- `specArms_requested`: what a tree asks for.
- `extra_next`, `fallback_serves`: the accounts that the passes reach, and what a fallback answers with them.
-/
import Hyperlane.Composite.BuiltMetadata
import Hyperlane.Composite.CannotVerify

namespace Hyperlane.Composite

open Hyperlane.Bytes Hyperlane.Outcome Hyperlane.Sealevel Hyperlane.Passes
open Hyperlane.Relayer (H160 H256 HyperlaneMessage)

/-! ## What callers rely on -/

/-- the accounts that a pass asks for, as the next one is given them -/
def askedFor {ε : Type} : Except ε MetadataSpecResult → Option (List AccountMeta)
  | .ok result => result.spec.elim (some (result.accounts.map (.newReadonly · false))) fun _ => none
  | .error _ => none

theorem askedFor_eq_some {ε : Type} {out : Except ε MetadataSpecResult} {x : List AccountMeta} (h : askedFor out = some x) :
    ∃ accounts, out = .ok (requested accounts) ∧ x = accounts.map (.newReadonly · false) := by
  cases out with
  | error e => cases h
  | ok result =>
    obtain ⟨spec, accounts⟩ := result
    cases spec with
    | some s => cases h
    | none => exact ⟨accounts, rfl, (Option.some.inj h).symm⟩

/-- what is specified is what `Verify` does: it accepts metadata that is built as the specification says, and none at all
where that is `CannotVerify` or an error -/
structure Serves {ε ε' : Type} (rt : Runtime) (chain : Chain) (message : HyperlaneMessage) (v : Verifier ε')
    (returned : ε → Prop) (out : Except ε MetadataSpecResult) : Prop where
  accepts : ∀ result s metadata, out = .ok result → result.spec = some s → Built rt message s metadata →
    v.Accepts rt chain metadata
  rejects : Hopeless returned out → v.Rejects

/-- the accounts of a pass, from those that a caller starts with, and with accounts of programs after those asked for -/
def SpecPass {ε : Type} (starts : List (List Pubkey)) (spec : List AccountMeta → Except ε MetadataSpecResult)
    (programs x : List AccountMeta) : Prop :=
  ∃ start, start.map AccountMeta.pubkey ∈ starts ∧ Reached (some start) (fun x => askedFor (spec (x ++ programs))) x

/-- **The specification is exact**, in whatever pass it is returned. -/
def SpecExact {ε ε' : Type} (rt : Runtime) (chain : Chain) (message : HyperlaneMessage) (starts : List (List Pubkey))
    (spec : List AccountMeta → Except ε MetadataSpecResult) (returned : ε → Prop) (v : Verifier ε') : Prop :=
  ∀ programs x, Programs chain programs → SpecPass starts spec programs x →
    Serves rt chain message v returned (spec (x ++ programs))

/-! ## A fallback -/

section Fallback

variable (rt : Runtime) (ism : CompositeIsm) (chain : Chain) (message : HyperlaneMessage) (keys : List Pubkey)
  (fallbackIsm : Pubkey)

/-- the answer of a fallback that is called -/
def answered {α : Type} (answer : Except ProgramError (ReturnData α)) : Except SpecFault α :=
  fallbackAnswer (answer.mapError .Callee)

/-- the type of a fallback -/
def fallbackType : Except SpecFault ℕ :=
  answered ((rt.programs fallbackIsm).type chain [.newReadonly (vamPda rt fallbackIsm) false])

/-- the validators of a fallback of the type `MessageIdMultisig` -/
def fallbackValidators : Except SpecFault MetadataSpecResult :=
  (answered ((rt.programs fallbackIsm).validatorsAndThreshold chain
    [.newReadonly (domainDataPda rt fallbackIsm message.origin).1 false] message)).map fun vat =>
      resolved (.MultisigMessageId vat.validators vat.threshold)

/-- a pass of a fallback -/
def fallbackPass (accounts : List AccountMeta) : Except SpecFault MetadataSpecResult :=
  answered ((rt.programs fallbackIsm).verifyMetadataSpec chain accounts message)

/-- what a composite ISM relies on of a fallback: that its passes are exact, or what stands for them with a multisig ISM that
has none -/
structure FallbackSpec : Prop where
  untyped : ∀ e, fallbackType rt chain fallbackIsm = .error (.Returned e) →
    (fallbackVerifier rt chain message fallbackIsm).Rejects
  multisig : fallbackType rt chain fallbackIsm = .ok MESSAGE_ID_MULTISIG →
    Serves rt chain message (fallbackVerifier rt chain message fallbackIsm) SpecFault.IsReturned
      (fallbackValidators rt chain message fallbackIsm)
  passes : ∀ t, fallbackType rt chain fallbackIsm = .ok t → t ≠ MESSAGE_ID_MULTISIG → t ≠ UNUSED →
    SpecExact rt chain message [[vamPda rt fallbackIsm]] (fallbackPass rt chain message fallbackIsm) SpecFault.IsReturned
      (fallbackVerifier rt chain message fallbackIsm)
  /-- one of the type `Unused` accepts with the accounts that are discovered, if it does with any -/
  unused : fallbackType rt chain fallbackIsm = .ok UNUSED →
    (∃ accounts chain', (rt.programs fallbackIsm).verify chain accounts [] message = .ok chain') →
      (fallbackVerifier rt chain message fallbackIsm).Accepts rt chain []

/-- what a fallback is asked with after `inner`, in its own passes -/
def askedNext (programs inner : List AccountMeta) : Option (List AccountMeta) :=
  let x := inner ++ .newReadonly fallbackIsm false :: programs
  if x.head?.map AccountMeta.pubkey = some (vamPda rt fallbackIsm) then askedFor (fallbackPass rt chain message fallbackIsm x)
  else none

/-- the accounts with which a fallback is asked in its own passes -/
def Asks (programs inner : List AccountMeta) : Prop :=
  Reached (some [.newReadonly (vamPda rt fallbackIsm) false]) (askedNext rt chain message fallbackIsm programs) inner

/-- the fallbacks with which the walk does not go wrong: it is called, no call into it fails, and one of the type `Unused`
accepts the empty metadata -/
structure Dependable (programs : List AccountMeta) : Prop where
  executable : (chain fallbackIsm).executable = true
  type : ∀ e, fallbackType rt chain fallbackIsm ≠ .error (.Aborted e)
  validators : fallbackType rt chain fallbackIsm = .ok MESSAGE_ID_MULTISIG →
    ∀ e, fallbackValidators rt chain message fallbackIsm ≠ .error (.Aborted e)
  passes : ∀ t, fallbackType rt chain fallbackIsm = .ok t → t ≠ MESSAGE_ID_MULTISIG → t ≠ UNUSED →
    ∀ inner, Asks rt chain message fallbackIsm programs inner →
      (inner ++ .newReadonly fallbackIsm false :: programs).head?.map AccountMeta.pubkey = some (vamPda rt fallbackIsm) →
      ∀ e, fallbackPass rt chain message fallbackIsm (inner ++ .newReadonly fallbackIsm false :: programs) ≠
        .error (.Aborted e)
  unused : fallbackType rt chain fallbackIsm = .ok UNUSED →
    ∃ accounts chain', (rt.programs fallbackIsm).verify chain accounts [] message = .ok chain'

/-- a pass of a fallback, as the composite ISM passes it on -/
def passedOn (result : MetadataSpecResult) : MetadataSpecResult :=
  result.spec.elim (requested (domainPda rt ism message :: result.accounts ++ [fallbackIsm])) resolved

/-- what a fallback that is called comes to -/
inductive FallbackAnswers (x : List AccountMeta) : Except SpecFault MetadataSpecResult → Prop
  | untyped (fault : SpecFault) (htype : fallbackType rt chain fallbackIsm = .error fault) :
    FallbackAnswers x (.error fault)
  | multisigAsked (htype : fallbackType rt chain fallbackIsm = .ok MESSAGE_ID_MULTISIG) :
    FallbackAnswers x (.ok (requested [domainPda rt ism message, vamPda rt fallbackIsm,
      (domainDataPda rt fallbackIsm message.origin).1, fallbackIsm]))
  | multisig (htype : fallbackType rt chain fallbackIsm = .ok MESSAGE_ID_MULTISIG) :
    FallbackAnswers x (fallbackValidators rt chain message fallbackIsm)
  | unused (htype : fallbackType rt chain fallbackIsm = .ok UNUSED) : FallbackAnswers x (.ok (resolved .Null))
  | pass (t : ℕ) (htype : fallbackType rt chain fallbackIsm = .ok t) (hmultisig : t ≠ MESSAGE_ID_MULTISIG)
    (hunused : t ≠ UNUSED) : FallbackAnswers x ((fallbackPass rt chain message fallbackIsm x).map (passedOn rt ism message fallbackIsm))

/-- what the walk comes to over a fallback -/
inductive FallbackCase (x : List AccountMeta) : Except SpecFault MetadataSpecResult → Prop
  | asked : FallbackCase x (.ok (requested [domainPda rt ism message, vamPda rt fallbackIsm, fallbackIsm]))
  | uncallable (hhead : x.head?.map AccountMeta.pubkey = some (vamPda rt fallbackIsm))
    (hcall : ¬(fallbackIsm ∈ keys ∧ (chain fallbackIsm).executable = true)) (e : ProgramError) :
    FallbackCase x (.error (.Aborted e))
  | called (hhead : x.head?.map AccountMeta.pubkey = some (vamPda rt fallbackIsm))
    (hexecutable : (chain fallbackIsm).executable = true) (out : Except SpecFault MetadataSpecResult)
    (hout : FallbackAnswers rt ism chain message fallbackIsm x out) : FallbackCase x out

end Fallback

section Walk

variable {rt : Runtime} {ism : CompositeIsm} {chain : Chain} {message : HyperlaneMessage} {missing : ProgramError → Prop}
  {keys : List Pubkey} {spec : SpecWalk} {fallbackIsm : Pubkey}

theorem fallbackAnswer_invoke {α : Type} (hmem : fallbackIsm ∈ keys) (hexecutable : (chain fallbackIsm).executable = true)
    (call : Program → Except ProgramError (ReturnData α)) :
    fallbackAnswer (rt.invoke chain keys fallbackIsm call) = answered (call (rt.programs fallbackIsm)) := by
  rw [Runtime.invoke, if_neg (not_not.2 hmem), if_neg (by rw [hexecutable]; exact Bool.false_ne_true ∘ Eq.symm)]
  cases call (rt.programs fallbackIsm) with
  | error e => rfl
  | ok answer => rfl

/-- a fallback that can be called -/
theorem specForFallback_called {x : List AccountMeta} (hhead : x.head?.map AccountMeta.pubkey = some (vamPda rt fallbackIsm))
    (hmem : fallbackIsm ∈ keys) (hexecutable : (chain fallbackIsm).executable = true) :
    specForFallback rt ism chain message keys fallbackIsm x = fallbackType rt chain fallbackIsm >>= fun t =>
      if t = MESSAGE_ID_MULTISIG then
        if x[1]?.map AccountMeta.pubkey = some (domainDataPda rt fallbackIsm message.origin).1 then
          fallbackValidators rt chain message fallbackIsm
        else .ok (requested [domainPda rt ism message, vamPda rt fallbackIsm, (domainDataPda rt fallbackIsm message.origin).1,
          fallbackIsm])
      else if t = UNUSED then .ok (resolved .Null)
      else (fallbackPass rt chain message fallbackIsm x).map (passedOn rt ism message fallbackIsm) := by
  rw [specForFallback, if_pos hhead, fallbackAnswer_invoke hmem hexecutable, fallbackType]
  refine congrArg _ (funext fun t => ?_)
  rw [specForMultisigFallback, fallbackAnswer_invoke hmem hexecutable, fallbackAnswer_invoke hmem hexecutable, fallbackPass,
    fallbackValidators]
  cases answered ((rt.programs fallbackIsm).verifyMetadataSpec chain x message) with
  | error fault => rfl
  | ok result =>
    obtain ⟨s, accounts⟩ := result
    cases s with
    | none => rfl
    | some s => rfl

theorem fallbackAnswer_uncallable {α : Type} (h : ¬(fallbackIsm ∈ keys ∧ (chain fallbackIsm).executable = true))
    (call : Program → Except ProgramError (ReturnData α)) :
    ∃ e, fallbackAnswer (rt.invoke chain keys fallbackIsm call) = .error (.Aborted e) := by
  cases hinvoke : rt.invoke chain keys fallbackIsm call with
  | error e => exact ⟨e, rfl⟩
  | ok answer =>
    obtain ⟨hmem, hexecutable, -⟩ := invoke_ok hinvoke
    exact absurd ⟨hmem, hexecutable⟩ h

theorem specForFallback_uncallable {x : List AccountMeta}
    (hhead : x.head?.map AccountMeta.pubkey = some (vamPda rt fallbackIsm))
    (h : ¬(fallbackIsm ∈ keys ∧ (chain fallbackIsm).executable = true)) :
    ∃ e, specForFallback rt ism chain message keys fallbackIsm x = .error (.Aborted e) := by
  obtain ⟨e, haborted⟩ := fallbackAnswer_uncallable h fun p => p.type chain [.newReadonly (vamPda rt fallbackIsm) false]
  refine ⟨e, ?_⟩
  rw [specForFallback, if_pos hhead, haborted]
  rfl

/-- **The walk over a fallback** -/
theorem specForFallback_case (x : List AccountMeta) :
    FallbackCase rt ism chain message keys fallbackIsm x (specForFallback rt ism chain message keys fallbackIsm x) := by
  by_cases hhead : x.head?.map AccountMeta.pubkey = some (vamPda rt fallbackIsm)
  · by_cases hcall : fallbackIsm ∈ keys ∧ (chain fallbackIsm).executable = true
    · refine .called hhead hcall.2 _ ?_
      rw [specForFallback_called hhead hcall.1 hcall.2]
      cases htype : fallbackType rt chain fallbackIsm with
      | error fault => exact .untyped fault htype
      | ok t =>
        rw [ok_bind]
        split
        next hmultisig =>
          subst hmultisig
          split
          · exact .multisig htype
          · exact .multisigAsked htype
        next hmultisig =>
          split
          next hunused =>
            subst hunused
            exact .unused htype
          next hunused => exact .pass t htype hmultisig hunused
    · obtain ⟨e, haborted⟩ := specForFallback_uncallable hhead hcall
      rw [haborted]
      exact .uncallable hhead hcall e
  · rw [specForFallback, if_neg hhead]
    exact .asked

theorem rejects_fallback (h : (fallbackVerifier rt chain message fallbackIsm).Rejects) :
    FallbackRejects rt chain message fallbackIsm := by
  intro metadata instructionAccounts s r hchain hok
  obtain ⟨-, accounts, hverify⟩ := verifyFallback_ok hok
  rw [hchain] at hverify
  exact h metadata accounts _ hverify

/-! ## What a tree asks for -/

theorem specSubs_requested {subs : List IsmNode} {x : List AccountMeta} {accounts : List Pubkey}
    (h : specSubs rt ism chain message keys spec subs x = .ok (.Requested accounts)) :
    ∃ sub ∈ subs, specArms rt ism chain message keys spec sub x = .ok (requested accounts) := by
  induction subs with
  | nil =>
    rw [specSubs] at h
    cases h
  | cons sub subs ih =>
    have hcons : ∀ {first : MetadataSpec},
        (specSubs rt ism chain message keys spec subs x).map (SubSpecs.cons first) = .ok (.Requested accounts) →
          ∃ sub' ∈ sub :: subs, specArms rt ism chain message keys spec sub' x = .ok (requested accounts) := by
      intro first h
      obtain ⟨subSpecs, hrest, heq⟩ := map_eq_ok.1 h
      cases subSpecs with
      | Resolved rest => cases heq
      | Requested accounts' =>
        cases heq
        obtain ⟨sub', hsub', hspec⟩ := ih hrest
        exact ⟨sub', List.mem_cons_of_mem _ hsub', hspec⟩
    rw [specSubs] at h
    cases hsub : specArms rt ism chain message keys spec sub x with
    | ok result =>
      rw [hsub] at h
      obtain ⟨s, accounts'⟩ := result
      cases s with
      | none =>
        cases h
        exact ⟨sub, List.mem_cons_self, hsub⟩
      | some s => exact hcons h
    | error fault =>
      rw [hsub] at h
      cases fault with
      | Panic => cases h
      | Aborted e => cases h
      | Returned e =>
        dsimp only at h
        split at h
        · exact hcons h
        · cases h

/-- a routing node asks for the domain PDA, or asks on -/
theorem domainSpec_requested {absent : List AccountMeta → Except SpecFault MetadataSpecResult} {x : List AccountMeta}
    {out : Except SpecFault MetadataSpecResult} {accounts : List Pubkey}
    (hstored : ∀ node, storedDomainIsm ism chain (.newReadonly (domainPda rt ism message) false) = .ok (some node) →
      ∀ x accounts, spec node x ≠ .ok (requested accounts))
    (hout : DomainSpec rt ism chain message spec absent x out) (h : out = .ok (requested accounts)) :
    accounts = [domainPda rt ism message] ∨
      x.head?.map AccountMeta.pubkey = some (domainPda rt ism message) ∧ absent x.tail = .ok (requested accounts) := by
  cases hout with
  | asked =>
    cases h
    exact .inl rfl
  | unreadable domainAcc e hkey hload => cases h
  | absent hhead hnone => exact .inr ⟨hhead, h⟩
  | present node hnode => exact absurd h (hstored node hnode x accounts)

/-- **What a tree asks for**: the domain PDA, or what its fallback does. -/
theorem specArms_requested
    (hstored : ∀ node, storedDomainIsm ism chain (.newReadonly (domainPda rt ism message) false) = .ok (some node) →
      ∀ x accounts, spec node x ≠ .ok (requested accounts)) {node : IsmNode} {x : List AccountMeta} {accounts : List Pubkey}
    (h : specArms rt ism chain message keys spec node x = .ok (requested accounts)) :
    routes node = true ∧ (accounts = [domainPda rt ism message] ∨
      x.head?.map AccountMeta.pubkey = some (domainPda rt ism message) ∧
        ∃ f ∈ fallbackIsms node, specForFallback rt ism chain message keys f x.tail = .ok (requested accounts)) := by
  induction node with
  | Aggregation threshold subIsms ih =>
    rw [specArms] at h
    obtain ⟨subs, hsubs, h⟩ := bind_eq_ok.1 h
    cases subs with
    | Resolved subSpecs =>
      dsimp only at h
      split at h
      · cases h
      · cases h
    | Requested accounts' =>
      cases h
      obtain ⟨sub, hsub, hspec⟩ := specSubs_requested hsubs
      obtain ⟨hroutes, hasked⟩ := ih sub hsub hspec
      refine ⟨?_, hasked.imp_right (And.imp_right ?_)⟩
      · refine Bool.eq_true_of_not_eq_false fun hno => ?_
        rw [anyRoutes_eq_false.1 hno sub hsub] at hroutes
        cases hroutes
      · rintro ⟨f, hf, hfallback⟩
        exact ⟨f, mem_allFallbackIsms hsub hf, hfallback⟩
  | AmountRouting threshold lower upper ihLower ihUpper =>
    rw [specArms] at h
    cases hamount : parseRoutingAmount message.body with
    | none =>
      rw [hamount] at h
      cases h
    | some amount =>
      rw [hamount] at h
      dsimp only at h
      split at h
      · obtain ⟨hroutes, hasked⟩ := ihUpper h
        refine ⟨by rw [routes, hroutes, Bool.or_true], hasked.imp_right (And.imp_right ?_)⟩
        rintro ⟨f, hf, hfallback⟩
        exact ⟨f, List.mem_append_right _ hf, hfallback⟩
      · obtain ⟨hroutes, hasked⟩ := ihLower h
        refine ⟨by rw [routes, hroutes, Bool.true_or], hasked.imp_right (And.imp_right ?_)⟩
        rintro ⟨f, hf, hfallback⟩
        exact ⟨f, List.mem_append_left _ hf, hfallback⟩
  | Routing =>
    rw [specArms] at h
    refine ⟨rfl, (domainSpec_requested hstored (specOverDomain_spec _ x) h).imp_right ?_⟩
    rintro ⟨-, habsent⟩
    cases habsent
  | FallbackRouting fallbackIsm =>
    rw [specArms] at h
    refine ⟨rfl, (domainSpec_requested hstored (specOverDomain_spec _ x) h).imp_right (And.imp_right ?_)⟩
    exact fun hfallback => ⟨fallbackIsm, List.mem_singleton_self _, hfallback⟩
  | RateLimited maxCapacity recipient filledLevel lastUpdated mailbox =>
    rw [specArms] at h
    obtain ⟨s, -, heq⟩ := map_eq_ok.1 h
    cases heq
  | TrustedRelayer relayer => cases h
  | MultisigMessageId validators threshold => cases h
  | Test accept => cases h
  | Pausable paused => cases h

/-! ## Failed calls -/

theorem specSubs_aborted {subs : List IsmNode} {x : List AccountMeta} {e : ProgramError}
    (h : specSubs rt ism chain message keys spec subs x = .error (.Aborted e)) :
    ∃ sub ∈ subs, specArms rt ism chain message keys spec sub x = .error (.Aborted e) := by
  induction subs with
  | nil =>
    rw [specSubs] at h
    cases h
  | cons sub subs ih =>
    have hcons : ∀ {first : MetadataSpec},
        (specSubs rt ism chain message keys spec subs x).map (SubSpecs.cons first) = .error (.Aborted e) →
          ∃ sub' ∈ sub :: subs, specArms rt ism chain message keys spec sub' x = .error (.Aborted e) := by
      intro first h
      obtain ⟨sub', hsub', haborted⟩ := ih (map_eq_error.1 h)
      exact ⟨sub', List.mem_cons_of_mem _ hsub', haborted⟩
    rw [specSubs] at h
    cases hsub : specArms rt ism chain message keys spec sub x with
    | ok result =>
      rw [hsub] at h
      obtain ⟨s, accounts'⟩ := result
      cases s with
      | none => cases h
      | some s => exact hcons h
    | error fault =>
      rw [hsub] at h
      cases fault with
      | Panic => cases h
      | Aborted e' =>
        cases h
        exact ⟨sub, List.mem_cons_self, hsub⟩
      | Returned e' =>
        dsimp only at h
        split at h
        · exact hcons h
        · cases h

/-- a routing node aborts in its fallback -/
theorem domainSpec_aborted {absent : List AccountMeta → Except SpecFault MetadataSpecResult} {x : List AccountMeta}
    {out : Except SpecFault MetadataSpecResult} {e : ProgramError}
    (hstored : ∀ node, storedDomainIsm ism chain (.newReadonly (domainPda rt ism message) false) = .ok (some node) →
      ∀ x e, spec node x ≠ .error (.Aborted e))
    (hout : DomainSpec rt ism chain message spec absent x out) (h : out = .error (.Aborted e)) :
    x.head?.map AccountMeta.pubkey = some (domainPda rt ism message) ∧
      storedDomainIsm ism chain (.newReadonly (domainPda rt ism message) false) = .ok none ∧
        absent x.tail = .error (.Aborted e) := by
  cases hout with
  | asked => cases h
  | unreadable domainAcc e' hkey hload => cases h
  | absent hhead hnone => exact ⟨hhead, hnone, h⟩
  | present node hnode => exact absurd h (hstored node hnode x e)

/-- **The walk fails as a whole** where a call into a fallback that the message comes to fails. -/
theorem specArms_aborted
    (hstored : ∀ node, storedDomainIsm ism chain (.newReadonly (domainPda rt ism message) false) = .ok (some node) →
      ∀ x e, spec node x ≠ .error (.Aborted e)) {node : IsmNode} {x : List AccountMeta} {e : ProgramError}
    (h : specArms rt ism chain message keys spec node x = .error (.Aborted e)) :
    ∃ f, Reaches message node f ∧ x.head?.map AccountMeta.pubkey = some (domainPda rt ism message) ∧
      storedDomainIsm ism chain (.newReadonly (domainPda rt ism message) false) = .ok none ∧
        specForFallback rt ism chain message keys f x.tail = .error (.Aborted e) := by
  induction node with
  | Aggregation threshold subIsms ih =>
    rw [specArms] at h
    rcases bind_eq_error.1 h with hsubs | ⟨subs, hsubs, hthreshold⟩
    · obtain ⟨sub, hsub, haborted⟩ := specSubs_aborted hsubs
      obtain ⟨f, hf, hfallback⟩ := ih sub hsub haborted
      exact ⟨f, .member hsub hf, hfallback⟩
    · cases subs with
      | Requested accounts => cases hthreshold
      | Resolved subSpecs =>
        dsimp only at hthreshold
        split at hthreshold
        · cases hthreshold
        · cases hthreshold
  | AmountRouting threshold lower upper ihLower ihUpper =>
    rw [specArms] at h
    cases hamount : parseRoutingAmount message.body with
    | none =>
      rw [hamount] at h
      cases h
    | some amount =>
      rw [hamount] at h
      dsimp only at h
      split at h
      next hge =>
        obtain ⟨f, hf, hfallback⟩ := ihUpper h
        exact ⟨f, .upper hamount hge hf, hfallback⟩
      next hlt =>
        obtain ⟨f, hf, hfallback⟩ := ihLower h
        exact ⟨f, .lower hamount hlt hf, hfallback⟩
  | Routing =>
    rw [specArms] at h
    obtain ⟨-, -, habsent⟩ := domainSpec_aborted hstored (specOverDomain_spec _ x) h
    cases habsent
  | FallbackRouting fallbackIsm =>
    rw [specArms] at h
    exact ⟨fallbackIsm, .fallback fallbackIsm, domainSpec_aborted hstored (specOverDomain_spec _ x) h⟩
  | RateLimited maxCapacity recipient filledLevel lastUpdated mailbox =>
    rw [specArms] at h
    have hlimited := map_eq_error.1 h
    rw [rateLimitedSpec] at hlimited
    split at hlimited
    · cases hlimited
    · split at hlimited
      · cases hlimited
      · split at hlimited
        · cases hlimited
        · dsimp only at hlimited
          split at hlimited
          · cases hlimited
          · split at hlimited
            · cases hlimited
            · split at hlimited
              · cases hlimited
              · cases hlimited
  | TrustedRelayer relayer => cases h
  | MultisigMessageId validators threshold => cases h
  | Test accept => cases h
  | Pausable paused => cases h

end Walk

/-! ## The accounts that are reached -/

section Extra

variable (rt : Runtime) (ism : CompositeIsm) (chain : Chain) (message : HyperlaneMessage)

/-- the accounts with which a fallback is asked: those of its own passes, if it has them -/
def FallbackAsked (fallbackIsm : Pubkey) (programs inner : List AccountMeta) : Prop :=
  fallbackType rt chain fallbackIsm = .ok MESSAGE_ID_MULTISIG ∨ Asks rt chain message fallbackIsm programs inner

/-- the accounts after the storage PDA that the passes of a tree are given -/
inductive Extra (fallbacks : List Pubkey) (programs : List AccountMeta) : List AccountMeta → Prop
  | none : Extra fallbacks programs []
  | domain (acc : AccountMeta) (hkey : acc.pubkey = domainPda rt ism message) : Extra fallbacks programs [acc]
  | fallback (f : Pubkey) (hf : f ∈ fallbacks) (inner : List AccountMeta)
    (hinner : FallbackAsked rt chain message f programs inner) : Extra fallbacks programs (aroundFallback rt ism message f inner)

variable {rt ism chain message} {fallbacks : List Pubkey} {programs extra : List AccountMeta} {f : Pubkey}

theorem Programs.head {accounts : List AccountMeta} (h : Programs chain accounts) {key : Pubkey}
    (hhead : accounts.head?.map AccountMeta.pubkey = some key) : (chain key).executable = true := by
  cases accounts with
  | nil => cases hhead
  | cons first accounts =>
    rw [← Option.some.inj hhead]
    exact h first List.mem_cons_self

/-- with the domain PDA first, the fallback's accounts are next, or those of programs -/
theorem Extra.tail (h : Extra rt ism chain message fallbacks programs extra)
    (hdata : (chain (domainPda rt ism message)).executable = false) (hprograms : Programs chain programs)
    (hunique : ∀ f ∈ fallbacks, ∀ g ∈ fallbacks, f = g) (hf : f ∈ fallbacks)
    (hhead : (extra ++ programs).head?.map AccountMeta.pubkey = some (domainPda rt ism message)) :
    (extra ++ programs).tail = programs ∨ ∃ inner, FallbackAsked rt chain message f programs inner ∧
      (extra ++ programs).tail = inner ++ .newReadonly f false :: programs ∧ .newReadonly f false ∈ extra := by
  cases h with
  | none => cases hdata.symm.trans (hprograms.head hhead)
  | domain acc hkey => exact .inl rfl
  | fallback g hg inner hinner =>
    obtain rfl := hunique f hf g hg
    refine .inr ⟨inner, hinner, ?_, List.mem_cons_of_mem _ (List.mem_append_right _ (List.mem_singleton_self _))⟩
    rw [aroundFallback, List.cons_append, List.tail_cons, List.append_assoc, List.singleton_append]

variable {keys : List Pubkey} {spec : SpecWalk}

/-- what a fallback is asked with next -/
theorem FallbackAsked.next {inner : List AccountMeta} (h : FallbackAsked rt chain message f programs inner)
    (hhead : (inner ++ .newReadonly f false :: programs).head?.map AccountMeta.pubkey = some (vamPda rt f)) {t : ℕ}
    (htype : fallbackType rt chain f = .ok t) (hmultisig : t ≠ MESSAGE_ID_MULTISIG) {result : MetadataSpecResult}
    (hpass : fallbackPass rt chain message f (inner ++ .newReadonly f false :: programs) = .ok result)
    (hspec : result.spec = none) :
    FallbackAsked rt chain message f programs (result.accounts.map (.newReadonly · false)) := by
  rcases h with hother | hreached
  · exact absurd (Except.ok.inj (htype.symm.trans hother)) hmultisig
  · refine .inr (hreached.next ?_)
    rw [askedNext, if_pos hhead, hpass, askedFor, hspec]
    rfl

/-- **A pass asks for accounts of that form again.** -/
theorem Extra.next (h : Extra rt ism chain message fallbacks programs extra)
    (hdata : (chain (domainPda rt ism message)).executable = false)
    (hsentinel : ∀ f ∈ fallbacks, (chain (vamPda rt f)).executable = false) (hprograms : Programs chain programs)
    (hunique : ∀ f ∈ fallbacks, ∀ g ∈ fallbacks, f = g) (hf : f ∈ fallbacks)
    (hhead : (extra ++ programs).head?.map AccountMeta.pubkey = some (domainPda rt ism message)) {accounts : List Pubkey}
    (hasked : specForFallback rt ism chain message keys f (extra ++ programs).tail = .ok (requested accounts)) :
    Extra rt ism chain message fallbacks programs (accounts.map (.newReadonly · false)) := by
  have hcase : FallbackCase rt ism chain message keys f (extra ++ programs).tail _ := specForFallback_case _
  rw [hasked] at hcase
  generalize hout : (Except.ok (requested accounts) : Except SpecFault MetadataSpecResult) = out at hcase
  cases hcase with
  | asked =>
    cases hout
    exact .fallback f hf [.newReadonly (vamPda rt f) false] (.inr (.start rfl))
  | uncallable hfirst hcall e => cases hout
  | called hfirst hexecutable _ hanswers =>
    cases hanswers with
    | untyped fault htype => cases hout
    | multisigAsked htype =>
      cases hout
      exact .fallback f hf [.newReadonly (vamPda rt f) false, .newReadonly (domainDataPda rt f message.origin).1 false]
        (.inl htype)
    | multisig htype =>
      rw [fallbackValidators] at hout
      obtain ⟨vat, -, heq⟩ := map_eq_ok.1 hout.symm
      cases heq
    | unused htype => cases hout
    | pass t htype hmultisig hunused =>
      obtain ⟨result, hpass, heq⟩ := map_eq_ok.1 hout.symm
      obtain ⟨s, accounts'⟩ := result
      cases s with
      | some s => cases heq
      | none =>
        cases heq
        rcases h.tail hdata hprograms hunique hf hhead with htail | ⟨inner, hinner, htail, -⟩
        · -- no program is the fallback's sentinel
          rw [htail] at hfirst
          cases (hsentinel f hf).symm.trans (hprograms.head hfirst)
        · rw [htail] at hpass hfirst
          have hnext := hinner.next hfirst htype hmultisig hpass rfl
          have hextra : Extra rt ism chain message fallbacks programs _ := .fallback f hf _ hnext
          rw [aroundFallback] at hextra
          rw [List.cons_append, List.map_cons, List.map_append]
          exact hextra

/-- a fallback that answers in a pass is what it says; the answer for one of the type `Unused` is not its own -/
theorem FallbackAnswers.serves {x : List AccountMeta} {out : Except SpecFault MetadataSpecResult}
    (h : FallbackAnswers rt ism chain message f x out) (hfallback : FallbackSpec rt chain message f)
    (hused : fallbackType rt chain f ≠ .ok UNUSED)
    (hpass : ∀ t, fallbackType rt chain f = .ok t → t ≠ MESSAGE_ID_MULTISIG → t ≠ UNUSED →
      Serves rt chain message (fallbackVerifier rt chain message f) SpecFault.IsReturned
        (fallbackPass rt chain message f x)) :
    Serves rt chain message (fallbackVerifier rt chain message f) SpecFault.IsReturned out := by
  cases h with
  | untyped fault htype =>
    refine ⟨fun _ _ _ h => ?_, fun hreturned => ?_⟩
    · cases h
    · cases fault with
      | Panic => cases hreturned
      | Aborted e => cases hreturned
      | Returned e => exact hfallback.untyped e htype
  | multisigAsked htype =>
    refine ⟨fun result s metadata h hs => ?_, fun h => ?_⟩
    · cases h
      cases hs
    · cases h
  | multisig htype => exact hfallback.multisig htype
  | unused htype => exact absurd htype hused
  | pass t htype hmultisig hunused =>
    obtain ⟨haccepts, hrejects⟩ := hpass t htype hmultisig hunused
    constructor
    · intro result s metadata hout hs
      obtain ⟨result', hresult, rfl⟩ := map_eq_ok.1 hout
      obtain ⟨s', accounts⟩ := result'
      cases s' with
      | none => cases hs
      | some s' => exact haccepts _ s metadata hresult hs
    · intro hopeless
      refine hrejects ?_
      cases hout : fallbackPass rt chain message f x with
      | error fault =>
        rw [hout] at hopeless
        exact hopeless
      | ok result =>
        rw [hout] at hopeless
        obtain ⟨s', accounts⟩ := result
        cases s' with
        | none => cases hopeless
        | some s' => exact hopeless

/-- the fallback's own passes, without the look at the accounts -/
theorem Asks.reached {inner : List AccountMeta} (h : Asks rt chain message f programs inner) :
    Reached (some [.newReadonly (vamPda rt f) false])
      (fun x => askedFor (fallbackPass rt chain message f (x ++ .newReadonly f false :: programs))) inner := by
  refine h.keeps (fun a ha => .start ha) fun a b ha hb => ha.next ?_
  rw [askedNext] at hb
  split at hb
  · exact hb
  · cases hb

/-- what the passes come to over a fallback, among the accounts that they reach -/
inductive PassCase (rt : Runtime) (ism : CompositeIsm) (chain : Chain) (message : HyperlaneMessage) (f : Pubkey)
    (programs : List AccountMeta) : Except SpecFault MetadataSpecResult → Prop
  | asked (accounts : List Pubkey) : PassCase rt ism chain message f programs (.ok (requested accounts))
  | uncallable (hcall : (chain f).executable ≠ true) (e : ProgramError) :
    PassCase rt ism chain message f programs (.error (.Aborted e))
  | called (hexecutable : (chain f).executable = true) (inner : List AccountMeta)
    (hinner : FallbackAsked rt chain message f programs inner)
    (hhead : (inner ++ .newReadonly f false :: programs).head?.map AccountMeta.pubkey = some (vamPda rt f)) (out : Except SpecFault MetadataSpecResult)
    (hout : FallbackAnswers rt ism chain message f (inner ++ .newReadonly f false :: programs) out) :
    PassCase rt ism chain message f programs out

theorem Extra.passCase (h : Extra rt ism chain message fallbacks programs extra)
    (hdata : (chain (domainPda rt ism message)).executable = false)
    (hsentinel : ∀ f ∈ fallbacks, (chain (vamPda rt f)).executable = false) (hprograms : Programs chain programs)
    (hunique : ∀ f ∈ fallbacks, ∀ g ∈ fallbacks, f = g) (hf : f ∈ fallbacks) (hkeys : ∀ m ∈ extra, m.pubkey ∈ keys)
    (hhead : (extra ++ programs).head?.map AccountMeta.pubkey = some (domainPda rt ism message)) :
    PassCase rt ism chain message f programs (specForFallback rt ism chain message keys f (extra ++ programs).tail) := by
  have hcase : FallbackCase rt ism chain message keys f (extra ++ programs).tail _ := specForFallback_case _
  rcases h.tail hdata hprograms hunique hf hhead with htail | ⟨inner, hinner, htail, hmem⟩
  · rw [htail] at hcase ⊢
    generalize specForFallback rt ism chain message keys f programs = out at hcase
    cases hcase with
    | asked => exact .asked _
    | uncallable hfirst hcall e => cases (hsentinel f hf).symm.trans (hprograms.head hfirst)
    | called hfirst hexecutable _ hanswers => cases (hsentinel f hf).symm.trans (hprograms.head hfirst)
  · rw [htail] at hcase ⊢
    generalize specForFallback rt ism chain message keys f (inner ++ .newReadonly f false :: programs) = out at hcase
    cases hcase with
    | asked => exact .asked _
    | uncallable hfirst hcall e => exact .uncallable (fun hexecutable => hcall ⟨hkeys _ hmem, hexecutable⟩) e
    | called hfirst hexecutable _ hanswers => exact .called hexecutable inner hinner hfirst out hanswers

variable (hprograms : Programs chain programs) (hfallback : FallbackSpec rt chain message f)
  {out : Except SpecFault MetadataSpecResult} (h : PassCase rt ism chain message f programs out)

include hprograms hfallback h

/-- **What a fallback answers in the passes** is what it does, if it is not of the type `Unused`. -/
theorem PassCase.serves (hused : fallbackType rt chain f ≠ .ok UNUSED) :
    Serves rt chain message (fallbackVerifier rt chain message f) SpecFault.IsReturned out := by
  cases h with
  | asked accounts =>
    refine ⟨fun result s metadata h hs => ?_, fun h => ?_⟩
    · cases h
      cases hs
    · cases h
  | uncallable hcall e => exact ⟨fun _ _ _ h => (by cases h), fun h => (by cases h)⟩
  | called hexecutable inner hinner hfirst _ hanswers =>
    have hprograms' : Programs chain (.newReadonly f false :: programs) := List.forall_mem_cons.2 ⟨hexecutable, hprograms⟩
    refine hanswers.serves hfallback hused fun t htype hmultisig hunused => ?_
    rcases hinner with hother | hpass
    · exact absurd (Except.ok.inj (htype.symm.trans hother)) hmultisig
    · exact hfallback.passes t htype hmultisig hunused _ inner hprograms' ⟨_, List.mem_singleton_self _, hpass.reached⟩

omit hprograms hfallback in
/-- a fallback of the type `Unused` is taken to need no metadata -/
theorem PassCase.unused (hunused : fallbackType rt chain f = .ok UNUSED) :
    (∃ accounts, out = .ok (requested accounts)) ∨ (∃ e, out = .error (.Aborted e)) ∨ out = .ok (resolved .Null) := by
  cases h with
  | asked accounts => exact .inl ⟨accounts, rfl⟩
  | uncallable hcall e => exact .inr (.inl ⟨e, rfl⟩)
  | called hexecutable inner hinner hfirst _ hanswers =>
    cases hanswers with
    | untyped fault htype => cases hunused.symm.trans htype
    | multisigAsked htype => cases hunused.symm.trans htype
    | multisig htype => cases hunused.symm.trans htype
    | unused htype => exact .inr (.inr rfl)
    | pass t htype hmultisig hother => exact absurd (Except.ok.inj (htype.symm.trans hunused)) hother

/-- where the walk gives up on a fallback, the fallback accepts nothing -/
theorem PassCase.rejects (hopeless : Hopeless SpecFault.IsReturned out) : FallbackRejects rt chain message f := by
  by_cases hunused : fallbackType rt chain f = .ok UNUSED
  · rcases h.unused hunused with ⟨accounts, rfl⟩ | ⟨e, rfl⟩ | rfl
    · cases hopeless
    · cases hopeless
    · cases hopeless
  · exact rejects_fallback ((h.serves hprograms hfallback hunused).rejects hopeless)

/-- what a dependable fallback is specified to accept, it accepts -/
theorem PassCase.accepts (hdependable : Dependable rt chain message f programs) {result : MetadataSpecResult}
    {s : MetadataSpec} {entry : List UInt8} (hok : out = .ok result) (hs : result.spec = some s)
    (hb : Built rt message s entry) : (fallbackVerifier rt chain message f).Accepts rt chain entry := by
  by_cases hunused : fallbackType rt chain f = .ok UNUSED
  · rcases h.unused hunused with ⟨accounts, rfl⟩ | ⟨e, rfl⟩ | rfl
    · cases hok
      cases hs
    · cases hok
    · cases hok
      cases hs
      have hempty : entry = [] := hb
      rw [hempty]
      exact hfallback.unused hunused (hdependable.unused hunused)
  · exact (h.serves hprograms hfallback hunused).accepts result s entry hok hs hb

omit hprograms hfallback in
/-- no call into a dependable fallback fails -/
theorem PassCase.not_aborted (hdependable : Dependable rt chain message f programs) (e : ProgramError) :
    out ≠ .error (.Aborted e) := by
  cases h with
  | asked accounts => exact fun h => by cases h
  | uncallable hcall e' => exact absurd hdependable.executable hcall
  | called hexecutable inner hinner hfirst _ hanswers =>
    rintro rfl
    generalize hout : (Except.error (.Aborted e) : Except SpecFault MetadataSpecResult) = out at hanswers
    cases hanswers with
    | untyped fault htype =>
      cases hout
      exact hdependable.type e htype
    | multisigAsked htype => cases hout
    | multisig htype => exact hdependable.validators htype e hout.symm
    | unused htype => cases hout
    | pass t htype hmultisig hunused =>
      rcases hinner with hother | hpass
      · exact hmultisig (Except.ok.inj (htype.symm.trans hother))
      · cases hresult : fallbackPass rt chain message f (inner ++ .newReadonly f false :: programs) with
        | ok result =>
          rw [hresult] at hout
          cases hout
        | error fault =>
          rw [hresult] at hout
          cases hout
          exact hdependable.passes t htype hmultisig hunused inner hpass hfirst e hresult

end Extra

end Hyperlane.Composite
