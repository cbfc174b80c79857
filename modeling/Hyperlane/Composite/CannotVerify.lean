/-
What the metadata specification of the composite ISM says cannot be verified: where the walk comes to `CannotVerify` or to an
error, no metadata and no accounts make `verify_node` accept.

- `verifySubs_count`: an aggregation accepts at most as many members as the specification leaves.
- `specArms_rejects`: the tree.
-/
import Hyperlane.Composite.DiscoveryPasses
import Hyperlane.Composite.MetadataSpec

namespace Hyperlane.Composite

open Hyperlane.Bytes Hyperlane.Outcome Hyperlane.Sealevel
open Hyperlane.Relayer (H160 H256 HyperlaneMessage)

/-- `CannotVerify`, or one of the errors -/
def Hopeless {ε : Type} (returned : ε → Prop) (out : Except ε MetadataSpecResult) : Prop :=
  Ends returned (fun result => result.spec = some .CannotVerify) out

/-- no metadata and no accounts make a fallback accept -/
def FallbackRejects (rt : Runtime) (chain : Chain) (message : HyperlaneMessage) (fallbackIsm : Pubkey) : Prop :=
  ∀ metadata instructionAccounts s r, s.chain = chain →
    verifyFallback rt message instructionAccounts fallbackIsm metadata s ≠ .ok r

section Rejects

variable {rt : Runtime} {ism : CompositeIsm} {chain : Chain} {message : HyperlaneMessage} {keys : List Pubkey}
  {spec : SpecWalk} {verifyStored : List Pubkey → IsmNode → Walk}

theorem cannotVerify_eq_true {s : MetadataSpec} (h : cannotVerify s = true) : s = .CannotVerify := by
  cases s with
  | CannotVerify => rfl
  | Null => cases h
  | MultisigMessageId validators threshold => cases h
  | Aggregation threshold subSpecs => cases h
  | TrustedRelayer relayer => cases h

/-- what a rate limit accepts is what the specification lets pass -/
theorem rateLimitedSpec_of_verify {programId : Pubkey} {n : RateLimitedNode} {f : Filled} {accounts : List AccountMeta}
    {clock : Option ℤ} {r : Filled × Bool × List AccountMeta}
    (h : verifyRateLimited rt programId n f message accounts clock = .ok r) :
    rateLimitedSpec clock message n.maxCapacity n.recipient f.filledLevel f.lastUpdated = .ok .Null := by
  rw [verifyRateLimited] at h
  obtain ⟨rest, hcheck, h⟩ := bind_eq_ok.1 h
  obtain ⟨amount, hamount, h⟩ := bind_eq_ok.1 h
  obtain ⟨now, hnow, h⟩ := bind_eq_ok.1 h
  obtain ⟨adjusted, hadjusted, h⟩ := bind_eq_ok.1 h
  refine rateLimitedSpec_null_iff.2 ⟨?_, amount, now, adjusted, hamount, clockGet_ok.1 hnow, hadjusted, fun hlt => ?_⟩
  · refine Bool.eq_false_of_not_eq_true fun hmismatch => ?_
    rw [checkProcess, if_pos hmismatch] at hcheck
    cases hcheck
  · rw [if_pos hlt] at h
    cases h

/-- **The members that an aggregation accepts** are among those that the specification leaves. -/
theorem verifySubs_count {subs : List IsmNode} {x : List AccountMeta} (hsubs : ∀ sub ∈ subs, WellRouted sub →
      Hopeless SpecFault.IsReturned (specArms rt ism chain message keys spec sub x) →
        ∀ metadata, Rejects rt ism chain message verifyStored sub metadata)
    (hw : AllWellRouted subs) {subSpecs : List MetadataSpec}
    (hspecs : specSubs rt ism chain message keys spec subs x = .ok (.Resolved subSpecs)) {metadata : List UInt8}
    {instructionAccounts : List Pubkey} {i verified : ℕ} {s : VerifyState} {r : List IsmNode × ℕ × VerifyState}
    (hchain : anyRoutes subs = true → s.chain = chain)
    (h : verifySubs rt ism message instructionAccounts (verifyStored instructionAccounts) subs metadata i verified s =
      .ok r) : r.2.1 ≤ verified + (subSpecs.filter fun s => !cannotVerify s).length := by
  induction subs generalizing i verified s subSpecs r with
  | nil =>
    rw [verifySubs] at h
    rw [← Except.ok.inj h]
    exact Nat.le_add_right _ _
  | cons sub subs ih =>
    obtain ⟨hwSub, honly, -, hwSubs⟩ := hw
    have ih := @ih (fun sub hsub => hsubs sub (List.mem_cons_of_mem _ hsub)) hwSubs
    have hchainSubs : anyRoutes subs = true → s.chain = chain := fun hr => hchain (by rw [anyRoutes, hr, Bool.or_true])
    obtain ⟨first, rest, rfl, hrest, hfirst⟩ := specSubs_resolved hspecs
    have hopeless : cannotVerify first = true →
        Hopeless SpecFault.IsReturned (specArms rt ism chain message keys spec sub x) := by
      intro hcannot
      rcases hfirst with ⟨result, hout, hresult⟩ | ⟨e, hout, -⟩
      · rw [hout]
        exact hresult.trans (congrArg some (cannotVerify_eq_true hcannot))
      · rw [hout]
        trivial
    rw [verifySubs] at h
    cases hat : subMetadataAt metadata i with
    | error e =>
      rw [hat] at h
      cases h
    | ok found =>
      rw [hat] at h
      cases found with
      | none =>
        obtain ⟨r', hsubs', rfl⟩ := map_eq_ok.1 h
        refine (ih hrest hchainSubs hsubs').trans ?_
        rw [List.filter_cons]
        split
        · exact Nat.add_le_add_left (Nat.le_succ _) _
        · exact le_rfl
      | some subMeta =>
        obtain ⟨r', hsub, h⟩ := bind_eq_ok.1 h
        obtain ⟨r'', hsubs', h⟩ := bind_eq_ok.1 h
        have hviable : cannotVerify first = false := by
          refine Bool.eq_false_of_not_eq_true fun hcannot => ?_
          refine hsubs sub List.mem_cons_self hwSub (hopeless hcannot) subMeta instructionAccounts s r' (fun hr => ?_) hsub
          exact hchain (by rw [anyRoutes, hr, Bool.true_or])
        have hcount := ih hrest (((verifyArms_frame sub subMeta s).of_ok hsub).next honly hchainSubs) hsubs'
        rw [← Except.ok.inj h, List.filter_cons, hviable]
        calc r''.2.1 ≤ verified + 1 + (rest.filter fun s => !cannotVerify s).length := hcount
          _ = verified + ((rest.filter fun s => !cannotVerify s).length + 1) := by rw [Nat.add_assoc, Nat.add_comm 1]

/-- what the specification says of the ISM that is stored for the message's origin -/
structure StoredRejects (rt : Runtime) (ism : CompositeIsm) (chain : Chain) (message : HyperlaneMessage) (spec : SpecWalk)
    (verifyStored : List Pubkey → IsmNode → Walk) : Prop where
  reads : DomainReads rt ism chain message
  skipped : ∀ node, storedDomainIsm ism chain (.newReadonly (domainPda rt ism message) false) = .ok (some node) →
    ∀ x, Ends Skipped (fun _ => True) (spec node x)
  rejects : ∀ node, storedDomainIsm ism chain (.newReadonly (domainPda rt ism message) false) = .ok (some node) →
    ∀ x, Hopeless SpecFault.IsReturned (spec node x) → ∀ instructionAccounts metadata s r,
      verifyStored instructionAccounts node metadata s ≠ .ok r

variable (hstored : StoredRejects rt ism chain message spec verifyStored)

include hstored

/-- a routing node without hope gets past its domain PDA only if nothing is stored there -/
theorem domainSpec_rejects {absent : List AccountMeta → Except SpecFault MetadataSpecResult} {x : List AccountMeta}
    {out : Except SpecFault MetadataSpecResult} (hout : DomainSpec rt ism chain message spec absent x out)
    (h : Hopeless SpecFault.IsReturned out) {metadata : List UInt8} {instructionAccounts : List Pubkey} {s : VerifyState} {r : AccountMeta × VerifyState}
    {r' : Bool × VerifyState} (hchain : s.chain = chain) (htake : takeDomainPda rt ism message s = .ok r)
    (hok : tryVerifyDomainIsm rt ism message (verifyStored instructionAccounts) r.1 metadata r.2 = .ok r') :
    r' = (false, r.2) ∧ x.head?.map AccountMeta.pubkey = some (domainPda rt ism message) ∧
      Hopeless SpecFault.IsReturned (absent x.tail) := by
  have hfound : ∀ domainAcc : AccountMeta, domainAcc.pubkey = domainPda rt ism message → storedDomainIsm ism chain domainAcc =
      storedDomainIsm ism chain (.newReadonly (domainPda rt ism message) false) := fun _ h => storedDomainIsm_congr h
  cases hout with
  | asked => cases h
  | unreadable domainAcc e hkey hload => exact absurd hload (hstored.reads domainAcc e hkey)
  | absent hhead hnone =>
    rw [hnone] at hfound
    exact ⟨(rejects_of_stored hfound (fun _ h => by cases h) hchain htake hok).2, hhead, h⟩
  | present node hnode =>
    rw [hnode] at hfound
    have hreject : ∀ node', (.ok (some node) : Except ProgramError (Option IsmNode)) = .ok (some node') →
        ∀ s r, verifyStored instructionAccounts node' metadata s ≠ .ok r := by
      rintro node' ⟨⟩
      exact hstored.rejects node hnode x h instructionAccounts metadata
    cases (rejects_of_stored hfound hreject hchain htake hok).1

/-- **What cannot be verified**: where the specification is `CannotVerify` or an error, the walk accepts nothing. -/
theorem specArms_rejects {node : IsmNode} (hw : WellRouted node) {x : List AccountMeta} (hleaf : ∀ f ∈ fallbackIsms node,
      x.head?.map AccountMeta.pubkey = some (domainPda rt ism message) →
        Hopeless SpecFault.IsReturned (specForFallback rt ism chain message keys f x.tail) →
          FallbackRejects rt chain message f)
    (h : Hopeless SpecFault.IsReturned (specArms rt ism chain message keys spec node x)) (metadata : List UInt8) :
    Rejects rt ism chain message verifyStored node metadata := by
  induction node generalizing metadata with
  | TrustedRelayer relayer => cases h
  | MultisigMessageId validators threshold => cases h
  | Test accept =>
    intro instructionAccounts s r _ hok
    cases accept with
    | true => cases h
    | false => cases hok
  | Pausable paused =>
    intro instructionAccounts s r _ hok
    cases paused with
    | true => cases hok
    | false => cases h
  | RateLimited maxCapacity recipient filledLevel lastUpdated mailbox =>
    intro instructionAccounts s r _ hok
    rw [verifyArms] at hok
    obtain ⟨r', hverify, -⟩ := bind_eq_ok.1 hok
    rw [specArms, rateLimitedSpec_of_verify hverify] at h
    cases h
  | AmountRouting threshold lower upper ihLower ihUpper =>
    intro instructionAccounts s r hchain hok
    rw [specArms] at h
    rw [verifyArms] at hok
    cases hamount : parseRoutingAmount message.body with
    | none =>
      rw [hamount] at hok
      cases hok
    | some amount =>
      rw [hamount] at h hok
      dsimp only at h hok
      by_cases hge : threshold ≤ amount
      · rw [if_pos hge] at h hok
        obtain ⟨r', hupper, -⟩ := map_eq_ok.1 hok
        exact ihUpper hw.2 (fun f hf => hleaf f (List.mem_append_right _ hf)) h metadata instructionAccounts s r'
          (fun hr => hchain (by rw [routes, hr, Bool.or_true])) hupper
      · rw [if_neg hge] at h hok
        obtain ⟨r', hlower, -⟩ := map_eq_ok.1 hok
        exact ihLower hw.1 (fun f hf => hleaf f (List.mem_append_left _ hf)) h metadata instructionAccounts s r'
          (fun hr => hchain (by rw [routes, hr, Bool.true_or])) hlower
  | Routing =>
    intro instructionAccounts s r hchain hok
    rw [specArms] at h
    rw [verifyArms] at hok
    obtain ⟨r', htake, hok⟩ := bind_eq_ok.1 hok
    obtain ⟨r'', htry, hok⟩ := bind_eq_ok.1 hok
    obtain ⟨rfl, -⟩ := domainSpec_rejects hstored (specOverDomain_spec _ x) h (hchain rfl) htake htry
    cases hok
  | FallbackRouting fallbackIsm =>
    intro instructionAccounts s r hchain hok
    rw [specArms] at h
    rw [verifyArms] at hok
    obtain ⟨r', htake, hok⟩ := bind_eq_ok.1 hok
    obtain ⟨r'', htry, hok⟩ := bind_eq_ok.1 hok
    obtain ⟨rfl, hhead, hhopeless⟩ := domainSpec_rejects hstored (specOverDomain_spec _ x) h (hchain rfl) htake htry
    dsimp only at hok
    rw [if_neg Bool.false_ne_true] at hok
    obtain ⟨s', hfallback, -⟩ := map_eq_ok.1 hok
    exact hleaf fallbackIsm (List.mem_singleton_self _) hhead hhopeless metadata instructionAccounts r'.2 s'
      ((takeDomainPda_ok htake).2.trans (hchain rfl)) hfallback
  | Aggregation threshold subIsms ih =>
    intro instructionAccounts s r hchain hok
    rw [verifyArms] at hok
    obtain ⟨r', hsubs, hok⟩ := bind_eq_ok.1 hok
    have hcount : r'.2.1 = threshold.toNat := by
      dsimp only at hok
      split at hok
      · cases hok
      next hcount => exact not_not.1 hcount
    rw [specArms] at h
    cases hspecs : specSubs rt ism chain message keys spec subIsms x with
    | error fault =>
      -- the errors of the members are skipped
      have hunreturned := (specSubs_skipped fun sub _ => specArms_skipped hstored.reads hstored.skipped sub x).of_error hspecs
      rw [hspecs] at h
      exact absurd h hunreturned
    | ok subs =>
      rw [hspecs, ok_bind] at h
      cases subs with
      | Requested accounts => cases h
      | Resolved subSpecs =>
        have hle := verifySubs_count (fun sub hsub hwSub hhopeless => ih sub hsub hwSub
          (fun f hf => hleaf f (mem_allFallbackIsms hsub hf)) hhopeless) hw hspecs hchain hsubs
        dsimp only at h
        split at h
        next hfew => omega
        · cases h

end Rejects

end Hyperlane.Composite
