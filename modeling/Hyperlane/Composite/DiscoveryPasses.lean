/-
The passes of `VerifyAccountMetas` over a tree of the composite ISM: they reach a fixpoint, or one fails and then no accounts
make `Verify` accept.

A tree routes at most once where its accounts are taken, so what the other nodes ask for is the same in every pass, and the
accounts that a routing node reads stay at their place from one pass to the next.

- `domain_cases`: what a pass makes of the domain PDA.
- `nodeEnds`: the passes of a tree.
-/
import Hyperlane.Composite.DiscoveredAccounts

namespace Hyperlane.Composite

open Hyperlane.Bytes Hyperlane.Outcome Hyperlane.Sealevel Hyperlane.Passes
open Hyperlane.Relayer (H160 H256 HyperlaneMessage)

/-! ## What the walk accepts -/

section Accepts

variable {rt : Runtime} {ism : CompositeIsm} {chain : Chain} {message : HyperlaneMessage} {keys : List Pubkey}
  {required : Required} {verifyStored : IsmNode → Walk}

/-- what the walk accepts of a domain PDA -/
theorem tryVerify_ok {domainAcc : AccountMeta} {metadata : List UInt8} {s : VerifyState} {r : Bool × VerifyState}
    (h : tryVerifyDomainIsm rt ism message verifyStored domainAcc metadata s = .ok r) :
    (storedDomainIsm ism s.chain domainAcc = .ok none ∧ r = (false, s)) ∨ ∃ node r', r.1 = true ∧
      storedDomainIsm ism s.chain domainAcc = .ok (some node) ∧
      verifyStored node metadata { s with didMutate := false } = .ok r' := by
  rw [tryVerifyDomainIsm] at h
  obtain ⟨loaded, hloaded, h⟩ := bind_eq_ok.1 h
  have hstored := load_stored (lift_eq_ok hloaded)
  cases loaded with
  | none => exact .inl ⟨hstored, (Except.ok.inj h).symm⟩
  | some storage =>
    rw [Option.bind_some] at hstored
    dsimp only at h
    cases hism : storage.ism with
    | none =>
      rw [hism] at hstored h
      exact .inl ⟨hstored, (Except.ok.inj h).symm⟩
    | some node =>
      rw [hism] at hstored h
      dsimp only at h
      split at h
      · cases h
      · obtain ⟨r', hverify, h⟩ := bind_eq_ok.1 h
        refine .inr ⟨node, r', ?_, hstored, hverify⟩
        split at h
        · split at h
          · cases h
          · obtain ⟨chain', -, h⟩ := bind_eq_ok.1 h
            rw [← Except.ok.inj h]
        · rw [← Except.ok.inj h]

theorem takeDomainPda_ok {s : VerifyState} {r : AccountMeta × VerifyState} (h : takeDomainPda rt ism message s = .ok r) :
    r.1.pubkey = domainPda rt ism message ∧ r.2.chain = s.chain := by
  have hchain := ((takeDomainPda_frame s).of_ok h).1
  rw [takeDomainPda] at h
  obtain ⟨r', -, h⟩ := bind_eq_ok.1 h
  dsimp only at h
  split at h
  · cases h
  next hkey =>
    obtain rfl := Except.ok.inj h
    exact ⟨not_not.1 hkey, hchain⟩

/-- a walk that fails after the domain PDA, for whatever is stored in it -/
theorem rejects_of_stored {metadata : List UInt8} {found : Except ProgramError (Option IsmNode)}
    (hfound : ∀ domainAcc : AccountMeta, domainAcc.pubkey = domainPda rt ism message →
      storedDomainIsm ism chain domainAcc = found)
    (hsome : ∀ node, found = .ok (some node) → ∀ s r, verifyStored node metadata s ≠ .ok r) {s : VerifyState}
    (hchain : s.chain = chain) {r : AccountMeta × VerifyState} (htake : takeDomainPda rt ism message s = .ok r)
    {r' : Bool × VerifyState} (h : tryVerifyDomainIsm rt ism message verifyStored r.1 metadata r.2 = .ok r') :
    found = .ok none ∧ r' = (false, r.2) := by
  obtain ⟨hkey, hchain'⟩ := takeDomainPda_ok htake
  rcases tryVerify_ok h with ⟨hnone, hr⟩ | ⟨node, r'', -, hstored, hok⟩
  · rw [hchain', hchain, hfound r.1 hkey] at hnone
    exact ⟨hnone, hr⟩
  · rw [hchain', hchain, hfound r.1 hkey] at hstored
    exact absurd hok (hsome node hstored _ r'')

/-- the domain PDA alone, as it is asked for first -/
def domainOnly (rt : Runtime) (ism : CompositeIsm) (message : HyperlaneMessage) : List AccountMeta :=
  [.newReadonly (domainPda rt ism message) false]

theorem requiredForRouting_cons {acc : AccountMeta} (hkey : acc.pubkey = domainPda rt ism message) (metadata : List UInt8)
    (rest : List AccountMeta) : requiredForRouting rt ism chain message required metadata (acc :: rest) =
      (requiredForDomain rt ism chain message required acc metadata (acc :: rest)) >>= fun domain =>
        .ok (domain.getD (domainOnly rt ism message)) := by
  rw [requiredForRouting, if_pos hkey]
  rfl

/-- without the domain PDA at its place, only that is asked for -/
theorem requiredForRouting_first (metadata : List UInt8) (x : List AccountMeta) :
    (∃ acc rest, x = acc :: rest ∧ acc.pubkey = domainPda rt ism message) ∨
      requiredForRouting rt ism chain message required metadata x = .ok (domainOnly rt ism message) := by
  cases x with
  | nil => exact .inr rfl
  | cons acc rest =>
    by_cases hkey : acc.pubkey = domainPda rt ism message
    · exact .inl ⟨acc, rest, rfl, hkey⟩
    · refine .inr ?_
      rw [requiredForRouting, if_neg hkey]
      rfl

/-- what surrounds the accounts of a fallback -/
def aroundFallback (rt : Runtime) (ism : CompositeIsm) (message : HyperlaneMessage) (fallbackIsm : Pubkey)
    (inner : List AccountMeta) : List AccountMeta :=
  .newReadonly (domainPda rt ism message) false :: (inner ++ [.newReadonly fallbackIsm false])

/-- with its accounts in place, the pass is the fallback's -/
theorem requiredForFallback_pass {fallbackIsm : Pubkey} (hmem : fallbackIsm ∈ keys)
    (hexecutable : (chain fallbackIsm).executable = true) {metadata : List UInt8} {x : List AccountMeta}
    (hhead : x.head?.map AccountMeta.pubkey = some (vamPda rt fallbackIsm)) :
    (requiredForFallback rt ism chain message keys fallbackIsm metadata x).toOption =
      (discoveryPass (vamPda rt fallbackIsm)
        ((rt.programs fallbackIsm).verifyAccountMetas chain x metadata message)).map
          (aroundFallback rt ism message fallbackIsm) := by
  cases hpass : discoveryPass (vamPda rt fallbackIsm)
    ((rt.programs fallbackIsm).verifyAccountMetas chain x metadata message) with
  | some inner =>
    rw [(requiredForFallback_value hhead).2 ⟨hmem, hexecutable, inner, hpass, rfl⟩]
    rfl
  | none =>
    cases hrequired : requiredForFallback rt ism chain message keys fallbackIsm metadata x with
    | error e => rfl
    | ok accounts =>
      obtain ⟨-, -, inner, hinner, -⟩ := (requiredForFallback_value hhead).1 hrequired
      rw [hpass] at hinner
      cases hinner

/-- without them, they are asked for -/
theorem requiredForFallback_ask {fallbackIsm : Pubkey} {metadata : List UInt8} {x : List AccountMeta}
    (havoid : ∀ m ∈ x, m.pubkey ≠ vamPda rt fallbackIsm) :
    requiredForFallback rt ism chain message keys fallbackIsm metadata x =
      .ok (aroundFallback rt ism message fallbackIsm [.newReadonly (vamPda rt fallbackIsm) false]) := by
  rw [requiredForFallback, if_neg]
  · rfl
  · cases x with
    | nil => exact fun h => by cases h
    | cons first rest => exact fun h => havoid first List.mem_cons_self (Option.some.inj h)

theorem discoveryPass_head {sentinel : Pubkey} {returned : Except ProgramError (ReturnData (List AccountMeta))}
    {accounts : List AccountMeta} (h : discoveryPass sentinel returned = some accounts) :
    accounts.head?.map AccountMeta.pubkey = some sentinel := by
  unfold discoveryPass at h
  split at h
  · rw [← Option.some.inj h]
    obtain ⟨first, rest, hkey, heq⟩ := exists_withSentinel sentinel ‹_›
    rw [heq, List.head?_cons, Option.map_some, hkey]
  · cases h

theorem requiredForFallbackRouting_cons {fallbackIsm : Pubkey} {acc : AccountMeta}
    (hkey : acc.pubkey = domainPda rt ism message) (metadata : List UInt8) (rest : List AccountMeta) :
    requiredForFallbackRouting rt ism chain message required keys fallbackIsm metadata (acc :: rest) =
      (requiredForDomain rt ism chain message required acc metadata (acc :: rest)) >>= fun domain =>
        domain.elim (requiredForFallback rt ism chain message keys fallbackIsm metadata rest) .ok := by
  rw [requiredForFallbackRouting, if_pos hkey]
  refine congrArg _ (funext fun domain => ?_)
  cases domain with
  | none => rfl
  | some accounts => rfl

theorem requiredForFallbackRouting_first {fallbackIsm : Pubkey} (metadata : List UInt8) (x : List AccountMeta) :
    (∃ acc rest, x = acc :: rest ∧ acc.pubkey = domainPda rt ism message) ∨
      requiredForFallbackRouting rt ism chain message required keys fallbackIsm metadata x =
        .ok (domainOnly rt ism message) := by
  cases x with
  | nil => exact .inr rfl
  | cons acc rest =>
    by_cases hkey : acc.pubkey = domainPda rt ism message
    · exact .inl ⟨acc, rest, rfl, hkey⟩
    · refine .inr ?_
      rw [requiredForFallbackRouting, if_neg hkey]
      rfl

theorem verifyFallback_ok {fallbackIsm : Pubkey} {metadata : List UInt8} {s s' : VerifyState}
    (h : verifyFallback rt message keys fallbackIsm metadata s = .ok s') :
    (s.chain fallbackIsm).executable = true ∧ ∃ accounts,
      (rt.programs fallbackIsm).verify s.chain accounts metadata message = .ok s'.chain := by
  rw [verifyFallback] at h
  cases hinvoke : rt.invoke s.chain keys fallbackIsm fun p => p.verify s.chain
    (fallbackAccounts rt s.chain fallbackIsm s.accountsIter) metadata message with
  | error e =>
    rw [hinvoke] at h
    cases h
  | ok chain' =>
    rw [hinvoke] at h
    obtain rfl := Except.ok.inj h
    obtain ⟨-, hexecutable, hcall⟩ := invoke_ok hinvoke
    exact ⟨hexecutable, _, hcall⟩

end Accepts

/-! ## The passes -/

section Passes

variable {rt : Runtime} {ism : CompositeIsm} {chain : Chain} {message : HyperlaneMessage} {missing : ProgramError → Prop}
  {keys : List Pubkey} {required : List Pubkey → Required} {verifyStored : List Pubkey → IsmNode → Walk}

/-- no accounts make the walk accept -/
def Rejects (rt : Runtime) (ism : CompositeIsm) (chain : Chain) (message : HyperlaneMessage)
    (verifyStored : List Pubkey → IsmNode → Walk) (node : IsmNode) (metadata : List UInt8) : Prop :=
  ∀ instructionAccounts s r, (routes node = true → s.chain = chain) →
    verifyArms rt ism message instructionAccounts (verifyStored instructionAccounts) node metadata s ≠ .ok r

/-- the same of the sub-ISMs from `i` on -/
def RejectsSubs (rt : Runtime) (ism : CompositeIsm) (chain : Chain) (message : HyperlaneMessage)
    (verifyStored : List Pubkey → IsmNode → Walk) (subs : List IsmNode) (metadata : List UInt8) (i : ℕ) : Prop :=
  ∀ instructionAccounts verified s r, (anyRoutes subs = true → s.chain = chain) →
    verifySubs rt ism message instructionAccounts (verifyStored instructionAccounts) subs metadata i verified s ≠ .ok r

theorem RejectsSubs.bad_table {subs : List IsmNode} {sub : IsmNode} {metadata : List UInt8} {i : ℕ} {e : Error}
    (hat : subMetadataAt metadata i = .error e) : RejectsSubs rt ism chain message verifyStored (sub :: subs) metadata i := by
  intro keysVerify verified s r _ hok
  rw [verifySubs, hat] at hok
  cases hok

theorem RejectsSubs.absent {subs : List IsmNode} {sub : IsmNode} {metadata : List UInt8} {i : ℕ}
    (hat : subMetadataAt metadata i = .ok none) (h : RejectsSubs rt ism chain message verifyStored subs metadata (i + 1)) :
    RejectsSubs rt ism chain message verifyStored (sub :: subs) metadata i := by
  intro keysVerify verified s r hchain hok
  rw [verifySubs, hat] at hok
  obtain ⟨r', hok, -⟩ := map_eq_ok.1 hok
  exact h keysVerify verified s r' (fun hr => hchain (by rw [anyRoutes, hr, Bool.or_true])) hok

theorem RejectsSubs.head {subs : List IsmNode} {sub : IsmNode} {metadata subMeta : List UInt8} {i : ℕ}
    (hat : subMetadataAt metadata i = .ok (some subMeta)) (h : Rejects rt ism chain message verifyStored sub subMeta) :
    RejectsSubs rt ism chain message verifyStored (sub :: subs) metadata i := by
  intro keysVerify verified s r hchain hok
  rw [verifySubs, hat] at hok
  obtain ⟨r', hsub, -⟩ := bind_eq_ok.1 hok
  exact h keysVerify s r' (fun hr => hchain (by rw [anyRoutes, hr, Bool.true_or])) hsub

theorem RejectsSubs.tail {subs : List IsmNode} {sub : IsmNode} {metadata subMeta : List UInt8} {i : ℕ}
    (hat : subMetadataAt metadata i = .ok (some subMeta)) (honly : routes sub = true → anyRoutes subs = false)
    (h : RejectsSubs rt ism chain message verifyStored subs metadata (i + 1)) :
    RejectsSubs rt ism chain message verifyStored (sub :: subs) metadata i := by
  intro keysVerify verified s r hchain hok
  rw [verifySubs, hat] at hok
  obtain ⟨r', hsub, hok⟩ := bind_eq_ok.1 hok
  obtain ⟨r'', hsubs, -⟩ := bind_eq_ok.1 hok
  have hchain' : anyRoutes subs = true → s.chain = chain := fun hr => hchain (by rw [anyRoutes, hr, Bool.or_true])
  exact h keysVerify (verified + 1) r'.2 r'' (((verifyArms_frame sub subMeta s).of_ok hsub).next honly hchain') hsubs

/-- what is stored for the message's origin, whatever accounts a pass and `Verify` have -/
structure DomainsExact (rt : Runtime) (ism : CompositeIsm) (chain : Chain) (message : HyperlaneMessage)
    (missing : ProgramError → Prop) (required : List Pubkey → Required) (verifyStored : List Pubkey → IsmNode → Walk) :
    Prop where
  exact : ∀ keys keysVerify, DomainExact rt ism chain message missing (required keys) (verifyStored keysVerify)
  const : ∀ domainAcc node, domainAcc.pubkey = domainPda rt ism message →
    storedDomainIsm ism chain domainAcc = .ok (some node) →
      ∀ metadata keys x, required keys node metadata x = required [] node metadata []

/-- what a domain PDA holds, for a message and its metadata -/
inductive DomainCase (rt : Runtime) (ism : CompositeIsm) (chain : Chain) (message : HyperlaneMessage)
    (required : List Pubkey → Required) (verifyStored : List Pubkey → IsmNode → Walk) (metadata : List UInt8) : Prop where
  /-- an ISM that no accounts make accept, or data that cannot be read -/
  | rejects (e : ProgramError)
    (hrequired : ∀ keys domainAcc x, domainAcc.pubkey = domainPda rt ism message →
      requiredForDomain rt ism chain message (required keys) domainAcc metadata x = .error e)
    (hverify : ∀ keysVerify s r r', s.chain = chain → takeDomainPda rt ism message s = .ok r →
      tryVerifyDomainIsm rt ism message (verifyStored keysVerify) r.1 metadata r.2 ≠ .ok r')
  | absent
    (hrequired : ∀ keys domainAcc x, domainAcc.pubkey = domainPda rt ism message →
      requiredForDomain rt ism chain message (required keys) domainAcc metadata x = .ok none)
    (hverify : ∀ keysVerify s r r', s.chain = chain → takeDomainPda rt ism message s = .ok r →
      tryVerifyDomainIsm rt ism message (verifyStored keysVerify) r.1 metadata r.2 = .ok r' → r' = (false, r.2))
  /-- an ISM that requires the same accounts in every pass -/
  | present (first : AccountMeta) (tail : List AccountMeta) (hkey : first.pubkey = domainPda rt ism message)
    (hrequired : ∀ keys domainAcc x, domainAcc.pubkey = domainPda rt ism message →
      requiredForDomain rt ism chain message (required keys) domainAcc metadata x = .ok (some (first :: tail)))

theorem domain_cases (hdomain : DomainsExact rt ism chain message missing required verifyStored) (metadata : List UInt8) :
    DomainCase rt ism chain message required verifyStored metadata := by
  have hfound : ∀ domainAcc : AccountMeta, domainAcc.pubkey = domainPda rt ism message → storedDomainIsm ism chain domainAcc =
      storedDomainIsm ism chain (.newReadonly (domainPda rt ism message) false) := fun _ h => storedDomainIsm_congr h
  cases hstored : storedDomainIsm ism chain (.newReadonly (domainPda rt ism message) false) with
  | error e =>
    rw [hstored] at hfound
    refine .rejects e (fun keys domainAcc x hkey => ?_) fun keysVerify s r r' hchain htake hok => ?_
    · rw [requiredForDomain, hfound domainAcc hkey, error_bind]
    · cases (rejects_of_stored hfound (fun _ h => by cases h) hchain htake hok).1
  | ok stored =>
    rw [hstored] at hfound
    cases stored with
    | none =>
      refine .absent (fun keys domainAcc x hkey => ?_) fun keysVerify s r r' hchain htake hok => ?_
      · rw [requiredForDomain, hfound domainAcc hkey, ok_bind]
      · exact (rejects_of_stored hfound (fun _ h => by cases h) hchain htake hok).2
    | some node =>
      have hconst := hdomain.const (.newReadonly (domainPda rt ism message) false) node rfl hstored metadata
      cases hrequired : required [] node metadata [] with
      | error e =>
        refine .rejects e (fun keys domainAcc x hkey => ?_) fun keysVerify s r r' hchain htake hok => ?_
        · rw [requiredForDomain, hfound domainAcc hkey, ok_bind]
          dsimp only
          rw [hconst keys x, hrequired, error_bind]
        · have hreject : ∀ node', (.ok (some node) : Except ProgramError (Option IsmNode)) = .ok (some node') →
              ∀ s r, verifyStored keysVerify node' metadata s ≠ .ok r := by
            rintro node' ⟨⟩
            exact ((hdomain.exact [] keysVerify) (.newReadonly (domainPda rt ism message) false) node rfl hstored).rejects
              metadata [] e hrequired
          cases (rejects_of_stored hfound hreject hchain htake hok).1
      | ok accounts =>
        refine .present (if containsRateLimited node = true then .new (domainPda rt ism message) false
          else .newReadonly (domainPda rt ism message) false) accounts ?_ fun keys domainAcc x hkey => ?_
        · split
          · rfl
          · rfl
        · rw [requiredForDomain, hfound domainAcc hkey, ok_bind]
          dsimp only
          rw [hconst keys x, hrequired, ok_bind]

/-- a routing node asks for the domain PDA until it has it -/
def AsksForDomain (rt : Runtime) (ism : CompositeIsm) (message : HyperlaneMessage)
    (routed : List Pubkey → List AccountMeta → Except ProgramError (List AccountMeta)) : Prop :=
  ∀ keys x, (∃ acc rest, x = acc :: rest ∧ acc.pubkey = domainPda rt ism message) ∨
    routed keys x = .ok (domainOnly rt ism message)

section AsksForDomain

variable {routed : List Pubkey → List AccountMeta → Except ProgramError (List AccountMeta)}
  (hasks : AsksForDomain rt ism message routed) (x programs : List AccountMeta) (keys : List Pubkey)
  (keysOf : List AccountMeta → List Pubkey)

include hasks

theorem stops_of_domain {e : ProgramError}
    (h : ∀ keys acc rest, acc.pubkey = domainPda rt ism message → routed keys (acc :: rest) = .error e) :
    Stops (routed keys x).toOption fun a => (routed (keysOf a) (a ++ programs)).toOption := by
  rcases hasks keys x with ⟨acc, rest, rfl, hkey⟩ | hx
  · exact ⟨0, congrArg Except.toOption (h keys acc rest hkey)⟩
  · refine ⟨1, ?_⟩
    rw [passes, passes, hx]
    exact congrArg Except.toOption (h _ _ programs rfl)

theorem settles_of_domain {first : AccountMeta} (tail : List AccountMeta) (hfirst : first.pubkey = domainPda rt ism message)
    (h : ∀ keys acc rest, acc.pubkey = domainPda rt ism message → routed keys (acc :: rest) = .ok (first :: tail)) :
    Settles (routed keys x).toOption fun a => (routed (keysOf a) (a ++ programs)).toOption := by
  have hsame := congrArg Except.toOption (h (keysOf (first :: tail)) first (tail ++ programs) hfirst)
  rcases hasks keys x with ⟨acc, rest, rfl, hkey⟩ | hx
  · exact ⟨0, first :: tail, congrArg Except.toOption (h keys acc rest hkey), hsame⟩
  · refine ⟨1, first :: tail, ?_, hsame⟩
    rw [passes, passes, hx]
    exact congrArg Except.toOption (h _ _ programs rfl)

end AsksForDomain

theorem routing_ends (hdomain : DomainsExact rt ism chain message missing required verifyStored) (metadata : List UInt8)
    (x programs : List AccountMeta) (keys : List Pubkey) (keysOf : List AccountMeta → List Pubkey) :
    PassesEnd (requiredForRouting rt ism chain message (required keys) metadata x).toOption
      (fun a => (requiredForRouting rt ism chain message (required (keysOf a)) metadata (a ++ programs)).toOption)
      (Rejects rt ism chain message verifyStored .Routing metadata) := by
  have hasks : AsksForDomain rt ism message
      (fun keys x => requiredForRouting rt ism chain message (required keys) metadata x) :=
    fun keys x => requiredForRouting_first metadata x
  cases domain_cases hdomain metadata with
  | rejects e hrequired hverify =>
    refine .inr ⟨stops_of_domain hasks x programs keys keysOf (e := e) fun keys acc rest hkey => ?_,
      fun keysVerify s r hchain hok => ?_⟩
    · rw [requiredForRouting_cons hkey, hrequired keys acc _ hkey, error_bind]
    · rw [verifyArms] at hok
      obtain ⟨r', htake, hok⟩ := bind_eq_ok.1 hok
      obtain ⟨r'', htry, -⟩ := bind_eq_ok.1 hok
      exact hverify keysVerify s r' r'' (hchain rfl) htake htry
  | absent hrequired hverify =>
    have hdomainOnly : ∀ keys acc rest, acc.pubkey = domainPda rt ism message →
        requiredForRouting rt ism chain message (required keys) metadata (acc :: rest) =
          .ok [.newReadonly (domainPda rt ism message) false] := by
      intro keys acc rest hkey
      rw [requiredForRouting_cons hkey, hrequired keys acc _ hkey]
      rfl
    exact .inl (settles_of_domain hasks x programs keys keysOf [] rfl hdomainOnly)
  | present first tail hkeyFirst hrequired =>
    refine .inl (settles_of_domain hasks x programs keys keysOf tail hkeyFirst fun keys acc rest hkey => ?_)
    rw [requiredForRouting_cons hkey, hrequired keys acc _ hkey]
    rfl

/-- the passes for a fallback, from the one that asks for its accounts -/
theorem fallback_ends {fallbackIsm : Pubkey} (hfallback : FallbackExact rt chain message missing fallbackIsm)
    {metadata : List UInt8} {programs : List AccountMeta} (hprograms : Programs chain programs)
    {pass : List AccountMeta → Option (List AccountMeta)} (hpass : ∀ inner, ∃ keys, fallbackIsm ∈ keys ∧
      pass (aroundFallback rt ism message fallbackIsm inner) = (requiredForFallback rt ism chain message keys fallbackIsm
        metadata (inner ++ .newReadonly fallbackIsm false :: programs)).toOption) {asked : Option (List AccountMeta)}
    (hasked : asked = pass (aroundFallback rt ism message fallbackIsm [.newReadonly (vamPda rt fallbackIsm) false])) :
    PassesEnd asked pass (∀ keysVerify s r, s.chain = chain →
      verifyFallback rt message keysVerify fallbackIsm metadata s ≠ .ok r) := by
  have hheadOf : ∀ (accounts rest : List AccountMeta), accounts.head?.map AccountMeta.pubkey = some (vamPda rt fallbackIsm) →
      (accounts ++ rest).head?.map AccountMeta.pubkey = some (vamPda rt fallbackIsm) := by
    intro accounts rest h
    cases accounts with
    | nil => cases h
    | cons first accounts => exact h
  by_cases hexecutable : (chain fallbackIsm).executable = true
  · have hmap : ∀ inner : List AccountMeta, inner.head?.map AccountMeta.pubkey = some (vamPda rt fallbackIsm) →
        pass (aroundFallback rt ism message fallbackIsm inner) = (discoveryPass (vamPda rt fallbackIsm)
          ((rt.programs fallbackIsm).verifyAccountMetas chain (inner ++ .newReadonly fallbackIsm false :: programs) metadata
            message)).map (aroundFallback rt ism message fallbackIsm) := by
      intro inner hinner
      obtain ⟨keys, hmem, heq⟩ := hpass inner
      rw [heq, requiredForFallback_pass hmem hexecutable (hheadOf _ _ hinner)]
    have hprograms' : Programs chain (.newReadonly fallbackIsm false :: programs) :=
      List.forall_mem_cons.2 ⟨hexecutable, hprograms⟩
    have hsettles : PassesEnd _ _ _ := (hfallback.exact metadata).settles (.newReadonly (vamPda rt fallbackIsm) false)
      (.newReadonly fallbackIsm false :: programs) rfl hprograms'
    refine hsettles.map_of (hasked.trans (hmap _ rfl)) (fun _ => discoveryPass_head) (fun _ _ => discoveryPass_head) hmap ?_
    intro hrejects keysVerify s r hchain hok
    obtain ⟨-, accounts, hverify⟩ := verifyFallback_ok hok
    rw [hchain] at hverify
    exact hrejects accounts _ hverify
  · have hnone : asked = none := by
      obtain ⟨keys, -, heq⟩ := hpass [.newReadonly (vamPda rt fallbackIsm) false]
      rw [hasked, heq]
      cases hrequired : requiredForFallback rt ism chain message keys fallbackIsm metadata
        ([.newReadonly (vamPda rt fallbackIsm) false] ++ .newReadonly fallbackIsm false :: programs) with
      | error e => rfl
      | ok accounts => exact absurd ((requiredForFallback_value rfl).1 hrequired).2.1 hexecutable
    rw [hnone]
    refine .inr ⟨stops_none pass, fun keysVerify s r hchain hok => ?_⟩
    exact hexecutable (hchain ▸ (verifyFallback_ok hok).1)

theorem fallbackRouting_ends (hdomain : DomainsExact rt ism chain message missing required verifyStored)
    {fallbackIsm : Pubkey} (hfallback : FallbackExact rt chain message missing fallbackIsm) (metadata : List UInt8)
    {x programs : List AccountMeta} (keys : List Pubkey) {keysOf : List AccountMeta → List Pubkey}
    (hkeys : ∀ a, ∀ m ∈ a, m.pubkey ∈ keysOf a) (havoid : ∀ m ∈ x ++ programs, m.pubkey ≠ vamPda rt fallbackIsm)
    (hprograms : Programs chain programs) :
    let first := (requiredForFallbackRouting rt ism chain message (required keys) keys fallbackIsm metadata x).toOption
    let pass := fun a => (requiredForFallbackRouting rt ism chain message (required (keysOf a)) (keysOf a) fallbackIsm
      metadata (a ++ programs)).toOption
    PassesEnd first pass (Rejects rt ism chain message verifyStored (.FallbackRouting fallbackIsm) metadata) := by
  intro first pass
  have hasks : AsksForDomain rt ism message
      (fun keys x => requiredForFallbackRouting rt ism chain message (required keys) keys fallbackIsm metadata x) :=
    fun keys x => requiredForFallbackRouting_first metadata x
  cases domain_cases hdomain metadata with
  | rejects e hrequired hverify =>
    refine .inr ⟨stops_of_domain hasks x programs keys keysOf (e := e) fun keys acc rest hkey => ?_,
      fun keysVerify s r hchain hok => ?_⟩
    · rw [requiredForFallbackRouting_cons hkey, hrequired keys acc _ hkey, error_bind]
    · rw [verifyArms] at hok
      obtain ⟨r', htake, hok⟩ := bind_eq_ok.1 hok
      obtain ⟨r'', htry, -⟩ := bind_eq_ok.1 hok
      exact hverify keysVerify s r' r'' (hchain rfl) htake htry
  | present head tail hkeyHead hrequired =>
    refine .inl (settles_of_domain hasks x programs keys keysOf tail hkeyHead fun keys acc rest hkey => ?_)
    rw [requiredForFallbackRouting_cons hkey, hrequired keys acc _ hkey, ok_bind, Option.elim_some]
  | absent hrequired hverify =>
    have hcons : ∀ keys acc rest, acc.pubkey = domainPda rt ism message →
        requiredForFallbackRouting rt ism chain message (required keys) keys fallbackIsm metadata (acc :: rest) =
          requiredForFallback rt ism chain message keys fallbackIsm metadata rest := by
      intro keys acc rest hkey
      rw [requiredForFallbackRouting_cons hkey, hrequired keys acc _ hkey, ok_bind, Option.elim_none]
    -- the fallback's accounts are asked for in the first pass or in the second one
    let ask := aroundFallback rt ism message fallbackIsm [.newReadonly (vamPda rt fallbackIsm) false]
    have hasked : ∃ k, passes first pass k = some ask := by
      rcases hasks keys x with ⟨acc, rest, rfl, hkey⟩ | hx
      · refine ⟨0, congrArg Except.toOption ((hcons keys acc rest hkey).trans (requiredForFallback_ask fun m hm => ?_))⟩
        exact havoid m (List.mem_append_left _ (List.mem_cons_of_mem _ hm))
      · refine ⟨1, ?_⟩
        have hsome : first = some (domainOnly rt ism message) := congrArg Except.toOption hx
        rw [passes, passes, hsome]
        refine congrArg Except.toOption ((hcons _ _ programs rfl).trans (requiredForFallback_ask fun m hm => ?_))
        exact havoid m (List.mem_append_right _ hm)
    obtain ⟨k, hk⟩ := hasked
    have hpass : ∀ inner, ∃ keys, fallbackIsm ∈ keys ∧ pass (aroundFallback rt ism message fallbackIsm inner) =
        (requiredForFallback rt ism chain message keys fallbackIsm metadata
          (inner ++ .newReadonly fallbackIsm false :: programs)).toOption := by
      intro inner
      refine ⟨keysOf (aroundFallback rt ism message fallbackIsm inner), ?_, ?_⟩
      · exact hkeys _ (.newReadonly fallbackIsm false)
          (List.mem_cons_of_mem _ (List.mem_append_right _ (List.mem_singleton_self _)))
      · refine congrArg Except.toOption ((hcons _ _ (inner ++ [.newReadonly fallbackIsm false] ++ programs) rfl).trans ?_)
        rw [List.append_assoc, List.singleton_append]
    have hnext : passes first pass (k + 1) = pass ask := by rw [passes, hk, Option.bind_some]
    refine (PassesEnd.shift (fallback_ends hfallback hprograms hpass hnext)).imp fun hrejects keysVerify s r hchain hok => ?_
    rw [verifyArms] at hok
    obtain ⟨r', htake, hok⟩ := bind_eq_ok.1 hok
    obtain ⟨r'', htry, hok⟩ := bind_eq_ok.1 hok
    obtain rfl := hverify keysVerify s r' r'' (hchain rfl) htake htry
    dsimp only at hok
    rw [if_neg Bool.false_ne_true] at hok
    obtain ⟨s', hfallbackOk, -⟩ := map_eq_ok.1 hok
    exact hrejects keysVerify r'.2 s' ((takeDomainPda_ok htake).2.trans (hchain rfl)) hfallbackOk

/-- how the passes of a tree end, from whatever accounts are given first, and with programs after those that are returned -/
def NodeEnds (rt : Runtime) (ism : CompositeIsm) (chain : Chain) (message : HyperlaneMessage)
    (required : List Pubkey → Required) (verifyStored : List Pubkey → IsmNode → Walk) (node : IsmNode) : Prop :=
  ∀ metadata x programs keys (keysOf : List AccountMeta → List Pubkey), (∀ a, ∀ m ∈ a, m.pubkey ∈ keysOf a) →
    (∀ f ∈ fallbackIsms node, ∀ m ∈ x ++ programs, m.pubkey ≠ vamPda rt f) →
    (containsFallbackRouting node = true → Programs chain programs) →
    PassesEnd (requiredArms rt ism chain message keys (required keys) node metadata x).toOption
      (fun a => (requiredArms rt ism chain message (keysOf a) (required (keysOf a)) node metadata (a ++ programs)).toOption)
      (Rejects rt ism chain message verifyStored node metadata)

/-- the same of the sub-ISMs from `i` on -/
def SubsEnd (rt : Runtime) (ism : CompositeIsm) (chain : Chain) (message : HyperlaneMessage)
    (required : List Pubkey → Required) (verifyStored : List Pubkey → IsmNode → Walk) (subs : List IsmNode) : Prop :=
  ∀ metadata i x programs keys (keysOf : List AccountMeta → List Pubkey), (∀ a, ∀ m ∈ a, m.pubkey ∈ keysOf a) →
    (∀ f ∈ allFallbackIsms subs, ∀ m ∈ x ++ programs, m.pubkey ≠ vamPda rt f) →
    (anyContainsFallbackRouting subs = true → Programs chain programs) →
    PassesEnd (requiredSubs rt ism chain message keys (required keys) subs metadata i x).toOption
      (fun a => (requiredSubs rt ism chain message (keysOf a) (required (keysOf a)) subs metadata i (a ++ programs)).toOption)
      (RejectsSubs rt ism chain message verifyStored subs metadata i)

/-- a member with metadata, and the members after it -/
theorem requiredSubs_some {sub : IsmNode} {subs : List IsmNode} {metadata subMeta : List UInt8} {i : ℕ}
    (hat : subMetadataAt metadata i = .ok (some subMeta)) (x : List AccountMeta) :
    (requiredSubs rt ism chain message keys (required keys) (sub :: subs) metadata i x).toOption =
      (requiredArms rt ism chain message keys (required keys) sub subMeta x).toOption.bind fun accounts =>
        (requiredSubs rt ism chain message keys (required keys) subs metadata (i + 1) (x.drop accounts.length)).toOption.map
          (accounts ++ ·) := by
  simp only [requiredSubs, hat, toOption_bind]
  refine congrArg _ (funext fun accounts => ?_)
  cases requiredSubs rt ism chain message keys (required keys) subs metadata (i + 1) (x.drop accounts.length) with
  | error e => rfl
  | ok rest => rfl

theorem subsEnd_cons {sub : IsmNode} {subs : List IsmNode} (hsub : NodeEnds rt ism chain message required verifyStored sub)
    (hsubs : SubsEnd rt ism chain message required verifyStored subs) (honly : routes sub = true → anyRoutes subs = false)
    (hlast : containsFallbackRouting sub = true → subs = []) :
    SubsEnd rt ism chain message required verifyStored (sub :: subs) := by
  intro metadata i x programs keys keysOf hkeys havoid hprograms
  have hrest : ∀ (y : List AccountMeta) (keys : List Pubkey) (keysOf : List AccountMeta → List Pubkey),
      (∀ a, ∀ m ∈ a, m.pubkey ∈ keysOf a) → y ⊆ x →
      PassesEnd (requiredSubs rt ism chain message keys (required keys) subs metadata (i + 1) y).toOption
        (fun a =>
          (requiredSubs rt ism chain message (keysOf a) (required (keysOf a)) subs metadata (i + 1) (a ++ programs)).toOption)
        (RejectsSubs rt ism chain message verifyStored subs metadata (i + 1)) := by
    intro y keys keysOf hkeys hy
    refine hsubs metadata (i + 1) y programs keys keysOf hkeys (fun f hf m hm => ?_) fun hf => ?_
    · refine havoid f (List.mem_append_right _ hf) m ?_
      rcases List.mem_append.1 hm with hm | hm
      · exact List.mem_append_left _ (hy hm)
      · exact List.mem_append_right _ hm
    · exact hprograms (by rw [anyContainsFallbackRouting, hf, Bool.or_true])
  cases hat : subMetadataAt metadata i with
  | error e =>
    simp only [requiredSubs, hat]
    exact .inr ⟨stops_none _, .bad_table hat⟩
  | ok found =>
    cases found with
    | none =>
      simp only [requiredSubs, hat]
      exact (hrest x keys keysOf hkeys fun _ h => h).imp (.absent hat)
    | some subMeta =>
      by_cases hroutes : routes sub = true
      · -- the members after a routing one are the same in every pass
        have hconst : ∀ keys y, (requiredSubs rt ism chain message keys (required keys) subs metadata (i + 1) y).toOption =
            (requiredSubs rt ism chain message [] (required []) subs metadata (i + 1) []).toOption := fun keys y =>
          congrArg Except.toOption (requiredSubs_of_not_routes (fun sub _ hr => requiredArms_of_not_routes hr) (honly hroutes)
            metadata (i + 1) y [])
        cases hc : (requiredSubs rt ism chain message [] (required []) subs metadata (i + 1) []).toOption with
        | none =>
          have hrejects := hrest x keys keysOf hkeys fun _ h => h
          rw [hconst, hc] at hrejects
          refine .inr ⟨⟨0, ?_⟩, .tail hat honly hrejects.of_none⟩
          rw [passes, requiredSubs_some hat]
          simp only [hconst, hc, Option.map_none]
          exact Option.bind_fun_none _
        | some c =>
          have hc' : containsFallbackRouting sub = true → c = [] := by
            intro hf
            obtain rfl := hlast hf
            rw [requiredSubs] at hc
            exact (Option.some.inj hc).symm
          have hends := hsub subMeta x (c ++ programs) keys (fun a => keysOf (a ++ c))
            (fun a m hm => hkeys _ m (List.mem_append_left _ hm)) (fun f hf m hm => ?_) fun hf => ?_
          · refine hends.map (f := (· ++ c)) ?_ (fun a => ?_) (.head hat)
            · rw [requiredSubs_some hat]
              simp only [hconst, hc, Option.map_some]
              exact Option.map_eq_bind.symm
            · rw [requiredSubs_some hat]
              simp only [hconst, hc, Option.map_some, List.append_assoc]
              exact Option.map_eq_bind.symm
          · have hfallback : containsFallbackRouting sub = true := by
              by_contra hnot
              rw [fallbackIsms_eq_nil (Bool.eq_false_of_not_eq_true hnot)] at hf
              exact absurd hf List.not_mem_nil
            rw [hc' hfallback, List.nil_append] at hm
            exact havoid f (List.mem_append_left _ hf) m hm
          · rw [hc' hf, List.nil_append]
            exact hprograms (by rw [anyContainsFallbackRouting, hf, Bool.true_or])
      · -- a member that does not route is the same in every pass
        have hconst : ∀ keys y, (requiredArms rt ism chain message keys (required keys) sub subMeta y).toOption =
            (requiredArms rt ism chain message [] (required []) sub subMeta []).toOption := fun keys y =>
          congrArg Except.toOption (requiredArms_of_not_routes (Bool.eq_false_of_not_eq_true hroutes) subMeta y [])
        have hnoFallback : fallbackIsms sub = [] := by
          refine fallbackIsms_eq_nil (Bool.eq_false_of_not_eq_true fun hf => hroutes ?_)
          exact routes_of_containsFallbackRouting hf
        cases hc : (requiredArms rt ism chain message [] (required []) sub subMeta []).toOption with
        | none =>
          have hrejects := hsub subMeta x programs keys keysOf hkeys
            (fun f hf => absurd (hnoFallback ▸ hf) List.not_mem_nil)
            (fun hf => absurd (routes_of_containsFallbackRouting hf) hroutes)
          rw [hconst, hc] at hrejects
          refine .inr ⟨⟨0, ?_⟩, .head hat hrejects.of_none⟩
          rw [passes, requiredSubs_some hat, hconst, hc]
          rfl
        | some c =>
          have hends := hrest (x.drop c.length) keys (fun a => keysOf (c ++ a))
            (fun a m hm => hkeys _ m (List.mem_append_right _ hm)) (fun _ h => List.mem_of_mem_drop h)
          refine hends.map (f := (c ++ ·)) ?_ (fun a => ?_) (.tail hat honly)
          · rw [requiredSubs_some hat, hconst, hc]
            rfl
          · rw [requiredSubs_some hat, hconst, hc, List.append_assoc]
            change Option.map _ _ = _
            rw [List.drop_left]

theorem subsEnd_of_wellRouted {subs : List IsmNode} (hsubs : ∀ sub ∈ subs, WellRouted sub →
    (∀ f ∈ fallbackIsms sub, FallbackExact rt chain message missing f) →
      NodeEnds rt ism chain message required verifyStored sub) (hw : AllWellRouted subs)
    (hfallback : ∀ f ∈ allFallbackIsms subs, FallbackExact rt chain message missing f) :
    SubsEnd rt ism chain message required verifyStored subs := by
  induction subs with
  | nil =>
    intro metadata i x programs keys keysOf hkeys havoid hprograms
    exact .inl ⟨0, [], rfl, rfl⟩
  | cons sub subs ih =>
    obtain ⟨hwSub, honly, hlast, hwSubs⟩ := hw
    have hends := hsubs sub List.mem_cons_self hwSub fun f hf => hfallback f (List.mem_append_left _ hf)
    refine subsEnd_cons hends ?_ honly hlast
    exact ih (fun sub hsub => hsubs sub (List.mem_cons_of_mem _ hsub)) hwSubs
      fun f hf => hfallback f (List.mem_append_right _ hf)

/-- **The passes of a tree** reach a fixpoint, or one fails and no accounts make the walk accept. -/
theorem nodeEnds (hdomain : DomainsExact rt ism chain message missing required verifyStored) {node : IsmNode}
    (hw : WellRouted node) (hfallback : ∀ f ∈ fallbackIsms node, FallbackExact rt chain message missing f) :
    NodeEnds rt ism chain message required verifyStored node := by
  induction node with
  | Aggregation threshold subIsms ih =>
    intro metadata x programs keys keysOf hkeys havoid hprograms
    refine (subsEnd_of_wellRouted ih hw hfallback metadata 0 x programs keys keysOf hkeys havoid hprograms).imp ?_
    intro hrejects keysVerify s r hchain hok
    rw [verifyArms] at hok
    obtain ⟨r', hsubs, -⟩ := bind_eq_ok.1 hok
    exact hrejects keysVerify 0 s r' hchain hsubs
  | AmountRouting threshold lower upper ihLower ihUpper =>
    intro metadata x programs keys keysOf hkeys havoid hprograms
    simp only [requiredArms]
    cases hamount : parseRoutingAmount message.body with
    | none =>
      refine .inr ⟨stops_none _, fun keysVerify s r hchain hok => ?_⟩
      rw [verifyArms, hamount] at hok
      cases hok
    | some amount =>
      dsimp only
      by_cases hge : threshold ≤ amount
      · simp only [if_pos hge]
        refine (ihUpper hw.2 (fun f hf => hfallback f (List.mem_append_right _ hf)) metadata x programs keys keysOf hkeys
          (fun f hf => havoid f (List.mem_append_right _ hf))
          (fun hf => hprograms (by rw [containsFallbackRouting, hf, Bool.or_true]))).imp ?_
        intro hrejects keysVerify s r hchain hok
        rw [verifyArms, hamount] at hok
        dsimp only at hok
        rw [if_pos hge] at hok
        obtain ⟨r', hupper, -⟩ := map_eq_ok.1 hok
        exact hrejects keysVerify s r' (fun hr => hchain (by rw [routes, hr, Bool.or_true])) hupper
      · simp only [if_neg hge]
        refine (ihLower hw.1 (fun f hf => hfallback f (List.mem_append_left _ hf)) metadata x programs keys keysOf hkeys
          (fun f hf => havoid f (List.mem_append_left _ hf))
          (fun hf => hprograms (by rw [containsFallbackRouting, hf, Bool.true_or]))).imp ?_
        intro hrejects keysVerify s r hchain hok
        rw [verifyArms, hamount] at hok
        dsimp only at hok
        rw [if_neg hge] at hok
        obtain ⟨r', hlower, -⟩ := map_eq_ok.1 hok
        exact hrejects keysVerify s r' (fun hr => hchain (by rw [routes, hr, Bool.true_or])) hlower
  | Routing =>
    intro metadata x programs keys keysOf _ _ _
    exact routing_ends hdomain metadata x programs keys keysOf
  | FallbackRouting fallbackIsm =>
    intro metadata x programs keys keysOf hkeys havoid hprograms
    exact fallbackRouting_ends hdomain (hfallback fallbackIsm (List.mem_singleton_self _)) metadata keys hkeys
      (havoid fallbackIsm (List.mem_singleton_self _)) (hprograms rfl)
  | TrustedRelayer relayer =>
    intro metadata x programs keys keysOf _ _ _
    exact .inl ⟨0, _, rfl, rfl⟩
  | MultisigMessageId validators threshold =>
    intro metadata x programs keys keysOf _ _ _
    exact .inl ⟨0, _, rfl, rfl⟩
  | Test accept =>
    intro metadata x programs keys keysOf _ _ _
    exact .inl ⟨0, _, rfl, rfl⟩
  | Pausable paused =>
    intro metadata x programs keys keysOf _ _ _
    exact .inl ⟨0, _, rfl, rfl⟩
  | RateLimited maxCapacity recipient filledLevel lastUpdated mailbox =>
    intro metadata x programs keys keysOf _ _ _
    exact .inl ⟨0, _, rfl, rfl⟩

end Passes

end Hyperlane.Composite
