/-
`Verify` of the composite ISM (rust/sealevel/programs/ism/composite-ism): the walk over the config tree (verify.rs) and the
instruction (processor.rs).

The walk takes accounts from an iterator and changes nodes in place, so it returns the node, and a state with the accounts
that are left.

- `verifyNode_frame`: what the walk changes of the tree, of the chain and of `did_mutate`.
-/
import Hyperlane.Composite.AccountMetas

namespace Hyperlane.Composite

open Hyperlane.Bytes Hyperlane.Outcome Hyperlane.Sealevel
open Hyperlane.Relayer (H160 H256 HyperlaneMessage)

/-! ## The walk -/

/-- the accounts that are left, the chain, and `did_mutate` -/
structure VerifyState where
  chain : Chain
  accountsIter : List AccountMeta
  didMutate : Bool

/-- an error of this program -/
def fail {α : Type} (e : Error) : Except Fault α := .error (.Program e.into)

/-- `?` on a `ProgramError` -/
def lift {α : Type} : Except ProgramError α → Except Fault α
  | .ok a => .ok a
  | .error e => .error (.Program e)

theorem lift_eq_ok {α : Type} {x : Except ProgramError α} {a : α} (h : lift x = .ok a) : x = .ok a := by
  cases x with
  | ok a' => exact congrArg _ (Except.ok.inj h)
  | error e => cases h

/-- the next account of the iterator -/
def VerifyState.next (s : VerifyState) : Except Fault (AccountMeta × VerifyState) :=
  match nextAccountInfo s.accountsIter with
  | .error e => .error (.Program e)
  | .ok (info, rest) => .ok (info, { s with accountsIter := rest })

section Walk

variable (rt : Runtime) (ism : CompositeIsm) (message : HyperlaneMessage)

/-- what a walk over a tree does with a node -/
abbrev Walk := List UInt8 → VerifyState → Except Fault (IsmNode × VerifyState)

/-- the domain ISM of the message's origin: whether there is one, in which case it is verified -/
def tryVerifyDomainIsm (verifyNode : IsmNode → Walk) (domainPdaInfo : AccountMeta) (metadata : List UInt8)
    (s : VerifyState) : Except Fault (Bool × VerifyState) := do
  let loaded ← lift (loadAndValidateDomainIsmStorage rt ism s.chain message.origin domainPdaInfo)
  match loaded with
  | none => .ok (false, s)
  | some storage =>
    match storage.ism with
    | none => .ok (false, s)
    | some node =>
      if containsRateLimited node = true ∧ domainPdaInfo.isWritable = false then fail .DomainPdaNotWritable
      else do
        let (node, after) ← verifyNode node metadata { s with didMutate := false }
        if after.didMutate = true then
          if domainPdaInfo.isWritable = false then fail .DomainPdaNotWritable
          else do
            let chain ← lift (store after.chain domainPdaInfo { storage with ism := some node }.serialize)
            .ok (true, ⟨chain, after.accountsIter, s.didMutate⟩)
        else .ok (true, ⟨after.chain, after.accountsIter, s.didMutate⟩)

/-- the domain PDA, with which both routing nodes start -/
def takeDomainPda (s : VerifyState) : Except Fault (AccountMeta × VerifyState) := do
  let (domainPdaInfo, s) ← s.next
  if domainPdaInfo.pubkey ≠ domainPda rt ism message then fail .InvalidDomainPda
  else .ok (domainPdaInfo, s)

/-- the accounts that the fallback gets: it gets its sentinel only if it owns it -/
def fallbackAccounts (chain : Chain) (fallbackIsm : Pubkey) : List AccountMeta → List AccountMeta
  | [] => []
  | first :: rest =>
    if first.pubkey = vamPda rt fallbackIsm ∧ (chain first.pubkey).owner ≠ fallbackIsm then rest else first :: rest

/-- the call of the fallback's `Verify`, with all accounts that are left -/
def verifyFallback (instructionAccounts : List Pubkey) (fallbackIsm : Pubkey) (metadata : List UInt8) (s : VerifyState) :
    Except Fault VerifyState := do
  let remaining := fallbackAccounts rt s.chain fallbackIsm s.accountsIter
  let chain ← lift (rt.invoke s.chain instructionAccounts fallbackIsm fun p => p.verify s.chain remaining metadata message)
  .ok ⟨chain, [], s.didMutate⟩

def verifyTrustedRelayer (relayer : Pubkey) (s : VerifyState) : Except Fault VerifyState := do
  let (relayerInfo, s) ← s.next
  if relayerInfo.pubkey ≠ relayer then fail .InvalidRelayer
  else if relayerInfo.isSigner = false then fail .RelayerNotSigner
  else .ok s

def verifyMultisig (validators : List H160) (threshold : UInt8) (metadata : List UInt8) : Except Fault Unit :=
  match MultisigIsmMessageIdMetadata.tryFrom metadata with
  | .error _ => fail .InvalidMetadata
  | .ok m =>
    if m.validatorSignatures.length < threshold.toNat then fail .InvalidMetadata
    else
      match (MultisigIsm.mk (m.checkpoint rt.crypto message) m.validatorSignatures validators threshold).verify rt.crypto
          rt.secp256k1Recover with
      | .error e => fail (fromMultisigIsmError e)
      | .ok _ => .ok ()

variable (instructionAccounts : List Pubkey) (verifyStored : IsmNode → Walk)

mutual

/-- the arms of `verify_node`, over what is done with a domain ISM -/
def verifyArms : IsmNode → Walk
  | .TrustedRelayer relayer, _, s => (verifyTrustedRelayer relayer s).map (IsmNode.TrustedRelayer relayer, ·)
  | .MultisigMessageId validators threshold, metadata, s =>
    (verifyMultisig rt message validators threshold metadata).map fun _ => (.MultisigMessageId validators threshold, s)
  | .Aggregation threshold subIsms, metadata, s => do
    let (subIsms, verified, s) ← verifySubs subIsms metadata 0 0 s
    if verified ≠ threshold.toNat then fail .ThresholdNotMet else .ok (.Aggregation threshold subIsms, s)
  | .AmountRouting threshold lower upper, metadata, s =>
    match parseRoutingAmount message.body with
    | none => fail .InvalidMessageBody
    | some amount =>
      if threshold ≤ amount then
        (verifyArms upper metadata s).map fun r => (.AmountRouting threshold lower r.1, r.2)
      else (verifyArms lower metadata s).map fun r => (.AmountRouting threshold r.1 upper, r.2)
  | .Routing, metadata, s => do
    let (domainPdaInfo, s) ← takeDomainPda rt ism message s
    let (verified, s) ← tryVerifyDomainIsm rt ism message verifyStored domainPdaInfo metadata s
    if verified = true then .ok (.Routing, s) else fail .NoRouteForDomain
  | .Test accept, _, s => if accept = true then .ok (.Test accept, s) else fail .VerifyRejected
  | .Pausable paused, _, s => if paused = true then fail .VerifyRejected else .ok (.Pausable paused, s)
  | .FallbackRouting fallbackIsm, metadata, s => do
    let (domainPdaInfo, s) ← takeDomainPda rt ism message s
    let (verified, s) ← tryVerifyDomainIsm rt ism message verifyStored domainPdaInfo metadata s
    if verified = true then .ok (.FallbackRouting fallbackIsm, s)
    else (verifyFallback rt message instructionAccounts fallbackIsm metadata s).map (.FallbackRouting fallbackIsm, ·)
  | .RateLimited maxCapacity recipient filledLevel lastUpdated mailbox, _, s => do
    let (f, mutated, rest) ← verifyRateLimited rt ism.programId ⟨maxCapacity, recipient, mailbox⟩ ⟨filledLevel, lastUpdated⟩
      message s.accountsIter rt.unixTimestamp
    .ok (.RateLimited maxCapacity recipient f.filledLevel f.lastUpdated mailbox, ⟨s.chain, rest, s.didMutate || mutated⟩)

/-- the loop of the `Aggregation` arm, from the sub-ISM `i` on -/
def verifySubs : List IsmNode → List UInt8 → ℕ → ℕ → VerifyState → Except Fault (List IsmNode × ℕ × VerifyState)
  | [], _, _, verified, s => .ok ([], verified, s)
  | sub :: subs, metadata, i, verified, s =>
    match subMetadataAt metadata i with
    | .error e => fail e
    | .ok none => (verifySubs subs metadata (i + 1) verified s).map fun r => (sub :: r.1, r.2)
    | .ok (some subMeta) => do
      let (sub, s) ← verifyArms sub subMeta s
      let (subs, verified, s) ← verifySubs subs metadata (i + 1) (verified + 1) s
      .ok (sub :: subs, verified, s)

end

end Walk

section

variable (rt : Runtime) (ism : CompositeIsm) (message : HyperlaneMessage) (instructionAccounts : List Pubkey)

/-- `verify_node`; `depth` bounds how deep domain ISMs nest -/
def verifyNode : ℕ → IsmNode → Walk
  | 0 => verifyArms rt ism message instructionAccounts fun _ _ _ => .error (.Program .CallDepth)
  | depth + 1 => verifyArms rt ism message instructionAccounts (verifyNode depth)

end

/-- `verify`: the chain after it, and the accounts that are left -/
def verify (rt : Runtime) (ism : CompositeIsm) (chain : Chain) (accounts : List AccountMeta) (metadata : List UInt8)
    (message : HyperlaneMessage) : Except Fault (Chain × List AccountMeta) := do
  let (storageInfo, rest) ← lift (nextAccountInfo accounts)
  let storage ← lift (loadAndVerifyStorage rt ism chain storageInfo)
  match storage.root with
  | none => fail .ConfigNotSet
  | some root => do
    let (root, s) ← verifyNode rt ism message (accounts.map AccountMeta.pubkey) rt.maxCallDepth root metadata
      ⟨chain, rest, false⟩
    if s.didMutate = true then
      if storageInfo.isWritable = false then fail .DomainPdaNotWritable
      else do
        let chain ← lift (store s.chain storageInfo { storage with root := some root }.serialize)
        .ok (chain, s.accountsIter)
    else .ok (s.chain, s.accountsIter)

/-! ## What the walk changes -/

section Frame

variable {rt : Runtime} {ism : CompositeIsm} {message : HyperlaneMessage} {instructionAccounts : List Pubkey}
  {verifyStored : IsmNode → Walk}

/-- what may differ after a node: the chain where it routes, `did_mutate` where it reaches a `RateLimited` node, and never
the size of the tree -/
structure Frame (message : HyperlaneMessage) (node : IsmNode) (metadata : List UInt8) (s : VerifyState)
    (r : IsmNode × VerifyState) : Prop where
  chain : routes node = false → r.2.chain = s.chain
  mutated : r.2.didMutate = true → s.didMutate = true ∨ reachableContainsRateLimited message node metadata = true
  size : r.1.serialize.length = node.serialize.length

/-- the same of the sub-ISMs from `i` on -/
structure FrameSubs (message : HyperlaneMessage) (subs : List IsmNode) (metadata : List UInt8) (i : ℕ) (s : VerifyState)
    (r : List IsmNode × ℕ × VerifyState) : Prop where
  chain : anyRoutes subs = false → r.2.2.chain = s.chain
  mutated : r.2.2.didMutate = true → s.didMutate = true ∨ anyReachable message subs metadata i = true
  size : (serializeAll r.1).length = (serializeAll subs).length

/-- a node that only looks at its accounts -/
theorem Frame.unchanged {node : IsmNode} {metadata : List UInt8} {s s' : VerifyState} (hchain : s'.chain = s.chain)
    (hmutate : s'.didMutate = s.didMutate) : Frame message node metadata s (node, s') :=
  ⟨fun _ => hchain, fun h => .inl (hmutate ▸ h), rfl⟩

/-- the members after one see the chain as it was: a member that routes is the only one -/
theorem Frame.next {chain : Chain} {sub : IsmNode} {subs : List IsmNode} {subMeta : List UInt8} {s : VerifyState}
    {r : IsmNode × VerifyState} (h : Frame message sub subMeta s r) (honly : routes sub = true → anyRoutes subs = false)
    (hchain : anyRoutes subs = true → s.chain = chain) (hroutes : anyRoutes subs = true) : r.2.chain = chain := by
  have hsubRoutes : routes sub = false := by
    refine Bool.eq_false_of_not_eq_true fun hsubRoutes => ?_
    rw [honly hsubRoutes] at hroutes
    cases hroutes
  exact (h.chain hsubRoutes).trans (hchain hroutes)

theorem next_frame (s : VerifyState) :
    Ends (fun _ => True) (fun r => r.2.chain = s.chain ∧ r.2.didMutate = s.didMutate) s.next := by
  unfold VerifyState.next
  cases nextAccountInfo s.accountsIter with
  | error e => trivial
  | ok r => exact ⟨rfl, rfl⟩

theorem takeDomainPda_frame (s : VerifyState) :
    Ends (fun _ => True) (fun r => r.2.chain = s.chain ∧ r.2.didMutate = s.didMutate) (takeDomainPda rt ism message s) := by
  refine (next_frame s).bind fun r hr => ?_
  dsimp only
  split
  · trivial
  · exact hr

theorem tryVerifyDomainIsm_frame (domainPdaInfo : AccountMeta) (metadata : List UInt8) (s : VerifyState) :
    Ends (fun _ => True) (fun r => r.2.didMutate = s.didMutate)
      (tryVerifyDomainIsm rt ism message verifyStored domainPdaInfo metadata s) := by
  unfold tryVerifyDomainIsm
  cases lift (loadAndValidateDomainIsmStorage rt ism s.chain message.origin domainPdaInfo) with
  | error e => trivial
  | ok loaded =>
    rw [ok_bind]
    cases loaded with
    | none => exact rfl
    | some storage =>
      dsimp only
      cases storage.ism with
      | none => exact rfl
      | some node =>
        dsimp only
        split
        · trivial
        · cases verifyStored node metadata { s with didMutate := false } with
          | error e => trivial
          | ok r =>
            rw [ok_bind]
            split
            · split
              · trivial
              · cases lift (store r.2.chain domainPdaInfo { storage with ism := some r.1 }.serialize) with
                | error e => trivial
                | ok chain => exact rfl
            · exact rfl

theorem verifyFallback_frame {fallbackIsm : Pubkey} {metadata : List UInt8} (s : VerifyState) :
    Ends (fun _ => True) (fun r => r.didMutate = s.didMutate)
      (verifyFallback rt message instructionAccounts fallbackIsm metadata s) := by
  rw [verifyFallback]
  cases lift (rt.invoke s.chain instructionAccounts fallbackIsm
    fun p => p.verify s.chain (fallbackAccounts rt s.chain fallbackIsm s.accountsIter) metadata message) with
  | error e => trivial
  | ok chain => exact rfl

theorem verifySubs_frame {subs : List IsmNode} (hsubs : ∀ sub ∈ subs, ∀ metadata s,
    Ends (fun _ => True) (Frame message sub metadata s)
      (verifyArms rt ism message instructionAccounts verifyStored sub metadata s))
    (metadata : List UInt8) (i verified : ℕ) (s : VerifyState) :
    Ends (fun _ => True) (FrameSubs message subs metadata i s)
      (verifySubs rt ism message instructionAccounts verifyStored subs metadata i verified s) := by
  induction subs generalizing i verified s with
  | nil => exact ⟨fun _ => rfl, .inl, rfl⟩
  | cons sub subs ih =>
    have ih := ih (fun sub hsub => hsubs sub (List.mem_cons_of_mem _ hsub))
    rw [verifySubs]
    cases hat : subMetadataAt metadata i with
    | error e => trivial
    | ok found =>
      cases found with
      | none =>
        refine Ends.map ((ih (i + 1) verified s).mono fun r hr => ⟨fun h => ?_, fun h => ?_, ?_⟩)
        · rw [anyRoutes, Bool.or_eq_false_iff] at h
          exact hr.chain h.2
        · rw [anyReachable, hat, Bool.false_or]
          exact hr.mutated h
        · rw [serializeAll, serializeAll, List.length_append, List.length_append, hr.size]
      | some subMeta =>
        refine (hsubs sub List.mem_cons_self subMeta s).bind fun r hr => ?_
        refine (ih (i + 1) (verified + 1) r.2).bind fun r' hr' => ⟨fun h => ?_, fun h => ?_, ?_⟩
        · rw [anyRoutes, Bool.or_eq_false_iff] at h
          exact (hr'.chain h.2).trans (hr.chain h.1)
        · rw [anyReachable, hat, Bool.or_eq_true]
          rcases hr'.mutated h with hsub | hrest
          · exact (hr.mutated hsub).imp_right .inl
          · exact .inr (.inr hrest)
        · rw [serializeAll, serializeAll, List.length_append, List.length_append, hr.size, hr'.size]

/-- **The frame of the walk**, whatever is done with a domain ISM -/
theorem verifyArms_frame (node : IsmNode) (metadata : List UInt8) (s : VerifyState) :
    Ends (fun _ => True) (Frame message node metadata s)
      (verifyArms rt ism message instructionAccounts verifyStored node metadata s) := by
  induction node generalizing metadata s with
  | TrustedRelayer relayer =>
    rw [verifyArms]
    refine Ends.map ((next_frame s).bind fun r hr => ?_)
    dsimp only
    split
    · trivial
    · split
      · trivial
      · exact .unchanged hr.1 hr.2
  | MultisigMessageId validators threshold =>
    rw [verifyArms]
    cases verifyMultisig rt message validators threshold metadata with
    | error e => trivial
    | ok _ => exact .unchanged rfl rfl
  | Aggregation threshold subIsms ih =>
    rw [verifyArms]
    refine (verifySubs_frame ih metadata 0 0 s).bind fun r hr => ?_
    dsimp only
    split
    · trivial
    · refine ⟨hr.chain, hr.mutated, ?_⟩
      simp only [IsmNode.serialize, List.length_cons, List.length_append, le_length, hr.size]
  | Test accept =>
    rw [verifyArms]
    split
    · exact .unchanged rfl rfl
    · trivial
  | Pausable paused =>
    rw [verifyArms]
    split
    · trivial
    · exact .unchanged rfl rfl
  | AmountRouting threshold lower upper ihLower ihUpper =>
    rw [verifyArms]
    cases hamount : parseRoutingAmount message.body with
    | none => trivial
    | some amount =>
      dsimp only
      split
      next hge =>
        refine Ends.map ((ihUpper metadata s).mono fun r hr => ⟨fun h => ?_, fun h => ?_, ?_⟩)
        · rw [routes, Bool.or_eq_false_iff] at h
          exact hr.chain h.2
        · rw [reachableContainsRateLimited, hamount]
          dsimp only
          rw [if_pos hge]
          exact hr.mutated h
        · simp only [IsmNode.serialize, List.length_cons, List.length_append, hr.size]
      next hlt =>
        refine Ends.map ((ihLower metadata s).mono fun r hr => ⟨fun h => ?_, fun h => ?_, ?_⟩)
        · rw [routes, Bool.or_eq_false_iff] at h
          exact hr.chain h.1
        · rw [reachableContainsRateLimited, hamount]
          dsimp only
          rw [if_neg hlt]
          exact hr.mutated h
        · simp only [IsmNode.serialize, List.length_cons, List.length_append, hr.size]
  | RateLimited maxCapacity recipient filledLevel lastUpdated mailbox =>
    rw [verifyArms]
    cases verifyRateLimited rt ism.programId ⟨maxCapacity, recipient, mailbox⟩ ⟨filledLevel, lastUpdated⟩ message
      s.accountsIter rt.unixTimestamp with
    | error e => trivial
    | ok r =>
      refine ⟨fun _ => rfl, fun _ => .inr rfl, ?_⟩
      simp only [IsmNode.serialize, List.length_cons, List.length_append, le_length]
  | Routing =>
    rw [verifyArms]
    refine (takeDomainPda_frame s).bind fun r hr => ?_
    refine (tryVerifyDomainIsm_frame r.1 metadata r.2).bind fun r' hr' => ?_
    dsimp only
    split
    · exact ⟨fun h => (by cases h), fun h => .inl (hr.2 ▸ hr' ▸ h), rfl⟩
    · trivial
  | FallbackRouting fallbackIsm =>
    rw [verifyArms]
    refine (takeDomainPda_frame s).bind fun r hr => ?_
    refine (tryVerifyDomainIsm_frame r.1 metadata r.2).bind fun r' hr' => ?_
    dsimp only
    split
    · exact ⟨fun h => (by cases h), fun h => .inl (hr.2 ▸ hr' ▸ h), rfl⟩
    · refine Ends.map ((verifyFallback_frame r'.2).mono fun _ hr'' => ?_)
      exact ⟨fun h => (by cases h), fun h => .inl (hr.2 ▸ hr' ▸ hr'' ▸ h), rfl⟩

theorem verifyNode_frame (depth : ℕ) (node : IsmNode) (metadata : List UInt8) (s : VerifyState) :
    Ends (fun _ => True) (Frame message node metadata s)
      (verifyNode rt ism message instructionAccounts depth node metadata s) := by
  cases depth with
  | zero => exact verifyArms_frame node metadata s
  | succ depth => exact verifyArms_frame node metadata s

end Frame

end Hyperlane.Composite
