/-
`Verify` of the composite ISM with discovered accounts, those of a pass that returned what it was given: each node takes
those that the discovery asked for, with the flags that it asked for.

`AccountsExact` is what a program and its callers rely on. Callers add accounts of programs after the discovered ones, so it
holds with any such accounts, and a composite ISM has it if its fallback has it.

- `verifyArms_exact`: the walk with the accounts of a fixpoint.
-/
import Hyperlane.Composite.VerifyNode
import Hyperlane.Composite.WellRouted
import Hyperlane.Core.Passes

namespace Hyperlane.Composite

open Hyperlane.Bytes Hyperlane.Outcome Hyperlane.Sealevel Hyperlane.Passes
open Hyperlane.Relayer (H160 H256 HyperlaneMessage)

/-! ## What callers rely on -/

/-- accounts of programs, as callers add them for the calls that they make -/
def Programs (chain : Chain) (accounts : List AccountMeta) : Prop := ∀ m ∈ accounts, (chain m.pubkey).executable = true

/-- **Discovery is exact.** From the sentinel on, the passes reach a fixpoint, or one fails and `Verify` takes no accounts at
all; and `Verify` with the accounts of a fixpoint fails with none of the errors in `missing`. Both hold with accounts of
programs after the discovered ones. -/
structure AccountsExact {ε : Type} (rt : Runtime) (chain : Chain) (programId : Pubkey)
    (pass : List AccountMeta → Option (List AccountMeta)) (verify : List AccountMeta → Except ε Chain) (missing : ε → Prop) :
    Prop where
  settles : ∀ start programs, start.pubkey = vamPda rt programId → Programs chain programs →
    Settles (pass (start :: programs)) (fun accounts => pass (accounts ++ programs)) ∨
      Stops (pass (start :: programs)) (fun accounts => pass (accounts ++ programs)) ∧
        ∀ accounts chain', verify accounts ≠ .ok chain'
  exact : ∀ programs accounts, Programs chain programs → pass (accounts ++ programs) = some accounts →
    ∀ e, verify (fallbackAccounts rt chain programId (accounts ++ programs)) = .error e → ¬missing e

/-- a pass of an ISM program; the sentinel goes first, whether the program asks for it or not -/
def discoveryPass (sentinel : Pubkey) (returned : Except ProgramError (ReturnData (List AccountMeta))) :
    Option (List AccountMeta) :=
  match returned with
  | .ok (.Value accounts) => some (withSentinel sentinel accounts)
  | _ => none

/-- what a composite ISM relies on of a fallback, for any metadata -/
structure FallbackExact (rt : Runtime) (chain : Chain) (message : HyperlaneMessage) (missing : ProgramError → Prop)
    (fallbackIsm : Pubkey) : Prop where
  exact : ∀ metadata, AccountsExact rt chain fallbackIsm
    (fun accounts => discoveryPass (vamPda rt fallbackIsm)
      ((rt.programs fallbackIsm).verifyAccountMetas chain accounts metadata message))
    (fun accounts => (rt.programs fallbackIsm).verify chain accounts metadata message) missing
  /-- the sentinel is an address for data -/
  data : (chain (vamPda rt fallbackIsm)).executable = false

/-- the errors of `Verify` that discovered accounts rule out, and those that they rule out of a fallback -/
def accountErrors : List ProgramError :=
  [.NotEnoughAccountKeys, Error.InvalidDomainPda.into, Error.InvalidRelayer.into, Error.RelayerNotSigner.into,
    Error.InvalidProcessAuthority.into, Error.DomainPdaNotWritable.into]

def AccountFault (missing : ProgramError → Prop) : Fault → Prop
  | .Overflow => False
  | .Program (.Callee e) => missing e
  | .Program e => e ∈ accountErrors

/-! ## The walk with discovered accounts -/

section Walk

variable {rt : Runtime} {ism : CompositeIsm} {chain : Chain} {message : HyperlaneMessage} {missing : ProgramError → Prop}
  {keys keysVerify : List Pubkey} {required : Required} {verifyStored : IsmNode → Walk}

theorem withSentinel_eq {sentinel : Pubkey} {first : AccountMeta} (h : first.pubkey = sentinel) (rest : List AccountMeta) :
    withSentinel sentinel (first :: rest) = first :: rest := by
  obtain ⟨pubkey, isSigner, isWritable⟩ := first
  rw [withSentinel, if_pos h, Bool.false_or, Bool.false_or]
  exact congrArg (fun key => (⟨key, isSigner, isWritable⟩ : AccountMeta) :: rest) h.symm

theorem exists_withSentinel (sentinel : Pubkey) (accounts : List AccountMeta) :
    ∃ first rest, first.pubkey = sentinel ∧ withSentinel sentinel accounts = first :: rest := by
  cases accounts with
  | nil => exact ⟨_, _, rfl, rfl⟩
  | cons first inner =>
    rw [withSentinel]
    split
    · exact ⟨_, _, rfl, rfl⟩
    · exact ⟨_, _, rfl, rfl⟩

/-- what is left for the next node: nothing after a fallback -/
def Left (node : IsmNode) (rest left : List AccountMeta) : Prop :=
  left = rest ∨ containsFallbackRouting node = true ∧ left = []

/-- an ISM in a domain PDA: what it requires does not depend on the accounts given, and the walk takes just that -/
structure StoredExact (missing : ProgramError → Prop) (required : Required) (verifyStored : IsmNode → Walk)
    (message : HyperlaneMessage) (node : IsmNode) : Prop where
  const : ∀ metadata x y, required node metadata x = required node metadata y
  rejects : ∀ metadata x e, required node metadata x = .error e → ∀ s r, verifyStored node metadata s ≠ .ok r
  takes : ∀ metadata x accounts rest s, required node metadata x = .ok accounts → s.accountsIter = accounts ++ rest →
    Ends (fun e => ¬AccountFault missing e) (fun r => r.2.accountsIter = rest) (verifyStored node metadata s)
  frame : ∀ metadata s, Ends (fun _ => True) (Frame message node metadata s) (verifyStored node metadata s)

/-- what is stored for the message's origin -/
def DomainExact (rt : Runtime) (ism : CompositeIsm) (chain : Chain) (message : HyperlaneMessage)
    (missing : ProgramError → Prop) (required : Required) (verifyStored : IsmNode → Walk) : Prop :=
  ∀ domainAcc node, domainAcc.pubkey = domainPda rt ism message → storedDomainIsm ism chain domainAcc = .ok (some node) →
    StoredExact missing required verifyStored message node

theorem fetchData_error {T : Type} {deserialize : List UInt8 → Option T} {bytes : List UInt8} {e : ProgramError}
    (h : fetchData deserialize bytes = .error e) : e = .BorshIoError := by
  cases bytes with
  | nil => cases h
  | cons initialized bytes =>
    rw [fetchData] at h
    split at h
    · cases h
    · split at h
      · split at h
        · exact (Except.error.inj h).symm
        · cases h
      · exact (Except.error.inj h).symm

/-- the load fails for none of the errors about accounts -/
theorem load_fault {domainAcc : AccountMeta} {e : ProgramError}
    (h : loadAndValidateDomainIsmStorage rt ism chain message.origin domainAcc = .error e) :
    ¬AccountFault missing (.Program e) := by
  rw [loadAndValidateDomainIsmStorage] at h
  split at h
  · cases h
  · split at h
    next hfetch =>
      rw [← Except.error.inj h, fetchData_error hfetch]
      exact (by decide : ProgramError.BorshIoError ∉ accountErrors)
    · rw [← Except.error.inj h]
      exact (by decide : ProgramError.UninitializedAccount ∉ accountErrors)
    · split at h
      · rw [← Except.error.inj h]
        exact (by decide : ProgramError.InvalidSeeds ∉ accountErrors)
      · split at h
        · rw [← Except.error.inj h]
          exact (by decide : ProgramError.InvalidAccountData ∉ accountErrors)
        · cases h

theorem fail_exact {α : Type} {Q : α → Prop} {e : Error} (h : e.into ∉ accountErrors) :
    Ends (fun e => ¬AccountFault missing e) Q (fail e) := h

theorem lift_load {domainAcc : AccountMeta} : Ends (fun e => ¬AccountFault missing e)
    (fun loaded => storedDomainIsm ism chain domainAcc = .ok (loaded.bind DomainIsmStorage.ism))
    (lift (loadAndValidateDomainIsmStorage rt ism chain message.origin domainAcc)) := by
  cases h : loadAndValidateDomainIsmStorage rt ism chain message.origin domainAcc with
  | error e => exact load_fault h
  | ok loaded => exact load_stored h

theorem lift_ok {α : Type} {a : α} : lift (.ok a) = .ok a := rfl

theorem store_fault {info : AccountMeta} {bytes : List UInt8} :
    Ends (fun e => ¬AccountFault missing e) (fun _ => True) (lift (store chain info bytes)) := by
  rw [store]
  dsimp only
  split
  · exact (by decide : ProgramError.InvalidAccountData ∉ accountErrors)
  · split
    · exact (by decide : ProgramError.BorshIoError ∉ accountErrors)
    · trivial

/-- no domain ISM: nothing is taken -/
theorem tryVerify_absent {domainAcc : AccountMeta} {metadata : List UInt8} {s : VerifyState} (hchain : s.chain = chain)
    (h : storedDomainIsm ism chain domainAcc = .ok none) : Ends (fun e => ¬AccountFault missing e)
      (fun r => r = (false, s)) (tryVerifyDomainIsm rt ism message verifyStored domainAcc metadata s) := by
  rw [tryVerifyDomainIsm, hchain]
  refine lift_load.bind fun loaded hloaded => ?_
  rw [h] at hloaded
  have hnone := (Except.ok.inj hloaded).symm
  cases loaded with
  | none => exact rfl
  | some storage =>
    rw [Option.bind_some] at hnone
    dsimp only
    rw [hnone]
    exact rfl

/-- a domain ISM takes the accounts that it requires -/
theorem tryVerify_takes {domainAcc : AccountMeta} {node : IsmNode} {metadata : List UInt8} {s : VerifyState}
    {x accounts rest : List AccountMeta} (hchain : s.chain = chain)
    (h : storedDomainIsm ism chain domainAcc = .ok (some node))
    (hstored : StoredExact missing required verifyStored message node)
    (hwritable : domainAcc.isWritable = containsRateLimited node) (hrequired : required node metadata x = .ok accounts)
    (hiter : s.accountsIter = accounts ++ rest) : Ends (fun e => ¬AccountFault missing e)
      (fun r => r.1 = true ∧ r.2.accountsIter = rest)
      (tryVerifyDomainIsm rt ism message verifyStored domainAcc metadata s) := by
  rw [tryVerifyDomainIsm, hchain]
  refine lift_load.bind fun loaded hloaded => ?_
  rw [h] at hloaded
  have hsome := (Except.ok.inj hloaded).symm
  cases loaded with
  | none => cases hsome
  | some storage =>
    rw [Option.bind_some] at hsome
    dsimp only
    rw [hsome]
    dsimp only
    rw [hwritable, if_neg fun hboth => Bool.false_ne_true (hboth.2.symm.trans hboth.1)]
    have htakes := hstored.takes metadata x accounts rest { s with chain, didMutate := false } hrequired hiter
    refine (Ends.and htakes (hstored.frame metadata _)).bind fun r hr => ?_
    obtain ⟨htaken, hframe⟩ := hr
    split
    next hmutated =>
      have hcontains : containsRateLimited node = true :=
        reachable_imp_contains ((hframe.mutated hmutated).resolve_left Bool.false_ne_true)
      rw [hcontains, if_neg (Bool.false_ne_true ∘ Eq.symm)]
      exact store_fault.bind fun _ _ => ⟨rfl, htaken⟩
    · exact ⟨rfl, htaken⟩

/-- what the discovery makes of a domain PDA -/
theorem requiredForDomain_cases {domainAcc : AccountMeta} {metadata : List UInt8} {x : List AccountMeta}
    {found : Option (List AccountMeta)}
    (h : requiredForDomain rt ism chain message required domainAcc metadata x = .ok found) :
    (found = none ∧ storedDomainIsm ism chain domainAcc = .ok none) ∨
      ∃ node accounts, storedDomainIsm ism chain domainAcc = .ok (some node) ∧ required node metadata x = .ok accounts ∧
        found = some (⟨domainPda rt ism message, false, containsRateLimited node⟩ :: accounts) := by
  rw [requiredForDomain] at h
  obtain ⟨stored, hstored, h⟩ := bind_eq_ok.1 h
  cases stored with
  | none => exact .inl ⟨(Except.ok.inj h).symm, hstored⟩
  | some node =>
    obtain ⟨accounts, haccounts, h⟩ := bind_eq_ok.1 h
    refine .inr ⟨node, accounts, hstored, haccounts, ?_⟩
    rw [← Except.ok.inj h]
    cases containsRateLimited node with
    | true => rfl
    | false => rfl

/-- with a domain ISM, its PDA and its accounts are taken -/
theorem domain_takes (hdomain : DomainExact rt ism chain message missing required verifyStored) {domainAcc : AccountMeta}
    {metadata : List UInt8} {x accounts rest : List AccountMeta} {s : VerifyState} (hchain : s.chain = chain)
    (hkey : domainAcc.pubkey = domainPda rt ism message)
    (h : requiredForDomain rt ism chain message required domainAcc metadata x = .ok (some (domainAcc :: accounts)))
    (hiter : s.accountsIter = accounts ++ rest) : Ends (fun e => ¬AccountFault missing e)
      (fun r => r.1 = true ∧ r.2.accountsIter = rest)
      (tryVerifyDomainIsm rt ism message verifyStored domainAcc metadata s) := by
  rcases requiredForDomain_cases h with ⟨hnone, -⟩ | ⟨node, accounts', hstored, hrequired, heq⟩
  · cases hnone
  · obtain ⟨hmeta, rfl⟩ := List.cons.inj (Option.some.inj heq)
    exact tryVerify_takes hchain hstored (hdomain domainAcc node hkey hstored) (by rw [hmeta]) hrequired hiter

theorem requiredForDomain_head {domainAcc : AccountMeta} {metadata : List UInt8} {x accounts : List AccountMeta}
    (h : requiredForDomain rt ism chain message required domainAcc metadata x = .ok (some accounts)) :
    ∃ first tail, accounts = first :: tail ∧ first.pubkey = domainPda rt ism message := by
  rcases requiredForDomain_cases h with ⟨hnone, -⟩ | ⟨node, accounts', -, -, heq⟩
  · cases hnone
  · exact ⟨_, _, Option.some.inj heq, rfl⟩

/-- the domain PDA goes first -/
theorem requiredForRouting_head {metadata : List UInt8} {x accounts : List AccountMeta}
    (h : requiredForRouting rt ism chain message required metadata x = .ok accounts) :
    ∃ first tail, accounts = first :: tail ∧ first.pubkey = domainPda rt ism message := by
  unfold requiredForRouting at h
  split at h
  · exact ⟨_, _, (Except.ok.inj h).symm, rfl⟩
  · split at h
    · obtain ⟨found, hfound, h⟩ := bind_eq_ok.1 h
      cases found with
      | none => exact ⟨_, _, (Except.ok.inj h).symm, rfl⟩
      | some accounts' => exact Except.ok.inj h ▸ requiredForDomain_head hfound
    · exact ⟨_, _, (Except.ok.inj h).symm, rfl⟩

theorem requiredForFallback_head {fallbackIsm : Pubkey} {metadata : List UInt8} {x accounts : List AccountMeta}
    (h : requiredForFallback rt ism chain message keys fallbackIsm metadata x = .ok accounts) :
    ∃ tail, accounts = .newReadonly (domainPda rt ism message) false :: tail := by
  rw [requiredForFallback] at h
  split at h
  · obtain ⟨returned, -, h⟩ := bind_eq_ok.1 h
    cases returned with
    | Absent => cases h
    | Malformed => cases h
    | Value accounts' => exact ⟨_, (Except.ok.inj h).symm⟩
  · exact ⟨_, (Except.ok.inj h).symm⟩

theorem requiredForFallbackRouting_head {fallbackIsm : Pubkey} {metadata : List UInt8} {x accounts : List AccountMeta}
    (h : requiredForFallbackRouting rt ism chain message required keys fallbackIsm metadata x = .ok accounts) :
    ∃ first tail, accounts = first :: tail ∧ first.pubkey = domainPda rt ism message := by
  unfold requiredForFallbackRouting at h
  split at h
  · exact ⟨_, _, (Except.ok.inj h).symm, rfl⟩
  · split at h
    · obtain ⟨found, hfound, h⟩ := bind_eq_ok.1 h
      cases found with
      | none =>
        obtain ⟨tail, htail⟩ := requiredForFallback_head h
        exact ⟨_, tail, htail, rfl⟩
      | some accounts' => exact Except.ok.inj h ▸ requiredForDomain_head hfound
    · exact ⟨_, _, (Except.ok.inj h).symm, rfl⟩

/-- taking the domain PDA -/
theorem takeDomainPda_eq {first : AccountMeta} {rest : List AccountMeta} {s : VerifyState}
    (hkey : first.pubkey = domainPda rt ism message) (hiter : s.accountsIter = first :: rest) :
    takeDomainPda rt ism message s = .ok (first, { s with accountsIter := rest }) := by
  rw [takeDomainPda, VerifyState.next, hiter, nextAccountInfo, ok_bind]
  exact if_neg (not_not.2 hkey)

theorem routing_exact (hdomain : DomainExact rt ism chain message missing required verifyStored) {metadata : List UInt8}
    {accounts rest : List AccountMeta} {s : VerifyState}
    (h : requiredForRouting rt ism chain message required metadata (accounts ++ rest) = .ok accounts)
    (hiter : s.accountsIter = accounts ++ rest) (hchain : s.chain = chain) : Ends (fun e => ¬AccountFault missing e)
      (fun r => r.2.accountsIter = rest)
      (verifyArms rt ism message keysVerify verifyStored .Routing metadata s) := by
  obtain ⟨first, tail, rfl, hkey⟩ := requiredForRouting_head h
  rw [List.cons_append] at h hiter
  rw [requiredForRouting, if_pos hkey] at h
  obtain ⟨found, hfound, h⟩ := bind_eq_ok.1 h
  rw [verifyArms, takeDomainPda_eq hkey hiter, ok_bind]
  cases found with
  | none =>
    rcases requiredForDomain_cases hfound with ⟨-, hnone⟩ | ⟨_, _, -, -, heq⟩
    · refine (tryVerify_absent (s := { s with accountsIter := tail ++ rest }) hchain hnone).bind fun r hr => ?_
      rw [hr]
      exact fail_exact (by decide)
    · cases heq
  | some accounts' =>
    rw [Option.getD_some] at h
    rw [Except.ok.inj h] at hfound
    have htakes := domain_takes (s := { s with accountsIter := tail ++ rest }) hdomain hchain hkey hfound rfl
    refine htakes.bind fun r hr => ?_
    dsimp only
    rw [if_pos hr.1]
    exact hr.2

theorem invoke_error {α : Type} {call : Program → Except ProgramError α} {programId : Pubkey} {e : ProgramError}
    (h : rt.invoke chain keys programId call = .error e) :
    e = .MissingAccount ∨ e = .AccountNotExecutable ∨ ∃ e', e = .Callee e' ∧ call (rt.programs programId) = .error e' := by
  rw [Runtime.invoke] at h
  split at h
  · exact .inl (Except.error.inj h).symm
  · split at h
    · exact .inr (.inl (Except.error.inj h).symm)
    · split at h
      next e' hcall => exact .inr (.inr ⟨e', (Except.error.inj h).symm, hcall⟩)
      · cases h

theorem invoke_ok {α : Type} {call : Program → Except ProgramError α} {programId : Pubkey} {a : α}
    (h : rt.invoke chain keys programId call = .ok a) :
    programId ∈ keys ∧ (chain programId).executable = true ∧ call (rt.programs programId) = .ok a := by
  rw [Runtime.invoke] at h
  split at h
  · cases h
  next hmem =>
    split at h
    · cases h
    next hexecutable =>
      split at h
      · cases h
      next a' hcall =>
        obtain rfl := Except.ok.inj h
        exact ⟨not_not.1 hmem, Bool.eq_true_of_not_eq_false hexecutable, hcall⟩

/-- the pass of a fallback, within a pass that has its accounts -/
theorem requiredForFallback_value {fallbackIsm : Pubkey} {metadata : List UInt8} {x accounts : List AccountMeta}
    (hhead : x.head?.map AccountMeta.pubkey = some (vamPda rt fallbackIsm)) :
    requiredForFallback rt ism chain message keys fallbackIsm metadata x = .ok accounts ↔
      fallbackIsm ∈ keys ∧ (chain fallbackIsm).executable = true ∧ ∃ inner,
        discoveryPass (vamPda rt fallbackIsm) ((rt.programs fallbackIsm).verifyAccountMetas chain x metadata message) =
          some inner ∧
        accounts = .newReadonly (domainPda rt ism message) false :: (inner ++ [.newReadonly fallbackIsm false]) := by
  rw [requiredForFallback, if_pos hhead]
  constructor
  · intro h
    obtain ⟨returned, hinvoke, h⟩ := bind_eq_ok.1 h
    obtain ⟨hmem, hexecutable, hcall⟩ := invoke_ok hinvoke
    cases returned with
    | Absent => cases h
    | Malformed => cases h
    | Value accounts' => exact ⟨hmem, hexecutable, _, by rw [hcall, discoveryPass], (Except.ok.inj h).symm⟩
  · rintro ⟨hmem, hexecutable, inner, hinner, rfl⟩
    unfold discoveryPass at hinner
    split at hinner
    next accounts' hcall =>
      rw [Runtime.invoke, if_neg (not_not.2 hmem), if_neg (by rw [hexecutable]; exact Bool.false_ne_true ∘ Eq.symm), hcall,
        ← Option.some.inj hinner]
      rfl
    · cases hinner

variable (keysVerify) in
/-- the fallback with the accounts of a fixpoint -/
theorem fallback_exact {fallbackIsm : Pubkey} (hfallback : FallbackExact rt chain message missing fallbackIsm)
    {metadata : List UInt8} {first : AccountMeta} {tail rest : List AccountMeta} {s : VerifyState}
    (h : requiredForFallback rt ism chain message keys fallbackIsm metadata (tail ++ rest) = .ok (first :: tail))
    (hchain : s.chain = chain) (hiter : s.accountsIter = tail ++ rest) (hprograms : Programs chain rest) :
    Ends (fun e => ¬AccountFault missing e) (fun r => r.accountsIter = [])
      (verifyFallback rt message keysVerify fallbackIsm metadata s) := by
  by_cases hhead : (tail ++ rest).head?.map AccountMeta.pubkey = some (vamPda rt fallbackIsm)
  · obtain ⟨-, hexecutable, inner, hpass, heq⟩ := (requiredForFallback_value hhead).1 h
    obtain ⟨-, rfl⟩ := List.cons.inj heq
    have hprograms' : Programs chain (.newReadonly fallbackIsm false :: rest) :=
      List.forall_mem_cons.2 ⟨hexecutable, hprograms⟩
    rw [List.append_assoc, List.singleton_append] at hpass hiter
    have hexact := (hfallback.exact metadata).exact _ inner hprograms' hpass
    rw [verifyFallback, hchain, hiter]
    cases hinvoke : rt.invoke chain keysVerify fallbackIsm fun p => p.verify chain
      (fallbackAccounts rt chain fallbackIsm (inner ++ .newReadonly fallbackIsm false :: rest)) metadata message with
    | ok chain' => exact rfl
    | error e =>
      rcases invoke_error hinvoke with rfl | rfl | ⟨e', rfl, hcall⟩
      · exact (by decide : ProgramError.MissingAccount ∉ accountErrors)
      · exact (by decide : ProgramError.AccountNotExecutable ∉ accountErrors)
      · exact hexact e' hcall
  · -- the sentinel is asked for first, so it stands where it is looked for
    rw [requiredForFallback, if_neg hhead] at h
    obtain ⟨-, rfl⟩ := List.cons.inj (Except.ok.inj h)
    exact absurd rfl hhead

theorem fallbackRouting_exact (hdomain : DomainExact rt ism chain message missing required verifyStored)
    {fallbackIsm : Pubkey} (hfallback : FallbackExact rt chain message missing fallbackIsm) {metadata : List UInt8}
    {accounts rest : List AccountMeta} {s : VerifyState}
    (h : requiredForFallbackRouting rt ism chain message required keys fallbackIsm metadata (accounts ++ rest) = .ok accounts)
    (hiter : s.accountsIter = accounts ++ rest) (hchain : s.chain = chain) (hprograms : Programs chain rest) :
    Ends (fun e => ¬AccountFault missing e) (fun r => Left (.FallbackRouting fallbackIsm) rest r.2.accountsIter)
      (verifyArms rt ism message keysVerify verifyStored (.FallbackRouting fallbackIsm) metadata s) := by
  obtain ⟨first, tail, rfl, hkey⟩ := requiredForFallbackRouting_head h
  rw [List.cons_append] at h hiter
  rw [requiredForFallbackRouting, if_pos hkey] at h
  obtain ⟨found, hfound, h⟩ := bind_eq_ok.1 h
  rw [verifyArms, takeDomainPda_eq hkey hiter, ok_bind]
  cases found with
  | some accounts' =>
    rw [Except.ok.inj h] at hfound
    refine (domain_takes (s := { s with accountsIter := tail ++ rest }) hdomain hchain hkey hfound rfl).bind fun r hr => ?_
    dsimp only
    rw [if_pos hr.1]
    exact .inl hr.2
  | none =>
    rcases requiredForDomain_cases hfound with ⟨-, hnone⟩ | ⟨_, _, -, -, heq⟩
    · refine (tryVerify_absent (s := { s with accountsIter := tail ++ rest }) hchain hnone).bind fun r hr => ?_
      subst hr
      dsimp only
      rw [if_neg Bool.false_ne_true]
      have hleft := fallback_exact keysVerify (s := { s with accountsIter := tail ++ rest }) hfallback h hchain rfl hprograms
      exact Ends.map (hleft.mono fun _ hleft => Or.inr ⟨rfl, hleft⟩)
    · cases heq

theorem checkProcess_takes {n : RateLimitedNode} {rest : List AccountMeta} :
    Ends (fun e => ¬AccountFault missing e) (· = rest) (checkProcess rt ism.programId n message
      (.newReadonly (deriveProcessAuthority rt n.mailbox ism.programId).1 true :: rest)) := by
  rw [checkProcess]
  split
  · exact (by decide : Error.RecipientMismatch.into ∉ accountErrors)
  · rw [nextAccountInfo]
    dsimp only [AccountMeta.newReadonly]
    rw [if_neg (not_not.2 rfl), if_neg (Bool.false_ne_true ∘ Eq.symm)]
    exact rfl

theorem tokenAmount_fault {body : List UInt8} :
    Ends (fun e => ¬AccountFault missing e) (fun _ => True) (tokenAmount body) := by
  rw [tokenAmount]
  split
  · exact (by decide : Error.InvalidMessageBody.into ∉ accountErrors)
  · split
    · exact (by decide : Error.RateLimitExceeded.into ∉ accountErrors)
    · trivial

theorem clockGet_fault {clock : Option ℤ} : Ends (fun e => ¬AccountFault missing e) (fun _ => True) (clockGet clock) := by
  cases clock with
  | none => exact (by decide : ProgramError.UnsupportedSysvar ∉ accountErrors)
  | some now => trivial

theorem calculateCurrentLevel_fault {filledLevel maxCapacity : UInt64} {lastUpdated now : ℤ} :
    Ends (fun e => ¬AccountFault missing e) (fun _ => True)
      (calculateCurrentLevel filledLevel lastUpdated now maxCapacity) := by
  by_cases hfits : Fits (now - lastUpdated)
  · obtain ⟨r, hr, -⟩ := calculateCurrentLevel_ok filledLevel maxCapacity hfits
    rw [hr]
    trivial
  · rw [calculateCurrentLevel_overflow.2 hfits]
    exact id

theorem verifyRateLimited_takes {n : RateLimitedNode} {f : Filled} {rest : List AccountMeta} {clock : Option ℤ} :
    Ends (fun e => ¬AccountFault missing e) (fun r => r.2.2 = rest) (verifyRateLimited rt ism.programId n f message
      (.newReadonly (deriveProcessAuthority rt n.mailbox ism.programId).1 true :: rest) clock) := by
  rw [verifyRateLimited]
  refine checkProcess_takes.bind fun left hleft => ?_
  refine tokenAmount_fault.bind fun amount _ => ?_
  refine clockGet_fault.bind fun now _ => ?_
  refine calculateCurrentLevel_fault.bind fun adjusted _ => ?_
  split
  · exact (by decide : Error.RateLimitExceeded.into ∉ accountErrors)
  · split
    · exact hleft
    · rw [subU64]
      split
      · exact hleft
      · exact id

theorem verifyTrustedRelayer_takes {relayer : Pubkey} {rest : List AccountMeta} {s : VerifyState}
    (hiter : s.accountsIter = ⟨relayer, true, false⟩ :: rest) : Ends (fun e => ¬AccountFault missing e)
      (fun r => r.accountsIter = rest) (verifyTrustedRelayer relayer s) := by
  rw [verifyTrustedRelayer, VerifyState.next, hiter, nextAccountInfo, ok_bind]
  dsimp only
  rw [if_neg (not_not.2 rfl), if_neg (Bool.false_ne_true ∘ Eq.symm)]
  exact rfl

theorem verifyMultisig_fault {validators : List H160} {threshold : UInt8} {metadata : List UInt8} :
    Ends (fun e => ¬AccountFault missing e) (fun _ => True) (verifyMultisig rt message validators threshold metadata) := by
  rw [verifyMultisig]
  split
  · exact fail_exact (by decide)
  · split
    · exact fail_exact (by decide)
    · split
      next e _ => exact fail_exact (by cases e <;> decide)
      · trivial

/-- what is left after the sub-ISMs from one on -/
def LeftSubs (subs : List IsmNode) (rest left : List AccountMeta) : Prop :=
  left = rest ∨ anyContainsFallbackRouting subs = true ∧ left = []

theorem verifySubs_exact {subs : List IsmNode} (hsubs : ∀ sub ∈ subs, WellRouted sub →
    (∀ f ∈ fallbackIsms sub, FallbackExact rt chain message missing f) → ∀ metadata accounts rest s,
      requiredArms rt ism chain message keys required sub metadata (accounts ++ rest) = .ok accounts →
      s.accountsIter = accounts ++ rest → (routes sub = true → s.chain = chain) →
      (containsFallbackRouting sub = true → Programs chain rest) →
      Ends (fun e => ¬AccountFault missing e) (fun r => Left sub rest r.2.accountsIter)
        (verifyArms rt ism message keysVerify verifyStored sub metadata s))
    (hw : AllWellRouted subs) (hfallback : ∀ f ∈ allFallbackIsms subs, FallbackExact rt chain message missing f)
    {metadata : List UInt8} {i verified : ℕ} {accounts rest : List AccountMeta} {s : VerifyState}
    (h : requiredSubs rt ism chain message keys required subs metadata i (accounts ++ rest) = .ok accounts)
    (hiter : s.accountsIter = accounts ++ rest) (hchain : anyRoutes subs = true → s.chain = chain)
    (hprograms : anyContainsFallbackRouting subs = true → Programs chain rest) :
    Ends (fun e => ¬AccountFault missing e) (fun r => LeftSubs subs rest r.2.2.accountsIter)
      (verifySubs rt ism message keysVerify verifyStored subs metadata i verified s) := by
  induction subs generalizing i verified accounts s with
  | nil =>
    rw [← Except.ok.inj h] at hiter
    exact .inl hiter
  | cons sub subs ih =>
    obtain ⟨hwSub, honly, hlast, hwSubs⟩ := hw
    have hsubs' := fun sub hsub => hsubs sub (List.mem_cons_of_mem _ hsub)
    have hfallback' := fun f hf => hfallback f (List.mem_append_right _ hf)
    have hchain' : anyRoutes subs = true → s.chain = chain := fun hr => hchain (by rw [anyRoutes, hr, Bool.or_true])
    have hprograms' : anyContainsFallbackRouting subs = true → Programs chain rest :=
      fun hf => hprograms (by rw [anyContainsFallbackRouting, hf, Bool.or_true])
    have hleft : ∀ left, LeftSubs subs rest left → LeftSubs (sub :: subs) rest left := by
      rintro left (hrest | ⟨hf, hnil⟩)
      · exact .inl hrest
      · exact .inr ⟨by rw [anyContainsFallbackRouting, hf, Bool.or_true], hnil⟩
    rw [requiredSubs] at h
    rw [verifySubs]
    cases hat : subMetadataAt metadata i with
    | error e =>
      rw [hat] at h
      cases h
    | ok found =>
      rw [hat] at h
      cases found with
      | none => exact Ends.map ((ih hsubs' hwSubs hfallback' h hiter hchain' hprograms').mono fun r => hleft _)
      | some subMeta =>
        obtain ⟨subAccounts, hsub, h⟩ := bind_eq_ok.1 h
        obtain ⟨accounts', hrest, h⟩ := bind_eq_ok.1 h
        obtain rfl := Except.ok.inj h
        rw [List.append_assoc] at hsub hiter
        rw [List.append_assoc, List.drop_left] at hrest
        have hsubPrograms : containsFallbackRouting sub = true → Programs chain (accounts' ++ rest) := by
          intro hf
          obtain rfl := hlast hf
          rw [requiredSubs] at hrest
          rw [← Except.ok.inj hrest, List.nil_append]
          exact hprograms (by rw [anyContainsFallbackRouting, hf, Bool.true_or])
        have htakes := hsubs sub List.mem_cons_self hwSub (fun f hf => hfallback f (List.mem_append_left _ hf)) subMeta
          subAccounts (accounts' ++ rest) s hsub hiter (fun hr => hchain (by rw [anyRoutes, hr, Bool.true_or])) hsubPrograms
        refine (Ends.and htakes (verifyArms_frame sub subMeta s)).bind fun r hr => ?_
        obtain ⟨htaken | ⟨hf, hnil⟩, hframe⟩ := hr
        · have hchainNext : anyRoutes subs = true → r.2.chain = chain := hframe.next honly hchain'
          exact (ih hsubs' hwSubs hfallback' hrest htaken hchainNext hprograms').bind fun r' => hleft _
        · -- the fallback was the last one
          obtain rfl := hlast hf
          exact .inr ⟨by rw [anyContainsFallbackRouting, hf, Bool.true_or], hnil⟩

/-- **The walk takes the accounts of a fixpoint**, and no error is about them. -/
theorem verifyArms_exact (hdomain : DomainExact rt ism chain message missing required verifyStored) {node : IsmNode}
    (hw : WellRouted node) (hfallback : ∀ f ∈ fallbackIsms node, FallbackExact rt chain message missing f)
    (metadata : List UInt8) (accounts rest : List AccountMeta) (s : VerifyState)
    (h : requiredArms rt ism chain message keys required node metadata (accounts ++ rest) = .ok accounts)
    (hiter : s.accountsIter = accounts ++ rest) (hchain : routes node = true → s.chain = chain)
    (hprograms : containsFallbackRouting node = true → Programs chain rest) :
    Ends (fun e => ¬AccountFault missing e) (fun r => Left node rest r.2.accountsIter)
      (verifyArms rt ism message keysVerify verifyStored node metadata s) := by
  induction node generalizing metadata accounts rest s with
  | TrustedRelayer relayer =>
    rw [requiredArms] at h
    rw [← Except.ok.inj h] at hiter
    rw [verifyArms]
    exact Ends.map ((verifyTrustedRelayer_takes hiter).mono fun _ => .inl)
  | MultisigMessageId validators threshold =>
    rw [requiredArms] at h
    rw [← Except.ok.inj h] at hiter
    rw [verifyArms]
    exact Ends.map (verifyMultisig_fault.mono fun _ _ => .inl hiter)
  | Aggregation threshold subIsms ih =>
    rw [verifyArms]
    refine (verifySubs_exact ih hw hfallback h hiter hchain hprograms).bind fun r hr => ?_
    dsimp only
    split
    · exact fail_exact (by decide)
    · exact hr
  | Test accept =>
    rw [requiredArms] at h
    rw [← Except.ok.inj h] at hiter
    rw [verifyArms]
    split
    · exact .inl hiter
    · exact fail_exact (by decide)
  | Pausable paused =>
    rw [requiredArms] at h
    rw [← Except.ok.inj h] at hiter
    rw [verifyArms]
    split
    · exact fail_exact (by decide)
    · exact .inl hiter
  | AmountRouting threshold lower upper ihLower ihUpper =>
    rw [requiredArms] at h
    rw [verifyArms]
    cases hamount : parseRoutingAmount message.body with
    | none => exact fail_exact (by decide)
    | some amount =>
      rw [hamount] at h
      dsimp only at h ⊢
      by_cases hge : threshold ≤ amount
      · rw [if_pos hge] at h ⊢
        have hupper := ihUpper hw.2 (fun f hf => hfallback f (List.mem_append_right _ hf)) metadata accounts rest s h hiter
          (fun hr => hchain (by rw [routes, hr, Bool.or_true]))
          (fun hf => hprograms (by rw [containsFallbackRouting, hf, Bool.or_true]))
        exact Ends.map (hupper.mono fun r hr => Or.imp_right
          (And.imp_left fun hf => by rw [containsFallbackRouting, hf, Bool.or_true]) hr)
      · rw [if_neg hge] at h ⊢
        have hlower := ihLower hw.1 (fun f hf => hfallback f (List.mem_append_left _ hf)) metadata accounts rest s h hiter
          (fun hr => hchain (by rw [routes, hr, Bool.true_or]))
          (fun hf => hprograms (by rw [containsFallbackRouting, hf, Bool.true_or]))
        exact Ends.map (hlower.mono fun r hr => Or.imp_right
          (And.imp_left fun hf => by rw [containsFallbackRouting, hf, Bool.true_or]) hr)
  | RateLimited maxCapacity recipient filledLevel lastUpdated mailbox =>
    rw [requiredArms] at h
    rw [← Except.ok.inj h] at hiter
    rw [verifyArms, hiter]
    exact verifyRateLimited_takes.bind fun r hr => .inl hr
  | Routing => exact (routing_exact hdomain h hiter (hchain rfl)).mono fun _ => .inl
  | FallbackRouting fallbackIsm =>
    exact fallbackRouting_exact hdomain (hfallback fallbackIsm (List.mem_singleton_self _)) h hiter (hchain rfl)
      (hprograms rfl)

end Walk

end Hyperlane.Composite
