/-
The config tree of the composite ISM (rust/sealevel/programs/ism/composite-ism): the nodes with their serialization
(accounts.rs), the checks on a new config (processor.rs), and the metadata of an aggregation and of a token message
(metadata.rs).

- `validateConfigInner_ok`: the flag that counts routing nodes; an accepted tree has one at most.
- `validateDomainIsm_ok`: an accepted domain ISM has none.
-/
import Hyperlane.Sealevel.Runtime

namespace Hyperlane.Composite

open Hyperlane.Bytes Hyperlane.Sealevel
open Hyperlane.Relayer (H160 H256 HyperlaneMessage)

/-! ## Errors -/

inductive Error where
  | ProgramIdNotOwner
  | AccountNotInitialized
  | AlreadyInitialized
  | ConfigNotSet
  | InvalidMetadata
  | InvalidSignature
  | ThresholdNotMet
  | NoRouteForDomain
  | InvalidRelayer
  | RelayerNotSigner
  | VerifyRejected
  | InvalidConfig
  | InvalidMessageBody
  | RateLimitExceeded
  | RecipientMismatch
  | MultipleRoutingNodes
  | RoutingInDomainIsm
  | DomainPdaNotWritable
  | InvalidSystemProgram
  | InvalidStoragePda
  | InvalidDomainPda
  | FallbackRoutingInDomainIsm
  | InvalidFallbackIsmAccount
  | FallbackIsmCallFailed
  | FallbackRoutingNotLast
  | InvalidProcessAuthority
  | ProcessAuthorityNotSigner
  | PausableInDomainIsm
  | InvalidProgramDataAccount
deriving DecidableEq

/-- the discriminants count from 1 -/
def Error.code (e : Error) : ℕ := e.ctorIdx + 1

/-- `From<Error> for ProgramError` -/
def Error.into (e : Error) : ProgramError := .Custom e.code

/-- `From<MultisigIsmError> for Error` -/
def fromMultisigIsmError : MultisigIsmError → Error
  | .InvalidSignature => .InvalidSignature
  | .ThresholdNotMet => .ThresholdNotMet
  | .InvalidMetadata => .InvalidMetadata

/-! ## The tree -/

inductive IsmNode where
  | TrustedRelayer (relayer : Pubkey)
  | MultisigMessageId (validators : List H160) (threshold : UInt8)
  | Aggregation (threshold : UInt8) (subIsms : List IsmNode)
  | Test (accept : Bool)
  | Pausable (paused : Bool)
  | AmountRouting (threshold : ℕ) (lower upper : IsmNode)
  | RateLimited (maxCapacity : UInt64) (recipient : Option H256) (filledLevel : UInt64) (lastUpdated : ℤ) (mailbox : Pubkey)
  | Routing
  | FallbackRouting (fallbackIsm : Pubkey)

/-- induction on a tree, with the hypothesis for every member of an aggregation -/
@[elab_as_elim, induction_eliminator]
theorem IsmNode.induct {motive : IsmNode → Prop} (TrustedRelayer : ∀ relayer, motive (.TrustedRelayer relayer))
    (MultisigMessageId : ∀ validators threshold, motive (.MultisigMessageId validators threshold))
    (Aggregation : ∀ threshold subIsms, (∀ sub ∈ subIsms, motive sub) → motive (.Aggregation threshold subIsms))
    (Test : ∀ accept, motive (.Test accept)) (Pausable : ∀ paused, motive (.Pausable paused))
    (AmountRouting : ∀ threshold lower upper, motive lower → motive upper → motive (.AmountRouting threshold lower upper))
    (RateLimited : ∀ maxCapacity recipient filledLevel lastUpdated mailbox,
      motive (.RateLimited maxCapacity recipient filledLevel lastUpdated mailbox))
    (Routing : motive .Routing) (FallbackRouting : ∀ fallbackIsm, motive (.FallbackRouting fallbackIsm))
    (node : IsmNode) : motive node :=
  @IsmNode.rec motive (fun subs => ∀ sub ∈ subs, motive sub) TrustedRelayer MultisigMessageId Aggregation Test Pausable
    AmountRouting RateLimited Routing FallbackRouting (fun _ h => absurd h List.not_mem_nil)
    (fun _ _ hsub hsubs _ h => (List.mem_cons.1 h).elim (fun he => he ▸ hsub) (hsubs _)) node

/-- little-endian -/
def le (n x : ℕ) : List UInt8 := (be n x).reverse

@[simp]
theorem le_length (n x : ℕ) : (le n x).length = n := by rw [le, List.length_reverse, be_length]

/-- Borsh's `Option` -/
def serializeOption (bytes : Option (List UInt8)) : List UInt8 :=
  match bytes with
  | none => [0]
  | some bytes => 1 :: bytes

mutual

/-- `BorshSerialize for IsmNode` -/
def IsmNode.serialize : IsmNode → List UInt8
  | .TrustedRelayer relayer => 0 :: relayer.1
  | .MultisigMessageId validators threshold =>
    1 :: le 4 validators.length ++ (validators.map Subtype.val).flatten ++ [threshold]
  | .Aggregation threshold subIsms => 2 :: threshold :: le 4 subIsms.length ++ serializeAll subIsms
  | .Test accept => [3, accept.toUInt8]
  | .Pausable paused => [4, paused.toUInt8]
  | .AmountRouting threshold lower upper => 5 :: le 32 threshold ++ lower.serialize ++ upper.serialize
  | .RateLimited maxCapacity recipient filledLevel lastUpdated mailbox =>
    6 :: le 8 maxCapacity.toNat ++ serializeOption (recipient.map Subtype.val) ++ le 8 filledLevel.toNat ++
      le 8 (lastUpdated % 2 ^ 64).toNat ++ mailbox.1
  | .Routing => [7]
  | .FallbackRouting fallbackIsm => 8 :: fallbackIsm.1

def serializeAll : List IsmNode → List UInt8
  | [] => []
  | sub :: subs => sub.serialize ++ serializeAll subs

end

structure CompositeIsmStorage where
  bumpSeed : UInt8
  owner : Option Pubkey
  root : Option IsmNode

def CompositeIsmStorage.serialize (s : CompositeIsmStorage) : List UInt8 :=
  s.bumpSeed :: serializeOption (s.owner.map Subtype.val) ++ serializeOption (s.root.map IsmNode.serialize)

structure DomainIsmStorage where
  bumpSeed : UInt8
  domain : UInt32
  ism : Option IsmNode

def DomainIsmStorage.serialize (s : DomainIsmStorage) : List UInt8 :=
  s.bumpSeed :: le 4 s.domain.toNat ++ serializeOption (s.ism.map IsmNode.serialize)

/-! ## The checks on a config -/

def defaultPubkey : Pubkey := Word.filled 32 0

mutual

/-- `contains_fallback_routing` -/
def containsFallbackRouting : IsmNode → Bool
  | .FallbackRouting _ => true
  | .Aggregation _ subIsms => anyContainsFallbackRouting subIsms
  | .AmountRouting _ lower upper => containsFallbackRouting lower || containsFallbackRouting upper
  | .Routing | .RateLimited .. | .MultisigMessageId .. | .TrustedRelayer _ | .Pausable _ | .Test _ => false

def anyContainsFallbackRouting : List IsmNode → Bool
  | [] => false
  | sub :: subs => containsFallbackRouting sub || anyContainsFallbackRouting subs

end

/-- the checks on a `RateLimited` node -/
def validateRateLimited (maxCapacity : UInt64) (recipient : Option H256) (mailbox : Pubkey) : Except Error Unit :=
  if maxCapacity = 0 ∨ mailbox = defaultPubkey then .error .InvalidConfig
  else if recipient = none ∨ recipient = some defaultPubkey then .error .InvalidConfig
  else .ok ()

/-- the checks on a `MultisigMessageId` node -/
def validateMultisig (validators : List H160) (threshold : UInt8) : Except Error Unit :=
  if threshold = 0 ∨ threshold.toNat > validators.length then .error .InvalidConfig
  else if ¬ validators.Nodup then .error .InvalidConfig
  else .ok ()

mutual

/-- `validate_config_inner`, with the new `routing_found` -/
def validateConfigInner (programId : Pubkey) : IsmNode → Bool → Except Error Bool
  | .Aggregation threshold subIsms, routingFound =>
    if threshold.toNat > subIsms.length ∨ threshold = 0 then .error .InvalidConfig
    else if anyContainsFallbackRouting subIsms.dropLast then .error .FallbackRoutingNotLast
    else validateConfigs programId subIsms routingFound
  | .MultisigMessageId validators threshold, routingFound =>
    (validateMultisig validators threshold).map fun _ => routingFound
  | .AmountRouting _ lower upper, routingFound =>
    match validateConfigInner programId lower routingFound with
    | .error e => .error e
    | .ok routingFound => validateConfigInner programId upper routingFound
  | .RateLimited maxCapacity recipient _ _ mailbox, routingFound =>
    (validateRateLimited maxCapacity recipient mailbox).map fun _ => routingFound
  | .Routing, routingFound => if routingFound then .error .MultipleRoutingNodes else .ok true
  | .FallbackRouting fallbackIsm, routingFound =>
    if fallbackIsm = defaultPubkey ∨ fallbackIsm = programId then .error .InvalidConfig
    else if routingFound then .error .MultipleRoutingNodes
    else .ok true
  | .TrustedRelayer relayer, routingFound =>
    if relayer = defaultPubkey then .error .InvalidConfig else .ok routingFound
  | .Test _, routingFound | .Pausable _, routingFound => .ok routingFound

def validateConfigs (programId : Pubkey) : List IsmNode → Bool → Except Error Bool
  | [], routingFound => .ok routingFound
  | sub :: subs, routingFound =>
    match validateConfigInner programId sub routingFound with
    | .error e => .error e
    | .ok routingFound => validateConfigs programId subs routingFound

end

/-- `validate_config` -/
def validateConfig (programId : Pubkey) (node : IsmNode) : Except Error Unit :=
  (validateConfigInner programId node false).map fun _ => ()

mutual

/-- `validate_domain_ism` -/
def validateDomainIsm : IsmNode → Except Error Unit
  | .RateLimited maxCapacity recipient _ _ mailbox => validateRateLimited maxCapacity recipient mailbox
  | .Aggregation threshold subIsms =>
    if threshold.toNat > subIsms.length ∨ threshold = 0 then .error .InvalidConfig
    else validateDomainIsms subIsms
  | .MultisigMessageId validators threshold => validateMultisig validators threshold
  | .AmountRouting _ lower upper =>
    match validateDomainIsm lower with
    | .error e => .error e
    | .ok _ => validateDomainIsm upper
  | .Routing => .error .RoutingInDomainIsm
  | .FallbackRouting _ => .error .FallbackRoutingInDomainIsm
  | .TrustedRelayer relayer => if relayer = defaultPubkey then .error .InvalidConfig else .ok ()
  | .Test _ => .ok ()
  | .Pausable _ => .error .PausableInDomainIsm

def validateDomainIsms : List IsmNode → Except Error Unit
  | [] => .ok ()
  | sub :: subs =>
    match validateDomainIsm sub with
    | .error e => .error e
    | .ok _ => validateDomainIsms subs

end

/-! ## Metadata and message bodies -/

def RANGE_SIZE : ℕ := 4
def ENTRY_SIZE : ℕ := RANGE_SIZE * 2

/-- `sub_metadata_at` -/
def subMetadataAt (metadata : List UInt8) (index : ℕ) : Except Error (Option (List UInt8)) :=
  let offset := index * ENTRY_SIZE
  let mid := offset + RANGE_SIZE
  let endOfHeader := mid + RANGE_SIZE
  if metadata.length < endOfHeader then .error .InvalidMetadata
  else
    let start := ofBe ((metadata.drop offset).take (mid - offset))
    let «end» := ofBe ((metadata.drop mid).take (endOfHeader - mid))
    if start = 0 then .ok none
    else if start > «end» ∨ «end» > metadata.length then .error .InvalidMetadata
    else .ok (some ((metadata.drop start).take («end» - start)))

/-- `parse_routing_amount` -/
def parseRoutingAmount (body : List UInt8) : Option ℕ := (slice body 32 64).map ofBe

/-! ## Routing nodes -/

mutual

/-- a routing node in the tree -/
def routes : IsmNode → Bool
  | .Routing | .FallbackRouting _ => true
  | .Aggregation _ subIsms => anyRoutes subIsms
  | .AmountRouting _ lower upper => routes lower || routes upper
  | .RateLimited .. | .MultisigMessageId .. | .TrustedRelayer _ | .Pausable _ | .Test _ => false

def anyRoutes : List IsmNode → Bool
  | [] => false
  | sub :: subs => routes sub || anyRoutes subs

end

@[simp]
theorem anyRoutes_eq_false {subs : List IsmNode} : anyRoutes subs = false ↔ ∀ sub ∈ subs, routes sub = false := by
  induction subs with
  | nil => exact ⟨fun _ _ h => absurd h List.not_mem_nil, fun _ => rfl⟩
  | cons sub subs ih => rw [anyRoutes, Bool.or_eq_false_iff, ih, List.forall_mem_cons]

theorem anyContainsFallbackRouting_eq_false {subs : List IsmNode} :
    anyContainsFallbackRouting subs = false ↔ ∀ sub ∈ subs, containsFallbackRouting sub = false := by
  induction subs with
  | nil => exact ⟨fun _ _ h => absurd h List.not_mem_nil, fun _ => rfl⟩
  | cons sub subs ih => rw [anyContainsFallbackRouting, Bool.or_eq_false_iff, ih, List.forall_mem_cons]

section Checks

variable {programId : Pubkey} {node : IsmNode} {routingFound routingFound' : Bool}

/-- what the checks make of `routingFound`, for a tree with or without routing nodes -/
def Counted (found found' inTree : Bool) : Prop := found' = (found || inTree) ∧ (found = true → inTree = false)

theorem Counted.trans {a b c x y : Bool} (h : Counted a b x) (h' : Counted b c y) : Counted a c (x || y) := by
  obtain ⟨rfl, ha⟩ := h
  obtain ⟨rfl, hb⟩ := h'
  refine ⟨Bool.or_assoc a x y, fun h => ?_⟩
  rw [ha h, hb (by rw [h, Bool.true_or]), Bool.or_false]

theorem Counted.self (a : Bool) : Counted a a false := ⟨(Bool.or_false a).symm, fun _ => rfl⟩

theorem Counted.leaf {a b : Bool} {α : Type} {check : Except Error α} (h : (check.map fun _ => a) = .ok b) :
    Counted a b false := by
  cases check with
  | error e => exact nomatch h
  | ok _ =>
    injection h with h
    exact h ▸ Counted.self a

theorem validateConfigs_ok {subs : List IsmNode} (hsubs : ∀ sub ∈ subs, ∀ found found',
    validateConfigInner programId sub found = .ok found' → Counted found found' (routes sub))
    (h : validateConfigs programId subs routingFound = .ok routingFound') :
    Counted routingFound routingFound' (anyRoutes subs) := by
  induction subs generalizing routingFound with
  | nil =>
    injection h with h
    exact h ▸ Counted.self routingFound
  | cons sub subs ih =>
    rw [validateConfigs] at h
    split at h
    · exact nomatch h
    next found hsub =>
      rw [anyRoutes]
      exact (hsubs sub List.mem_cons_self _ _ hsub).trans
        (ih (fun s hs => hsubs s (List.mem_cons_of_mem _ hs)) h)

/-- the flag tells whether there is a routing node, and an accepted tree has no second one -/
theorem validateConfigInner_ok (h : validateConfigInner programId node routingFound = .ok routingFound') :
    Counted routingFound routingFound' (routes node) := by
  induction node generalizing routingFound routingFound' with
  | TrustedRelayer relayer =>
    rw [validateConfigInner] at h
    split at h
    · exact nomatch h
    · injection h with h
      exact h ▸ Counted.self routingFound
  | MultisigMessageId validators threshold => exact Counted.leaf h
  | Aggregation threshold subIsms ih =>
    rw [validateConfigInner] at h
    split at h
    · exact nomatch h
    · split at h
      · exact nomatch h
      · exact validateConfigs_ok (fun sub hsub _ _ => ih sub hsub) h
  | Test accept =>
    injection h with h
    exact h ▸ Counted.self routingFound
  | Pausable paused =>
    injection h with h
    exact h ▸ Counted.self routingFound
  | AmountRouting threshold lower upper ihLower ihUpper =>
    rw [validateConfigInner] at h
    split at h
    · exact nomatch h
    next found hlower => exact (ihLower hlower).trans (ihUpper h)
  | RateLimited maxCapacity recipient filledLevel lastUpdated mailbox => exact Counted.leaf h
  | Routing =>
    rw [validateConfigInner] at h
    cases routingFound with
    | true => exact nomatch h
    | false =>
      injection h with h
      exact ⟨h.symm, nofun⟩
  | FallbackRouting fallbackIsm =>
    rw [validateConfigInner] at h
    split at h
    · exact nomatch h
    · cases routingFound with
      | true => exact nomatch h
      | false =>
        injection h with h
        exact ⟨h.symm, nofun⟩

theorem validateDomainIsms_ok {subs : List IsmNode} (h : validateDomainIsms subs = .ok ()) :
    ∀ sub ∈ subs, validateDomainIsm sub = .ok () := by
  induction subs with
  | nil => exact fun _ h => absurd h List.not_mem_nil
  | cons sub subs ih =>
    rw [validateDomainIsms] at h
    split at h
    · exact nomatch h
    next hsub => exact List.forall_mem_cons.2 ⟨hsub, ih h⟩

/-- domain ISMs hold no routing nodes -/
theorem validateDomainIsm_ok (h : validateDomainIsm node = .ok ()) : routes node = false := by
  induction node with
  | TrustedRelayer relayer => rfl
  | MultisigMessageId validators threshold => rfl
  | Aggregation threshold subIsms ih =>
    rw [validateDomainIsm] at h
    split at h
    · exact nomatch h
    · exact anyRoutes_eq_false.2 fun sub hsub => ih sub hsub (validateDomainIsms_ok h sub hsub)
  | Test accept => rfl
  | Pausable paused => rfl
  | AmountRouting threshold lower upper ihLower ihUpper =>
    rw [validateDomainIsm] at h
    split at h
    · exact nomatch h
    next hlower => rw [routes, ihLower hlower, ihUpper h, Bool.or_false]
  | RateLimited maxCapacity recipient filledLevel lastUpdated mailbox => rfl
  | Routing => exact nomatch h
  | FallbackRouting fallbackIsm => exact nomatch h

end Checks

end Hyperlane.Composite
