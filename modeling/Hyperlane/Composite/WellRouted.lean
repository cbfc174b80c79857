/-
The shape of a tree that the composite ISM accepts (rust/sealevel/programs/ism/composite-ism, processor.rs): which nodes of
it take accounts that depend on the message.

- `wellRouted_of_validateConfig`: of the members of an aggregation one routes at most, and a fallback is the last one.
-/
import Hyperlane.Composite.IsmNode
import Hyperlane.Core.Outcome

namespace Hyperlane.Composite

open Hyperlane.Outcome Hyperlane.Sealevel
open Hyperlane.Relayer (HyperlaneMessage)

mutual

/-- of the members of an aggregation one routes at most, and a fallback is the last one -/
def WellRouted : IsmNode → Prop
  | .Aggregation _ subIsms => AllWellRouted subIsms
  | .AmountRouting _ lower upper => WellRouted lower ∧ WellRouted upper
  | .Routing | .FallbackRouting _ | .RateLimited .. | .MultisigMessageId .. | .TrustedRelayer _ | .Pausable _ | .Test _ =>
    True

def AllWellRouted : List IsmNode → Prop
  | [] => True
  | sub :: subs => WellRouted sub ∧ (routes sub = true → anyRoutes subs = false) ∧
    (containsFallbackRouting sub = true → subs = []) ∧ AllWellRouted subs

end

mutual

/-- the fallbacks of a tree -/
def fallbackIsms : IsmNode → List Pubkey
  | .FallbackRouting fallbackIsm => [fallbackIsm]
  | .Aggregation _ subIsms => allFallbackIsms subIsms
  | .AmountRouting _ lower upper => fallbackIsms lower ++ fallbackIsms upper
  | .Routing | .RateLimited .. | .MultisigMessageId .. | .TrustedRelayer _ | .Pausable _ | .Test _ => []

def allFallbackIsms : List IsmNode → List Pubkey
  | [] => []
  | sub :: subs => fallbackIsms sub ++ allFallbackIsms subs

end

/-- a fallback that a message comes to -/
inductive Reaches (message : HyperlaneMessage) : IsmNode → Pubkey → Prop where
  | fallback (fallbackIsm : Pubkey) : Reaches message (.FallbackRouting fallbackIsm) fallbackIsm
  | member {threshold : UInt8} {subIsms : List IsmNode} {sub : IsmNode} {f : Pubkey} (hsub : sub ∈ subIsms)
    (h : Reaches message sub f) : Reaches message (.Aggregation threshold subIsms) f
  | upper {threshold amount : ℕ} {lower upper : IsmNode} {f : Pubkey} (hamount : parseRoutingAmount message.body = some amount)
    (hge : threshold ≤ amount) (h : Reaches message upper f) : Reaches message (.AmountRouting threshold lower upper) f
  | lower {threshold amount : ℕ} {lower upper : IsmNode} {f : Pubkey} (hamount : parseRoutingAmount message.body = some amount)
    (hlt : ¬threshold ≤ amount) (h : Reaches message lower f) : Reaches message (.AmountRouting threshold lower upper) f

/-- the entry that metadata has for a fallback -/
inductive Hands (message : HyperlaneMessage) : IsmNode → List UInt8 → Pubkey → List UInt8 → Prop where
  | fallback (fallbackIsm : Pubkey) (metadata : List UInt8) :
    Hands message (.FallbackRouting fallbackIsm) metadata fallbackIsm metadata
  | member {threshold : UInt8} {subIsms : List IsmNode} {sub : IsmNode} {metadata subMeta entry : List UInt8} {i : ℕ}
    {f : Pubkey} (hsub : subIsms[i]? = some sub) (hat : subMetadataAt metadata i = .ok (some subMeta))
    (h : Hands message sub subMeta f entry) : Hands message (.Aggregation threshold subIsms) metadata f entry
  | upper {threshold amount : ℕ} {lower upper : IsmNode} {metadata entry : List UInt8} {f : Pubkey}
    (hamount : parseRoutingAmount message.body = some amount) (hge : threshold ≤ amount)
    (h : Hands message upper metadata f entry) : Hands message (.AmountRouting threshold lower upper) metadata f entry
  | lower {threshold amount : ℕ} {lower upper : IsmNode} {metadata entry : List UInt8} {f : Pubkey}
    (hamount : parseRoutingAmount message.body = some amount) (hlt : ¬threshold ≤ amount)
    (h : Hands message lower metadata f entry) : Hands message (.AmountRouting threshold lower upper) metadata f entry

section Shape

variable {programId : Pubkey} {node : IsmNode} {found found' : Bool}

theorem anyRoutes_of_containsFallbackRouting {subs : List IsmNode}
    (hsubs : ∀ sub ∈ subs, containsFallbackRouting sub = true → routes sub = true)
    (h : anyContainsFallbackRouting subs = true) : anyRoutes subs = true := by
  induction subs with
  | nil => cases h
  | cons sub subs ih =>
    rw [anyContainsFallbackRouting, Bool.or_eq_true] at h
    rw [anyRoutes, Bool.or_eq_true]
    exact h.imp (hsubs sub List.mem_cons_self) (ih fun sub hsub => hsubs sub (List.mem_cons_of_mem _ hsub))

theorem routes_of_containsFallbackRouting (h : containsFallbackRouting node = true) : routes node = true := by
  induction node with
  | FallbackRouting fallbackIsm => rfl
  | Routing => rfl
  | Aggregation threshold subIsms ih => exact anyRoutes_of_containsFallbackRouting ih h
  | AmountRouting threshold lower upper ihLower ihUpper =>
    rw [containsFallbackRouting, Bool.or_eq_true] at h
    rw [routes, Bool.or_eq_true]
    exact h.imp ihLower ihUpper
  | TrustedRelayer relayer => cases h
  | MultisigMessageId validators threshold => cases h
  | Test accept => cases h
  | Pausable paused => cases h
  | RateLimited maxCapacity recipient filledLevel lastUpdated mailbox => cases h

theorem allWellRouted_of_not_routes {subs : List IsmNode}
    (hsubs : ∀ sub ∈ subs, routes sub = false → WellRouted sub) (h : anyRoutes subs = false) : AllWellRouted subs := by
  induction subs with
  | nil => trivial
  | cons sub subs ih =>
    rw [anyRoutes, Bool.or_eq_false_iff] at h
    refine ⟨hsubs sub List.mem_cons_self h.1, fun hr => ?_, fun hf => ?_,
      ih (fun sub hsub => hsubs sub (List.mem_cons_of_mem _ hsub)) h.2⟩
    · rw [h.1] at hr
      cases hr
    · rw [routes_of_containsFallbackRouting hf] at h
      cases h.1

/-- a tree without routing nodes, such as a domain ISM -/
theorem wellRouted_of_not_routes (h : routes node = false) : WellRouted node := by
  induction node with
  | Aggregation threshold subIsms ih => exact allWellRouted_of_not_routes ih h
  | AmountRouting threshold lower upper ihLower ihUpper =>
    rw [routes, Bool.or_eq_false_iff] at h
    exact ⟨ihLower h.1, ihUpper h.2⟩
  | FallbackRouting fallbackIsm => trivial
  | Routing => trivial
  | TrustedRelayer relayer => trivial
  | MultisigMessageId validators threshold => trivial
  | Test accept => trivial
  | Pausable paused => trivial
  | RateLimited maxCapacity recipient filledLevel lastUpdated mailbox => trivial

theorem allWellRouted_of_validateConfigs {subs : List IsmNode}
    (hsubs : ∀ sub ∈ subs, ∀ found found', validateConfigInner programId sub found = .ok found' → WellRouted sub)
    (hlast : anyContainsFallbackRouting subs.dropLast = false)
    (h : validateConfigs programId subs found = .ok found') : AllWellRouted subs := by
  induction subs generalizing found with
  | nil => trivial
  | cons sub subs ih =>
    rw [validateConfigs] at h
    split at h
    · cases h
    next found'' hsub =>
      have hlasts : ∀ s ∈ subs.dropLast, containsFallbackRouting s = false := by
        intro s hs
        refine anyContainsFallbackRouting_eq_false.1 hlast s ?_
        rw [List.dropLast_cons_of_ne_nil (List.ne_nil_of_mem (List.mem_of_mem_dropLast hs))]
        exact List.mem_cons_of_mem _ hs
      refine ⟨hsubs sub List.mem_cons_self _ _ hsub, fun hr => ?_, fun hf => ?_,
        ih (fun sub hsub => hsubs sub (List.mem_cons_of_mem _ hsub)) (anyContainsFallbackRouting_eq_false.2 hlasts) h⟩
      · -- the flag is set from this member on
        obtain ⟨rfl, -⟩ := validateConfigInner_ok hsub
        exact (validateConfigs_ok (fun _ _ _ _ h => validateConfigInner_ok h) h).2 (by rw [hr, Bool.or_true])
      · by_contra hne
        rw [anyContainsFallbackRouting_eq_false] at hlast
        rw [hlast sub (by rw [List.dropLast_cons_of_ne_nil hne]; exact List.mem_cons_self)] at hf
        cases hf

theorem wellRouted_of_validateConfigInner (h : validateConfigInner programId node found = .ok found') : WellRouted node := by
  induction node generalizing found found' with
  | Aggregation threshold subIsms ih =>
    rw [validateConfigInner] at h
    split at h
    · cases h
    · split at h
      · cases h
      next hlast =>
        exact allWellRouted_of_validateConfigs (fun sub hsub _ _ => ih sub hsub) (Bool.not_eq_true _ ▸ hlast) h
  | AmountRouting threshold lower upper ihLower ihUpper =>
    rw [validateConfigInner] at h
    split at h
    · cases h
    next hlower => exact ⟨ihLower hlower, ihUpper h⟩
  | FallbackRouting fallbackIsm => trivial
  | Routing => trivial
  | TrustedRelayer relayer => trivial
  | MultisigMessageId validators threshold => trivial
  | Test accept => trivial
  | Pausable paused => trivial
  | RateLimited maxCapacity recipient filledLevel lastUpdated mailbox => trivial

/-- **The shape of an accepted tree** -/
theorem wellRouted_of_validateConfig (h : validateConfig programId node = .ok ()) : WellRouted node := by
  obtain ⟨found, hfound, -⟩ := map_eq_ok.1 h
  exact wellRouted_of_validateConfigInner hfound

theorem mem_allFallbackIsms {subs : List IsmNode} {sub : IsmNode} {f : Pubkey} (hsub : sub ∈ subs)
    (hf : f ∈ fallbackIsms sub) : f ∈ allFallbackIsms subs := by
  induction subs with
  | nil => cases hsub
  | cons first subs ih =>
    rw [allFallbackIsms, List.mem_append]
    rcases List.mem_cons.1 hsub with rfl | hsub
    · exact .inl hf
    · exact .inr (ih hsub)

theorem Reaches.mem {message : HyperlaneMessage} {f : Pubkey} (h : Reaches message node f) : f ∈ fallbackIsms node := by
  induction h with
  | fallback fallbackIsm => exact List.mem_singleton_self _
  | member hsub _ ih => exact mem_allFallbackIsms hsub ih
  | upper _ _ _ ih => exact List.mem_append_right _ ih
  | lower _ _ _ ih => exact List.mem_append_left _ ih

theorem Hands.reaches {message : HyperlaneMessage} {metadata entry : List UInt8} {f : Pubkey}
    (h : Hands message node metadata f entry) : Reaches message node f := by
  induction h with
  | fallback fallbackIsm metadata => exact .fallback fallbackIsm
  | member hsub _ _ ih => exact .member (List.mem_of_getElem? hsub) ih
  | upper hamount hge _ ih => exact .upper hamount hge ih
  | lower hamount hlt _ ih => exact .lower hamount hlt ih

theorem allFallbackIsms_eq_nil {subs : List IsmNode}
    (hsubs : ∀ sub ∈ subs, containsFallbackRouting sub = false → fallbackIsms sub = [])
    (h : anyContainsFallbackRouting subs = false) : allFallbackIsms subs = [] := by
  induction subs with
  | nil => rfl
  | cons sub subs ih =>
    rw [anyContainsFallbackRouting, Bool.or_eq_false_iff] at h
    rw [allFallbackIsms, hsubs sub List.mem_cons_self h.1,
      ih (fun sub hsub => hsubs sub (List.mem_cons_of_mem _ hsub)) h.2, List.nil_append]

theorem fallbackIsms_eq_nil (h : containsFallbackRouting node = false) : fallbackIsms node = [] := by
  induction node with
  | Aggregation threshold subIsms ih => exact allFallbackIsms_eq_nil ih h
  | AmountRouting threshold lower upper ihLower ihUpper =>
    rw [containsFallbackRouting, Bool.or_eq_false_iff] at h
    rw [fallbackIsms, ihLower h.1, ihUpper h.2, List.nil_append]
  | FallbackRouting fallbackIsm => cases h
  | Routing => rfl
  | TrustedRelayer relayer => rfl
  | MultisigMessageId validators threshold => rfl
  | Test accept => rfl
  | Pausable paused => rfl
  | RateLimited maxCapacity recipient filledLevel lastUpdated mailbox => rfl

theorem fallbackIsms_of_not_routes (h : routes node = false) : fallbackIsms node = [] := by
  refine fallbackIsms_eq_nil (Bool.eq_false_of_not_eq_true fun hf => ?_)
  rw [routes_of_containsFallbackRouting hf] at h
  cases h

theorem allFallbackIsms_of_not_routes {subs : List IsmNode} (h : anyRoutes subs = false) : allFallbackIsms subs = [] := by
  refine allFallbackIsms_eq_nil (fun _ _ => fallbackIsms_eq_nil) (Bool.eq_false_of_not_eq_true fun hf => ?_)
  rw [anyRoutes_of_containsFallbackRouting (fun _ _ => routes_of_containsFallbackRouting) hf] at h
  cases h

/-- two parts of a tree that are walked in order, of which one has a fallback at most -/
theorem fallback_unique_append {a b : List Pubkey} (ha : ∀ f ∈ a, ∀ g ∈ a, f = g) (hb : ∀ f ∈ b, ∀ g ∈ b, f = g)
    (hone : a = [] ∨ b = []) : ∀ f ∈ a ++ b, ∀ g ∈ a ++ b, f = g := by
  rcases hone with rfl | rfl
  · exact hb
  · rw [List.append_nil]
    exact ha

theorem allFallbackIsms_unique {subs : List IsmNode} (hsubs : ∀ sub ∈ subs, ∀ found found',
      validateConfigInner programId sub found = .ok found' → ∀ f ∈ fallbackIsms sub, ∀ g ∈ fallbackIsms sub, f = g)
    (h : validateConfigs programId subs found = .ok found') :
    ∀ f ∈ allFallbackIsms subs, ∀ g ∈ allFallbackIsms subs, f = g := by
  induction subs generalizing found with
  | nil => exact fun f hf => absurd hf List.not_mem_nil
  | cons sub subs ih =>
    rw [validateConfigs] at h
    split at h
    · cases h
    next found'' hsub =>
      refine fallback_unique_append (hsubs sub List.mem_cons_self _ _ hsub)
        (ih (fun sub hsub => hsubs sub (List.mem_cons_of_mem _ hsub)) h) ?_
      cases hr : routes sub with
      | false => exact .inl (fallbackIsms_of_not_routes hr)
      | true =>
        obtain ⟨rfl, -⟩ := validateConfigInner_ok hsub
        refine .inr (allFallbackIsms_of_not_routes ?_)
        exact (validateConfigs_ok (fun _ _ _ _ h => validateConfigInner_ok h) h).2 (by rw [hr, Bool.or_true])

/-- **An accepted tree has one fallback** at most. -/
theorem fallbackIsms_unique (h : validateConfigInner programId node found = .ok found') :
    ∀ f ∈ fallbackIsms node, ∀ g ∈ fallbackIsms node, f = g := by
  induction node generalizing found found' with
  | Aggregation threshold subIsms ih =>
    rw [validateConfigInner] at h
    split at h
    · cases h
    · split at h
      · cases h
      · exact allFallbackIsms_unique (fun sub hsub _ _ => ih sub hsub) h
  | AmountRouting threshold lower upper ihLower ihUpper =>
    rw [validateConfigInner] at h
    split at h
    · cases h
    next found'' hlower =>
      refine fallback_unique_append (ihLower hlower) (ihUpper h) ?_
      cases hr : routes lower with
      | false => exact .inl (fallbackIsms_of_not_routes hr)
      | true =>
        obtain ⟨rfl, -⟩ := validateConfigInner_ok hlower
        exact .inr (fallbackIsms_of_not_routes ((validateConfigInner_ok h).2 (by rw [hr, Bool.or_true])))
  | FallbackRouting fallbackIsm =>
    intro f hf g hg
    rw [List.mem_singleton.1 hf, List.mem_singleton.1 hg]
  | Routing => exact fun f hf => absurd hf List.not_mem_nil
  | TrustedRelayer relayer => exact fun f hf => absurd hf List.not_mem_nil
  | MultisigMessageId validators threshold => exact fun f hf => absurd hf List.not_mem_nil
  | Test accept => exact fun f hf => absurd hf List.not_mem_nil
  | Pausable paused => exact fun f hf => absurd hf List.not_mem_nil
  | RateLimited maxCapacity recipient filledLevel lastUpdated mailbox => exact fun f hf => absurd hf List.not_mem_nil

theorem allFallbackIsms_ne_self {subs : List IsmNode} (hsubs : ∀ sub ∈ subs, ∀ found found',
      validateConfigInner programId sub found = .ok found' → ∀ f ∈ fallbackIsms sub, f ≠ programId)
    (h : validateConfigs programId subs found = .ok found') : ∀ f ∈ allFallbackIsms subs, f ≠ programId := by
  induction subs generalizing found with
  | nil => exact fun f hf => absurd hf List.not_mem_nil
  | cons sub subs ih =>
    rw [validateConfigs] at h
    split at h
    · cases h
    next found'' hsub =>
      intro f hf
      rcases List.mem_append.1 hf with hf | hf
      · exact hsubs sub List.mem_cons_self _ _ hsub f hf
      · exact ih (fun sub hsub => hsubs sub (List.mem_cons_of_mem _ hsub)) h f hf

/-- a tree does not fall back on its own program -/
theorem fallbackIsms_ne_self (h : validateConfigInner programId node found = .ok found') :
    ∀ f ∈ fallbackIsms node, f ≠ programId := by
  induction node generalizing found found' with
  | Aggregation threshold subIsms ih =>
    rw [validateConfigInner] at h
    split at h
    · cases h
    · split at h
      · cases h
      · exact allFallbackIsms_ne_self (fun sub hsub _ _ => ih sub hsub) h
  | AmountRouting threshold lower upper ihLower ihUpper =>
    rw [validateConfigInner] at h
    split at h
    · cases h
    next found'' hlower =>
      intro f hf
      rcases List.mem_append.1 hf with hf | hf
      · exact ihLower hlower f hf
      · exact ihUpper h f hf
  | FallbackRouting fallbackIsm =>
    intro f hf
    rw [List.mem_singleton.1 hf]
    rw [validateConfigInner] at h
    split at h
    · cases h
    next hvalid => exact fun hself => hvalid (.inr hself)
  | Routing => exact fun f hf => absurd hf List.not_mem_nil
  | TrustedRelayer relayer => exact fun f hf => absurd hf List.not_mem_nil
  | MultisigMessageId validators threshold => exact fun f hf => absurd hf List.not_mem_nil
  | Test accept => exact fun f hf => absurd hf List.not_mem_nil
  | Pausable paused => exact fun f hf => absurd hf List.not_mem_nil
  | RateLimited maxCapacity recipient filledLevel lastUpdated mailbox => exact fun f hf => absurd hf List.not_mem_nil

end Shape

end Hyperlane.Composite
