/-
When a removed route keeps rebalance authority.

Two things let a domain without routes hold authority. A route is also removed by enrolling the zero router, which clears
nothing; over the zero router the first contract even takes a recipient and bridges. And nothing ever clears the rebalance
targets, which the owner may add for any domain.

Each entry of an operation changes one domain, so the storage is seen as one `Route` for each domain, and a batch as one
loop for each domain.

- `step_sound_iff`: a call takes a sound storage to a sound one iff it `Keeps` it so;
- `authority_iff`: over every run, the storage is sound throughout iff every call keeps it so, and the cross-collateral
  domains are always those with a cross-collateral router.
-/
import Hyperlane.Core.KeyedBatch
import Hyperlane.Core.Outcome
import Hyperlane.Warp.RebalanceRoutes

namespace Hyperlane.Warp.RebalanceRoutes

open Hyperlane.KeyedBatch Hyperlane.Outcome

/-! ## One domain -/

/-- what the storage has for one domain -/
structure Route where
  enrolled : Bool
  router : ℕ
  recipient : ℕ
  bridges : Finset ℕ
  crossRouters : Finset ℕ
  /-- the domain is among `_crossCollateralDomains` -/
  crossListed : Prop
  targets : Finset ℕ

def route (s : Storage) (domain : ℕ) : Route where
  enrolled := (s._routers.tryGet domain).1
  router := routers s domain
  recipient := s.recipient domain
  bridges := s.bridges domain
  crossRouters := s._crossCollateralRouters domain
  crossListed := domain ∈ s._crossCollateralDomains
  targets := s._rebalanceTargets domain

/-- an entry of an operation -/
inductive Change where
  | enroll (router : ℕ)
  | unenroll
  | enrollCross (router : ℕ)
  | unenrollCross (router : ℕ)
  | setRecipient (recipient : ℕ)
  | removeRecipient
  | addBridge (bridge : ℕ)
  | removeBridge (bridge : ℕ)
  | addTarget (target : ℕ)
  | removeTarget (target : ℕ)

variable (k : Contract)

def change (s : Storage) : ℕ × Change → Except String Storage
  | (d, .enroll router) => .ok (_enrollRemoteRouter s d router)
  | (d, .unenroll) => _unenrollRemoteRouter k s d
  | (d, .enrollCross router) => crossCollateral k (.ok (enrollCrossCollateralRouter s d router))
  | (d, .unenrollCross router) => crossCollateral k (.ok (unenrollCrossCollateralRouter k s d router))
  | (d, .setRecipient recipient) => setRecipient k s d recipient
  | (d, .removeRecipient) => .ok (removeRecipient s d)
  | (d, .addBridge bridge) => addBridge k s d bridge
  | (d, .removeBridge bridge) =>
    .ok { s with bridges := Function.update s.bridges d ((s.bridges d).erase bridge) }
  | (d, .addTarget target) => crossCollateral k (.ok (addRebalanceTarget s d target))
  | (d, .removeTarget target) => crossCollateral k (.ok (removeRebalanceTarget s d target))

namespace Route

def hasRoutes (r : Route) : Bool :=
  match k with
  | .MovableCollateralRouter => r.router != 0
  | .CrossCollateralRouter => r.router != 0 || decide (0 < r.crossRouters.card)

def clearUnrouted (r : Route) : Route :=
  if !r.hasRoutes k then { r with recipient := 0, bridges := ∅ } else r

/-- the guard of `setRecipient` and `addBridge` -/
def checked (r : Route) : Bool :=
  match k with
  | .MovableCollateralRouter => r.enrolled
  | .CrossCollateralRouter => r.router != 0 || decide (0 < r.crossRouters.card)

def unenrollCross (r : Route) (router : ℕ) : Route :=
  if router ∈ r.crossRouters then
    if (r.crossRouters.erase router).card = 0 then
      clearUnrouted k { r with crossRouters := r.crossRouters.erase router, crossListed := False }
    else { r with crossRouters := r.crossRouters.erase router }
  else r

/-- a change as the domain sees it -/
def act (r : Route) : Change → Option Route
  | .enroll router => some { r with enrolled := true, router := router }
  | .unenroll => if r.enrolled then some (clearUnrouted k { r with enrolled := false, router := 0 }) else none
  | .enrollCross router =>
    if k = .CrossCollateralRouter then
      some (if router ∈ r.crossRouters then r
        else { r with crossRouters := insert router r.crossRouters, crossListed := True })
    else none
  | .unenrollCross router => if k = .CrossCollateralRouter then some (r.unenrollCross k router) else none
  | .setRecipient recipient => if r.checked k then some { r with recipient := recipient } else none
  | .removeRecipient => some { r with recipient := 0 }
  | .addBridge bridge => if r.checked k then some { r with bridges := insert bridge r.bridges } else none
  | .removeBridge bridge => some { r with bridges := r.bridges.erase bridge }
  | .addTarget target =>
    if k = .CrossCollateralRouter then some { r with targets := insert target r.targets } else none
  | .removeTarget target =>
    if k = .CrossCollateralRouter then some { r with targets := r.targets.erase target } else none

end Route

/-! ## The storage as one route for each domain -/

section View

variable {k} {s s' : Storage} {d j : ℕ}

theorem hasRoutes_route : _MovableCollateralRouter_hasRebalanceRoutes k s d = (route s d).hasRoutes k := by
  cases k <;> rfl

@[simp] theorem route_clearUnrouted_self : route (clearUnrouted k s d) d = (route s d).clearUnrouted k := by
  unfold clearUnrouted Route.clearUnrouted
  rw [hasRoutes_route]
  split
  · simp only [_clearRebalanceState, route, Function.update_self]
    rfl
  · rfl

theorem route_clearUnrouted_of_ne (h : j ≠ d) : route (clearUnrouted k s d) j = route s j := by
  unfold clearUnrouted
  split
  · simp only [_clearRebalanceState, route, Function.update_of_ne h]
    rfl
  · rfl

theorem checkDomain_ok : checkDomain k s d = .ok () ↔ (route s d).checked k = true := by
  cases k with
  | MovableCollateralRouter =>
    simp only [checkDomain, _mustHaveRemoteRouter, Route.checked, route]
    cases hc : (s._routers.tryGet d).1 with
    | true => simp [ok_bind]
    | false => simp [error_bind]
  | CrossCollateralRouter =>
    simp only [checkDomain, _requireEnrolledRouter, Route.checked, route, Bool.or_eq_true, bne_iff_ne]
    split
    · rename_i hrouted
      simpa [Finset.card_pos] using hrouted
    · rename_i hrouted
      simpa [Finset.card_pos] using hrouted

theorem crossCollateral_ok {x s' : Storage} (h : crossCollateral k (.ok x) = .ok s') :
    k = .CrossCollateralRouter ∧ s' = x := by
  cases k with
  | MovableCollateralRouter => cases h
  | CrossCollateralRouter => exact ⟨rfl, (Except.ok.inj h).symm⟩

/-- the guarded changes -/
theorem checkDomain_bind {x : Storage} : (checkDomain k s d >>= fun _ => .ok x) = Except.ok s' ↔
    (route s d).checked k = true ∧ s' = x := by
  rw [← checkDomain_ok, bind_eq_ok]
  constructor
  · rintro ⟨u, hu, hx⟩
    exact ⟨hu, (Except.ok.inj hx).symm⟩
  · rintro ⟨hu, rfl⟩
    exact ⟨(), hu, rfl⟩

theorem route_enrollCross_self (router : ℕ) : route (enrollCrossCollateralRouter s d router) d =
    if router ∈ s._crossCollateralRouters d then route s d
    else { route s d with crossRouters := insert router (s._crossCollateralRouters d), crossListed := True } := by
  unfold enrollCrossCollateralRouter
  split
  · rfl
  · simp [route, routers]

theorem route_unenrollCross_self (router : ℕ) :
    route (unenrollCrossCollateralRouter k s d router) d = (route s d).unenrollCross k router := by
  unfold unenrollCrossCollateralRouter Route.unenrollCross
  by_cases hmem : router ∈ s._crossCollateralRouters d
  · rw [if_pos hmem, if_pos (show router ∈ (route s d).crossRouters from hmem)]
    simp only [Function.update_self]
    by_cases hcard : ((s._crossCollateralRouters d).erase router).card = 0
    · rw [if_pos hcard, if_pos (show ((route s d).crossRouters.erase router).card = 0 from hcard), route_clearUnrouted_self]
      simp [route, routers]
    · rw [if_neg hcard, if_neg (show ¬((route s d).crossRouters.erase router).card = 0 from hcard)]
      simp [route, routers]
  · rw [if_neg hmem, if_neg (show router ∉ (route s d).crossRouters from hmem)]

theorem route_unenrollCross_of_ne (h : j ≠ d) (router : ℕ) :
    route (unenrollCrossCollateralRouter k s d router) j = route s j := by
  unfold unenrollCrossCollateralRouter
  split
  · dsimp only
    split
    · rw [route_clearUnrouted_of_ne h]
      simp [route, routers, h]
    · simp [route, routers, h]
  · rfl

/-- a removal of a remote router that goes through -/
theorem _unenrollRemoteRouter_ok : _unenrollRemoteRouter k s d = .ok s' ↔
    d ∈ s._routers.keys ∧ s' = clearUnrouted k { s with _routers := s._routers.remove d } d := by
  unfold _unenrollRemoteRouter Router._unenrollRemoteRouter
  split
  · rename_i hmem
    rw [ok_bind, Except.ok.injEq, eq_comm]
    exact (and_iff_right hmem).symm
  · rename_i hmem
    rw [error_bind]
    simp [hmem]

/-- each change acts at its own domain -/
theorem change_acts (k : Contract) : ActsBy route (change k) (Route.act k) where
  done := by
    intro s s' d c h
    cases c with
    | enroll router =>
      cases h
      simp [Route.act, _enrollRemoteRouter, route, routers, UintToBytes32Map.set, UintToBytes32Map.tryGet]
    | unenroll =>
      obtain ⟨hmem, rfl⟩ := _unenrollRemoteRouter_ok.1 h
      rw [route_clearUnrouted_self]
      simp [Route.act, route, routers, UintToBytes32Map.remove, UintToBytes32Map.tryGet, hmem]
    | enrollCross router =>
      obtain ⟨rfl, rfl⟩ := crossCollateral_ok h
      rw [route_enrollCross_self]
      rfl
    | unenrollCross router =>
      obtain ⟨rfl, rfl⟩ := crossCollateral_ok h
      rw [route_unenrollCross_self]
      rfl
    | setRecipient recipient =>
      obtain ⟨hc, rfl⟩ := checkDomain_bind.1 h
      rw [Route.act, if_pos hc]
      simp [route, routers]
    | removeRecipient =>
      cases h
      simp [Route.act, removeRecipient, route, routers]
    | addBridge bridge =>
      obtain ⟨hc, rfl⟩ := checkDomain_bind.1 h
      rw [Route.act, if_pos hc]
      simp [_addBridge, route, routers]
    | removeBridge bridge =>
      cases h
      simp [Route.act, route, routers]
    | addTarget target =>
      obtain ⟨rfl, rfl⟩ := crossCollateral_ok h
      simp [Route.act, addRebalanceTarget, route, routers]
    | removeTarget target =>
      obtain ⟨rfl, rfl⟩ := crossCollateral_ok h
      simp [Route.act, removeRebalanceTarget, route, routers]
  frame := by
    intro s s' d c j h hj
    cases c with
    | enroll router =>
      cases h
      simp [_enrollRemoteRouter, route, routers, UintToBytes32Map.set, UintToBytes32Map.tryGet, hj]
    | unenroll =>
      obtain ⟨hmem, rfl⟩ := _unenrollRemoteRouter_ok.1 h
      rw [route_clearUnrouted_of_ne hj]
      simp [route, routers, UintToBytes32Map.remove, UintToBytes32Map.tryGet, hj]
    | enrollCross router =>
      obtain ⟨rfl, rfl⟩ := crossCollateral_ok h
      unfold enrollCrossCollateralRouter
      split
      · rfl
      · simp [route, routers, hj]
    | unenrollCross router =>
      obtain ⟨rfl, rfl⟩ := crossCollateral_ok h
      exact route_unenrollCross_of_ne hj router
    | setRecipient recipient =>
      obtain ⟨-, rfl⟩ := checkDomain_bind.1 h
      simp [route, routers, hj]
    | removeRecipient =>
      cases h
      simp [removeRecipient, route, routers, hj]
    | addBridge bridge =>
      obtain ⟨-, rfl⟩ := checkDomain_bind.1 h
      simp [_addBridge, route, routers, hj]
    | removeBridge bridge =>
      cases h
      simp [route, routers, hj]
    | addTarget target =>
      obtain ⟨rfl, rfl⟩ := crossCollateral_ok h
      simp [addRebalanceTarget, route, routers, hj]
    | removeTarget target =>
      obtain ⟨rfl, rfl⟩ := crossCollateral_ok h
      simp [removeRebalanceTarget, route, routers, hj]
  failed := by
    intro s d c e h
    cases c with
    | enroll router => cases h
    | unenroll =>
      have hmem : d ∉ s._routers.keys := by
        intro hmem
        rw [change, _unenrollRemoteRouter_ok.2 ⟨hmem, rfl⟩] at h
        cases h
      simp [Route.act, route, UintToBytes32Map.tryGet, hmem]
    | enrollCross router => cases k <;> first | rfl | cases h
    | unenrollCross router => cases k <;> first | rfl | cases h
    | setRecipient recipient =>
      have hc : (route s d).checked k ≠ true := by
        intro hc
        rw [change, setRecipient, checkDomain_bind.2 ⟨hc, rfl⟩] at h
        cases h
      rw [Route.act, if_neg hc]
    | removeRecipient => cases h
    | addBridge bridge =>
      have hc : (route s d).checked k ≠ true := by
        intro hc
        rw [change, addBridge, checkDomain_bind.2 ⟨hc, rfl⟩] at h
        cases h
      rw [Route.act, if_neg hc]
    | removeBridge bridge => cases h
    | addTarget target => cases k <;> first | rfl | cases h
    | removeTarget target => cases k <;> first | rfl | cases h

end View

/-! ## Operations as batches of changes -/

/-- the entries of an operation -/
def Operation.changes : Operation → List (ℕ × Change)
  | .enrollRemoteRouter domain router => [(domain, .enroll router)]
  | .enrollRemoteRouters domains addresses => (domains.zip addresses).map fun e => (e.1, .enroll e.2)
  | .unenrollRemoteRouter domain => [(domain, .unenroll)]
  | .unenrollRemoteRouters domains => domains.map fun domain => (domain, .unenroll)
  | .enrollCrossCollateralRouters domains routers => (domains.zip routers).map fun e => (e.1, .enrollCross e.2)
  | .unenrollCrossCollateralRouters domains routers => (domains.zip routers).map fun e => (e.1, .unenrollCross e.2)
  | .setRecipient domain recipient => [(domain, .setRecipient recipient)]
  | .removeRecipient domain => [(domain, .removeRecipient)]
  | .addBridge domain bridge => [(domain, .addBridge bridge)]
  | .removeBridge domain bridge _ => [(domain, .removeBridge bridge)]
  | .addRebalanceTarget domain target => [(domain, .addTarget target)]
  | .removeRebalanceTarget domain target => [(domain, .removeTarget target)]

section Batch

variable {k} {s s' : Storage}

/-- a loop that cannot fail -/
theorem foldlM_changes {α : Type} {l : List α} {f : α → ℕ × Change} {g : Storage → α → Storage}
    (h : ∀ s a, change k s (f a) = .ok (g s a)) (s : Storage) : (l.map f).foldlM (change k) s = .ok (l.foldl g s) := by
  induction l generalizing s with
  | nil => rfl
  | cons a l ih =>
    rw [List.map_cons, List.foldlM_cons, h, ok_bind, ih]
    rfl

theorem foldlM_unenroll (domains : List ℕ) (s : Storage) :
    (domains.map fun d => (d, Change.unenroll)).foldlM (change k) s = unenrollRemoteRouters k s domains := by
  rw [List.foldlM_map]
  rfl

theorem foldlM_singleton (e : ℕ × Change) (s : Storage) : [e].foldlM (change k) s = change k s e := by
  rw [List.foldlM_cons]
  cases change k s e with
  | ok t => rfl
  | error e => rfl

theorem crossCollateral_eq_ok {x : Except String Storage} :
    crossCollateral k x = .ok s' ↔ k = .CrossCollateralRouter ∧ x = .ok s' := by
  cases k with
  | MovableCollateralRouter => simp [crossCollateral]
  | CrossCollateralRouter => simp [crossCollateral]

/-- an operation that goes through makes its changes in turn -/
theorem execute_ok {op : Operation} (h : execute k s op = .ok s') : op.changes.foldlM (change k) s = .ok s' := by
  cases op with
  | enrollRemoteRouters domains addresses =>
    rw [execute, enrollRemoteRouters] at h
    split at h
    · rw [← h]
      exact foldlM_changes (fun _ _ => rfl) s
    · cases h
  | unenrollRemoteRouters domains => exact (foldlM_unenroll domains s).trans h
  | enrollCrossCollateralRouters domains routers =>
    rw [execute, crossCollateral_eq_ok] at h
    obtain ⟨rfl, h⟩ := h
    rw [enrollCrossCollateralRouters] at h
    split at h
    · rw [← h]
      exact foldlM_changes (fun _ _ => rfl) s
    · cases h
  | unenrollCrossCollateralRouters domains routers =>
    rw [execute, crossCollateral_eq_ok] at h
    obtain ⟨rfl, h⟩ := h
    rw [unenrollCrossCollateralRouters] at h
    split at h
    · rw [← h]
      exact foldlM_changes (fun _ _ => rfl) s
    · cases h
  | removeBridge domain bridge revokes =>
    rw [Operation.changes, foldlM_singleton, change]
    unfold execute _removeBridge at h
    dsimp only at h
    split at h
    · exact h
    · split at h
      · exact h
      · split at h
        · exact h
        · cases h
  | _ => exact (foldlM_singleton _ s).trans h

/-- what an operation that goes through makes of a domain -/
theorem execute_route {op : Operation} (h : execute k s op = .ok s') (d : ℕ) :
    (entriesAt d op.changes).foldlM (Route.act k) (route s d) = some (route s' d) :=
  (change_acts k).foldlM_ok (execute_ok h) d

end Batch

/-! ## Soundness -/

/-- a non-zero remote router or a cross-collateral router -/
def Routed (s : Storage) (d : ℕ) : Prop := routers s d ≠ 0 ∨ s._crossCollateralRouters d ≠ ∅

/-- no recipient, no bridge, no valid rebalance target -/
def NoAuthority (s : Storage) (d : ℕ) : Prop :=
  s.recipient d = 0 ∧ s.bridges d = ∅ ∧ ∀ target, isRebalanceTarget s d target = false

/-- a domain without routes has no rebalance authority -/
def Sound (s : Storage) : Prop := ∀ d, ¬Routed s d → NoAuthority s d

/-- `_crossCollateralDomains` are the domains with a cross-collateral router -/
def Listed (s : Storage) : Prop := ∀ d, d ∈ s._crossCollateralDomains ↔ s._crossCollateralRouters d ≠ ∅

namespace Route

def Untargeted (r : Route) : Prop := ∀ t ∈ r.targets, t = 0

def Unheld (r : Route) : Prop := r.recipient = 0 ∧ r.bridges = ∅ ∧ r.Untargeted

def Sound (r : Route) : Prop := r.router = 0 → r.crossRouters = ∅ → r.Unheld

/-- what every change keeps -/
structure Legal (r : Route) : Prop where
  unenrolled : r.enrolled = false → r.router = 0
  listed : r.crossListed ↔ r.crossRouters ≠ ∅
  plain : k = .MovableCollateralRouter → r.crossRouters = ∅ ∧ r.targets = ∅

variable {k} {r r' : Route}

theorem Legal.clearUnrouted (h : r.Legal k) : (r.clearUnrouted k).Legal k := by
  unfold Route.clearUnrouted
  split
  · exact ⟨h.unenrolled, h.listed, h.plain⟩
  · exact h

theorem Legal.act (h : r.Legal k) {c : Change} (hact : r.act k c = some r') : r'.Legal k := by
  cases c with
  | enroll router =>
    cases hact
    exact ⟨nofun, h.listed, h.plain⟩
  | unenroll =>
    simp only [Route.act, Option.ite_none_right_eq_some, Option.some.injEq] at hact
    rw [← hact.2]
    exact Legal.clearUnrouted ⟨fun _ => rfl, h.listed, h.plain⟩
  | enrollCross router =>
    simp only [Route.act, Option.ite_none_right_eq_some, Option.some.injEq] at hact
    obtain ⟨rfl, rfl⟩ := hact
    split
    · exact h
    · exact ⟨h.unenrolled, by simp, nofun⟩
  | unenrollCross router =>
    simp only [Route.act, Option.ite_none_right_eq_some, Option.some.injEq] at hact
    obtain ⟨rfl, rfl⟩ := hact
    unfold Route.unenrollCross
    split
    · rename_i hmem
      split
      · rename_i hcard
        exact Legal.clearUnrouted ⟨h.unenrolled, by simp [Finset.card_eq_zero.1 hcard], nofun⟩
      · rename_i hcard
        refine ⟨h.unenrolled, ?_, nofun⟩
        simp only [h.listed, ne_eq, Finset.card_eq_zero.not.1 hcard, not_false_eq_true, iff_true]
        exact Finset.ne_empty_of_mem hmem
    · exact h
  | setRecipient recipient =>
    simp only [Route.act, Option.ite_none_right_eq_some, Option.some.injEq] at hact
    rw [← hact.2]
    exact ⟨h.unenrolled, h.listed, h.plain⟩
  | addBridge bridge =>
    simp only [Route.act, Option.ite_none_right_eq_some, Option.some.injEq] at hact
    rw [← hact.2]
    exact ⟨h.unenrolled, h.listed, h.plain⟩
  | removeRecipient =>
    cases hact
    exact ⟨h.unenrolled, h.listed, h.plain⟩
  | removeBridge bridge =>
    cases hact
    exact ⟨h.unenrolled, h.listed, h.plain⟩
  | addTarget target =>
    simp only [Route.act, Option.ite_none_right_eq_some, Option.some.injEq] at hact
    obtain ⟨rfl, rfl⟩ := hact
    exact ⟨h.unenrolled, h.listed, nofun⟩
  | removeTarget target =>
    simp only [Route.act, Option.ite_none_right_eq_some, Option.some.injEq] at hact
    obtain ⟨rfl, rfl⟩ := hact
    exact ⟨h.unenrolled, h.listed, nofun⟩

theorem Legal.foldlM {l : List Change} (h : r.Legal k) (hl : l.foldlM (Route.act k) r = some r') : r'.Legal k := by
  induction l generalizing r with
  | nil =>
    cases hl
    exact h
  | cons c l ih =>
    rw [List.foldlM_cons, Option.bind_eq_bind, Option.bind_eq_some_iff] at hl
    obtain ⟨t, ht, hl⟩ := hl
    exact ih (h.act ht) hl

/-- a route that lost its routes is cleared, up to its targets -/
theorem Legal.clearUnrouted_eq (h : r.Legal k) (hrouter : r.router = 0) (hcross : r.crossRouters = ∅) :
    r.clearUnrouted k = { r with recipient := 0, bridges := ∅ } := by
  unfold Route.clearUnrouted hasRoutes
  cases k <;> simp [hrouter, hcross]

/-- a route that is left is not cleared -/
theorem Legal.clearUnrouted_of_routed (h : r.Legal k) (hrouted : r.router ≠ 0 ∨ r.crossRouters ≠ ∅) :
    r.clearUnrouted k = r := by
  unfold Route.clearUnrouted hasRoutes
  cases k with
  | MovableCollateralRouter =>
    have hrouter : r.router ≠ 0 := hrouted.resolve_right (not_not.2 (h.plain rfl).1)
    simp [hrouter]
  | CrossCollateralRouter =>
    rw [if_neg]
    simpa [Finset.card_pos, Finset.nonempty_iff_ne_empty, imp_iff_not_or] using hrouted

/-! ### Loops over the entries of one domain -/

/-- of the routers enrolled, the last one stays -/
theorem foldlM_enroll (xs : List ℕ) (r : Route) : (xs.map Change.enroll).foldlM (Route.act k) r =
    some (match xs.getLast? with
      | none => r
      | some x => { r with enrolled := true, router := x }) := by
  induction xs generalizing r with
  | nil => rfl
  | cons x xs ih =>
    rw [List.map_cons, List.foldlM_cons, act, Option.bind_eq_bind, Option.bind_some, ih, List.getLast?_cons]
    cases xs.getLast? <;> rfl

/-- a domain can be removed once -/
theorem foldlM_unenroll {n : ℕ} : (List.replicate n Change.unenroll).foldlM (Route.act k) r = some r' ↔
    n = 0 ∧ r' = r ∨
      n = 1 ∧ r.enrolled = true ∧ r' = ({ r with enrolled := false, router := 0 } : Route).clearUnrouted k := by
  match n with
  | 0 =>
    rw [List.replicate_zero, List.foldlM_nil, Option.pure_def, Option.some.injEq]
    constructor
    · exact fun h => .inl ⟨rfl, h.symm⟩
    · rintro (⟨-, h⟩ | ⟨h, -⟩)
      · exact h.symm
      · cases h
  | 1 =>
    simp only [List.replicate_one, List.foldlM_cons, List.foldlM_nil, act]
    cases r.enrolled <;> simp [eq_comm]
  | n + 2 =>
    have hcleared : ∀ t : Route, (t.clearUnrouted k).enrolled = t.enrolled := by
      intro t
      unfold Route.clearUnrouted
      split <;> rfl
    simp only [List.replicate_succ, List.foldlM_cons, act]
    cases r.enrolled <;> simp [hcleared]

/-- what removing cross-collateral routers leaves -/
structure Dropped (r : Route) (xs : List ℕ) (r' : Route) : Prop where
  router : r'.router = r.router
  targets : r'.targets = r.targets
  cross : r'.crossRouters = r.crossRouters \ xs.toFinset
  kept_or_cleared : r'.recipient = r.recipient ∧ r'.bridges = r.bridges ∨ r'.recipient = 0 ∧ r'.bridges = ∅
  cleared : r.crossRouters ≠ ∅ → r'.crossRouters = ∅ → r.router = 0 → r'.recipient = 0 ∧ r'.bridges = ∅

theorem Legal.unenrollCross_dropped (h : r.Legal .CrossCollateralRouter) (x : ℕ) :
    Dropped r [x] (r.unenrollCross .CrossCollateralRouter x) := by
  unfold unenrollCross
  split
  · split
    · rename_i hmem hcard
      have hlegal : ({ r with crossRouters := r.crossRouters.erase x, crossListed := False } : Route).Legal
          .CrossCollateralRouter := ⟨h.unenrolled, by simp [Finset.card_eq_zero.1 hcard], nofun⟩
      by_cases hrouter : r.router = 0
      · rw [hlegal.clearUnrouted_eq hrouter (Finset.card_eq_zero.1 hcard)]
        exact ⟨rfl, rfl, by simp [Finset.sdiff_singleton_eq_erase], .inr ⟨rfl, rfl⟩, fun _ _ _ => ⟨rfl, rfl⟩⟩
      · rw [hlegal.clearUnrouted_of_routed (.inl hrouter)]
        exact ⟨rfl, rfl, by simp [Finset.sdiff_singleton_eq_erase], .inl ⟨rfl, rfl⟩, fun _ _ h0 => absurd h0 hrouter⟩
    · rename_i hmem hcard
      exact ⟨rfl, rfl, by simp [Finset.sdiff_singleton_eq_erase], .inl ⟨rfl, rfl⟩,
        fun _ hempty => absurd (Finset.card_eq_zero.2 hempty) hcard⟩
  · rename_i hmem
    exact ⟨rfl, rfl, by simp [Finset.sdiff_singleton_eq_erase, Finset.erase_eq_of_notMem hmem], .inl ⟨rfl, rfl⟩,
      fun hne hempty => absurd hempty hne⟩

theorem Legal.foldlM_unenrollCross {xs : List ℕ} (h : r.Legal .CrossCollateralRouter)
    (hxs : (xs.map Change.unenrollCross).foldlM (Route.act .CrossCollateralRouter) r = some r') : Dropped r xs r' := by
  induction xs generalizing r with
  | nil =>
    cases hxs
    exact ⟨rfl, rfl, by simp, .inl ⟨rfl, rfl⟩, fun hne hempty => absurd hempty hne⟩
  | cons x xs ih =>
    rw [List.map_cons, List.foldlM_cons, Route.act, if_pos rfl, Option.bind_eq_bind, Option.bind_some] at hxs
    have h₁ := h.unenrollCross_dropped x
    have h₂ := ih (h.act (c := .unenrollCross x) (by rw [Route.act, if_pos rfl])) hxs
    refine ⟨h₂.router.trans h₁.router, h₂.targets.trans h₁.targets, ?_, ?_, ?_⟩
    · rw [h₂.cross, h₁.cross]
      ext y
      simp only [Finset.mem_sdiff, List.mem_toFinset, List.mem_cons, List.not_mem_nil, or_false, not_or, and_assoc]
    · rcases h₂.kept_or_cleared with hkept | hcleared
      · rw [hkept.1, hkept.2]
        exact h₁.kept_or_cleared
      · exact .inr hcleared
    · intro hne hempty hrouter
      by_cases hnow : (r.unenrollCross .CrossCollateralRouter x).crossRouters = ∅
      · -- the last one was `x`, and nothing is set after it
        have hcleared := h₁.cleared hne hnow hrouter
        rcases h₂.kept_or_cleared with hkept | hcleared'
        · exact ⟨hkept.1.trans hcleared.1, hkept.2.trans hcleared.2⟩
        · exact hcleared'
      · exact h₂.cleared hnow hempty (h₁.router.trans hrouter)

theorem Legal.unenroll_sound_iff (h : r.Legal k) :
    (({ r with enrolled := false, router := 0 } : Route).clearUnrouted k).Sound ↔ (r.crossRouters = ∅ → r.Untargeted) := by
  have hlegal : ({ r with enrolled := false, router := 0 } : Route).Legal k := ⟨fun _ => rfl, h.listed, h.plain⟩
  by_cases hcross : r.crossRouters = ∅
  · rw [hlegal.clearUnrouted_eq rfl hcross]
    exact ⟨fun hs _ => (hs rfl hcross).2.2, fun ht _ _ => ⟨rfl, rfl, ht hcross⟩⟩
  · rw [hlegal.clearUnrouted_of_routed (.inr hcross)]
    exact ⟨fun _ hempty => absurd hempty hcross, fun _ _ hempty => absurd hempty hcross⟩

theorem enroll_sound_iff (xs : List ℕ) (hr : r.Sound)
    (hxs : (xs.map Change.enroll).foldlM (Route.act k) r = some r') :
    r'.Sound ↔ (xs.getLast? = some 0 → r.crossRouters = ∅ → r.Unheld) := by
  rw [foldlM_enroll, Option.some.injEq] at hxs
  subst hxs
  cases xs.getLast? with
  | none => exact ⟨fun _ => nofun, fun _ => hr⟩
  | some x =>
    rw [Option.some.injEq]
    rfl

theorem enrollCross_sound (hr : r.Sound) {xs : List ℕ}
    (hxs : (xs.map Change.enrollCross).foldlM (Route.act k) r = some r') : r'.Sound := by
  induction xs generalizing r with
  | nil =>
    cases hxs
    exact hr
  | cons x xs ih =>
    rw [List.map_cons, List.foldlM_cons, Option.bind_eq_bind, Option.bind_eq_some_iff] at hxs
    obtain ⟨t, ht, hxs⟩ := hxs
    simp only [Route.act, Option.ite_none_right_eq_some, Option.some.injEq] at ht
    refine ih ?_ hxs
    rw [← ht.2]
    split
    · exact hr
    · exact fun _ hempty => absurd hempty (Finset.insert_ne_empty _ _)

theorem routed_of_checked (h : r.checked .CrossCollateralRouter = true) : r.router ≠ 0 ∨ r.crossRouters ≠ ∅ := by
  simpa [checked, Finset.card_pos, Finset.nonempty_iff_ne_empty, imp_iff_not_or] using h

theorem Dropped.sound_iff {xs : List ℕ} (h : Dropped r xs r') (hr : r.Sound) : r'.Sound ↔
    (r.router = 0 → r.crossRouters ≠ ∅ → (∀ x ∈ r.crossRouters, x ∈ xs) → r.Untargeted) := by
  have hempty : r'.crossRouters = ∅ ↔ ∀ x ∈ r.crossRouters, x ∈ xs := by
    rw [h.cross, Finset.sdiff_eq_empty_iff_subset]
    exact ⟨fun hsub x hx => List.mem_toFinset.1 (hsub hx), fun hsub x hx => List.mem_toFinset.2 (hsub x hx)⟩
  have huntargeted : r'.Untargeted ↔ r.Untargeted := by rw [Untargeted, Untargeted, h.targets]
  constructor
  · intro hr' hrouter _ hall
    exact huntargeted.1 (hr' (h.router.trans hrouter) (hempty.2 hall)).2.2
  · intro hcondition hrouter hnone
    rw [h.router] at hrouter
    by_cases hcross : r.crossRouters = ∅
    · obtain ⟨hrecipient, hbridges, htargets⟩ := hr hrouter hcross
      rcases h.kept_or_cleared with hkept | hcleared
      · exact ⟨hkept.1.trans hrecipient, hkept.2.trans hbridges, huntargeted.2 htargets⟩
      · exact ⟨hcleared.1, hcleared.2, huntargeted.2 htargets⟩
    · obtain ⟨hrecipient, hbridges⟩ := h.cleared hcross hnone hrouter
      exact ⟨hrecipient, hbridges, huntargeted.2 (hcondition hrouter hcross (hempty.1 hnone))⟩

end Route

/-! ## Which operations keep a storage sound -/

/-- no rebalance target but the zero address, which is never valid -/
def Untargeted (s : Storage) (d : ℕ) : Prop := ∀ t ∈ s._rebalanceTargets d, t = 0

def Unheld (s : Storage) (d : ℕ) : Prop := s.recipient d = 0 ∧ s.bridges d = ∅ ∧ Untargeted s d

/-- the operation reverts or leaves no authority behind without a route -/
def Operation.Keeps (s : Storage) : Operation → Prop
  | .enrollRemoteRouter d router => router = 0 → s._crossCollateralRouters d = ∅ → Unheld s d
  | .enrollRemoteRouters domains addresses => domains.length = addresses.length →
    ∀ d, (entriesAt d (domains.zip addresses)).getLast? = some 0 → s._crossCollateralRouters d = ∅ → Unheld s d
  | .unenrollRemoteRouter d => d ∈ s._routers.keys → s._crossCollateralRouters d = ∅ → Untargeted s d
  | .unenrollRemoteRouters domains => domains.Nodup → (∀ d ∈ domains, d ∈ s._routers.keys) →
    ∀ d ∈ domains, s._crossCollateralRouters d = ∅ → Untargeted s d
  | .unenrollCrossCollateralRouters domains removed => k = .CrossCollateralRouter → domains.length = removed.length →
    ∀ d, routers s d = 0 → s._crossCollateralRouters d ≠ ∅ →
      (∀ r ∈ s._crossCollateralRouters d, (d, r) ∈ domains.zip removed) → Untargeted s d
  | .setRecipient d recipient => k = .MovableCollateralRouter → d ∈ s._routers.keys → routers s d = 0 → recipient = 0
  | .addBridge d _ => k = .MovableCollateralRouter → d ∈ s._routers.keys → routers s d ≠ 0
  | .addRebalanceTarget d target => k = .CrossCollateralRouter → target ≠ 0 → Routed s d
  | _ => True

/-- every call of the owner keeps the storage sound, from the storage before it -/
def KeepsAll (s : Storage) : List Call → Prop
  | [] => True
  | c :: calls => (c.sender = s.owner → c.operation.Keeps k s) ∧ KeepsAll (step k s c) calls

section Sound

variable {k} {s s' : Storage}

theorem not_routed {d : ℕ} : ¬Routed s d ↔ routers s d = 0 ∧ s._crossCollateralRouters d = ∅ := by
  simp only [Routed, not_or, not_not]

theorem noAuthority_iff {d : ℕ} (h : routers s d = 0) : NoAuthority s d ↔ Unheld s d := by
  refine and_congr_right' (and_congr_right' ?_)
  constructor
  · intro hnone t ht
    by_contra hne
    have ht' := hnone t
    simp [isRebalanceTarget, hne, ht] at ht'
  · intro hnone t
    by_cases ht : t = 0
    · simp [isRebalanceTarget, ht]
    · have hmem : t ∉ s._rebalanceTargets d := fun hmem => ht (hnone t hmem)
      simp [isRebalanceTarget, h, ht, hmem]

theorem sound_iff : Sound s ↔ ∀ d, (route s d).Sound := by
  refine forall_congr' fun d => ?_
  rw [not_routed, and_imp]
  exact forall_congr' fun hrouter => imp_congr_right fun _ => noAuthority_iff hrouter

theorem mem_keys {d : ℕ} : (route s d).enrolled = true ↔ d ∈ s._routers.keys := decide_eq_true_iff

/-- an operation on one domain changes that domain only -/
theorem execute_single {op : Operation} {d : ℕ} {c : Change} (hs : Sound s) (h : execute k s op = .ok s')
    (hop : op.changes = [(d, c)]) :
    (route s d).act k c = some (route s' d) ∧ (Sound s' ↔ (route s' d).Sound) := by
  have hself := execute_route h d
  rw [hop, entriesAt_cons_self, entriesAt_nil, List.foldlM_cons] at hself
  refine ⟨?_, fun hs' => sound_iff.1 hs' d, fun hd => sound_iff.2 fun j => ?_⟩
  · cases hact : (route s d).act k c with
    | none =>
      rw [hact] at hself
      cases hself
    | some r =>
      rw [hact] at hself
      exact hself
  · by_cases hj : d = j
    · exact hj ▸ hd
    · have hother := execute_route h j
      rw [hop, entriesAt_cons_of_ne hj, entriesAt_nil, List.foldlM_nil] at hother
      rw [← Option.some.inj hother]
      exact sound_iff.1 hs j

/-- the first contract's guard lets every enrolled domain through, the zero router's too -/
theorem checked_of_mem {d : ℕ} (hd : d ∈ s._routers.keys) :
    (route s d).checked .MovableCollateralRouter = true := mem_keys.2 hd

/-- a reverting operation is no exception -/
theorem execute_error {op : Operation} {e : String} (h : execute k s op = .error e) : op.Keeps k s := by
  cases op with
  | enrollRemoteRouter d router => cases h
  | enrollRemoteRouters domains addresses =>
    intro hlength
    rw [execute, enrollRemoteRouters, if_pos hlength] at h
    cases h
  | unenrollRemoteRouter d =>
    intro hmem
    rw [execute, _unenrollRemoteRouter_ok.2 ⟨hmem, rfl⟩] at h
    cases h
  | unenrollRemoteRouters domains =>
    intro hnodup hall
    rw [execute, ← foldlM_unenroll] at h
    obtain ⟨d, hd⟩ := (change_acts k).foldlM_error h
    rw [entriesAt_const] at hd
    by_cases hmem : d ∈ domains
    · rw [List.count_eq_one_of_mem hnodup hmem,
        Route.foldlM_unenroll.2 (.inr ⟨rfl, mem_keys.2 (hall d hmem), rfl⟩)] at hd
      cases hd
    · rw [List.count_eq_zero_of_not_mem hmem, Route.foldlM_unenroll.2 (.inl ⟨rfl, rfl⟩)] at hd
      cases hd
  | unenrollCrossCollateralRouters domains removed =>
    rintro rfl hlength
    rw [execute, crossCollateral, unenrollCrossCollateralRouters, if_pos hlength] at h
    cases h
  | setRecipient d recipient =>
    rintro rfl hmem
    rw [execute, setRecipient, checkDomain_bind.2 ⟨checked_of_mem hmem, rfl⟩] at h
    cases h
  | addBridge d bridge =>
    rintro rfl hmem
    rw [execute, addBridge, checkDomain_bind.2 ⟨checked_of_mem hmem, rfl⟩] at h
    cases h
  | addRebalanceTarget d target =>
    rintro rfl
    cases h
  | _ => trivial

/-- **One operation.** From a sound storage, one that goes through leads to a sound storage iff it keeps it so. -/
theorem execute_sound_iff {op : Operation} (hlegal : ∀ d, (route s d).Legal k) (hs : Sound s)
    (h : execute k s op = .ok s') : Sound s' ↔ op.Keeps k s := by
  cases op with
  | enrollRemoteRouter d router =>
    obtain ⟨hact, hiff⟩ := execute_single hs h rfl
    rw [hiff, ← Option.some.inj hact]
    rfl
  | enrollRemoteRouters domains addresses =>
    have hlength : domains.length = addresses.length := by
      by_contra hne
      rw [execute, enrollRemoteRouters, if_neg hne] at h
      cases h
    rw [Operation.Keeps, forall_prop_of_true hlength, sound_iff]
    refine forall_congr' fun d => ?_
    have hroute := execute_route h d
    rw [Operation.changes, entriesAt_map] at hroute
    exact Route.enroll_sound_iff _ (sound_iff.1 hs d) hroute
  | unenrollRemoteRouter d =>
    obtain ⟨hact, hiff⟩ := execute_single hs h rfl
    obtain ⟨hmem, -⟩ := _unenrollRemoteRouter_ok.1 h
    rw [Route.act, if_pos (mem_keys.2 hmem), Option.some.injEq] at hact
    rw [hiff, ← hact, Operation.Keeps, forall_prop_of_true hmem]
    exact (hlegal d).unenroll_sound_iff
  | unenrollRemoteRouters domains =>
    have hroute : ∀ d, _ := execute_route h
    simp only [Operation.changes, entriesAt_const, Route.foldlM_unenroll] at hroute
    have hnodup : domains.Nodup := by
      refine List.nodup_iff_count_le_one.2 fun d => ?_
      rcases hroute d with ⟨hcount, -⟩ | ⟨hcount, -⟩ <;> omega
    have hmem : ∀ d ∈ domains, d ∈ s._routers.keys ∧ (route s' d).Sound = (s._crossCollateralRouters d = ∅ → Untargeted s d) := by
      intro d hd
      rcases hroute d with ⟨hcount, -⟩ | ⟨-, henrolled, hafter⟩
      · exact absurd hd (List.count_eq_zero.1 hcount)
      · rw [hafter]
        exact ⟨mem_keys.1 henrolled, propext (hlegal d).unenroll_sound_iff⟩
    rw [Operation.Keeps, forall_prop_of_true hnodup, forall_prop_of_true fun d hd => (hmem d hd).1, sound_iff]
    constructor
    · intro hsound d hd
      exact (hmem d hd).2 ▸ hsound d
    · intro hkeeps d
      by_cases hd : d ∈ domains
      · rw [(hmem d hd).2]
        exact hkeeps d hd
      · rcases hroute d with ⟨-, hafter⟩ | ⟨hcount, -⟩
        · rw [hafter]
          exact sound_iff.1 hs d
        · rw [List.count_eq_zero_of_not_mem hd] at hcount
          cases hcount
  | enrollCrossCollateralRouters domains routers =>
    refine iff_of_true (sound_iff.2 fun d => ?_) trivial
    have hroute := execute_route h d
    rw [Operation.changes, entriesAt_map] at hroute
    exact Route.enrollCross_sound (sound_iff.1 hs d) hroute
  | unenrollCrossCollateralRouters domains removed =>
    obtain ⟨rfl, -⟩ := crossCollateral_eq_ok.1 h
    have hlength : domains.length = removed.length := by
      by_contra hne
      rw [execute, crossCollateral, unenrollCrossCollateralRouters, if_neg hne] at h
      cases h
    rw [Operation.Keeps, forall_prop_of_true rfl, forall_prop_of_true hlength, sound_iff]
    refine forall_congr' fun d => ?_
    have hroute := execute_route h d
    rw [Operation.changes, entriesAt_map] at hroute
    rw [((hlegal d).foldlM_unenrollCross hroute).sound_iff (sound_iff.1 hs d)]
    simp only [mem_entriesAt]
    rfl
  | setRecipient d recipient =>
    obtain ⟨hact, hiff⟩ := execute_single hs h rfl
    obtain ⟨hchecked, -⟩ := checkDomain_bind.1 h
    rw [Route.act, if_pos hchecked, Option.some.injEq] at hact
    rw [hiff, ← hact]
    cases k with
    | MovableCollateralRouter =>
      rw [Operation.Keeps, forall_prop_of_true rfl, forall_prop_of_true (mem_keys.1 hchecked)]
      constructor
      · intro hsound hrouter
        exact (hsound hrouter ((hlegal d).plain rfl).1).1
      · intro hzero hrouter hcross
        exact ⟨hzero hrouter, (sound_iff.1 hs d hrouter hcross).2⟩
    | CrossCollateralRouter =>
      refine iff_of_true (fun hrouter hcross => ?_) fun hk => by cases hk
      exact absurd (Route.routed_of_checked hchecked) (not_or.2 ⟨not_not.2 hrouter, not_not.2 hcross⟩)
  | removeRecipient d =>
    obtain ⟨hact, hiff⟩ := execute_single hs h rfl
    refine iff_of_true (hiff.2 ?_) trivial
    rw [← Option.some.inj hact]
    exact fun hrouter hcross => ⟨rfl, (sound_iff.1 hs d hrouter hcross).2⟩
  | addBridge d bridge =>
    obtain ⟨hact, hiff⟩ := execute_single hs h rfl
    obtain ⟨hchecked, -⟩ := checkDomain_bind.1 h
    rw [Route.act, if_pos hchecked, Option.some.injEq] at hact
    rw [hiff, ← hact]
    cases k with
    | MovableCollateralRouter =>
      rw [Operation.Keeps, forall_prop_of_true rfl, forall_prop_of_true (mem_keys.1 hchecked)]
      constructor
      · intro hsound hrouter
        exact Finset.insert_ne_empty _ _ (hsound hrouter ((hlegal d).plain rfl).1).2.1
      · intro hne hrouter
        exact absurd hrouter hne
    | CrossCollateralRouter =>
      refine iff_of_true (fun hrouter hcross => ?_) fun hk => by cases hk
      exact absurd (Route.routed_of_checked hchecked) (not_or.2 ⟨not_not.2 hrouter, not_not.2 hcross⟩)
  | removeBridge d bridge revokes =>
    obtain ⟨hact, hiff⟩ := execute_single hs h rfl
    refine iff_of_true (hiff.2 ?_) trivial
    rw [← Option.some.inj hact]
    intro hrouter hcross
    obtain ⟨hrecipient, hbridges, htargets⟩ := sound_iff.1 hs d hrouter hcross
    exact ⟨hrecipient, by simp [hbridges], htargets⟩
  | addRebalanceTarget d target =>
    obtain ⟨hact, hiff⟩ := execute_single hs h rfl
    obtain ⟨rfl, -⟩ := crossCollateral_ok h
    rw [Route.act, if_pos rfl, Option.some.injEq] at hact
    rw [hiff, ← hact, Operation.Keeps, forall_prop_of_true rfl]
    constructor
    · intro hsound hne
      by_contra hrouted
      obtain ⟨hrouter, hcross⟩ := not_routed.1 hrouted
      exact hne ((hsound hrouter hcross).2.2 target (Finset.mem_insert_self _ _))
    · intro hkeeps hrouter hcross
      obtain ⟨hrecipient, hbridges, htargets⟩ := sound_iff.1 hs d hrouter hcross
      refine ⟨hrecipient, hbridges, fun t ht => ?_⟩
      rcases Finset.mem_insert.1 ht with rfl | ht
      · by_contra hne
        exact not_routed.2 ⟨hrouter, hcross⟩ (hkeeps hne)
      · exact htargets t ht
  | removeRebalanceTarget d target =>
    obtain ⟨hact, hiff⟩ := execute_single hs h rfl
    obtain ⟨rfl, -⟩ := crossCollateral_ok h
    rw [Route.act, if_pos rfl, Option.some.injEq] at hact
    refine iff_of_true (hiff.2 ?_) trivial
    rw [← hact]
    intro hrouter hcross
    obtain ⟨hrecipient, hbridges, htargets⟩ := sound_iff.1 hs d hrouter hcross
    exact ⟨hrecipient, hbridges, fun t ht => htargets t (Finset.mem_of_mem_erase ht)⟩

end Sound

/-! ## Calls and runs -/

section Runs

variable {k} {s : Storage}

/-- what every storage of a run is -/
structure Inv (k : Contract) (s : Storage) : Prop where
  legal : ∀ d, (route s d).Legal k

theorem Inv.listed (h : Inv k s) : Listed s := fun d => (h.legal d).listed

theorem Inv.deployed (k : Contract) (owner : ℕ) : Inv k (deployed owner) where
  legal d := {
    unenrolled := fun _ => rfl
    listed := by simp [route, RebalanceRoutes.deployed]
    plain := fun _ => ⟨rfl, rfl⟩ }

theorem deployed_sound (owner : ℕ) : Sound (deployed owner) :=
  sound_iff.2 fun _ _ _ => ⟨rfl, rfl, fun _ ht => absurd ht (Finset.notMem_empty _)⟩

/-- a call does nothing, or an operation of the owner -/
theorem step_cases (k : Contract) (s : Storage) (c : Call) :
    (c.sender = s.owner ∧ execute k s c.operation = .ok (step k s c)) ∨
      (step k s c = s ∧ (c.sender = s.owner → c.operation.Keeps k s)) := by
  unfold step Call.call
  by_cases howner : c.sender = s.owner
  · rw [if_pos howner]
    cases hexecute : execute k s c.operation with
    | ok s' => exact .inl ⟨howner, rfl⟩
    | error e => exact .inr ⟨rfl, fun _ => execute_error hexecute⟩
  · rw [if_neg howner]
    exact .inr ⟨rfl, fun h => absurd h howner⟩

theorem Inv.step (h : Inv k s) (c : Call) : Inv k (step k s c) := by
  rcases step_cases k s c with ⟨-, hexecute⟩ | ⟨hsame, -⟩
  · exact ⟨fun d => (h.legal d).foldlM (execute_route hexecute d)⟩
  · rw [hsame]
    exact h

/-- **One call** takes a sound storage to a sound one iff it keeps it so. -/
theorem step_sound_iff (h : Inv k s) (hs : Sound s) (c : Call) :
    Sound (step k s c) ↔ (c.sender = s.owner → c.operation.Keeps k s) := by
  rcases step_cases k s c with ⟨howner, hexecute⟩ | ⟨hsame, hkeeps⟩
  · rw [forall_prop_of_true howner]
    exact execute_sound_iff h.legal hs hexecute
  · rw [hsame]
    exact iff_of_true hs hkeeps

theorem Inv.states (h : Inv k s) (calls : List Call) : ∀ t ∈ states k s calls, Inv k t := by
  induction calls generalizing s with
  | nil => simpa [RebalanceRoutes.states] using h
  | cons c calls ih =>
    intro t ht
    rw [RebalanceRoutes.states, List.scanl_cons, List.mem_cons] at ht
    rcases ht with rfl | ht
    · exact h
    · exact ih (h.step c) t ht

theorem states_sound_iff (h : Inv k s) (hs : Sound s) (calls : List Call) :
    (∀ t ∈ states k s calls, Sound t) ↔ KeepsAll k s calls := by
  induction calls generalizing s with
  | nil => simpa [states, KeepsAll] using hs
  | cons c calls ih =>
    rw [KeepsAll, ← step_sound_iff h hs c, states, List.scanl_cons, List.forall_mem_cons, and_iff_right hs]
    constructor
    · intro hall
      have hstep : Sound (step k s c) := hall _ (by cases calls <;> simp)
      exact ⟨hstep, (ih (h.step c) hstep).1 hall⟩
    · rintro ⟨hstep, hall⟩
      exact (ih (h.step c) hstep).2 hall

end Runs

/-- **Rebalance authority.** In every run the cross-collateral domains are those with a cross-collateral router, and the
storage is sound throughout iff every call of the owner keeps it so. -/
theorem authority_iff (k : Contract) (owner : ℕ) (calls : List Call) :
    (∀ s ∈ states k (deployed owner) calls, Listed s) ∧
      ((∀ s ∈ states k (deployed owner) calls, Sound s) ↔ KeepsAll k (deployed owner) calls) :=
  ⟨fun s hs => ((Inv.deployed k owner).states calls s hs).listed,
    states_sound_iff (Inv.deployed k owner) (deployed_sound owner) calls⟩

/-- the zero router over an enrolled one leaves the bridge, and a removal the rebalance target -/
theorem authority_kept :
    (¬∀ s ∈ states .MovableCollateralRouter (deployed 1)
        [⟨1, .enrollRemoteRouter 5 7⟩, ⟨1, .addBridge 5 9⟩, ⟨1, .enrollRemoteRouter 5 0⟩], Sound s) ∧
      ¬∀ s ∈ states .CrossCollateralRouter (deployed 1)
        [⟨1, .enrollRemoteRouter 5 7⟩, ⟨1, .addRebalanceTarget 5 8⟩, ⟨1, .unenrollRemoteRouter 5⟩], Sound s := by
  constructor
  · intro hsound
    obtain ⟨-, hbridges, -⟩ := hsound _ (List.mem_of_getLast? rfl) 5 (not_routed.2 (by decide))
    exact absurd hbridges (by decide)
  · intro hsound
    obtain ⟨-, -, htargets⟩ := hsound _ (List.mem_of_getLast? rfl) 5 (not_routed.2 (by decide))
    exact absurd (htargets 8) (by decide)

end Hyperlane.Warp.RebalanceRoutes
