/-
The ether that a hook sends along with a message reaches its recipient once.

Transactions are frames of foreign code, which may send ether, call the ISM at any time, and call it again from inside a
payment or from the outbox. What the hook has paid in for a message is owed until it is handed over.

- `Inv.receive`, `Inv.release`: the two steps that move what is owed.
- `verify_ensures`, `body_ensures`: the entry points.
- `each_deposit_once`: over every run, no id is accepted or paid out twice, and the ISM can pay all that it owes.
- `verify_pays`: in every reached state `verify` pays a recipient that takes the ether, whatever it does meanwhile.
-/
import Hyperlane.Isms.MessageIdAuthorized

namespace Hyperlane.MessageIdIsm

open Hyperlane.Bytes Hyperlane.ForeignCode Hyperlane.ForeignCode.Code LibBit
open Hyperlane.Mailbox (Address Bytes32 TypeCasts.bytes32ToAddress Message.recipientAddress calldata)

variable {c : Config} {hook : Bytes32} {native : Address → ℕ} {s s' s₀ : State} {id : Bytes32} {v : Uint256} {recipient : Address}
  {message : List UInt8}

/-! ## What is owed -/

def Event.deposit : Event → Option (Bytes32 × Uint256)
  | .ReceivedMessage _ messageId msgValue => some (messageId, msgValue)
  | _ => none

def Event.release : Event → Option (Bytes32 × Uint256)
  | .released messageId _ msgValue => some (messageId, msgValue)
  | _ => none

def deposits (s : State) : List (Bytes32 × Uint256) := s.history.filterMap Event.deposit

def releases (s : State) : List (Bytes32 × Uint256) := s.history.filterMap Event.release

/-- paid in for a message and not handed over -/
def owed (s : State) : List (Bytes32 × Uint256) := (deposits s).filter fun p => p ∉ releases s

def total (l : List (Bytes32 × Uint256)) : ℕ := (l.map fun p => p.2.toNat).sum

theorem total_append (l l' : List (Bytes32 × Uint256)) : total (l ++ l') = total l + total l' := by
  rw [total, List.map_append, List.sum_append]
  rfl

theorem total_singleton (p : Bytes32 × Uint256) : total [p] = p.2.toNat := List.sum_singleton

/-- the ether that an event brings an account -/
def Event.received (a : Address) : Event → ℕ
  | .released _ recipient msgValue => if recipient = a then msgValue.toNat else 0
  | .paid _ dst amount => if dst = a then amount else 0
  | _ => 0

/-- the ether that an event takes from an account -/
def Event.spent (c : Config) (a : Address) : Event → ℕ
  | .released _ _ msgValue => if c.ism = a then msgValue.toNat else 0
  | .paid src _ amount => if src = a then amount else 0
  | _ => 0

/-- every account has what it had, and what the record says that it received and spent -/
def Balanced (c : Config) (native : Address → ℕ) (s : State) : Prop :=
  ∀ a, s.native a + (s.history.map (Event.spent c a)).sum = native a + (s.history.map (Event.received a)).sum

theorem Balanced.concat (h : Balanced c native s) {e : Event} (hhistory : s'.history = s.history ++ [e])
    (hnative : ∀ a, s'.native a + e.spent c a = s.native a + e.received a) : Balanced c native s' := by
  intro a
  have hbefore := h a
  have hstep := hnative a
  rw [hhistory, List.map_append, List.map_append, List.sum_append, List.sum_append, List.map_singleton,
    List.map_singleton, List.sum_singleton, List.sum_singleton]
  omega

variable (c hook native s) in
structure Inv : Prop where
  initialized : s.initialized = true
  hook_kept : s.authorizedHook = hook
  authorized : ∀ call messageId msgValue, .ReceivedMessage call messageId msgValue ∈ s.history →
    isAuthorized c hook call = .ok true ∧ call.value = msgValue ∧ msgValue.toNat < 2 ^ VERIFIED_MASK_INDEX
  accepted_once : ((deposits s).map Prod.fst).Nodup
  released_once : ((releases s).map Prod.fst).Nodup
  released_deposit : ∀ p ∈ releases s, p ∈ deposits s
  to_recipient : ∀ messageId recipient msgValue, .released messageId recipient msgValue ∈ s.history →
    0 < msgValue ∧ ∃ message, c.keccak message = messageId ∧ Message.recipientAddress message = .ok recipient
  unknown : ∀ id, id ∉ (deposits s).map Prod.fst → s.verifiedMessages id = 0
  pending : ∀ p ∈ deposits s, p ∉ releases s → s.verifiedMessages p.1 = setBit p.2 VERIFIED_MASK_INDEX
  settled : ∀ p ∈ releases s, s.verifiedMessages p.1 = mark
  funded : total (deposits s) ≤ s.native c.ism + total (releases s)
  balanced : Balanced c native s

namespace Inv

theorem deposit_lt (hs : Inv c hook native s) {p : Bytes32 × Uint256} (hp : p ∈ deposits s) :
    p.2.toNat < 2 ^ VERIFIED_MASK_INDEX := by
  obtain ⟨e, he, hdeposit⟩ := List.mem_filterMap.1 hp
  cases e with
  | ReceivedMessage call messageId msgValue =>
    obtain rfl := Option.some.inj hdeposit
    exact (hs.authorized call messageId msgValue he).2.2
  | released messageId recipient msgValue => exact nomatch hdeposit
  | executeTransaction call => exact nomatch hdeposit
  | paid src dst amount => exact nomatch hdeposit

/-- what `_releaseValueToRecipient` finds for a message is what is owed for it -/
theorem found (hs : Inv c hook native s) (hpos : 0 < clearBit (s.verifiedMessages id) VERIFIED_MASK_INDEX)
    (hv : clearBit (s.verifiedMessages id) VERIFIED_MASK_INDEX = v) :
    (id, v) ∈ deposits s ∧ (id, v) ∉ releases s ∧ s.verifiedMessages id = setBit v VERIFIED_MASK_INDEX := by
  by_cases hid : id ∈ (deposits s).map Prod.fst
  · obtain ⟨⟨id', x⟩, hp, rfl⟩ := List.mem_map.1 hid
    by_cases hrel : (id', x) ∈ releases s
    · have hmark := hs.settled _ hrel
      dsimp only at hmark hpos
      rw [hmark, clearBit_mark] at hpos
      exact absurd hpos (BitVec.lt_irrefl 0)
    · have hset := hs.pending _ hp hrel
      dsimp only at hset hv ⊢
      rw [hset, clearBit_setBit (hs.deposit_lt hp)] at hv
      rw [← hv]
      exact ⟨hp, hrel, hset⟩
  · rw [hs.unknown id hid, clearBit_zero] at hpos
    exact absurd hpos (BitVec.lt_irrefl 0)

theorem owed_found (hs : Inv c hook native s) (h : (id, v) ∈ owed s) :
    s.verifiedMessages id = setBit v VERIFIED_MASK_INDEX ∧ clearBit (s.verifiedMessages id) VERIFIED_MASK_INDEX = v := by
  obtain ⟨hp, hrel⟩ := List.mem_filter.1 h
  have hset := hs.pending _ hp (of_decide_eq_true hrel)
  dsimp only at hset
  rw [hset]
  exact ⟨rfl, clearBit_setBit (hs.deposit_lt hp)⟩

/-- the mark of a message is set from the call of the hook on -/
theorem verified_iff (hs : Inv c hook native s) (id : Bytes32) :
    isBitSet (s.verifiedMessages id) VERIFIED_MASK_INDEX = true ↔ id ∈ (deposits s).map Prod.fst := by
  constructor
  · intro h
    by_contra hid
    rw [hs.unknown id hid, isBitSet_zero] at h
    cases h
  · intro hid
    obtain ⟨p, hp, rfl⟩ := List.mem_map.1 hid
    by_cases hrel : p ∈ releases s
    · rw [hs.settled p hrel]
      exact isBitSet_mark
    · rw [hs.pending p hp hrel]
      exact isBitSet_setBit p.2

/-- **The ISM has all the ether that it owes.** -/
theorem solvent (hs : Inv c hook native s) : total (owed s) ≤ s.native c.ism := by
  have hsplit : ((deposits s).filter fun p => p ∈ releases s).Perm (releases s) := by
    refine (List.perm_ext_iff_of_nodup (hs.accepted_once.of_map.filter _) hs.released_once.of_map).2 fun p => ?_
    rw [List.mem_filter, decide_eq_true_iff]
    exact ⟨And.right, fun hp => ⟨hs.released_deposit p hp, hp⟩⟩
  have hparts : total (deposits s) = total (releases s) + total (owed s) := by
    unfold owed
    have hperm := List.filter_append_perm (fun p => decide (p ∈ releases s)) (deposits s)
    have hsum : total (deposits s) =
        total ((deposits s).filter (fun p => p ∈ releases s) ++ (deposits s).filter (fun p => !decide (p ∈ releases s))) :=
      (hperm.map _).sum_eq.symm
    rw [hsum, total_append]
    have hreleases : total ((deposits s).filter fun p => p ∈ releases s) = total (releases s) := (hsplit.map _).sum_eq
    rw [hreleases]
    simp only [decide_not]
  have hfunded := hs.funded
  omega

theorem owed_le (hs : Inv c hook native s) (h : (id, v) ∈ owed s) : v.toNat ≤ s.native c.ism :=
  (List.single_le_sum (fun _ _ => Nat.zero_le _) _ (List.mem_map_of_mem h)).trans hs.solvent

end Inv

/-! ## Steps -/

theorem pay_native {src : Address} (dst : Address) {amount : ℕ} (hfunds : amount ≤ s.native src) (a : Address) :
    (s.pay src dst amount).native a + (if src = a then amount else 0) = s.native a + if dst = a then amount else 0 := by
  unfold State.pay
  dsimp only
  by_cases hsrc : src = a
  · subst hsrc
    by_cases hdst : dst = src
    · subst hdst
      rw [Function.update_self, Function.update_self, if_pos rfl]
      omega
    · rw [Function.update_of_ne (Ne.symm hdst), Function.update_self, if_pos rfl, if_neg hdst]
      omega
  · by_cases hdst : dst = a
    · subst hdst
      rw [Function.update_self, Function.update_of_ne (Ne.symm hsrc), if_neg hsrc, if_pos rfl,
        Nat.add_zero]
    · rw [Function.update_of_ne (Ne.symm hdst), Function.update_of_ne (Ne.symm hsrc), if_neg hsrc, if_neg hdst]

/-- an event that is neither, with which the ISM loses no ether -/
theorem Inv.note (hs : Inv c hook native s) {e : Event} (hdeposit : e.deposit = none) (hrelease : e.release = none)
    {balances : Address → ℕ} (hkeeps : s.native c.ism ≤ balances c.ism)
    (hmoved : ∀ a, balances a + e.spent c a = s.native a + e.received a) :
    Inv c hook native { s with native := balances, history := s.history ++ [e] } := by
  generalize hs₁ : ({ s with native := balances, history := s.history ++ [e] } : State) = s₁
  have hdeposits : deposits s₁ = deposits s := by simp [← hs₁, deposits, hdeposit]
  have hreleases : releases s₁ = releases s := by simp [← hs₁, releases, hrelease]
  have hverified : s₁.verifiedMessages = s.verifiedMessages := by rw [← hs₁]
  constructor
  case initialized =>
    rw [← hs₁]
    exact hs.initialized
  case hook_kept =>
    rw [← hs₁]
    exact hs.hook_kept
  case authorized =>
    intro call messageId msgValue he
    rw [← hs₁] at he
    rcases List.mem_append.1 he with he | he
    · exact hs.authorized call messageId msgValue he
    · obtain rfl := List.mem_singleton.1 he
      exact nomatch hdeposit
  case accepted_once =>
    rw [hdeposits]
    exact hs.accepted_once
  case released_once =>
    rw [hreleases]
    exact hs.released_once
  case released_deposit =>
    rw [hdeposits, hreleases]
    exact hs.released_deposit
  case to_recipient =>
    intro messageId recipient msgValue he
    rw [← hs₁] at he
    rcases List.mem_append.1 he with he | he
    · exact hs.to_recipient messageId recipient msgValue he
    · obtain rfl := List.mem_singleton.1 he
      exact nomatch hrelease
  case unknown =>
    rw [hdeposits, hverified]
    exact hs.unknown
  case pending =>
    rw [hdeposits, hreleases, hverified]
    exact hs.pending
  case settled =>
    rw [hreleases, hverified]
    exact hs.settled
  case funded =>
    rw [hdeposits, hreleases, ← hs₁]
    exact hs.funded.trans (Nat.add_le_add_right hkeeps _)
  case balanced =>
    rw [← hs₁]
    exact hs.balanced.concat rfl hmoved

/-- ether of others moves -/
theorem Inv.pay (hs : Inv c hook native s) {src dst : Address} {amount : ℕ} (h : src ≠ c.ism)
    (hfunds : amount ≤ s.native src) : Inv c hook native (s.receive src dst amount) := by
  have hmoved := pay_native dst hfunds
  refine hs.note rfl rfl ?_ hmoved
  have hism := hmoved c.ism
  rw [if_neg h] at hism
  omega

/-- **The hook pays in for a message** that it has not sent before. -/
theorem Inv.receive (hs : Inv c hook native s) {call : Call} (hauth : isAuthorized c hook call = .ok true)
    (hlt : call.value.toNat < 2 ^ VERIFIED_MASK_INDEX) (hvalue : call.value = v) (hnew : s.verifiedMessages id = 0)
    (hfunds : total (deposits s) + call.value.toNat ≤ s.native c.ism + total (releases s)) :
    Inv c hook native { s with
      verifiedMessages := Function.update s.verifiedMessages id (setBit call.value VERIFIED_MASK_INDEX)
      history := s.history ++ [.ReceivedMessage call id v] } := by
  subst hvalue
  have hid : id ∉ (deposits s).map Prod.fst := by
    intro hmem
    have hset := (hs.verified_iff id).2 hmem
    rw [hnew, isBitSet_zero] at hset
    cases hset
  have hne : ∀ p ∈ deposits s, p.1 ≠ id := fun p hp heq => hid (heq ▸ List.mem_map_of_mem hp)
  generalize hs₁ : ({ s with
      verifiedMessages := Function.update s.verifiedMessages id (setBit call.value VERIFIED_MASK_INDEX)
      history := s.history ++ [.ReceivedMessage call id call.value] } : State) = s₁
  have hdeposits : deposits s₁ = deposits s ++ [(id, call.value)] := by simp [← hs₁, deposits, Event.deposit]
  have hreleases : releases s₁ = releases s := by simp [← hs₁, releases, Event.release]
  have hother : ∀ x, x ≠ id → s₁.verifiedMessages x = s.verifiedMessages x := by
    intro x hx
    rw [← hs₁]
    exact Function.update_of_ne hx _ _
  constructor
  case initialized =>
    rw [← hs₁]
    exact hs.initialized
  case hook_kept =>
    rw [← hs₁]
    exact hs.hook_kept
  case authorized =>
    intro call' messageId msgValue he
    rw [← hs₁] at he
    rcases List.mem_append.1 he with he | he
    · exact hs.authorized call' messageId msgValue he
    · obtain ⟨rfl, rfl, rfl⟩ := Event.ReceivedMessage.inj (List.mem_singleton.1 he)
      exact ⟨hauth, rfl, hlt⟩
  case accepted_once =>
    rw [hdeposits, List.map_append, List.map_singleton]
    refine hs.accepted_once.append (List.nodup_singleton _) ?_
    rw [List.disjoint_singleton]
    exact hid
  case released_once =>
    rw [hreleases]
    exact hs.released_once
  case released_deposit =>
    intro p hp
    rw [hreleases] at hp
    rw [hdeposits]
    exact List.mem_append_left _ (hs.released_deposit p hp)
  case to_recipient =>
    intro messageId recipient msgValue he
    rw [← hs₁] at he
    exact hs.to_recipient messageId recipient msgValue (by simpa using he)
  case unknown =>
    intro x hx
    rw [hdeposits, List.map_append, List.mem_append, not_or] at hx
    rw [hother x fun heq => hx.2 (List.mem_singleton.2 heq)]
    exact hs.unknown x hx.1
  case pending =>
    intro p hp hrel
    rw [hreleases] at hrel
    rw [hdeposits] at hp
    rcases List.mem_append.1 hp with hp | hp
    · rw [hother p.1 (hne p hp)]
      exact hs.pending p hp hrel
    · obtain rfl := List.mem_singleton.1 hp
      rw [← hs₁]
      exact Function.update_self _ _ _
  case settled =>
    intro p hp
    rw [hreleases] at hp
    rw [hother p.1 (hne p (hs.released_deposit p hp))]
    exact hs.settled p hp
  case funded =>
    rw [hdeposits, hreleases, total_append, total_singleton, ← hs₁]
    exact hfunds
  case balanced =>
    rw [← hs₁]
    exact hs.balanced.concat rfl fun a => rfl

/-- the state in which the recipient is called -/
def handOver (c : Config) (s : State) (id : Bytes32) (recipient : Address) (v : Uint256) : State :=
  let s₁ : State := { s with verifiedMessages := Function.update s.verifiedMessages id (s.verifiedMessages id - v) }
  { s₁.pay c.ism recipient v.toNat with history := s.history ++ [.released id recipient v] }

/-- **What is owed is handed over** and no longer owed when the recipient's code starts. -/
theorem Inv.release (hs : Inv c hook native s) (hid : c.keccak message = id)
    (hrecipient : Message.recipientAddress message = .ok recipient) (hother : recipient ≠ c.ism)
    (hpos : 0 < clearBit (s.verifiedMessages id) VERIFIED_MASK_INDEX)
    (hv : clearBit (s.verifiedMessages id) VERIFIED_MASK_INDEX = v) (hfunds : v.toNat ≤ s.native c.ism) :
    Inv c hook native (handOver c s id recipient v) := by
  obtain ⟨hp, hrel, hset⟩ := hs.found hpos hv
  have hmark : s.verifiedMessages id - v = mark := by
    rw [hset]
    exact setBit_sub (hs.deposit_lt hp)
  have hunique : ∀ p ∈ deposits s, p.1 = id → p = (id, v) := fun p hp' heq =>
    List.inj_on_of_nodup_map hs.accepted_once hp' hp heq
  generalize hs₁ : handOver c s id recipient v = s₁
  have hdeposits : deposits s₁ = deposits s := by simp [← hs₁, handOver, deposits, Event.deposit]
  have hreleases : releases s₁ = releases s ++ [(id, v)] := by simp [← hs₁, handOver, releases, Event.release]
  have hself : s₁.verifiedMessages id = mark := by
    rw [← hs₁]
    exact (Function.update_self _ _ _).trans hmark
  have hrest : ∀ x, x ≠ id → s₁.verifiedMessages x = s.verifiedMessages x := by
    intro x hx
    rw [← hs₁]
    exact Function.update_of_ne hx _ _
  constructor
  case initialized =>
    rw [← hs₁]
    exact hs.initialized
  case hook_kept =>
    rw [← hs₁]
    exact hs.hook_kept
  case authorized =>
    intro call messageId msgValue he
    rw [← hs₁] at he
    exact hs.authorized call messageId msgValue (by simpa [handOver] using he)
  case accepted_once =>
    rw [hdeposits]
    exact hs.accepted_once
  case released_once =>
    rw [hreleases, List.map_append, List.map_singleton]
    refine hs.released_once.append (List.nodup_singleton _) ?_
    rw [List.disjoint_singleton]
    intro hmem
    obtain ⟨p, hp', heq⟩ := List.mem_map.1 hmem
    exact hrel (hunique p (hs.released_deposit p hp') heq ▸ hp')
  case released_deposit =>
    intro p hp'
    rw [hreleases] at hp'
    rw [hdeposits]
    rcases List.mem_append.1 hp' with hp' | hp'
    · exact hs.released_deposit p hp'
    · exact List.mem_singleton.1 hp' ▸ hp
  case to_recipient =>
    intro messageId recipient' msgValue he
    rw [← hs₁] at he
    rcases List.mem_append.1 he with he | he
    · exact hs.to_recipient messageId recipient' msgValue he
    · obtain ⟨rfl, rfl, rfl⟩ := Event.released.inj (List.mem_singleton.1 he)
      exact ⟨hv ▸ hpos, message, hid, hrecipient⟩
  case unknown =>
    intro x hx
    rw [hdeposits] at hx
    rw [hrest x fun heq => hx (heq ▸ List.mem_map_of_mem hp)]
    exact hs.unknown x hx
  case pending =>
    intro p hp' hrel'
    rw [hdeposits] at hp'
    rw [hreleases, List.mem_append, not_or] at hrel'
    rw [hrest p.1 fun heq => hrel'.2 (List.mem_singleton.2 (hunique p hp' heq))]
    exact hs.pending p hp' hrel'.1
  case settled =>
    intro p hp'
    rw [hreleases] at hp'
    rcases List.mem_append.1 hp' with hp' | hp'
    · by_cases heq : p.1 = id
      · rw [heq]
        exact hself
      · rw [hrest p.1 heq]
        exact hs.settled p hp'
    · obtain rfl := List.mem_singleton.1 hp'
      exact hself
  case funded =>
    have hnative : s₁.native c.ism = s.native c.ism - v.toNat := by
      rw [← hs₁]
      unfold handOver State.pay
      dsimp only
      rw [Function.update_of_ne hother.symm, Function.update_self]
    have hfunded := hs.funded
    rw [hdeposits, hreleases, total_append, total_singleton, hnative]
    dsimp only
    omega
  case balanced =>
    rw [← hs₁]
    exact hs.balanced.concat rfl (pay_native recipient hfunds)

/-! ## Entry points -/

variable (c hook native s s') in
/-- what happened stays in the record -/
structure After : Prop where
  grows : s.history <+: s'.history
  inv : Inv c hook native s'

theorem After.refl (hs : Inv c hook native s) : After c hook native s s := ⟨List.prefix_rfl, hs⟩

theorem After.trans {s₁ : State} (h : After c hook native s₀ s₁) (h' : After c hook native s₁ s) : After c hook native s₀ s :=
  ⟨h.grows.trans h'.grows, h'.inv⟩

variable (c hook native) in
/-- what foreign code may do -/
def Step (s s' : State) : Prop := Inv c hook native s → After c hook native s s'

theorem Step.refl (s : State) : Step c hook native s s := After.refl

theorem Step.trans {a b d : State} (h : Step c hook native a b) (h' : Step c hook native b d) : Step c hook native a d :=
  fun ha => (h ha).trans (h' (h ha).inv)

theorem releaseValueToRecipient_ensures (hs : Inv c hook native s) (message : List UInt8) :
    (releaseValueToRecipient c message).Ensures (Step c hook native) (fun _ => After c hook native s) s := by
  refine ensures_read_bind (ensures_ite (fun hpos => ?_) fun _ => After.refl hs)
  refine ensures_require_bind fun _ => ensures_write_bind (ensures_lift_bind fun recipient hrecipient => ?_)
  refine ensures_read_bind (ensures_require_bind fun hfunds => ensures_require_bind fun hother => ?_)
  refine ensures_tryCall_bind (fun s' r hstep => ?_) fun e => trivial
  have hafter := hstep (hs.release rfl hrecipient hother hpos rfl hfunds)
  exact ⟨(List.prefix_append _ _).trans hafter.grows, hafter.inv⟩

theorem verifyPreVerified_ensures (hs : Inv c hook native s) (message : List UInt8) :
    (verifyPreVerified c message).Ensures (Step c hook native) (fun _ => After c hook native s) s := by
  refine ensures_read_bind (ensures_ite (fun _ => ?_) fun _ => After.refl hs)
  exact (releaseValueToRecipient_ensures hs message).bind fun _ _ h => h

theorem verifyWithOutboxCall_ensures (hs : Inv c hook native s) (metadata : Option OutboxCall) (message : List UInt8) :
    (verifyWithOutboxCall c metadata message).Ensures (Step c hook native) (fun _ => After c hook native s) s := by
  refine ensures_lift_bind fun outboxCall _ => ensures_read_bind (ensures_lift_bind fun _ _ => ?_)
  refine ensures_require_bind fun _ => ensures_require_bind fun _ => ensures_require_bind fun _ => ?_
  refine ⟨fun s' r hstep => ?_, fun _ => trivial⟩
  have hafter := hstep (hs.note (e := .executeTransaction outboxCall) rfl rfl le_rfl fun a => rfl)
  exact ⟨(List.prefix_append _ _).trans hafter.grows, hafter.inv⟩

theorem arbVerify_ensures (hs : Inv c hook native s) (metadata : Option OutboxCall) (message : List UInt8) :
    (ArbL2ToL1Ism.verify c metadata message).Ensures (Step c hook native) (fun _ => After c hook native s) s := by
  refine ensures_read_bind (ensures_ite (fun _ => ?_) fun _ => ?_)
  · exact (releaseValueToRecipient_ensures hs message).bind fun _ _ h => h
  · refine (verifyWithOutboxCall_ensures hs metadata message).bind fun _ s₁ h => ?_
    refine ensures_read_bind (ensures_require_bind fun _ => ?_)
    exact (releaseValueToRecipient_ensures h.inv message).bind fun _ _ h' => h.trans h'

theorem verify_ensures (hs : Inv c hook native s) (metadata : Option OutboxCall) (message : List UInt8) :
    (verify c metadata message).Ensures (Step c hook native) (fun _ => After c hook native s) s := by
  unfold verify
  split
  · exact arbVerify_ensures hs metadata message
  · exact verifyPreVerified_ensures hs message

theorem preVerifyMessage_ensures (hs : Inv c hook native s) (call : Call) (messageId : Bytes32) (msgValue : Uint256)
    (hfunds : total (deposits s) + call.value.toNat ≤ s.native c.ism + total (releases s)) :
    (preVerifyMessage c call messageId msgValue).Ensures (Step c hook native) (fun _ => After c hook native s) s := by
  refine ensures_read_bind (ensures_lift_bind fun authorized hauth => ensures_require_bind fun htrue => ?_)
  refine ensures_require_bind fun hvalue => ensures_require_bind fun hnew => ensures_write ?_
  rw [id_eq, hs.hook_kept, htrue] at hauth
  exact ⟨List.prefix_append _ _, hs.receive hauth hvalue.1 hvalue.2 hnew hfunds⟩

/-- every entry point, whatever the foreign code that it calls does -/
theorem body_ensures (hs : Inv c hook native s) (op : Op c) :
    (body c op).Ensures (Step c hook native) (fun _ => After c hook native s) s := by
  cases op with
  | setAuthorizedHook newHook =>
    refine Ensures.bind (Q := fun _ => After c hook native s) ?_ fun _ _ h => h
    refine ensures_read_bind (ensures_require_bind fun hfalse => ?_)
    rw [id_eq, hs.initialized] at hfalse
    cases hfalse
  | preVerifyMessage sender value crossChainSender messageId msgValue =>
    refine Ensures.bind (Q := fun _ s₁ => value.toNat ≤ s.native sender ∧ s₁ = s.receive sender c.ism value.toNat) ?_ ?_
    · exact ensures_read_bind (ensures_require_bind fun hfunds => ensures_write ⟨hfunds, rfl⟩)
    · rintro u s₁ ⟨hpaid, rfl⟩
      have hnative : (s.receive sender c.ism value.toNat).native c.ism = s.native c.ism + value.toNat := by
        have hmoved := pay_native c.ism hpaid c.ism
        rw [if_neg sender.2, if_pos rfl] at hmoved
        exact hmoved
      have hdeposits : deposits (s.receive sender c.ism value.toNat) = deposits s := by
        simp [deposits, State.receive, Event.deposit]
      have hreleases : releases (s.receive sender c.ism value.toNat) = releases s := by
        simp [releases, State.receive, Event.release]
      have hfunded := hs.funded
      refine (preVerifyMessage_ensures (hs.pay sender.2 hpaid) _ messageId msgValue ?_).bind fun _ _ h => ?_
      · rw [hdeposits, hreleases, hnative]
        dsimp only
        omega
      · exact ⟨(List.prefix_append _ _).trans h.grows, h.inv⟩
  | ccipReceive sender any2EvmMessage =>
    refine Ensures.bind (Q := fun _ => After c hook native s) ?_ fun _ _ h => h
    unfold ccipReceive
    split
    · refine ensures_require_bind fun _ => ensures_require_bind fun _ => ensures_lift_bind fun _ _ => ?_
      refine ensures_read_bind (ensures_require_bind fun _ => ensures_lift_bind fun messageId _ => ?_)
      exact preVerifyMessage_ensures hs _ messageId 0 hs.funded
    · trivial
  | verify metadata message => exact verify_ensures hs metadata message
  | pay src dst amount =>
    refine ensures_read_bind (ensures_require_bind fun hfunds => ensures_write_bind ?_)
    exact ⟨List.prefix_append _ _, hs.pay src.2 hfunds⟩

theorem body_steps (op : Op c) (s : State) : (body c op).Ensures (Step c hook native) (fun _ => Step c hook native s) s := by
  by_cases hs : Inv c hook native s
  · exact (body_ensures hs op).mono fun _ _ h _ => h
  · exact ensures_of_forall fun _ _ h => absurd h hs

/-! ## Whole runs -/

theorem deployed_inv (c : Config) (hook : Bytes32) (native : Address → ℕ) : Inv c hook native (deployed hook native) := by
  refine ⟨rfl, rfl, ?_, List.nodup_nil, List.nodup_nil, ?_, ?_, fun _ _ => rfl, ?_, ?_, Nat.zero_le _, fun _ => rfl⟩
  · intro call messageId msgValue he
    exact absurd he List.not_mem_nil
  · intro p hp
    exact absurd hp List.not_mem_nil
  · intro messageId recipient msgValue he
    exact absurd he List.not_mem_nil
  · intro p hp
    exact absurd hp List.not_mem_nil
  · intro p hp
    exact absurd hp List.not_mem_nil

abbrev Transactions (c : Config) : Type := List (Unit × Frame (Op c) Unit String)

theorem run_after (hs : Inv c hook native s) (txs : Transactions c) : After c hook native s (run (fun _ => body c) s txs) :=
  run_guarantee Step.refl Step.trans txs (fun _ _ => body_steps) s hs

/-- **Each deposit leaves once.** After every run from a deployed ISM, whatever foreign code does: the bridge named the
hook as the sender of everything that was accepted; no id was accepted twice, and those that were are the verified ones;
no id was paid out twice, and what was paid out is what came in for the id, to the recipient that a message of this id
names, whose balance shows it; and the ISM has the ether for everything it still owes. -/
theorem each_deposit_once (c : Config) (hook : Bytes32) (native : Address → ℕ) (txs : Transactions c) :
    let s := run (fun _ => body c) (deployed hook native) txs
    (∀ call messageId msgValue, .ReceivedMessage call messageId msgValue ∈ s.history →
      isAuthorized c hook call = .ok true ∧ call.value = msgValue) ∧
    ((deposits s).map Prod.fst).Nodup ∧
    (∀ message, s.isVerified c message = true ↔ c.keccak message ∈ (deposits s).map Prod.fst) ∧
    ((releases s).map Prod.fst).Nodup ∧
    (∀ messageId recipient msgValue, .released messageId recipient msgValue ∈ s.history →
      (messageId, msgValue) ∈ deposits s ∧ 0 < msgValue ∧
        ∃ message, c.keccak message = messageId ∧ Message.recipientAddress message = .ok recipient) ∧
    (∀ a, s.native a + (s.history.map (Event.spent c a)).sum = native a + (s.history.map (Event.received a)).sum) ∧
    total (owed s) ≤ s.native c.ism := by
  intro s
  have hs : Inv c hook native s := (run_after (deployed_inv c hook native) txs).inv
  refine ⟨?_, hs.accepted_once, fun message => hs.verified_iff _, hs.released_once, ?_, hs.balanced, hs.solvent⟩
  · intro call messageId msgValue he
    obtain ⟨hauth, hvalue, -⟩ := hs.authorized call messageId msgValue he
    exact ⟨hauth, hvalue⟩
  · intro messageId recipient msgValue he
    refine ⟨hs.released_deposit _ (List.mem_filterMap.2 ⟨_, he, rfl⟩), ?_⟩
    exact hs.to_recipient messageId recipient msgValue he

/-! ## Payment -/

/-- `verify` of a message for which something is owed calls the recipient, and returns true if that returns -/
theorem verify_advance (hs : Inv c hook native s) (metadata : Option OutboxCall)
    (hrecipient : Message.recipientAddress message = .ok recipient) (hother : recipient ≠ c.ism)
    (howed : (c.keccak message, v) ∈ owed s) (hpos : 0 < v) :
    ∃ before next, (verify c metadata message).advance s =
        .calling before (handOver c s (c.keccak message) recipient v) next ∧
      ∀ r, next (.ok r) = .done true := by
  obtain ⟨hset, hv⟩ := hs.owed_found howed
  have hverified : s.isVerified c message = true := by
    unfold State.isVerified
    rw [hset]
    exact isBitSet_setBit v
  have hle : v ≤ s.verifiedMessages (c.keccak message) := by
    rw [hset]
    exact le_setBit v
  have hfunds := hs.owed_le howed
  have hrelease : ∃ before next, (releaseValueToRecipient c message >>= fun _ => (pure true : Program Bool)).advance s =
        .calling before (handOver c s (c.keccak message) recipient v) next ∧ ∀ r, next (.ok r) = .done true := by
    unfold releaseValueToRecipient sendValue
    simp only [bind_bind, advance_read, id_eq, hv]
    rw [if_pos hpos]
    simp only [bind_bind]
    rw [advance_require hle, advance_write, advance_lift hrecipient, advance_read, id_eq]
    rw [advance_require hfunds, advance_require hother, advance_tryCall]
    exact ⟨_, _, rfl, fun _ => rfl⟩
  unfold verify
  split
  · unfold ArbL2ToL1Ism.verify
    rw [advance_read, if_pos hverified]
    exact hrelease
  · unfold verifyPreVerified
    rw [advance_read, if_pos hverified]
    exact hrelease

/-- **A recipient that takes the ether gets it.** In every reached state: if something is owed for a message and the code
of the recipient that the message names returns when it is called with the ether, whatever else that code does, then
`verify` returns true, whatever the metadata is, and the recipient has been paid what came in for the message. -/
theorem verify_pays (native : Address → ℕ) (txs : Transactions c) (metadata : Option OutboxCall)
    (hrecipient : Message.recipientAddress message = .ok recipient) (hother : recipient ≠ c.ism)
    (howed : (c.keccak message, v) ∈ owed (run (fun _ => body c) (deployed hook native) txs)) (hpos : 0 < v)
    {frame : Frame (Op c) Unit String} {r : Unit}
    (haccepts : frame.exec (body c)
      (handOver c (run (fun _ => body c) (deployed hook native) txs) (c.keccak message) recipient v) = .ok (r, s')) :
    runCode (body c) [frame] (verify c metadata message) (run (fun _ => body c) (deployed hook native) txs) =
        .ok (true, s') ∧
      .released (c.keccak message) recipient v ∈ s'.history := by
  have hs : Inv c hook native (run (fun _ => body c) (deployed hook native) txs) :=
    (run_after (deployed_inv c hook native) txs).inv
  generalize run (fun _ => body c) (deployed hook native) txs = s at hs howed haccepts ⊢
  obtain ⟨before, next, hadvance, hnext⟩ := verify_advance hs metadata hrecipient hother howed hpos
  constructor
  · simp only [runCode, hadvance, haccepts, hnext, Code.advance]
  · obtain ⟨hset, hv⟩ := hs.owed_found howed
    have hentered := hs.release rfl hrecipient hother (hv.symm ▸ hpos) hv (hs.owed_le howed)
    have hafter := Frame.exec_guarantee Step.refl Step.trans body_steps frame haccepts hentered
    exact hafter.grows.subset (List.mem_append_right _ (List.mem_singleton_self _))

/-- an OP stack ISM at address 1 -/
def opStack : Config := ⟨Word.filled 20 1, .OPStackIsm, fun _ => Word.filled 32 7⟩

/-- a message for address 2 -/
def forTwo : List UInt8 := List.replicate 57 0 ++ List.replicate 20 2

/-- the messenger brings 9 wei of the hook, which has address 3 -/
def paidIn : Transactions opStack :=
  [((), .call (.preVerifyMessage ⟨Word.filled 20 4, by decide⟩ 9 (some (Word.filled 20 3)) (Word.filled 32 7) 9) []
    (.ret ()))]

/-- the recipient asks for the ether once more when it is called -/
theorem verify_pays_greedy :
    ∃ s', runCode (body opStack) [.call (.verify none forTwo) [] (.ret ())] (verify opStack none forTwo)
        (run (fun _ => body opStack)
          (deployed (Mailbox.TypeCasts.addressToBytes32 (Word.filled 20 3)) fun _ => 10) paidIn) = .ok (true, s') ∧
      .released (opStack.keccak forTwo) (Word.filled 20 2) 9 ∈ s'.history :=
  ⟨_, verify_pays (v := 9) _ paidIn none (by decide +kernel) (by decide) (by decide +kernel) (by decide) rfl⟩

end Hyperlane.MessageIdIsm
