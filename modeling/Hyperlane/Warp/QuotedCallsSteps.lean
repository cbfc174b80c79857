/-
The router's programs, step by step.

A relation that holds for each kind of step (`Includes`) holds for a whole command; only the transfers to and from the
sender are left to their own lemmas.

- `steps_dispatchTransferRemote` and the lemmas around it: the commands.
- `salts_scoped`: over every run, each salt that the router hands out belongs to the caller.
-/
import Hyperlane.Core.Outcome
import Hyperlane.Warp.QuotedCalls

namespace Hyperlane.QuotedCalls

open Hyperlane.ForeignCode Hyperlane.ForeignCode.Code Hyperlane.Tokens Hyperlane.Outcome
open Hyperlane.Mailbox (Address Bytes32)

variable {P α : Type} {c : Config P}

/-- a salt belongs to the caller -/
def Scoped (c : Config P) (x : Address × Outgoing) : Prop :=
  ∀ salt, x.2.salt = some salt → ∃ clientSalt, salt = scopeSalt c x.1 clientSalt

theorem scoped_none {x : Address × Outgoing} (h : x.2.salt = none) : Scoped c x := by
  intro salt hsalt
  rw [h] at hsalt
  cases hsalt

/-- the steps that commands make -/
structure Includes (c : Config P) (J : World P → World P → Prop) : Prop where
  refl : ∀ s, J s s
  pay : ∀ {src dst amount s s'}, pay src dst amount s = .ok s' → J s s'
  approve : ∀ {token spender amount s s'},
    onToken token (fun l => .ok (l.approve c.self spender amount)) s = .ok s' → J s s'
  outgoing : ∀ {x s}, Scoped c x → J s { s with outgoing := s.outgoing ++ [x] }
  permit : ∀ now owner permitSingle signature s, J s (permit c now owner permitSingle signature s)

section Programs

variable {J : World P → World P → Prop} (hJ : Includes c J)

include hJ

theorem steps_safeCall : (safeCall : Program P Unit).Steps J :=
  (steps_callOut hJ.refl).bind fun _ => steps_require

theorem steps_balanceOf (token : Address) : (balanceOf c token).Steps J := by
  refine steps_ite (fun _ => steps_read hJ.refl) fun _ => ?_
  exact (steps_callOut hJ.refl).bind fun _ => steps_lift

theorem steps_resolveAmount (token : Address) (amount : ℕ) : (resolveAmount c token amount).Steps J := by
  refine steps_ite (fun _ => steps_pure) fun _ => ?_
  exact steps_ite (fun _ => steps_read hJ.refl) fun _ => steps_balanceOf hJ token

theorem steps_approve (token spender : Address) (amount : ℕ) : (approve c token spender amount).Steps J := by
  refine steps_ite (fun _ => ?_) fun _ => steps_pure
  refine steps_ite (fun _ => ?_) fun _ => ?_
  · exact steps_update hJ.refl fun s s' h => hJ.approve h
  · refine (steps_tryCall hJ.refl).bind fun answer => ?_
    rcases answer with e | answer
    · exact (steps_safeCall hJ).bind fun _ => steps_safeCall hJ
    · refine steps_ite (fun _ => steps_pure) fun _ => ?_
      exact (steps_safeCall hJ).bind fun _ => steps_safeCall hJ

theorem steps_approveFromHead (spender token : Address) (approval : ℕ) :
    (approveFromHead c spender token approval).Steps J :=
  (steps_resolveAmount hJ token approval).bind fun amount => steps_approve hJ token spender amount

theorem steps_callRoute {sender : Address} {x : Outgoing} (hx : Scoped c (sender, x)) (target : Address) (value : ℕ) :
    (callRoute c sender target value x).Steps J := by
  refine steps_require.bind fun _ => ?_
  refine (steps_update hJ.refl fun s s' h => hJ.pay h).bind fun _ => ?_
  exact steps_callOut fun s => hJ.outgoing hx

theorem steps_submitQuote (sender : Address) (input : Input) : (submitQuote c sender input).Steps J := by
  refine steps_lift.bind ?_
  rintro ⟨quoter, quote, signature, clientSalt⟩
  refine steps_require_bind fun hsalt => ?_
  refine (steps_callRoute hJ ?_ _ _).bind fun _ => steps_pure
  intro salt h
  exact ⟨clientSalt, (Option.some.inj h).symm.trans hsalt⟩

theorem steps_dispatchTransferRemote (sender : Address) (input : Input) :
    (dispatchTransferRemote c sender input).Steps J := by
  refine steps_lift.bind fun p => ?_
  refine (steps_resolveAmount hJ _ _).bind fun amount => ?_
  refine (steps_resolveAmount hJ _ _).bind fun value => ?_
  refine (steps_resolveAmount hJ _ _).bind fun approval => ?_
  refine (steps_approve hJ _ _ _).bind fun _ => ?_
  exact (steps_callRoute hJ (scoped_none rfl) _ _).bind fun _ => steps_pure

theorem steps_dispatchTransferRemoteTo (sender : Address) (input : Input) :
    (dispatchTransferRemoteTo c sender input).Steps J := by
  refine steps_lift.bind fun p => ?_
  refine (steps_resolveAmount hJ _ _).bind fun amount => ?_
  refine (steps_resolveAmount hJ _ _).bind fun value => ?_
  refine (steps_resolveAmount hJ _ _).bind fun approval => ?_
  refine (steps_approve hJ _ _ _).bind fun _ => ?_
  exact (steps_callRoute hJ (scoped_none rfl) _ _).bind fun _ => steps_pure

theorem steps_dispatchCallRemoteWithOverrides (sender : Address) (input : Input) :
    (dispatchCallRemoteWithOverrides c sender input).Steps J := by
  refine steps_lift.bind fun p => ?_
  refine (steps_approveFromHead hJ _ _ _).bind fun _ => ?_
  refine (steps_resolveAmount hJ _ _).bind fun value => ?_
  refine (steps_callRoute hJ ?_ _ _).bind fun _ => steps_pure
  exact fun salt h => ⟨p.userSalt, (Option.some.inj h).symm⟩

theorem steps_dispatchCallRemoteCommitReveal (sender : Address) (input : Input) :
    (dispatchCallRemoteCommitReveal c sender input).Steps J := by
  refine steps_lift.bind fun p => ?_
  refine (steps_approveFromHead hJ _ _ _).bind fun _ => ?_
  refine (steps_resolveAmount hJ _ _).bind fun value => ?_
  refine (steps_callRoute hJ ?_ _ _).bind fun _ => steps_pure
  exact fun salt h => ⟨p.salt, (Option.some.inj h).symm⟩

theorem steps_permit (now : ℕ) (owner : Address) (permitSingle : PermitSingle) (signature : List UInt8) :
    (write (permit c now owner permitSingle signature) : Program P Unit).Steps J := by
  exact steps_write fun s => hJ.permit now owner permitSingle signature s

theorem steps_sweepEth (sender : Address) : (sweepEth c sender).Steps J := by
  refine (steps_read hJ.refl).bind fun ethBalance => ?_
  refine steps_ite (fun _ => ?_) fun _ => steps_pure
  refine (steps_update hJ.refl fun s s' h => hJ.pay h).bind fun _ => ?_
  exact (steps_callOut hJ.refl).bind fun _ => steps_pure

theorem steps_viewRoute (target : Address) : (viewRoute c target).Steps J :=
  steps_require.bind fun _ => steps_callOut hJ.refl

theorem steps_quoteIcaGasPayment (icaRouter token : Address) : (quoteIcaGasPayment c icaRouter token).Steps J := by
  refine (steps_viewRoute hJ icaRouter).bind fun answer => ?_
  exact steps_lift.bind fun _ => steps_pure

theorem steps_dispatchQuote (sender : Address) (command : UInt8) (input : Input) :
    (dispatchQuote c sender command input).Steps J := by
  unfold dispatchQuote
  refine steps_ite (fun _ => ?_) fun _ => steps_ite (fun _ => ?_) fun _ => steps_ite (fun _ => ?_) fun _ =>
    steps_ite (fun _ => ?_) fun _ => steps_ite (fun _ => ?_) fun _ => steps_ite (fun _ => steps_revert) fun _ => steps_pure
  · exact (steps_submitQuote hJ sender input).bind fun _ => steps_pure
  · refine steps_lift.bind fun p => ?_
    exact (steps_viewRoute hJ p.warpRoute).bind fun _ => steps_lift
  · refine steps_lift.bind fun p => ?_
    exact (steps_viewRoute hJ p.router).bind fun _ => steps_lift
  · refine steps_lift.bind fun p => ?_
    exact steps_quoteIcaGasPayment hJ p.icaRouter p.token
  · refine steps_lift.bind fun p => ?_
    exact steps_quoteIcaGasPayment hJ p.icaRouter p.token

theorem steps_quoteAll (sender : Address) (commands : List (UInt8 × Input)) : (quoteAll c sender commands).Steps J := by
  induction commands with
  | nil => exact steps_pure
  | cons x rest ih =>
    refine (steps_dispatchQuote hJ sender x.1 x.2).bind fun quotes => ?_
    exact ih.bind fun _ => steps_pure

end Programs

/-! ## Salts -/

section Salts

def Scopes (c : Config P) (s s' : World P) : Prop := (∀ x ∈ s.outgoing, Scoped c x) → ∀ x ∈ s'.outgoing, Scoped c x

theorem scopes_refl (s : World P) : Scopes c s s := id

theorem scopes_of_same {s s' : World P} (h : s'.outgoing = s.outgoing) : Scopes c s s' := by
  unfold Scopes
  rw [h]
  exact id

theorem outgoing_pay {src dst : Address} {amount : ℕ} {s s' : World P} (h : pay src dst amount s = .ok s') :
    s'.outgoing = s.outgoing := by
  unfold pay at h
  split_ifs at h
  cases h
  rfl

theorem outgoing_onToken {token : Address} {f : Ledger Address → Except Reason (Ledger Address)} {s s' : World P}
    (h : onToken token f s = .ok s') : s'.outgoing = s.outgoing := by
  unfold onToken at h
  split at h
  · cases h
    rfl
  · cases h

theorem outgoing_transferFrom {token spender src dst : Address} {amount : ℕ} {s s' : World P}
    (h : tokenTransferFrom c token spender src dst amount s = .ok s') : s'.outgoing = s.outgoing := by
  obtain ⟨s₁, hon, hs'⟩ := bind_eq_ok.1 h
  obtain rfl := Except.ok.inj hs'
  have hsame := outgoing_onToken hon
  exact hsame

theorem outgoing_permit (now : ℕ) (owner : Address) (permitSingle : PermitSingle) (signature : List UInt8) (s : World P) :
    (permit c now owner permitSingle signature s).outgoing = s.outgoing := by
  unfold permit
  split
  · rfl
  · rfl

theorem includes_scopes : Includes c (Scopes c) where
  refl := scopes_refl
  pay h := scopes_of_same (outgoing_pay h)
  approve h := scopes_of_same (outgoing_onToken h)
  permit now owner permitSingle signature s := scopes_of_same (outgoing_permit now owner permitSingle signature s)
  outgoing := by
    intro x s hx h y hy
    rcases List.mem_append.1 hy with hy | hy
    · exact h y hy
    · rw [List.mem_singleton.1 hy]
      exact hx

theorem scopes_update {f : World P → Except Error (World P)} (h : ∀ s s', f s = .ok s' → s'.outgoing = s.outgoing) :
    (update f : Program P Unit).Steps (Scopes c) :=
  steps_update scopes_refl fun s s' hf => scopes_of_same (h s s' hf)

theorem scopes_permit2TransferFrom (now : ℕ) (spender owner dst : Address) (amount : ℕ) (token : Address) :
    (permit2TransferFrom c now spender owner dst amount token).Steps (Scopes c) := by
  refine (scopes_update fun s s' h => ?_).bind fun _ => ?_
  · split at h
    · cases h
      rfl
    · cases h
  · exact steps_ite (fun _ => scopes_update fun s s' h => outgoing_transferFrom h) fun _ => steps_safeCall includes_scopes

theorem scopes_sweep (sender : Address) (input : Input) : (sweep c sender input).Steps (Scopes c) := by
  refine steps_lift.bind fun token => ?_
  dsimp only
  refine steps_ite (fun _ => Steps.bind ?_ fun _ => steps_sweepEth includes_scopes sender) fun _ =>
    steps_sweepEth includes_scopes sender
  refine (steps_balanceOf includes_scopes token).bind fun balance => ?_
  refine steps_ite (fun _ => ?_) fun _ => steps_pure
  exact steps_ite (fun _ => scopes_update fun s s' h => outgoing_onToken h) fun _ => steps_safeCall includes_scopes

theorem scopes_dispatch (now : ℕ) (sender : Address) (command : UInt8) (input : Input) :
    (dispatch c now sender command input).Steps (Scopes c) := by
  have hJ := includes_scopes (c := c)
  unfold dispatch
  refine steps_ite (fun _ => ?_) fun _ => steps_ite (fun _ => ?_) fun _ => steps_ite (fun _ => ?_) fun _ =>
    steps_ite (fun _ => ?_) fun _ => steps_ite (fun _ => ?_) fun _ => steps_ite (fun _ => ?_) fun _ =>
    steps_ite (fun _ => ?_) fun _ => steps_ite (fun _ => ?_) fun _ => steps_ite (fun _ => ?_) fun _ => steps_revert
  · exact steps_submitQuote hJ sender input
  · refine steps_lift.bind ?_
    rintro ⟨permitSingle, signature⟩
    exact steps_permit hJ now sender permitSingle signature
  · refine steps_lift.bind ?_
    rintro ⟨token, amount⟩
    exact scopes_permit2TransferFrom now c.self sender c.self amount token
  · refine steps_lift.bind ?_
    rintro ⟨token, amount⟩
    exact steps_ite (fun _ => scopes_update fun s s' h => outgoing_transferFrom h) fun _ => steps_safeCall hJ
  · exact steps_dispatchTransferRemote hJ sender input
  · exact steps_dispatchTransferRemoteTo hJ sender input
  · exact steps_dispatchCallRemoteWithOverrides hJ sender input
  · exact steps_dispatchCallRemoteCommitReveal hJ sender input
  · exact scopes_sweep sender input

theorem scopes_dispatchAll (now : ℕ) (sender : Address) (commands : List (UInt8 × Input)) :
    (dispatchAll c now sender commands).Steps (Scopes c) := by
  induction commands with
  | nil => exact steps_pure
  | cons x rest ih => exact (scopes_dispatch now sender x.1 x.2).bind fun _ => ih

theorem scopes_body (now : ℕ) (op : Op) : (body c now op).Steps (Scopes c) := by
  cases op with
  | execute sender value commands inputs =>
    refine (scopes_update fun s s' h => outgoing_pay h).bind fun _ => ?_
    refine (steps_read scopes_refl).bind fun _ => steps_require.bind fun _ => ?_
    refine (steps_write fun s => scopes_of_same rfl).bind fun _ => steps_require.bind fun _ => ?_
    refine (scopes_dispatchAll now sender _).bind fun _ => ?_
    exact steps_write fun s => scopes_of_same rfl
  | quoteExecute sender commands inputs =>
    refine Steps.bind (steps_require.bind fun _ => ?_) fun _ => steps_pure
    exact steps_quoteAll includes_scopes sender _
  | transfer sender token dst amount => exact scopes_update fun s s' h => outgoing_onToken h
  | approve sender token spender amount => exact scopes_update fun s s' h => outgoing_onToken h
  | transferFrom sender token src dst amount => exact scopes_update fun s s' h => outgoing_transferFrom h
  | permit sender owner permitSingle signature =>
    exact steps_write fun s => scopes_of_same (outgoing_permit now owner permitSingle signature s)
  | permit2Approve sender token spender amount expiration => exact steps_write fun s => scopes_of_same rfl
  | permit2TransferFrom sender owner dst amount token => exact scopes_permit2TransferFrom now sender owner dst amount token
  | pay sender dst amount => exact scopes_update fun s s' h => outgoing_pay h

/-- **Salts belong to callers**, over every run: with every quote and every call of an account router, the router hands
out a salt that is bound to the caller of the router. -/
theorem salts_scoped {Op' : Type} (f : Op' → Op) (txs : List (ℕ × Frame Op' Answer Error)) {s : World P}
    (hs : ∀ x ∈ s.outgoing, Scoped c x) :
    ∀ x ∈ (run (fun now op => body c now (f op)) s txs).outgoing, Scoped c x := by
  refine run_guarantee (K := Scopes c) scopes_refl (fun h₁ h₂ h => h₂ (h₁ h)) txs ?_ s hs
  intro tx _ op s
  exact (scopes_body tx.1 (f op)).ensures scopes_refl (fun h₁ h₂ h => h₂ (h₁ h)) id

/-- a salt that two callers share is a collision of their packed inputs -/
theorem Scoped.collision {x y : Address × Outgoing} {salt : Bytes32} (hx : Scoped c x) (hy : Scoped c y)
    (hsalt : x.2.salt = some salt) (hsalt' : y.2.salt = some salt) (hne : x.1 ≠ y.1) :
    ∃ clientSalt clientSalt' : Bytes32, x.1.1 ++ clientSalt.1 ≠ y.1.1 ++ clientSalt'.1 ∧
      c.keccak (x.1.1 ++ clientSalt.1) = salt ∧ c.keccak (y.1.1 ++ clientSalt'.1) = salt := by
  obtain ⟨clientSalt, h⟩ := hx salt hsalt
  obtain ⟨clientSalt', h'⟩ := hy salt hsalt'
  refine ⟨clientSalt, clientSalt', fun hsame => hne (Subtype.ext (List.append_inj_left hsame ?_)), h.symm, h'.symm⟩
  rw [x.1.2, y.1.2]

end Salts

end Hyperlane.QuotedCalls
