/-
Shares and rates of a yield-bearing route.

The shares of the synthetics and of the messages on their way are covered by the vault shares of the collateral router,
as long as a fee on a synthetic costs the sender at least the shares that are minted for it (`FeeCovered`). A fee is taken
in assets and minted as shares without conversion, so above the rate 1 this fails: `fee_mints_unbacked_shares`. The
exchange rate of a synthetic is always the one of the newest update that was delivered to it.

- `step_change`: what a step can do to shares, rates and messages.
- `Rates`, `Backed`: the two invariants.
- `step_rates`, `step_backed`, and the same for runs.
- `shares_covered`: both, in every state of a run.
-/
import Hyperlane.Warp.YieldRoute

namespace Hyperlane.Warp.Yield

open Hyperlane.Tokens

variable {S U : Type}

/-- shares for an amount, at a rate -/
def sharesAt (rate amount : ℕ) : ℕ := amount * PRECISION / rate

/-- the sender of a transfer with a fee burns at least the shares that are sent and minted -/
def FeeCovered (r : Route S U) : Op S U → Prop
  | .syntheticTransfer s x => (r.synthetics s).exchangeRate ≠ 0 →
    sharesAt (r.synthetics s).exchangeRate x.amount + x.feeAmount ≤
      sharesAt (r.synthetics s).exchangeRate (x.amount + x.feeAmount)
  | _ => True

/-- without a fee, and at rates up to 1, every transfer is covered -/
theorem feeCovered_of {r : Route S U} {s : S} {x : SyntheticTransfer S U}
    (h : x.feeAmount = 0 ∨ (r.synthetics s).exchangeRate ≤ PRECISION) : FeeCovered r (.syntheticTransfer s x) := by
  intro hrate
  unfold sharesAt
  rcases h with hfee | hle
  · rw [hfee, add_zero, add_zero]
  · rw [← Nat.add_mul_div_right _ _ (Nat.pos_of_ne_zero hrate)]
    refine Nat.div_le_div_right ?_
    rw [Nat.add_mul]
    exact Nat.add_le_add_left (Nat.mul_le_mul_left _ hle) _

variable [DecidableEq S] [DecidableEq U]

/-- every operation of a run is covered in the state before it -/
def CoveredRun (r : Route S U) : List (Op S U) → Prop
  | [] => True
  | op :: ops => FeeCovered r op ∧ CoveredRun (step r op) ops

/-! ## Synthetics -/

/-- the same total of shares, rate and nonce -/
structure Preserves (t t' : Synthetic S U) : Prop where
  total : t'.ledger.totalSupply = t.ledger.totalSupply
  rate : t'.exchangeRate = t.exchangeRate
  nonce : t'.previousNonce = t.previousNonce

variable {t t' : Synthetic S U} {r r' : Route S U}

omit [DecidableEq S] [DecidableEq U] in
theorem Preserves.refl (t : Synthetic S U) : Preserves t t := ⟨rfl, rfl, rfl⟩

omit [DecidableEq S] [DecidableEq U] in
theorem Preserves.trans {t1 : Synthetic S U} (h : Preserves t t1) (h' : Preserves t1 t') : Preserves t t' :=
  ⟨h'.total.trans h.total, h'.rate.trans h.rate, h'.nonce.trans h.nonce⟩

omit [DecidableEq S] [DecidableEq U] in
theorem assetsToShares_ok {amount shares : ℕ} (h : t.assetsToShares amount = .ok shares) :
    t.exchangeRate ≠ 0 ∧ shares = sharesAt t.exchangeRate amount := by
  unfold Synthetic.assetsToShares at h
  split at h
  · exact nomatch h
  next hrate => exact ⟨hrate, checked_ok h⟩

theorem transfer_preserves {src dst : Holder S U} {amount : ℕ} (h : t.transfer src dst amount = .ok t') :
    Preserves t t' := by
  obtain ⟨shares, -, h⟩ := Outcome.bind_eq_ok.1 h
  obtain ⟨l, hl, h⟩ := Outcome.bind_eq_ok.1 h
  obtain rfl := Except.ok.inj h
  exact ⟨(Ledger.transfer_ok hl).2.2.1, rfl, rfl⟩

theorem transferFrom_preserves {spender src dst : Holder S U} {amount : ℕ}
    (h : t.transferFrom spender src dst amount = .ok t') : Preserves t t' := by
  obtain ⟨l, hl, h⟩ := Outcome.bind_eq_ok.1 h
  obtain ⟨-, rfl⟩ := Ledger.spendAllowance_ok hl
  obtain ⟨htotal, hrate, hnonce⟩ := transfer_preserves h
  exact ⟨htotal, hrate, hnonce⟩

theorem approve_preserves (owner spender : Holder S U) (amount : ℕ) : Preserves t (t.approve owner spender amount) :=
  ⟨rfl, rfl, rfl⟩

theorem chargeHook_preserves {s : S} {sender : U} {feeHook : Option (U × U)} {hookFee : ℕ}
    (h : t.chargeHook s sender feeHook hookFee = .ok t') : Preserves t t' := by
  cases feeHook with
  | none =>
    obtain rfl := Except.ok.inj h
    exact Preserves.refl t
  | some hook =>
    obtain ⟨t1, hpull, h⟩ := Outcome.bind_eq_ok.1 h
    obtain rfl := Except.ok.inj h
    exact (transferFrom_preserves hpull).trans (approve_preserves _ _ _)

theorem payHook_preserves {s : S} {feeHook : Option (U × U)} {taken : ℕ} (h : t.payHook s feeHook taken = .ok t') :
    Preserves t t' := by
  cases feeHook with
  | none =>
    obtain rfl := Except.ok.inj h
    exact Preserves.refl t
  | some hook => exact transferFrom_preserves h

theorem transferFromSender_ok {sender : U} {amount : ℕ} (h : t.transferFromSender sender amount = .ok t') :
    t.exchangeRate ≠ 0 ∧ t'.ledger.totalSupply + sharesAt t.exchangeRate amount = t.ledger.totalSupply ∧
      t'.exchangeRate = t.exchangeRate ∧ t'.previousNonce = t.previousNonce := by
  obtain ⟨shares, hshares, h⟩ := Outcome.bind_eq_ok.1 h
  obtain ⟨l, hl, h⟩ := Outcome.bind_eq_ok.1 h
  obtain rfl := Except.ok.inj h
  obtain ⟨hrate, rfl⟩ := assetsToShares_ok hshares
  exact ⟨hrate, (Ledger.burn_ok hl).2.2.1, rfl, rfl⟩

theorem transferTo_ok {recipient : Holder S U} {amount : ℕ} (h : t.transferTo recipient amount = .ok t') :
    t'.ledger.totalSupply = t.ledger.totalSupply + amount ∧ t'.exchangeRate = t.exchangeRate ∧
      t'.previousNonce = t.previousNonce := by
  obtain ⟨l, hl, h⟩ := Outcome.bind_eq_ok.1 h
  obtain rfl := Except.ok.inj h
  exact ⟨(Ledger.mint_ok hl).2.1, rfl, rfl⟩

theorem transferFee_ok {recipient : Holder S U} {amount : ℕ} (h : t.transferFee recipient amount = .ok t') :
    t'.ledger.totalSupply = t.ledger.totalSupply + amount ∧ t'.exchangeRate = t.exchangeRate ∧
      t'.previousNonce = t.previousNonce := by
  unfold Synthetic.transferFee at h
  split at h
  next => exact transferTo_ok h
  next hzero =>
    obtain rfl := Except.ok.inj h
    exact ⟨by omega, rfl, rfl⟩

/-! ## Operations -/

/-- what was burned was converted, the fee that is minted was not -/
theorem syntheticTransfer_spec {s : S} {x : SyntheticTransfer S U} (h : syntheticTransfer s x r = .ok r') :
    ∃ t', (r.synthetics s).exchangeRate ≠ 0 ∧
      t'.ledger.totalSupply + sharesAt (r.synthetics s).exchangeRate (x.amount + x.feeAmount) =
        (r.synthetics s).ledger.totalSupply + x.feeAmount ∧
      t'.exchangeRate = (r.synthetics s).exchangeRate ∧ t'.previousNonce = (r.synthetics s).previousNonce ∧
      r' = { r.setSynthetic s t' with
        messages := r.messages ++
          [⟨x.destination, x.recipient, sharesAt (r.synthetics s).exchangeRate x.amount, none⟩] } := by
  obtain ⟨charge, hcharge, h⟩ := Outcome.bind_eq_ok.1 h
  obtain ⟨t1, hhook, h⟩ := Outcome.bind_eq_ok.1 h
  obtain ⟨t2, hburn, h⟩ := Outcome.bind_eq_ok.1 h
  obtain ⟨t3, hfee, h⟩ := Outcome.bind_eq_ok.1 h
  obtain ⟨scaledAmount, hscaled, h⟩ := Outcome.bind_eq_ok.1 h
  obtain ⟨t4, hpay, h⟩ := Outcome.bind_eq_ok.1 h
  obtain rfl := Except.ok.inj h
  obtain rfl := checked_ok hcharge
  obtain ⟨htotal1, hrate1, hnonce1⟩ := chargeHook_preserves hhook
  obtain ⟨hne, htotal2, hrate2, hnonce2⟩ := transferFromSender_ok hburn
  obtain ⟨htotal3, hrate3, hnonce3⟩ := transferFee_ok hfee
  obtain ⟨-, rfl⟩ := assetsToShares_ok hscaled
  obtain ⟨htotal4, hrate4, hnonce4⟩ := payHook_preserves hpay
  have hrate : t3.exchangeRate = (r.synthetics s).exchangeRate := (hrate3.trans hrate2).trans hrate1
  rw [hrate1] at hne htotal2
  refine ⟨t4, hne, ?_, hrate4.trans hrate, ((hnonce4.trans hnonce3).trans hnonce2).trans hnonce1, ?_⟩
  · omega
  · rw [hrate]

theorem collateralTransfer_spec {sender : U} {destination : S} {recipient feeRecipient : Holder S U}
    {amount feeAmount shares vaultRate : ℕ}
    (h : collateralTransfer sender destination recipient amount feeRecipient feeAmount shares vaultRate r = .ok r') :
    ∃ token, r' = { r with
      wrappedToken := token
      vaultShares := r.vaultShares + shares
      rateUpdateNonce := r.rateUpdateNonce + 1
      messages := r.messages ++
        [⟨.synthetic destination, recipient, shares, some ⟨vaultRate, r.rateUpdateNonce + 1⟩⟩] } := by
  obtain ⟨_, _, h⟩ := Outcome.bind_eq_ok.1 h
  obtain ⟨_, _, h⟩ := Outcome.bind_eq_ok.1 h
  obtain ⟨_, _, h⟩ := Outcome.bind_eq_ok.1 h
  obtain ⟨token, _, h⟩ := Outcome.bind_eq_ok.1 h
  obtain ⟨nonce, hnonce, h⟩ := Outcome.bind_eq_ok.1 h
  obtain rfl := Except.ok.inj h
  unfold nextNonce at hnonce
  split at hnonce
  · obtain rfl := Except.ok.inj hnonce
    exact ⟨token, rfl⟩
  · exact nomatch hnonce

/-- what an operation can do to the shares, the rates and the messages of a route -/
inductive Change (r : Route S U) : Op S U → Route S U → Prop
  | quiet {op : Op S U} {r' : Route S U} (hsyn : ∀ s, Preserves (r.synthetics s) (r'.synthetics s))
      (hvault : r.vaultShares ≤ r'.vaultShares) (hnonce : r'.rateUpdateNonce = r.rateUpdateNonce)
      (hmsg : r'.messages = r.messages) (hdel : r'.delivered = r.delivered) : Change r op r'
  | deposited {op : Op S U} {r' : Route S U} {s : S} {recipient : Holder S U} {shares rate : ℕ}
      (hsyn : r'.synthetics = r.synthetics) (hvault : r'.vaultShares = r.vaultShares + shares)
      (hnonce : r'.rateUpdateNonce = r.rateUpdateNonce + 1)
      (hmsg : r'.messages = r.messages ++ [⟨.synthetic s, recipient, shares, some ⟨rate, r.rateUpdateNonce + 1⟩⟩])
      (hdel : r'.delivered = r.delivered) : Change r op r'
  | burned {s : S} {x : SyntheticTransfer S U} {r' : Route S U} {t' : Synthetic S U}
      (hrate : (r.synthetics s).exchangeRate ≠ 0)
      (htotal : t'.ledger.totalSupply + sharesAt (r.synthetics s).exchangeRate (x.amount + x.feeAmount) =
        (r.synthetics s).ledger.totalSupply + x.feeAmount)
      (hkept : t'.exchangeRate = (r.synthetics s).exchangeRate ∧ t'.previousNonce = (r.synthetics s).previousNonce)
      (hr' : r' = { r.setSynthetic s t' with
        messages := r.messages ++
          [⟨x.destination, x.recipient, sharesAt (r.synthetics s).exchangeRate x.amount, none⟩] }) :
      Change r (.syntheticTransfer s x) r'
  | redeemed {op : Op S U} {i : ℕ} {m : Message S U} {r' : Route S U} (hm : r.messages[i]? = some m)
      (hsyn : r'.synthetics = r.synthetics) (hvault : r'.vaultShares + m.amount = r.vaultShares)
      (hnonce : r'.rateUpdateNonce = r.rateUpdateNonce) (hmsg : r'.messages = r.messages.eraseIdx i)
      (hdel : r'.delivered = r.delivered) : Change r op r'
  | minted {op : Op S U} {i : ℕ} {m : Message S U} {s : S} {t' : Synthetic S U} {r' : Route S U}
      (hm : r.messages[i]? = some m)
      (htotal : t'.ledger.totalSupply = (r.synthetics s).ledger.totalSupply + m.amount)
      (hrate : t'.exchangeRate = ((r.synthetics s).updateRate m.metadata).exchangeRate)
      (hprev : t'.previousNonce = ((r.synthetics s).updateRate m.metadata).previousNonce)
      (hr' : r' = { r.setSynthetic s t' with
        messages := r.messages.eraseIdx i
        delivered := Function.update r.delivered s (r.delivered s ++ m.metadata.toList) }) : Change r op r'

omit [DecidableEq U] in
theorem setSynthetic_quiet {op : Op S U} {s : S} (h : Preserves (r.synthetics s) t') :
    Change r op (r.setSynthetic s t') := by
  refine .quiet (fun s' => ?_) le_rfl rfl rfl rfl
  by_cases hs : s' = s
  · subst hs
    simpa only [Route.setSynthetic, Function.update_self] using h
  · simpa only [Route.setSynthetic, Function.update_of_ne hs] using Preserves.refl _

theorem deliver_change {op : Op S U} {i assets : ℕ} (h : deliver i assets r = .ok r') : Change r op r' := by
  unfold deliver at h
  split at h
  · exact nomatch h
  next m hm =>
    split at h
    next =>
      obtain ⟨r1, hredeem, h⟩ := Outcome.bind_eq_ok.1 h
      obtain ⟨vaultShares, hshares, hredeem⟩ := Outcome.bind_eq_ok.1 hredeem
      obtain ⟨token, -, hredeem⟩ := Outcome.bind_eq_ok.1 hredeem
      obtain rfl := Except.ok.inj hredeem
      obtain rfl := Except.ok.inj h
      exact .redeemed hm rfl (checkedSub_ok hshares) rfl rfl rfl
    next s _ =>
      obtain ⟨t', ht', h⟩ := Outcome.bind_eq_ok.1 h
      obtain rfl := Except.ok.inj h
      obtain ⟨htotal, hrate, hprev⟩ := transferTo_ok ht'
      have hsame : ((r.synthetics s).updateRate m.metadata).ledger = (r.synthetics s).ledger := by
        unfold Synthetic.updateRate
        split
        · split <;> rfl
        · rfl
      rw [hsame] at htotal
      exact .minted hm htotal hrate hprev rfl

/-- **A step is one of these changes.** -/
theorem step_change (r : Route S U) (op : Op S U) : Change r op (step r op) := by
  have hkeep : Change r op r := .quiet (fun _ => .refl _) le_rfl rfl rfl rfl
  unfold step
  split
  next r' h =>
    cases op with
    | collateralTransfer sender destination recipient amount feeRecipient feeAmount shares vaultRate =>
      obtain ⟨token, rfl⟩ := collateralTransfer_spec h
      exact .deposited rfl rfl rfl rfl rfl
    | syntheticTransfer s x =>
      obtain ⟨t', hrate, htotal, hkept, hnonce, hr'⟩ := syntheticTransfer_spec h
      exact .burned hrate htotal ⟨hkept, hnonce⟩ hr'
    | deliver i assets => exact deliver_change h
    | transfer s sender dst amount =>
      obtain ⟨t', ht', h⟩ := Outcome.bind_eq_ok.1 h
      obtain rfl := Except.ok.inj h
      exact setSynthetic_quiet (transfer_preserves ht')
    | transferFrom s spender src dst amount =>
      obtain ⟨t', ht', h⟩ := Outcome.bind_eq_ok.1 h
      obtain rfl := Except.ok.inj h
      exact setSynthetic_quiet (transferFrom_preserves ht')
    | approve s owner spender amount =>
      obtain rfl := Except.ok.inj h
      exact setSynthetic_quiet (approve_preserves _ _ _)
    | giveShares shares =>
      obtain rfl := Except.ok.inj h
      exact .quiet (fun _ => .refl _) (Nat.le_add_right _ _) rfl rfl rfl
    | wrappedToken ledger =>
      obtain rfl := Except.ok.inj h
      exact .quiet (fun _ => .refl _) le_rfl rfl rfl rfl
  next => exact hkeep

/-! ## Rates -/

/-- a rate update that was sent, on its way or delivered -/
def Known (r : Route S U) (u : RateUpdate) : Prop :=
  (∃ m ∈ r.messages, m.metadata = some u) ∨ ∃ s, u ∈ r.delivered s

/-- rate and nonce are those of the newest of the updates seen, or the ones at the start -/
structure Newest (initial : ℕ) (seen : List RateUpdate) (t : Synthetic S U) : Prop where
  bound : ∀ u ∈ seen, u.rateUpdateNonce ≤ t.previousNonce
  last : (seen = [] ∧ t.exchangeRate = initial ∧ t.previousNonce = 0) ∨ ⟨t.exchangeRate, t.previousNonce⟩ ∈ seen

/-- updates are told apart by their nonces, and every synthetic has the newest one -/
structure Rates (initial : S → ℕ) (r : Route S U) : Prop where
  range : ∀ u, Known r u → 0 < u.rateUpdateNonce ∧ u.rateUpdateNonce ≤ r.rateUpdateNonce
  unique : ∀ u v, Known r u → Known r v → u.rateUpdateNonce = v.rateUpdateNonce → u = v
  newest : ∀ s, Newest (initial s) (r.delivered s) (r.synthetics s)

variable {initial : S → ℕ} {op : Op S U}

omit [DecidableEq S] [DecidableEq U] in
theorem Newest.congr {i : ℕ} {seen : List RateUpdate} (h : Newest i seen t) (hrate : t'.exchangeRate = t.exchangeRate)
    (hprev : t'.previousNonce = t.previousNonce) : Newest i seen t' := by
  refine ⟨?_, ?_⟩
  · rw [hprev]
    exact h.bound
  · rw [hprev, hrate]
    exact h.last

omit [DecidableEq S] [DecidableEq U] in
/-- an update is applied if and only if it is newer -/
theorem Newest.updateRate {i : ℕ} {seen : List RateUpdate} {metadata : Option RateUpdate} (h : Newest i seen t)
    (hpos : ∀ u ∈ metadata, 0 < u.rateUpdateNonce) : Newest i (seen ++ metadata.toList) (t.updateRate metadata) := by
  cases metadata with
  | none =>
    rw [Option.toList_none, List.append_nil]
    exact h
  | some u =>
    unfold Synthetic.updateRate
    dsimp only
    split
    next hlt =>
      refine ⟨fun v hv => ?_, Or.inr (List.mem_append_right _ (List.mem_singleton.2 rfl))⟩
      rcases List.mem_append.1 hv with hv | hv
      · exact (h.bound v hv).trans hlt.le
      · rw [List.mem_singleton.1 hv]
    next hle =>
      -- an update that is not newer finds an earlier one, since nonces start at 1
      have hpos := hpos u rfl
      refine ⟨fun v hv => ?_, ?_⟩
      · rcases List.mem_append.1 hv with hv | hv
        · exact h.bound v hv
        · rw [List.mem_singleton.1 hv]
          exact not_lt.1 hle
      · rcases h.last with ⟨-, -, hzero⟩ | hlast
        · omega
        · exact Or.inr (List.mem_append_left _ hlast)

omit [DecidableEq S] [DecidableEq U] in
/-- no new update, and no synthetic changes its rate -/
theorem Rates.congr (h : Rates initial r) (hknown : ∀ u, Known r' u → Known r u)
    (hnonce : r'.rateUpdateNonce = r.rateUpdateNonce)
    (hnewest : ∀ s, Newest (initial s) (r'.delivered s) (r'.synthetics s)) : Rates initial r' :=
  ⟨fun u hu => hnonce ▸ h.range u (hknown u hu), fun u v hu hv => h.unique u v (hknown u hu) (hknown v hv), hnewest⟩

theorem step_rates (h : Rates initial r) : Rates initial (step r op) := by
  have hchange := step_change r op
  cases hchange with
  | quiet hsyn hvault hnonce hmsg hdel =>
    refine h.congr (fun u hu => ?_) hnonce fun s => ?_
    · simpa only [Known, hmsg, hdel] using hu
    · rw [hdel]
      exact (h.newest s).congr (hsyn s).rate (hsyn s).nonce
  | @deposited _ _ s recipient shares rate hsyn hvault hnonce hmsg hdel =>
    have hknown : ∀ u, Known (step r op) u → Known r u ∨ u = ⟨rate, r.rateUpdateNonce + 1⟩ := by
      rintro u (⟨m, hm, hmeta⟩ | ⟨s', hu⟩)
      · rw [hmsg] at hm
        rcases List.mem_append.1 hm with hm | hm
        · exact Or.inl (Or.inl ⟨m, hm, hmeta⟩)
        · rw [List.mem_singleton.1 hm] at hmeta
          exact Or.inr (Option.some.inj hmeta).symm
      · exact Or.inl (Or.inr ⟨s', hdel ▸ hu⟩)
    refine ⟨fun u hu => ?_, fun u v hu hv huv => ?_, fun s' => ?_⟩
    · rw [hnonce]
      rcases hknown u hu with hu | rfl
      · exact ⟨(h.range u hu).1, (h.range u hu).2.trans (Nat.le_succ _)⟩
      · exact ⟨Nat.succ_pos _, le_rfl⟩
    · rcases hknown u hu with hu | rfl <;> rcases hknown v hv with hv | rfl
      · exact h.unique u v hu hv huv
      · exact absurd ((h.range u hu).2.trans_lt (Nat.lt_succ_self _)) huv.not_lt
      · exact absurd ((h.range v hv).2.trans_lt (Nat.lt_succ_self _)) huv.symm.not_lt
      · rfl
    · rw [hdel, hsyn]
      exact h.newest s'
  | @burned s x _ t' hrate htotal hkept hr' =>
    rw [hr']
    refine h.congr (fun u hu => ?_) rfl fun s' => ?_
    · rcases hu with ⟨m, hm, hmeta⟩ | hu
      · rcases List.mem_append.1 hm with hm | hm
        · exact Or.inl ⟨m, hm, hmeta⟩
        · rw [List.mem_singleton.1 hm] at hmeta
          exact nomatch hmeta
      · exact Or.inr hu
    · by_cases hs : s' = s
      · subst hs
        simpa only [Route.setSynthetic, Function.update_self] using (h.newest s').congr hkept.1 hkept.2
      · simpa only [Route.setSynthetic, Function.update_of_ne hs] using h.newest s'
  | @redeemed _ i m _ hm hsyn hvault hnonce hmsg hdel =>
    refine h.congr (fun u hu => ?_) hnonce fun s' => ?_
    · rcases hu with ⟨m', hm', hmeta⟩ | hu
      · exact Or.inl ⟨m', List.mem_of_mem_eraseIdx (hmsg ▸ hm'), hmeta⟩
      · exact Or.inr (hdel ▸ hu)
    · rw [hdel, hsyn]
      exact h.newest s'
  | @minted _ i m s t' _ hm htotal hrate hprev hr' =>
    have hmem : m ∈ r.messages := List.mem_of_getElem? hm
    rw [hr']
    refine h.congr (fun u hu => ?_) rfl fun s' => ?_
    · rcases hu with ⟨m', hm', hmeta⟩ | ⟨s', hu⟩
      · exact Or.inl ⟨m', List.mem_of_mem_eraseIdx hm', hmeta⟩
      · by_cases hs : s' = s
        · subst hs
          simp only [Function.update_self] at hu
          rcases List.mem_append.1 hu with hu | hu
          · exact Or.inr ⟨s', hu⟩
          · exact Or.inl ⟨m, hmem, Option.mem_toList.1 hu⟩
        · simp only [Function.update_of_ne hs] at hu
          exact Or.inr ⟨s', hu⟩
    · by_cases hs : s' = s
      · subst hs
        have hnew := (h.newest s').updateRate fun u hu => (h.range u (Or.inl ⟨m, hmem, hu⟩)).1
        simpa only [Route.setSynthetic, Function.update_self] using hnew.congr hrate hprev
      · simpa only [Route.setSynthetic, Function.update_of_ne hs] using h.newest s'

theorem run_rates (h : Rates initial r) (ops : List (Op S U)) : Rates initial (run r ops) := by
  induction ops generalizing r with
  | nil => exact h
  | cons op ops ih => exact ih (step_rates h)

omit [DecidableEq S] [DecidableEq U] in
theorem start_rates (wrappedToken : Ledger (Holder S U)) (vaultShares : ℕ) :
    Rates initial (Route.start wrappedToken vaultShares initial) := by
  have hnone : ∀ u, ¬ Known (Route.start wrappedToken vaultShares initial) u := by
    rintro u (⟨m, hm, -⟩ | ⟨s, hu⟩)
    · exact nomatch hm
    · exact nomatch hu
  exact ⟨fun u hu => absurd hu (hnone u), fun u _ hu => absurd hu (hnone u),
    fun s => ⟨fun u hu => (nomatch hu), Or.inl ⟨rfl, rfl, rfl⟩⟩⟩

omit [DecidableEq S] [DecidableEq U] in
/-- the rate of a synthetic is the one of the newest update delivered to it -/
theorem Rates.exchangeRate_eq (h : Rates initial r) {s : S} {u : RateUpdate} (hu : u ∈ r.delivered s)
    (hmax : ∀ v ∈ r.delivered s, v.rateUpdateNonce ≤ u.rateUpdateNonce) :
    (r.synthetics s).exchangeRate = u.exchangeRate := by
  rcases (h.newest s).last with ⟨hnil, -, -⟩ | hlast
  · rw [hnil] at hu
    exact nomatch hu
  · have hnonce := le_antisymm (hmax _ hlast) ((h.newest s).bound u hu)
    rw [← h.unique _ u (Or.inr ⟨s, hlast⟩) (Or.inr ⟨s, hu⟩) hnonce]

/-! ## Shares -/

/-- the amounts of the messages on their way -/
def inFlight (r : Route S U) : ℕ := (r.messages.map Message.amount).sum

variable [Fintype S]

/-- the shares of all synthetics -/
def totalShares (r : Route S U) : ℕ := ∑ s, (r.synthetics s).ledger.totalSupply

/-- **The vault shares of the collateral router cover every share of the route.** -/
def Backed (r : Route S U) : Prop := totalShares r + inFlight r ≤ r.vaultShares

omit [DecidableEq U] in
theorem totalShares_update (r : Route S U) (s : S) (t' : Synthetic S U) :
    ∑ s', (Function.update r.synthetics s t' s').ledger.totalSupply + (r.synthetics s).ledger.totalSupply =
      totalShares r + t'.ledger.totalSupply := by
  have hrest : ∑ s' ∈ Finset.univ.erase s, (Function.update r.synthetics s t' s').ledger.totalSupply =
      ∑ s' ∈ Finset.univ.erase s, (r.synthetics s').ledger.totalSupply :=
    Finset.sum_congr rfl fun s' hs' => by rw [Function.update_of_ne (Finset.ne_of_mem_erase hs')]
  unfold totalShares
  rw [← Finset.add_sum_erase _ _ (Finset.mem_univ s), ← Finset.add_sum_erase _ _ (Finset.mem_univ s), hrest,
    Function.update_self]
  ring

omit [DecidableEq S] [DecidableEq U] [Fintype S] in
theorem inFlight_erase {i : ℕ} {m : Message S U} (hm : r.messages[i]? = some m) :
    m.amount + ((r.messages.eraseIdx i).map Message.amount).sum = inFlight r := by
  obtain ⟨hi, hget⟩ := List.getElem?_eq_some_iff.1 hm
  have hperm := (List.getElem_cons_eraseIdx_perm hi).map Message.amount
  rw [hget] at hperm
  exact List.sum_cons.symm.trans hperm.sum_eq

omit [DecidableEq S] [DecidableEq U] [Fintype S] in
theorem inFlight_append {messages : List (Message S U)} (m : Message S U) (hmsg : messages = r.messages ++ [m]) :
    (messages.map Message.amount).sum = inFlight r + m.amount := by
  rw [hmsg, List.map_append, List.sum_append]
  simp [inFlight]

theorem step_backed (h : Backed r) (hop : FeeCovered r op) : Backed (step r op) := by
  unfold Backed at h ⊢
  have hchange := step_change r op
  cases hchange with
  | quiet hsyn hvault hnonce hmsg hdel =>
    have htotal : totalShares (step r op) = totalShares r := Finset.sum_congr rfl fun s _ => (hsyn s).total
    have hflight : inFlight (step r op) = inFlight r := by simp only [inFlight, hmsg]
    omega
  | deposited hsyn hvault hnonce hmsg hdel =>
    have htotal : totalShares (step r op) = totalShares r := by simp only [totalShares, hsyn]
    have hflight : inFlight (step r op) = inFlight r + _ := inFlight_append _ hmsg
    dsimp only at hflight
    omega
  | @burned s x _ t' hrate htotal hkept hr' =>
    -- the shares that were burned cover those sent and those minted for the fee
    have hcovered := hop hrate
    have hshares := totalShares_update r s t'
    have hflight := inFlight_append (r := r) _ (congrArg Route.messages hr')
    have hvault := congrArg Route.vaultShares hr'
    have hsum : totalShares (step r (.syntheticTransfer s x)) =
        ∑ s', (Function.update r.synthetics s t' s').ledger.totalSupply := by rw [hr']; rfl
    have hflight' : inFlight (step r (.syntheticTransfer s x)) =
        inFlight r + sharesAt (r.synthetics s).exchangeRate x.amount := hflight
    have hvault' : (step r (.syntheticTransfer s x)).vaultShares = r.vaultShares := hvault
    omega
  | @redeemed _ i m _ hm hsyn hvault hnonce hmsg hdel =>
    have htotal : totalShares (step r op) = totalShares r := by simp only [totalShares, hsyn]
    have hflight : m.amount + inFlight (step r op) = inFlight r := by
      rw [inFlight, hmsg]
      exact inFlight_erase hm
    omega
  | @minted _ i m s t' _ hm htotal hrate hprev hr' =>
    have hshares := totalShares_update r s t'
    have hsum : totalShares (step r op) = ∑ s', (Function.update r.synthetics s t' s').ledger.totalSupply := by
      rw [hr']; rfl
    have hflight : m.amount + inFlight (step r op) = inFlight r := by
      rw [hr']
      exact inFlight_erase hm
    have hvault : (step r op).vaultShares = r.vaultShares := by rw [hr']; rfl
    omega

theorem run_backed (h : Backed r) {ops : List (Op S U)} (hops : CoveredRun r ops) : Backed (run r ops) := by
  induction ops generalizing r with
  | nil => exact h
  | cons op ops ih => exact ih (step_backed h hops.1) hops.2

omit [DecidableEq S] [DecidableEq U] in
theorem start_backed (wrappedToken : Ledger (Holder S U)) (vaultShares : ℕ) :
    Backed (Route.start wrappedToken vaultShares initial) := by
  simp [Backed, totalShares, inFlight, Route.start, Ledger.empty]

omit [Fintype S] in
theorem CoveredRun.mono {pre ops : List (Op S U)} (hpre : pre <+: ops) (h : CoveredRun r ops) :
    CoveredRun r pre := by
  induction pre generalizing r ops with
  | nil => trivial
  | cons op pre ih =>
    obtain ⟨post, rfl⟩ := hpre
    exact ⟨h.1, ih ⟨post, rfl⟩ h.2⟩

/-- **In every state of a run in which fees are covered, the shares of the synthetics and of the messages on their way are
covered by vault shares, and every synthetic has the rate of the newest update delivered to it.** -/
theorem shares_covered (wrappedToken : Ledger (Holder S U)) (vaultShares : ℕ) (initial : S → ℕ) (ops : List (Op S U))
    (hops : CoveredRun (Route.start wrappedToken vaultShares initial) ops) (pre : List (Op S U)) (hpre : pre <+: ops) :
    let r := run (Route.start wrappedToken vaultShares initial) pre
    (∑ s, (r.synthetics s).ledger.totalSupply) + (r.messages.map Message.amount).sum ≤ r.vaultShares ∧
      ∀ s, (r.delivered s = [] → (r.synthetics s).exchangeRate = initial s) ∧
        ∀ u ∈ r.delivered s, (∀ v ∈ r.delivered s, v.rateUpdateNonce ≤ u.rateUpdateNonce) →
          (r.synthetics s).exchangeRate = u.exchangeRate := by
  intro r
  have hrates : Rates initial r := run_rates (start_rates _ _) pre
  refine ⟨run_backed (start_backed _ _) (hops.mono hpre), fun s => ⟨fun hnil => ?_, fun u hu hmax => ?_⟩⟩
  · rcases (hrates.newest s).last with ⟨-, hinitial, -⟩ | hlast
    · exact hinitial
    · rw [hnil] at hlast
      exact nomatch hlast
  · exact hrates.exchangeRate_eq hu hmax

/-! ## A deposit at rate 2, and a transfer back -/

namespace Example

/-- user 0 has 400 assets and lets the collateral router take them -/
def wrappedToken : Ledger (Holder Unit ℕ) :=
  ⟨fun a => if a = .user 0 then 400 else 0, fun o s => if o = .user 0 ∧ s = .collateral then 400 else 0, 400⟩

def start : Route Unit ℕ := .start wrappedToken 0 fun _ => PRECISION

/-- 200 assets become 100 shares, and the synthetic learns the rate 2 -/
def userDeposit : List (Op Unit ℕ) :=
  [.collateralTransfer 0 () (.user 0) 200 (.user 1) 0 100 (2 * PRECISION), .deliver 0 0]

/-- user 0 sends back 100 assets, with a fee to user 1 -/
def sendBack (feeAmount : ℕ) : Op Unit ℕ :=
  .syntheticTransfer () ⟨0, .collateral, .user 0, 100, .user 1, feeAmount, none, 0, 0⟩

end Example

open Example

theorem shares_covered_deposit :
    CoveredRun start (userDeposit ++ [sendBack 0]) ∧
      (∑ s, ((run start (userDeposit ++ [sendBack 0])).synthetics s).ledger.totalSupply) +
        ((run start (userDeposit ++ [sendBack 0])).messages.map Message.amount).sum ≤
        (run start (userDeposit ++ [sendBack 0])).vaultShares ∧
      ((run start (userDeposit ++ [sendBack 0])).messages.map Message.amount) = [50] ∧
      ((run start (userDeposit ++ [sendBack 0])).synthetics ()).exchangeRate = 2 * PRECISION := by
  have hcovered : CoveredRun start (userDeposit ++ [sendBack 0]) :=
    ⟨trivial, trivial, feeCovered_of (Or.inl rfl), trivial⟩
  exact ⟨hcovered, (shares_covered wrappedToken 0 (fun _ => PRECISION) _ hcovered _ (List.prefix_refl _)).1,
    by decide +kernel, by decide +kernel⟩

/-- **A fee of 100 assets burns 50 shares at the rate 2 and mints 100.** -/
theorem fee_mints_unbacked_shares :
    ¬ ∀ (wrappedToken : Ledger (Holder Unit ℕ)) (vaultShares : ℕ) (initial : Unit → ℕ) (ops : List (Op Unit ℕ)),
      let r := run (Route.start wrappedToken vaultShares initial) ops
      (∑ s, (r.synthetics s).ledger.totalSupply) + (r.messages.map Message.amount).sum ≤ r.vaultShares := by
  intro h
  have hrun : (run start (userDeposit ++ [sendBack 100])).vaultShares <
      (∑ s, ((run start (userDeposit ++ [sendBack 100])).synthetics s).ledger.totalSupply) +
        ((run start (userDeposit ++ [sendBack 100])).messages.map Message.amount).sum := by decide +kernel
  exact absurd (h wrappedToken 0 (fun _ => PRECISION) (userDeposit ++ [sendBack 100])) hrun.not_ge

end Hyperlane.Warp.Yield
