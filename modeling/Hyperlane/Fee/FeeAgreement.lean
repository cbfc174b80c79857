/-
The Sealevel fee program with a linear leaf account and the contract OffchainQuotedLinearFee return the same fees when they
accepted the same standing quotes, each in its own order and at its own times.

The contract stores no quote that is issued at 0, and it takes the time modulo 2^48. The fee program forgets a quote that is
pruned.

- `computeLinear_agrees`: the curves.
- `resolved`: what the two find for one destination and recipient.
- `fees_agree`: the fees.
-/
import Hyperlane.Fee.OffchainQuotedLinearFee
import Hyperlane.Fee.StandingQuotes

namespace Hyperlane.Fee

open Hyperlane.Outcome Hyperlane.DatedRegister

/-! ## Curves -/

theorem checked_ok {n : ℕ} (h : n < 2 ^ 256) : checked n = .ok n := if_pos h

theorem OffchainQuotedLinearFee.mul_ok {a b : ℕ} (h : a * b < 2 ^ 256) : OffchainQuotedLinearFee.mul a b = .ok (a * b) :=
  if_pos h

/-- the curve of 64-bit parameters -/
theorem computeLinear_agrees (p : FeeParams) (amount : UInt64) :
    ∃ fee : UInt64, (FeeDataStrategy.linear p).computeFee amount = .ok fee ∧
      OffchainQuotedLinearFee.computeLinearFee p.maxFee.toNat p.halfAmount.toNat amount.toNat = .ok fee.toNat := by
  rw [FeeDataStrategy.computeFee, computeLinear, OffchainQuotedLinearFee.computeLinearFee]
  split_ifs with hzero
  · exact ⟨0, rfl, rfl⟩
  · have hmax := p.maxFee.toNat_lt
    have hproduct : amount.toNat * p.maxFee.toNat < 2 ^ 256 :=
      calc amount.toNat * p.maxFee.toNat < 2 ^ 64 * 2 ^ 64 := Nat.mul_lt_mul'' amount.toNat_lt hmax
        _ ≤ 2 ^ 256 := by decide
    have hdenominator : 2 * p.halfAmount.toNat < 2 ^ 256 :=
      calc 2 * p.halfAmount.toNat < 2 * 2 ^ 64 := Nat.mul_lt_mul_of_pos_left p.halfAmount.toNat_lt (by decide)
        _ ≤ 2 ^ 256 := by decide
    have hne : 2 * p.halfAmount.toNat ≠ 0 := Nat.mul_ne_zero (by decide) fun h => hzero (.inr h)
    have hfee : min (amount.toNat * p.maxFee.toNat / (2 * p.halfAmount.toNat)) p.maxFee.toNat < 2 ^ 64 :=
      lt_of_le_of_lt (min_le_right _ _) hmax
    refine ⟨UInt64.ofNat (min (amount.toNat * p.maxFee.toNat / (2 * p.halfAmount.toNat)) p.maxFee.toNat), ?_, ?_⟩
    · rw [checked_ok hdenominator, ok_bind, checked_ok hproduct, ok_bind, checkedDiv, if_neg hne, ok_bind, toU64, if_pos hfee]
    · rw [OffchainQuotedLinearFee.mul_ok hproduct, ok_bind, OffchainQuotedLinearFee.mul_ok hdenominator, ok_bind,
        UInt64.toNat_ofNat_of_lt' hfee]
      refine congrArg Except.ok ?_
      split_ifs with hcap
      · exact (min_eq_right hcap.le).symm
      · exact (min_eq_left (not_lt.1 hcap)).symm

/-! ## Quotes of both sides -/

/-- what a standing quote says -/
structure StandingQuote where
  destination : UInt32
  recipient : H256
  maxFee : ℕ
  halfAmount : ℕ
  issuedAt : ℤ
  expiry : ℤ
deriving DecidableEq

/-- a quote of another curve is none of the contract's -/
def sealevelTerms (e : StandingKey × FeeStandingQuoteValue) : Option StandingQuote :=
  match e.2.feeData with
  | .linear p => some ⟨e.1.domain, e.1.recipient, p.maxFee.toNat, p.halfAmount.toNat, e.2.issuedAt, e.2.expiry⟩
  | _ => none

def contractTerms (e : (UInt32 × H256) × StoredQuote) : Option StandingQuote :=
  some ⟨e.1.1, e.1.2, e.2.maxFee, e.2.halfAmount, e.2.issuedAt.toNat, e.2.expiry.toNat⟩

theorem sealevelTerms_some {e : StandingKey × FeeStandingQuoteValue} {q : StandingQuote} (h : sealevelTerms e = some q) :
    ∃ p, e.2.feeData = .linear p ∧
      q = ⟨e.1.domain, e.1.recipient, p.maxFee.toNat, p.halfAmount.toNat, e.2.issuedAt, e.2.expiry⟩ := by
  unfold sealevelTerms at h
  split at h
  · rename_i p hp
    exact ⟨p, hp, (Option.some.inj h).symm⟩
  · cases h

theorem contractTerms_inj {key : UInt32 × H256} {w w' : StoredQuote} (h : contractTerms (key, w) = contractTerms (key, w')) :
    w = w' := by
  cases w
  cases w'
  simp only [contractTerms, Option.some.injEq, StandingQuote.mk.injEq, Nat.cast_inj, BitVec.toNat_inj] at h
  simp [h]

/-- the same quotes, as sets -/
def SameQuotes (log : List (StandingKey × FeeStandingQuoteValue)) (log' : List ((UInt32 × H256) × StoredQuote)) : Prop :=
  ∀ q, q ∈ log.map sealevelTerms ↔ q ∈ log'.map contractTerms

variable {log : List (StandingKey × FeeStandingQuoteValue)} {log' : List ((UInt32 × H256) × StoredQuote)}
  {destination : UInt32} {recipient : H256}

/-- the quotes of one key -/
theorem SameQuotes.at_key (h : SameQuotes log log') (hrouter : ∀ e ∈ log, e.1.targetRouter = 0) (destination : UInt32)
    (recipient : H256) :
    (fun v => sealevelTerms (⟨destination, 0, recipient⟩, v)) '' logged log ⟨destination, 0, recipient⟩ =
      (fun w => contractTerms ((destination, recipient), w)) '' logged log' (destination, recipient) := by
  ext q
  constructor
  · rintro ⟨v, hv, rfl⟩
    obtain ⟨⟨⟨d, r⟩, w⟩, hw, heq⟩ := List.mem_map.1 ((h _).1 (List.mem_map.2 ⟨_, hv, rfl⟩))
    obtain ⟨p, -, hterms⟩ := sealevelTerms_some heq.symm
    simp only [StandingQuote.mk.injEq] at hterms
    obtain ⟨rfl, rfl, -⟩ := hterms
    exact ⟨w, hw, heq⟩
  · rintro ⟨w, hw, rfl⟩
    obtain ⟨⟨⟨d, router, r⟩, v⟩, hv, heq⟩ := List.mem_map.1 ((h _).2 (List.mem_map.2 ⟨_, hw, rfl⟩))
    obtain ⟨p, -, hterms⟩ := sealevelTerms_some heq
    simp only [StandingQuote.mk.injEq] at hterms
    obtain ⟨rfl, rfl, -⟩ := hterms
    have hzero : router = 0 := hrouter _ hv
    subst hzero
    exact ⟨v, hv, heq⟩

theorem terms_date (k : StandingKey) (key : UInt32 × H256) (v : FeeStandingQuoteValue) (w : StoredQuote)
    (h : sealevelTerms (k, v) = contractTerms (key, w)) : v.issuedAt = w.issuedAt.toNat := by
  obtain ⟨p, -, hterms⟩ := sealevelTerms_some h
  exact (congrArg StandingQuote.issuedAt hterms).symm

/-! ## What is found for one key -/

/-- a lookup of the fee program and one of the contract find the same curve, or nothing -/
def Resolved (timestamp : ℕ) (w : StoredQuote) : Option FeeStandingQuoteValue → Prop
  | some v => ∃ p, v.feeData = .linear p ∧ w.maxFee = p.maxFee.toNat ∧ w.halfAmount = p.halfAmount.toNat ∧
      OffchainQuotedLinearFee.resolves w timestamp = true
  | none => OffchainQuotedLinearFee.resolves w timestamp = false

theorem uint48_toNat {timestamp : ℕ} (h : timestamp < 2 ^ 48) : (BitVec.ofNat 48 timestamp).toNat = timestamp := by
  rw [BitVec.toNat_ofNat, Nat.mod_eq_of_lt h]

theorem resolves_iff {w : StoredQuote} {timestamp : ℕ} (htime : timestamp < 2 ^ 48) (hissued : w.issuedAt ≠ 0)
    (hexpiry : w.issuedAt ≤ w.expiry) : OffchainQuotedLinearFee.resolves w timestamp = true ↔ timestamp ≤ w.expiry.toNat := by
  have hpos : 0 < w.expiry := by
    have hissued' : w.issuedAt.toNat ≠ 0 := fun h => hissued (BitVec.eq_of_toNat_eq h)
    exact lt_of_lt_of_le (Nat.pos_of_ne_zero hissued') hexpiry
  rw [OffchainQuotedLinearFee.resolves, Bool.and_eq_true, decide_eq_true_eq, decide_eq_true_eq, BitVec.le_def,
    uint48_toNat htime]
  exact ⟨fun h => h.2, fun h => ⟨hpos, h⟩⟩

/-- a linear quote that is not revoked is used until it expires -/
theorem usable_linear {s : Accounts} {now : ℤ} {p p' : FeeParams} {v : FeeStandingQuoteValue} (hp : v.feeData = .linear p')
    (hmin : s.feeAccount.minIssuedAt ≤ v.issuedAt) : s.usable now (.linear p) v = true ↔ now ≤ v.expiry := by
  rw [Accounts.usable, validateQuote, if_neg (not_lt.2 hmin), hp]
  split_ifs with hexpired
  · exact ⟨fun h => (nomatch h), fun h => absurd h (not_le.2 hexpired)⟩
  · exact ⟨fun _ => not_lt.1 hexpired, fun _ => rfl⟩

section Lookup

variable {s : Accounts} {c : OffchainQuotedLinearFee} {Q : Set SvmSignedQuote} {feeData : FeeData} {timestamp : ℕ}
  {k : StandingKey} {key : UInt32 × H256}

theorem stored_none (h : c.stored key = none) : OffchainQuotedLinearFee.resolves (c.quotes key) timestamp = false := by
  unfold OffchainQuotedLinearFee.stored at h
  split_ifs at h with hblank
  rw [hblank]
  rfl

theorem stored_some {w : StoredQuote} (h : c.stored key = some w) : c.quotes key = w := by
  unfold OffchainQuotedLinearFee.stored at h
  split_ifs at h
  exact Option.some.inj h

/-- both sides find the same for a key -/
theorem resolved (p : FeeParams) (htime : timestamp < 2 ^ 48) (hmin : s.feeAccount.minIssuedAt = 0)
    (hs : Newest (quotesFor feeData Q k) (logged log k) (timestamp, s.feeAccount.minIssuedAt) (s.entry k))
    (hc : Newest OffchainQuotedLinearFee.contractQuotes (logged log' key) () (c.stored key))
    (hsame : (fun v => sealevelTerms (k, v)) '' logged log k = (fun w => contractTerms (key, w)) '' logged log' key)
    (hdates : Set.InjOn FeeStandingQuoteValue.issuedAt (logged log k)) (hdated : ∀ v ∈ logged log k, 1 ≤ v.issuedAt)
    (hexpiry : ∀ w ∈ logged log' key, w.issuedAt ≤ w.expiry) :
    Resolved timestamp (c.quotes key) ((s.entry k).filter (s.usable timestamp (.linear p))) := by
  -- the quotes of the two logs say the same
  have hback (w : StoredQuote) (hw : w ∈ logged log' key) : ∃ v ∈ logged log k, sealevelTerms (k, v) = contractTerms (key, w) := by
    have himage : contractTerms (key, w) ∈ (fun v => sealevelTerms (k, v)) '' logged log k := hsame ▸ ⟨w, hw, rfl⟩
    exact himage
  have hissued (v : FeeStandingQuoteValue) (w : StoredQuote) (hv : v ∈ logged log k)
      (hvw : sealevelTerms (k, v) = contractTerms (key, w)) : w.issuedAt ≠ 0 := by
    intro hzero
    have hone := hdated v hv
    rw [terms_date k key v w hvw, hzero] at hone
    exact absurd hone (by decide)
  cases hentry : s.entry k with
  | none =>
    change OffchainQuotedLinearFee.resolves (c.quotes key) timestamp = false
    cases hstored : c.stored key with
    | none => exact stored_none hstored
    | some w =>
      -- every accepted quote is dead
      have hw := hc.held w hstored
      obtain ⟨v, hv, hvw⟩ := hback w hw
      rw [stored_some hstored, Bool.eq_false_iff, ne_eq, resolves_iff htime (hissued v w hv hvw) (hexpiry w hw), not_le]
      obtain ⟨p', -, hterms⟩ := sealevelTerms_some hvw
      have hend : (w.expiry.toNat : ℤ) = v.expiry := congrArg StandingQuote.expiry hterms
      rcases hs.gone hentry v hv with hdead | hdead
      · exact Int.ofNat_lt.1 (hend ▸ hdead)
      · rw [hmin] at hdead
        exact absurd (hdated v hv) (not_le.2 (hdead.trans one_pos))
  | some v =>
    have hv := hs.held v hentry
    obtain ⟨w', hw', -⟩ : sealevelTerms (k, v) ∈ (fun w => contractTerms (key, w)) '' logged log' key := hsame ▸ ⟨v, hv, rfl⟩
    cases hstored : c.stored key with
    | none => exact (hc.gone hstored w' hw').elim
    | some w =>
      rw [hentry] at hs
      rw [hstored] at hc
      have hw := hc.held w rfl
      have hvw : sealevelTerms (k, v) = contractTerms (key, w) :=
        hs.agree hc hsame (fun a b hab => terms_date k key a b hab) hdates
      obtain ⟨p', hp', hterms⟩ := sealevelTerms_some hvw
      have hend : (w.expiry.toNat : ℤ) = v.expiry := congrArg StandingQuote.expiry hterms
      have hlive : s.usable timestamp (.linear p) v = true ↔ OffchainQuotedLinearFee.resolves w timestamp = true := by
        rw [usable_linear hp' (hmin ▸ zero_le_one.trans (hdated v hv)), resolves_iff htime (hissued v w hv hvw) (hexpiry w hw),
          ← hend, Nat.cast_le]
      rw [stored_some hstored, Option.filter_some]
      split_ifs with husable
      · exact ⟨p', hp', congrArg StandingQuote.maxFee hterms, congrArg StandingQuote.halfAmount hterms, hlive.1 husable⟩
      · exact Bool.eq_false_iff.2 fun h => husable (hlive.2 h)

end Lookup

/-! ## Fees -/

/-- the first lookup that finds a quote decides the fee -/
theorem fees_resolved (p : FeeParams) (amount : UInt64) {timestamp : ℕ}
    (lookups : List (Option FeeStandingQuoteValue × StoredQuote)) (h : ∀ l ∈ lookups, Resolved timestamp l.2 l.1) :
    ∃ fee : UInt64,
      (match lookups.findSome? Prod.fst with
        | some v => v.feeData.computeFee amount
        | none => (FeeDataStrategy.linear p).computeFee amount) = .ok fee ∧
      (match (lookups.map Prod.snd).find? (OffchainQuotedLinearFee.resolves · timestamp) with
        | some w => OffchainQuotedLinearFee.computeLinearFee w.maxFee w.halfAmount amount.toNat
        | none => OffchainQuotedLinearFee.computeLinearFee p.maxFee.toNat p.halfAmount.toNat amount.toNat) =
          .ok fee.toNat := by
  induction lookups with
  | nil => exact computeLinear_agrees p amount
  | cons l lookups ih =>
    obtain ⟨o, w⟩ := l
    have hfirst : Resolved timestamp w o := h _ List.mem_cons_self
    cases o with
    | none =>
      have hresolves : OffchainQuotedLinearFee.resolves w timestamp = false := hfirst
      simp only [List.findSome?_cons, List.map_cons, List.find?_cons, hresolves]
      exact ih fun l hl => h l (List.mem_cons_of_mem _ hl)
    | some v =>
      obtain ⟨p', hp', hmax, hhalf, hresolves⟩ := hfirst
      simp only [List.findSome?_cons, List.map_cons, List.find?_cons, hresolves, hp', hmax, hhalf]
      exact computeLinear_agrees p' amount

section Run

variable {C : Crypto} {recover : SignedQuote → List UInt8 → Option Address} {s : Accounts} {p : FeeParams}
  {signers : Option (List H160)}

theorem cascade_snd (s : Accounts) (now : ℤ) (strategy : FeeDataStrategy) (specific : Bool) (data : QuoteFee) :
    (s.cascade now strategy specific data).map Prod.snd =
      (s.cascadeKeys specific data).findSome? fun k => (s.entry k).filter (s.usable now strategy) := by
  rw [Accounts.cascade, List.map_findSome?]
  refine congrArg (List.findSome? · _) (funext fun k => ?_)
  rw [Function.comp_apply, Option.map_map]
  exact Option.map_id' (x := (s.entry k).filter (s.usable now strategy))

/-- the fee of a leaf -/
theorem quoteFee_leaf {now : ℤ} (payer : Pubkey) {data : QuoteFee} {fee : UInt64}
    (hleaf : s.feeAccount.feeData = .leaf ⟨.linear p, signers⟩)
    (h : (match (s.cascade now (.linear p) false data).map Prod.snd with
      | some v => v.feeData.computeFee data.amount
      | none => (FeeDataStrategy.linear p).computeFee data.amount) = .ok fee) :
    ∃ applied, s.processQuoteFee now payer none data = .ok (s, ⟨fee, applied⟩) := by
  have hstrategy : s.resolveStrategy data = .ok (some (.linear p, false)) := by rw [Accounts.resolveStrategy, hleaf]
  rw [Accounts.processQuoteFee, Accounts.verifySlot, ok_bind, hstrategy, ok_bind]
  cases hcascade : s.cascade now (.linear p) false data with
  | none =>
    rw [hcascade] at h
    have hfee : (FeeDataStrategy.linear p).computeFee data.amount = .ok fee := h
    exact ⟨none, by simp only [hcascade, hfee, ok_bind]⟩
  | some e =>
    rw [hcascade] at h
    have hfee : e.2.feeData.computeFee data.amount = .ok fee := h
    exact ⟨some e, by simp only [hcascade, hfee, ok_bind]⟩

theorem initFee_spec {key payer : Pubkey} {domainId : UInt32}
    (h : Accounts.processInitFee key payer domainId (.leaf ⟨.linear p, signers⟩) = .ok s) :
    s.feeAccount.feeData = .leaf ⟨.linear p, signers⟩ ∧ ∀ k, s.entry k = none := by
  obtain ⟨_, _, h⟩ := bind_eq_ok.1 h
  cases h
  exact ⟨rfl, fun _ => rfl⟩

theorem deployed_stored (quoteSigner : Address) (maxFee halfAmount : ℕ) (key : UInt32 × H256) :
    (OffchainQuotedLinearFee.deployed quoteSigner maxFee halfAmount).stored key = none := if_pos rfl

/-- the accepted quotes of a leaf -/
theorem leaf_keys {es : List (ℤ × Instruction)} (hleaf : s.feeAccount.feeData = .leaf ⟨.linear p, signers⟩)
    {e : StandingKey × FeeStandingQuoteValue} (he : e ∈ s.allAccepted C es) :
    e.1.targetRouter = 0 ∧ ¬(e.1.domain = WILDCARD_DOMAIN ∧ e.1.recipient = WILDCARD_RECIPIENT) := by
  obtain ⟨context, hcontext⟩ := Accounts.allAccepted_key he
  rw [hleaf] at hcontext
  exact standingKey_leaf hcontext

/-- a quote of one date is accepted on both sides or on neither -/
theorem SameQuotes.mem_back (h : SameQuotes log log') {e : (UInt32 × H256) × StoredQuote} (he : e ∈ log') :
    ∃ a ∈ log, sealevelTerms a = contractTerms e := List.mem_map.1 ((h _).2 (List.mem_map.2 ⟨e, he, rfl⟩))

theorem SameQuotes.dated (h : SameQuotes log log') (hdated : ∀ e ∈ log, 1 ≤ e.2.issuedAt) :
    ∀ e ∈ log', e.2.issuedAt ≠ 0 := by
  intro e he hzero
  obtain ⟨a, ha, hae⟩ := h.mem_back he
  have hone := hdated a ha
  rw [terms_date a.1 e.1 a.2 e.2 hae, hzero] at hone
  exact absurd hone (by decide)

theorem SameQuotes.injOn (h : SameQuotes log log') (hrouter : ∀ e ∈ log, e.1.targetRouter = 0)
    (hdates : ∀ a ∈ log, ∀ b ∈ log, a.1 = b.1 → a.2.issuedAt = b.2.issuedAt → a = b) (key : UInt32 × H256) :
    Set.InjOn OffchainQuotedLinearFee.contractQuotes.date (logged log' key) := by
  intro w hw w' hw' hdate
  obtain ⟨a, ha, haw⟩ := h.mem_back hw
  obtain ⟨b, hb, hbw⟩ := h.mem_back hw'
  have hkeyOf (a : StandingKey × FeeStandingQuoteValue) (ha : a ∈ log) (w : StoredQuote)
      (haw : sealevelTerms a = contractTerms (key, w)) : a.1 = ⟨key.1, 0, key.2⟩ := by
    obtain ⟨_, -, hterms⟩ := sealevelTerms_some haw
    have hdestination : key.1 = a.1.domain := congrArg StandingQuote.destination hterms
    have hrecipient : key.2 = a.1.recipient := congrArg StandingQuote.recipient hterms
    exact StandingKey.eq_iff.2 ⟨Prod.ext hdestination.symm (hrouter a ha), hrecipient.symm⟩
  have hkey : a.1 = b.1 := (hkeyOf a ha w haw).trans (hkeyOf b hb w' hbw).symm
  have hissued : a.2.issuedAt = b.2.issuedAt := by
    rw [terms_date a.1 key a.2 w haw, terms_date b.1 key b.2 w' hbw]
    exact hdate
  rw [hdates a ha b hb hkey hissued] at haw
  exact contractTerms_inj (haw.symm.trans hbw)

/-- **Both sides return the same fee** for every destination, recipient and 64-bit amount, after any two runs that accepted
the same quotes: of distinct dates, none issued at 0, and with no prune that lets an older quote in. -/
theorem fees_agree {key owner : Pubkey} {domainId : UInt32} {quoteSigner : Address} {Q : Set SvmSignedQuote}
    {es : List (ℤ × Instruction)} {calls : List (ℕ × OffchainQuotedLinearFee.Call)} {clock : ℤ} {timestamp : ℕ}
    {c : OffchainQuotedLinearFee} (hc : c = .deployed quoteSigner p.maxFee.toNat p.halfAmount.toNat)
    (hs : Accounts.processInitFee key owner domainId (.leaf ⟨.linear p, signers⟩) = .ok s)
    (hrun : ∀ k, Accounts.Follows C Q k s clock es) (hclock : clock ≤ timestamp) (hnow : ∀ e ∈ es, e.1 ≤ timestamp)
    (hmin : (s.run C es).feeAccount.minIssuedAt = 0) (htime : timestamp < 2 ^ 48)
    (hsame : SameQuotes (s.allAccepted C es) (c.allAccepted recover calls))
    (hdates : ∀ a ∈ s.allAccepted C es, ∀ b ∈ s.allAccepted C es, a.1 = b.1 → a.2.issuedAt = b.2.issuedAt → a = b)
    (hdated : ∀ e ∈ s.allAccepted C es, 1 ≤ e.2.issuedAt) (payer : Pubkey) (destination : UInt32)
    (recipient targetRouter : H256) (amount : UInt64) :
    ∃ fee applied,
      (s.run C es).processQuoteFee timestamp payer none ⟨destination, recipient, amount, targetRouter⟩ =
        .ok (s.run C es, ⟨fee, applied⟩) ∧
      (c.run recover calls).quoteTransferRemote timestamp destination recipient amount.toNat = .ok fee.toNat := by
  obtain ⟨hfeeData, hempty⟩ := initFee_spec hs
  have hleaf : (s.run C es).feeAccount.feeData = .leaf ⟨.linear p, signers⟩ := (Accounts.run_feeData C s es).trans hfeeData
  have hinj (k : StandingKey) : Set.InjOn FeeStandingQuoteValue.issuedAt (logged (s.allAccepted C es) k) :=
    fun v hv w hw hvw => congrArg Prod.snd (hdates _ hv _ hw rfl hvw)
  have hrouter (e : StandingKey × FeeStandingQuoteValue) (he : e ∈ s.allAccepted C es) : e.1.targetRouter = 0 :=
    (leaf_keys hfeeData he).1
  -- each side holds the newest quote of each key
  have hnewest (k : StandingKey) : Newest (quotesFor s.feeAccount.feeData Q k) (logged (s.allAccepted C es) k)
      (timestamp, (s.run C es).feeAccount.minIssuedAt) ((s.run C es).entry k) := by
    have hnil : Newest (quotesFor s.feeAccount.feeData Q k) (logged [] k) (clock, s.feeAccount.minIssuedAt) (s.entry k) := by
      rw [hempty]
      exact Newest.nil
    exact Accounts.run_newest hnil (hrun k) hclock hnow (hinj k)
  have hstored (key : UInt32 × H256) : Newest OffchainQuotedLinearFee.contractQuotes
      (logged (c.allAccepted recover calls) key) () ((c.run recover calls).stored key) := by
    have hnil : Newest OffchainQuotedLinearFee.contractQuotes (logged [] key) () (c.stored key) := by
      rw [hc, deployed_stored]
      exact Newest.nil
    exact OffchainQuotedLinearFee.run_newest hnil (hsame.dated hdated) (hsame.injOn hrouter hdates key)
  have hresolved (d : UInt32) (r : H256) : Resolved timestamp ((c.run recover calls).quotes (d, r))
      (((s.run C es).entry ⟨d, 0, r⟩).filter ((s.run C es).usable timestamp (.linear p))) :=
    resolved p htime hmin (hnewest ⟨d, 0, r⟩) (hstored (d, r)) (hsame.at_key hrouter d r) (hinj ⟨d, 0, r⟩)
      (fun v hv => hdated _ hv) (fun w hw => OffchainQuotedLinearFee.allAccepted_expiry _ hw)
  -- nothing is stored for all domains and all recipients
  have hwild : (s.run C es).entry ⟨WILDCARD_DOMAIN, 0, WILDCARD_RECIPIENT⟩ = none := by
    cases hentry : (s.run C es).entry ⟨WILDCARD_DOMAIN, 0, WILDCARD_RECIPIENT⟩ with
    | none => rfl
    | some v => exact ((leaf_keys hfeeData ((hnewest _).held v hentry)).2 ⟨rfl, rfl⟩).elim
  obtain ⟨fee, hfee, hfee'⟩ := fees_resolved p amount
    ([(destination, recipient), (destination, WILDCARD_RECIPIENT), (WILDCARD_DOMAIN, recipient)].map fun key =>
      (((s.run C es).entry ⟨key.1, 0, key.2⟩).filter ((s.run C es).usable timestamp (.linear p)),
        (c.run recover calls).quotes key))
    (by
      intro l hl
      obtain ⟨key, -, rfl⟩ := List.mem_map.1 hl
      exact hresolved key.1 key.2)
  have hcascade : ((s.run C es).cascade timestamp (.linear p) false ⟨destination, recipient, amount, targetRouter⟩).map
      Prod.snd = ([(destination, recipient), (destination, WILDCARD_RECIPIENT), (WILDCARD_DOMAIN, recipient)].map fun key =>
        (((s.run C es).entry ⟨key.1, 0, key.2⟩).filter ((s.run C es).usable timestamp (.linear p)),
          (c.run recover calls).quotes key)).findSome? Prod.fst := by
    simp only [cascade_snd, Accounts.cascadeKeys, Accounts.activeTargetRouter, Accounts.standingTargetRouter, hleaf,
      List.flatMap_cons, List.flatMap_nil, List.map_cons, List.map_nil, List.cons_append, List.nil_append,
      List.append_nil, List.findSome?_cons, List.findSome?_nil, hwild, Option.filter_none]
  rw [← hcascade] at hfee
  obtain ⟨applied, happlied⟩ := quoteFee_leaf payer hleaf hfee
  refine ⟨fee, applied, happlied, ?_⟩
  obtain ⟨hmaxFee, hhalfAmount, htransient⟩ := OffchainQuotedLinearFee.run_curve recover calls (c := c) (hc ▸ rfl)
  rw [OffchainQuotedLinearFee.quoteTransferRemote, htransient, hmaxFee, hhalfAmount, hc]
  rw [hc] at hfee'
  exact hfee'

end Run

/-! ### Where they differ -/

open Hyperlane.Bytes

def sampleSigner : Address := Word.filled 20 7

/-- the terms of `sampleQuote`, for the contract -/
def sampleCall (issuedAt expiry maxFee : ℕ) : OffchainQuotedLinearFee.Call :=
  .submitQuote sampleSigner
    ⟨be 4 42 ++ be 32 5 ++ List.replicate 32 255, be 32 maxFee ++ be 32 50, BitVec.ofNat 48 issuedAt, BitVec.ofNat 48 expiry,
      9, Word.filled 20 0⟩ []

def sampleRecover : SignedQuote → List UInt8 → Option Address := fun _ _ => some sampleSigner

def sampleSubmit (issuedAt expiry maxFee : ℕ) : Instruction := .submitQuote samplePayer (sampleQuote issuedAt expiry maxFee)

def sampleContract : OffchainQuotedLinearFee := .deployed sampleSigner 1000 500

/-- the fees of a transfer of 10, on both sides -/
def sampleFees (es : List (ℤ × Instruction)) (calls : List (ℕ × OffchainQuotedLinearFee.Call)) (timestamp : ℕ) :
    Option ℕ × Option ℕ :=
  (((sampleAccounts.run sampleCrypto es).processQuoteFee timestamp samplePayer none ⟨42, 5, 10, 0⟩).toOption.map
      fun r => r.2.fee.toNat,
    ((sampleContract.run sampleRecover calls).quoteTransferRemote timestamp 42 5 10).toOption)

def sampleSame (es : List (ℤ × Instruction)) (calls : List (ℕ × OffchainQuotedLinearFee.Call)) : Prop :=
  ((sampleAccounts.allAccepted sampleCrypto es).map sealevelTerms).Perm
    ((sampleContract.allAccepted sampleRecover calls).map contractTerms)

instance (es : List (ℤ × Instruction)) (calls : List (ℕ × OffchainQuotedLinearFee.Call)) : Decidable (sampleSame es calls) :=
  inferInstanceAs (Decidable (List.Perm _ _))

/-- a quote issued at 0, a time past 2^48, and a prune that lets an older quote in -/
theorem fees_differ :
    (sampleSame [(100, sampleSubmit 0 300 20)] [(100, sampleCall 0 300 20)] ∧
      sampleFees [(100, sampleSubmit 0 300 20)] [(100, sampleCall 0 300 20)] 110 = (some 2, some 10)) ∧
    (sampleSame [(100, sampleSubmit 100 300 20)] [(100, sampleCall 100 300 20)] ∧
      sampleFees [(100, sampleSubmit 100 300 20)] [(100, sampleCall 100 300 20)] (2 ^ 48 + 110) = (some 10, some 2)) ∧
    sampleSame pruneThenOlder [(110, sampleCall 100 1000 10), (210, sampleCall 200 300 20)] ∧
      sampleFees pruneThenOlder [(110, sampleCall 100 1000 10), (210, sampleCall 200 300 20)] 303 = (some 1, some 10) := by
  refine ⟨⟨?_, ?_⟩, ⟨?_, ?_⟩, ?_, ?_⟩
  all_goals decide +kernel

theorem fees_agree_sample :
    ∃ fee applied,
      (sampleAccounts.run sampleCrypto [(110, sampleSubmit 100 1000 10), (210, sampleSubmit 200 300 20)]).processQuoteFee 250
        samplePayer none ⟨42, 5, 10, 0⟩ =
        .ok (sampleAccounts.run sampleCrypto [(110, sampleSubmit 100 1000 10), (210, sampleSubmit 200 300 20)],
          ⟨fee, applied⟩) ∧
      (sampleContract.run sampleRecover [(120, sampleCall 100 1000 10), (200, sampleCall 200 300 20)]).quoteTransferRemote
        250 42 5 (10 : UInt64).toNat = .ok fee.toNat := by
  have hinit : Accounts.processInitFee sampleAccounts.key sampleOwner 7
      (.leaf ⟨.linear ⟨1000, 500⟩, some [sampleSigner]⟩) = .ok sampleAccounts := rfl
  have hsame : sampleSame [(110, sampleSubmit 100 1000 10), (210, sampleSubmit 200 300 20)]
      [(120, sampleCall 100 1000 10), (200, sampleCall 200 300 20)] := by decide +kernel
  have hrun (k : StandingKey) : Accounts.Follows sampleCrypto {sampleQuote 100 1000 10, sampleQuote 200 300 20} k
      sampleAccounts 0 [(110, sampleSubmit 100 1000 10), (210, sampleSubmit 200 300 20)] :=
    ⟨by decide, .inl rfl, id, by decide, .inr rfl, id, trivial⟩
  exact fees_agree rfl hinit hrun (by decide) (by decide) (by decide +kernel) (by decide) (fun q => hsame.mem_iff)
    (by decide +kernel) (by decide +kernel) samplePayer 42 5 0 10

end Hyperlane.Fee
