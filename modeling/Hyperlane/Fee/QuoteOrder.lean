/-
Standing quotes do not depend on the order in which they are submitted, and how they are resolved, for
OffchainQuotedLinearFee and OffchainQuotedIGP.

A submission that is valid offers its quote to the register of its key, which takes it if it is newer; date zero is that
of an empty slot. So a run leaves in each slot what its offers, in any order, leave there. A fee is then resolved from the
most specific slot that is active, where a slot with both wildcards is never asked.

- `storeStanding_record`: storing a standing quote is `DatedRegister.record`;
- `standing_quotes`: both contracts, over every run.
-/
import Hyperlane.Fee.OffchainQuotedIGP

namespace Hyperlane.Fee

open Hyperlane.Bytes Hyperlane.Outcome Hyperlane.DatedRegister

/-! ## What both contracts share -/

namespace AbstractOffchainQuoter

variable {K V : Type} [DecidableEq K] {issuedAt : V → BitVec 48} {storageKey : SignedQuote → Except Revert K}
  {storedQuote : SignedQuote → Except Revert V} {quotes : K → V} {sq : SignedQuote}

/-- the registers after an offer, if there is one -/
def take (issuedAt : V → BitVec 48) (quotes : K → V) : Option (K × V) → K → V
  | some offer => record (fun w => (issuedAt w).toNat) quotes offer
  | none => quotes

theorem checkQuote_spec {recover : SignedQuote → List UInt8 → Option Address} {signers : List Address} {timestamp : ℕ}
    {sender : Address} {signature : List UInt8} (h : checkQuote recover signers timestamp sender sq signature = .ok ())
    (hstanding : sq.expiry ≠ sq.issuedAt) : sq.issuedAt.toNat ≤ timestamp := by
  unfold checkQuote at h
  split at h
  · cases h
  split at h
  · cases h
  split at h
  · cases h
  rename_i hfuture
  have hle : sq.issuedAt ≤ BitVec.ofNat 48 timestamp := BitVec.not_lt.1 fun hlt => hfuture ⟨hstanding, hlt⟩
  calc sq.issuedAt.toNat ≤ (BitVec.ofNat 48 timestamp).toNat := BitVec.le_def.1 hle
    _ = timestamp % 2 ^ 48 := BitVec.toNat_ofNat _ _
    _ ≤ timestamp := Nat.mod_le _ _

omit [DecidableEq K] in
theorem offered_error (e : Revert) : offered (.error e) storageKey storedQuote sq = none := by
  unfold offered
  split
  · rfl
  · rfl

omit [DecidableEq K] in
/-- a transient quote is no offer -/
theorem offered_transient {check : Except Revert Unit} (h : sq.expiry = sq.issuedAt) :
    offered check storageKey storedQuote sq = none := if_pos h

omit [DecidableEq K] in
theorem offered_standing {check : Except Revert Unit} {offer : K × V}
    (h : offered check storageKey storedQuote sq = some offer) :
    sq.expiry ≠ sq.issuedAt ∧ check = .ok () ∧ storageKey sq = .ok offer.1 ∧ storedQuote sq = .ok offer.2 := by
  unfold offered at h
  split at h
  · cases h
  · rename_i hstanding
    split at h
    · rename_i key w hkey hvalue
      cases h
      exact ⟨hstanding, rfl, hkey, hvalue⟩
    · cases h

/-- **A standing quote that is stored** is an offer to the register of its key. -/
theorem storeStanding_record (hdate : ∀ w, storedQuote sq = .ok w → issuedAt w = sq.issuedAt) {quotes' : K → V}
    {updated : Bool} (h : storeStanding issuedAt storageKey storedQuote quotes sq = .ok (quotes', updated))
    (hstanding : sq.expiry ≠ sq.issuedAt) :
    quotes' = take issuedAt quotes (offered (.ok ()) storageKey storedQuote sq) := by
  obtain ⟨key, hkey, h⟩ := bind_eq_ok.1 h
  simp only [offered, if_neg hstanding, hkey]
  dsimp only at h
  split at h
  · cases h
  rename_i hfresh
  split at h
  · rename_i hsame
    cases h
    cases hvalue : storedQuote sq with
    | error e => rfl
    | ok w =>
      rw [take, record, if_neg]
      rw [hdate w hvalue, hsame]
      exact lt_irrefl _
  · rename_i hdiffer
    obtain ⟨w, hvalue, h⟩ := bind_eq_ok.1 h
    cases h
    rw [hvalue, take, record, if_pos]
    rw [hdate w hvalue]
    exact BitVec.lt_def.1 (BitVec.lt_of_le_ne (BitVec.not_lt.1 hfresh) (Ne.symm hdiffer))

/-- a standing quote that is rejected changes nothing if it is offered -/
theorem storeStanding_rejected (hdate : ∀ w, storedQuote sq = .ok w → issuedAt w = sq.issuedAt) {e : Revert}
    (h : storeStanding issuedAt storageKey storedQuote quotes sq = .error e) :
    take issuedAt quotes (offered (.ok ()) storageKey storedQuote sq) = quotes := by
  unfold offered
  split
  · rfl
  · split
    · rename_i key w _ hkey hvalue
      rw [take, record, if_neg]
      intro hlt
      rw [hdate w hvalue, ← BitVec.lt_def] at hlt
      rw [storeStanding, hkey, ok_bind, if_neg (BitVec.not_lt.2 (BitVec.le_of_lt hlt)), if_neg (BitVec.ne_of_lt hlt).symm,
        hvalue, ok_bind] at h
      cases h
    · rfl

/-! ### Runs -/

section Runs

variable {S C : Type} {quotesOf : S → K → V} {step : S → ℕ → C → S} {offer : S → ℕ → C → Option (K × V)}

/-- all that a run of transactions offers -/
def allOffered (step : S → ℕ → C → S) (offer : S → ℕ → C → Option (K × V)) : S → List (ℕ × C) → List (K × V)
  | _, [] => []
  | s, (timestamp, call) :: calls => (offer s timestamp call).toList ++ allOffered step offer (step s timestamp call) calls

/-- **A run** records its offers in turn. -/
theorem run_quotes (hstep : ∀ s timestamp call, quotesOf (step s timestamp call) =
    take issuedAt (quotesOf s) (offer s timestamp call)) (s : S) (calls : List (ℕ × C)) :
    quotesOf (calls.foldl (fun s e => step s e.1 e.2) s) =
      recordAll (fun w => (issuedAt w).toNat) (quotesOf s) (allOffered step offer s calls) := by
  induction calls generalizing s with
  | nil => rfl
  | cons e calls ih =>
    obtain ⟨timestamp, call⟩ := e
    rw [List.foldl_cons, ih, hstep, allOffered]
    cases offer s timestamp call with
    | none => rfl
    | some _ => rfl

omit [DecidableEq K] in
theorem allOffered_date (hoffer : ∀ s timestamp call e, offer s timestamp call = some e → (issuedAt e.2).toNat ≤ timestamp)
    {calls : List (ℕ × C)} {now : ℕ} (hnow : ∀ e ∈ calls, e.1 ≤ now) (s : S) :
    ∀ e ∈ allOffered step offer s calls, (issuedAt e.2).toNat ≤ now := by
  induction calls generalizing s with
  | nil => exact fun _ h => (List.not_mem_nil h).elim
  | cons e calls ih =>
    obtain ⟨timestamp, call⟩ := e
    intro e he
    rcases List.mem_append.1 he with hfirst | hrest
    · exact (hoffer s timestamp call e (Option.mem_toList.1 hfirst)).trans (hnow _ List.mem_cons_self)
    · exact ih (fun e he => hnow e (List.mem_cons_of_mem _ he)) _ e hrest

end Runs

end AbstractOffchainQuoter

/-- what a run of offers leaves, from empty slots of date zero: the newest offer of each key -/
def HoldsNewest {K V : Type} (issuedAt : V → BitVec 48) (blank : V) (offers : List (K × V)) (quotes : K → V) : Prop :=
  ∀ key, (quotes key = blank ∧ ∀ w, (key, w) ∈ offers → issuedAt w = 0) ∨
    ((key, quotes key) ∈ offers ∧ ∀ w, (key, w) ∈ offers → issuedAt w ≤ issuedAt (quotes key))

/-- of the covered keys that are active, the most specific one gives the result; the fallback does if there is none -/
def ResolvesTo {K R : Type} (covered : K → Prop) (active : K → Bool) (specificity : K → ℕ) (value : K → R) (fallback result : R) :
    Prop :=
  (∃ key, covered key ∧ active key = true ∧
      (∀ key', covered key' → active key' = true → specificity key ≤ specificity key') ∧ result = value key) ∨
    (∀ key, covered key → active key = false) ∧ result = fallback

section Registers

variable {K V R : Type} [DecidableEq K] {issuedAt : V → BitVec 48} {blank : V} {offers offers' : List (K × V)}

theorem recordAll_holdsNewest (hblank : issuedAt blank = 0) : HoldsNewest issuedAt blank offers
    (recordAll (fun w => (issuedAt w).toNat) (fun _ => blank) offers) := by
  intro key
  obtain ⟨hheld, hnewest⟩ :=
    recordAll_newest (fun w => (issuedAt w).toNat) (fun _ => blank) offers key
  rcases hheld with hsame | ⟨hmem, -⟩
  · refine .inl ⟨hsame, fun w hw => ?_⟩
    have hle := hnewest w hw
    rw [hsame, hblank] at hle
    exact BitVec.eq_of_toNat_eq (Nat.le_zero.1 hle)
  · exact .inr ⟨hmem, fun w hw => BitVec.le_def.2 (hnewest w hw)⟩

theorem recordAll_order (hsame : ∀ offer, offer ∈ offers ↔ offer ∈ offers')
    (hdates : ∀ key, Set.InjOn issuedAt (logged offers key)) :
    recordAll (fun w => (issuedAt w).toNat) (fun _ => blank) offers =
      recordAll (fun w => (issuedAt w).toNat) (fun _ => blank) offers' := by
  funext key
  refine recordAll_congr rfl (fun w => hsame (key, w)) fun w hw w' hw' heq => ?_
  exact hdates key hw hw' (BitVec.eq_of_toNat_eq heq)

/-- a cascade over a list of keys -/
theorem find?_resolvesTo {keys : List K} {covered : K → Prop} {active : K → Bool} {specificity : K → ℕ} {value : K → R}
    {fallback : R} (hcovered : ∀ key, covered key ↔ key ∈ keys) (hspecific : ∀ key ∈ keys, specificity key = keys.idxOf key) :
    ResolvesTo covered active specificity value fallback ((keys.find? active).elim fallback value) := by
  cases hfind : keys.find? active with
  | none =>
    refine .inr ⟨fun key hkey => ?_, rfl⟩
    exact Bool.eq_false_iff.2 (List.find?_eq_none.1 hfind key ((hcovered key).1 hkey))
  | some key =>
    have hmem := List.mem_of_find?_eq_some hfind
    refine .inl ⟨key, (hcovered key).2 hmem, List.find?_some hfind, fun key' hkey' hactive => ?_, rfl⟩
    have hmem' := (hcovered key').1 hkey'
    rw [hspecific key hmem, hspecific key' hmem']
    exact find?_first hfind key' hmem' hactive

end Registers

section Runs

open AbstractOffchainQuoter

variable {K V S C : Type} [DecidableEq K] {issuedAt : V → BitVec 48} {blank : V} {quotesOf : S → K → V}
  {step : S → ℕ → C → S} {offer : S → ℕ → C → Option (K × V)} {s s' : S} {calls calls' : List (ℕ × C)}

/-- a run from empty slots -/
theorem run_recordAll (hstep : ∀ s timestamp call, quotesOf (step s timestamp call) =
    take issuedAt (quotesOf s) (offer s timestamp call)) (hblank : quotesOf s = fun _ => blank) :
    quotesOf (calls.foldl (fun s e => step s e.1 e.2) s) =
      recordAll (fun w => (issuedAt w).toNat) (fun _ => blank) (allOffered step offer s calls) := by
  rw [← hblank]
  exact run_quotes hstep s calls

theorem run_holdsNewest (hstep : ∀ s timestamp call, quotesOf (step s timestamp call) =
    take issuedAt (quotesOf s) (offer s timestamp call)) (hblank : quotesOf s = fun _ => blank) (hdate : issuedAt blank = 0) :
    HoldsNewest issuedAt blank (allOffered step offer s calls) (quotesOf (calls.foldl (fun s e => step s e.1 e.2) s)) := by
  rw [run_recordAll hstep hblank]
  exact recordAll_holdsNewest hdate

theorem run_order (hstep : ∀ s timestamp call, quotesOf (step s timestamp call) =
    take issuedAt (quotesOf s) (offer s timestamp call)) (hblank : quotesOf s = fun _ => blank)
    (hblank' : quotesOf s' = fun _ => blank)
    (hsame : ∀ x, x ∈ allOffered step offer s calls ↔ x ∈ allOffered step offer s' calls')
    (hdates : ∀ key, Set.InjOn issuedAt (logged (allOffered step offer s calls) key)) :
    quotesOf (calls.foldl (fun s e => step s e.1 e.2) s) = quotesOf (calls'.foldl (fun s e => step s e.1 e.2) s') := by
  rw [run_recordAll hstep hblank, run_recordAll hstep hblank']
  exact recordAll_order hsame hdates

omit [DecidableEq K] in
/-- no slot is dated ahead of the clock if no offer is -/
theorem HoldsNewest.clock {quotes : K → V} (h : HoldsNewest issuedAt blank (allOffered step offer s calls) quotes)
    (hdate : issuedAt blank = 0)
    (hoffer : ∀ s timestamp call e, offer s timestamp call = some e → (issuedAt e.2).toNat ≤ timestamp) {now : ℕ}
    (hnow : ∀ e ∈ calls, e.1 ≤ now) (key : K) : (issuedAt (quotes key)).toNat ≤ now := by
  rcases h key with ⟨hempty, -⟩ | ⟨hmem, -⟩
  · rw [hempty, hdate]
    exact Nat.zero_le _
  · exact allOffered_date hoffer hnow s _ hmem

end Runs

/-! ## OffchainQuotedLinearFee -/

namespace OffchainQuotedLinearFee

variable {recover : SignedQuote → List UInt8 → Option Address} {c : OffchainQuotedLinearFee}

theorem storeStanding_eq (c : OffchainQuotedLinearFee) (sq : SignedQuote) : c.storeStanding sq =
    (AbstractOffchainQuoter.storeStanding StoredQuote.issuedAt storageKey storedQuote c.quotes sq).map
      fun r => ({ c with quotes := r.1 }, r.2) := by
  unfold storeStanding AbstractOffchainQuoter.storeStanding
  cases storageKey sq with
  | error e => rfl
  | ok key =>
    simp only [ok_bind]
    split_ifs
    · rfl
    · rfl
    · cases storedQuote sq with
      | error e => rfl
      | ok w => rfl

/-- the standing quote that a valid submission offers -/
def offered (recover : SignedQuote → List UInt8 → Option Address) (c : OffchainQuotedLinearFee) (timestamp : ℕ) :
    Call → Option ((UInt32 × H256) × StoredQuote)
  | .submitQuote sender sq signature =>
    AbstractOffchainQuoter.offered (c.checkQuote recover timestamp sender sq signature) storageKey storedQuote sq
  | _ => none

/-- all that a run offers -/
def allOffered (recover : SignedQuote → List UInt8 → Option Address) (c : OffchainQuotedLinearFee)
    (calls : List (ℕ × Call)) : List ((UInt32 × H256) × StoredQuote) :=
  AbstractOffchainQuoter.allOffered (fun c => c.step recover) (fun c => c.offered recover) c calls

/-- **A transaction** offers its quote to the registers. -/
theorem step_quotes (c : OffchainQuotedLinearFee) (timestamp : ℕ) (call : Call) : (c.step recover timestamp call).quotes =
    AbstractOffchainQuoter.take StoredQuote.issuedAt c.quotes (c.offered recover timestamp call) := by
  cases call with
  | addQuoteSigner signer => rfl
  | removeQuoteSigner signer => rfl
  | submitQuote sender sq signature =>
    have hdate : ∀ w, storedQuote sq = .ok w → w.issuedAt = sq.issuedAt := fun w hw => (storedQuote_spec hw).1
    simp only [step, offered, submitQuote]
    cases hcheck : c.checkQuote recover timestamp sender sq signature with
    | error e =>
      rw [error_bind, AbstractOffchainQuoter.offered_error]
      rfl
    | ok u =>
      rw [ok_bind]
      by_cases hstanding : sq.expiry = sq.issuedAt
      · rw [if_pos hstanding, AbstractOffchainQuoter.offered_transient hstanding]
        cases htransient : c.storeTransient sq with
        | error e => rfl
        | ok c' => exact (storeTransient_quotes htransient).1
      · rw [if_neg hstanding, storeStanding_eq]
        cases hstore : AbstractOffchainQuoter.storeStanding StoredQuote.issuedAt storageKey storedQuote c.quotes sq with
        | error e => exact (AbstractOffchainQuoter.storeStanding_rejected hdate hstore).symm
        | ok r => exact AbstractOffchainQuoter.storeStanding_record hdate hstore hstanding

/-- a quote that is offered is not dated later than the clock -/
theorem offered_date {timestamp : ℕ} {call : Call} {offer : (UInt32 × H256) × StoredQuote}
    (h : c.offered recover timestamp call = some offer) : offer.2.issuedAt.toNat ≤ timestamp := by
  cases call with
  | addQuoteSigner signer => cases h
  | removeQuoteSigner signer => cases h
  | submitQuote sender sq signature =>
    obtain ⟨hstanding, hcheck, -, hvalue⟩ := AbstractOffchainQuoter.offered_standing h
    rw [(storedQuote_spec hvalue).1]
    exact AbstractOffchainQuoter.checkQuote_spec hcheck hstanding

/-- a key covers a transfer by equality or wildcard -/
def Covers (destination : UInt32) (recipient : H256) (key : UInt32 × H256) : Prop :=
  (key.1 = destination ∨ key.1 = WILDCARD_DOMAIN) ∧ (key.2 = recipient ∨ key.2 = WILDCARD_RECIPIENT)

/-- the place of a key among those that cover a transfer -/
def specificity (destination : UInt32) (recipient : H256) (key : UInt32 × H256) : ℕ :=
  if key = (destination, recipient) then 0
  else if key = (destination, WILDCARD_RECIPIENT) then 1
  else if key = (WILDCARD_DOMAIN, recipient) then 2
  else 3

/-- **Resolution**: the keys that cover a transfer are asked, but for one of two wildcards. -/
theorem quoteTransferRemote_resolves (c : OffchainQuotedLinearFee) (timestamp : ℕ) (destination : UInt32) (recipient : H256)
    (amount : ℕ) (htransient : c.transient.filter (matchesTransient · destination recipient amount) = none) :
    ResolvesTo (fun key => Covers destination recipient key ∧ (key.1 = destination ∨ key.2 = recipient))
      (fun key => resolves (c.quotes key) timestamp) (specificity destination recipient)
      (fun key => computeLinearFee (c.quotes key).maxFee (c.quotes key).halfAmount amount)
      (computeLinearFee c.maxFee c.halfAmount amount) (c.quoteTransferRemote timestamp destination recipient amount) := by
  have hcascade : c.quoteTransferRemote timestamp destination recipient amount =
      (([(destination, recipient), (destination, WILDCARD_RECIPIENT), (WILDCARD_DOMAIN, recipient)].find?
        fun key => resolves (c.quotes key) timestamp).elim (computeLinearFee c.maxFee c.halfAmount amount)
          fun key => computeLinearFee (c.quotes key).maxFee (c.quotes key).halfAmount amount) := by
    unfold quoteTransferRemote
    rw [htransient, List.find?_map, Function.comp_def]
    generalize List.find? _ _ = found
    cases found with
    | none => rfl
    | some key => rfl
  rw [hcascade]
  refine find?_resolvesTo (fun key => ?_) fun key hkey => ?_
  · obtain ⟨d, r⟩ := key
    simp only [Covers, List.mem_cons, Prod.mk.injEq, List.not_mem_nil, or_false]
    grind
  · unfold specificity
    simp only [List.idxOf_cons, List.idxOf_nil]
    grind

/-- standing quotes of a new contract after any run -/
structure StandingQuotes (recover : SignedQuote → List UInt8 → Option Address) (c : OffchainQuotedLinearFee)
    (calls : List (ℕ × Call)) : Prop where
  /-- each slot holds the newest quote that was submitted while valid; date zero is that of an empty slot -/
  newest : HoldsNewest StoredQuote.issuedAt .blank (c.allOffered recover calls) (c.run recover calls).quotes
  /-- any other run that offers the same quotes, of distinct dates for each key, leaves the same -/
  order : ∀ (c' : OffchainQuotedLinearFee) (calls' : List (ℕ × Call)), (c'.quotes = fun _ => .blank) →
    (∀ offer, offer ∈ c.allOffered recover calls ↔ offer ∈ c'.allOffered recover calls') →
      (∀ key, Set.InjOn StoredQuote.issuedAt (logged (c.allOffered recover calls) key)) →
        (c.run recover calls).quotes = (c'.run recover calls').quotes
  clock : ∀ now, (∀ e ∈ calls, e.1 ≤ now) → ∀ key, ((c.run recover calls).quotes key).issuedAt.toNat ≤ now
  /-- a transfer in a transaction without a transient quote for it -/
  resolution : ∀ (transient : Option TransientStorage) (timestamp : ℕ) (destination : UInt32) (recipient : H256) (amount : ℕ),
    transient.filter (matchesTransient · destination recipient amount) = none →
      ResolvesTo (fun key => Covers destination recipient key ∧ (key.1 = destination ∨ key.2 = recipient))
        (fun key => resolves ((c.run recover calls).quotes key) timestamp) (specificity destination recipient)
        (fun key => computeLinearFee ((c.run recover calls).quotes key).maxFee
          ((c.run recover calls).quotes key).halfAmount amount)
        (computeLinearFee c.maxFee c.halfAmount amount)
        ({ c.run recover calls with transient := transient }.quoteTransferRemote timestamp destination recipient amount)

theorem run_standingQuotes (recover : SignedQuote → List UInt8 → Option Address) {c : OffchainQuotedLinearFee}
    (hblank : c.quotes = fun _ => .blank) (htransient : c.transient = none) (calls : List (ℕ × Call)) :
    StandingQuotes recover c calls := by
  have hnewest : HoldsNewest StoredQuote.issuedAt .blank (c.allOffered recover calls) (c.run recover calls).quotes :=
    run_holdsNewest step_quotes hblank rfl
  refine ⟨hnewest, fun c' calls' hblank' => run_order step_quotes hblank hblank', fun now hnow key => ?_, ?_⟩
  · exact hnewest.clock rfl (fun c _ _ _ => offered_date) hnow key
  · intro transient timestamp destination recipient amount hnone
    obtain ⟨hmax, hhalf, -⟩ := run_curve recover calls htransient
    have hresolves := quoteTransferRemote_resolves { c.run recover calls with transient := transient } timestamp destination
      recipient amount hnone
    rw [← hmax, ← hhalf]
    exact hresolves

end OffchainQuotedLinearFee

/-! ## OffchainQuotedIGP -/

namespace OffchainQuotedIGP

variable {recover : SignedQuote → List UInt8 → Option Address} {c c' : OffchainQuotedIGP}

theorem storedQuote_spec {sq : SignedQuote} {w : StoredGasQuote} (h : storedQuote sq = .ok w) :
    w.issuedAt = sq.issuedAt := by
  obtain ⟨_, _, h⟩ := bind_eq_ok.1 h
  cases h
  rfl

theorem storeTransient_quotes {sq : SignedQuote} (h : c.storeTransient sq = .ok c') :
    c'.offchainQuotes = c.offchainQuotes := by
  obtain ⟨_, _, h⟩ := bind_eq_ok.1 h
  obtain ⟨_, _, h⟩ := bind_eq_ok.1 h
  cases h
  rfl

/-- the standing quote that a valid submission offers -/
def offered (recover : SignedQuote → List UInt8 → Option Address) (c : OffchainQuotedIGP) (timestamp : ℕ) :
    Call → Option (GasKey × StoredGasQuote)
  | .submitQuote sender sq signature =>
    AbstractOffchainQuoter.offered (AbstractOffchainQuoter.checkQuote recover c.signers timestamp sender sq signature)
      (fun sq => decodeContext sq.context) storedQuote sq
  | _ => none

/-- all that a run offers -/
def allOffered (recover : SignedQuote → List UInt8 → Option Address) (c : OffchainQuotedIGP) (calls : List (ℕ × Call)) :
    List (GasKey × StoredGasQuote) :=
  AbstractOffchainQuoter.allOffered (fun c => c.step recover) (fun c => c.offered recover) c calls

/-- **A transaction** offers its quote to the registers. -/
theorem step_quotes (c : OffchainQuotedIGP) (timestamp : ℕ) (call : Call) : (c.step recover timestamp call).offchainQuotes =
    AbstractOffchainQuoter.take StoredGasQuote.issuedAt c.offchainQuotes (c.offered recover timestamp call) := by
  cases call with
  | addQuoteSigner signer => rfl
  | removeQuoteSigner signer => rfl
  | setTokenGasOracle feeToken destination oracle => rfl
  | submitQuote sender sq signature =>
    have hdate : ∀ w, storedQuote sq = .ok w → w.issuedAt = sq.issuedAt := fun w hw => storedQuote_spec hw
    simp only [step, offered, submitQuote]
    cases hcheck : AbstractOffchainQuoter.checkQuote recover c.signers timestamp sender sq signature with
    | error e =>
      rw [error_bind, AbstractOffchainQuoter.offered_error]
      rfl
    | ok u =>
      rw [ok_bind]
      by_cases hstanding : sq.expiry = sq.issuedAt
      · rw [if_pos hstanding, AbstractOffchainQuoter.offered_transient hstanding]
        cases htransient : c.storeTransient sq with
        | error e => rfl
        | ok c' =>
          have hsame := storeTransient_quotes htransient
          exact hsame
      · rw [if_neg hstanding, storeStanding]
        cases hstore : AbstractOffchainQuoter.storeStanding StoredGasQuote.issuedAt (fun sq => decodeContext sq.context)
          storedQuote c.offchainQuotes sq with
        | error e => exact (AbstractOffchainQuoter.storeStanding_rejected hdate hstore).symm
        | ok r => exact AbstractOffchainQuoter.storeStanding_record hdate hstore hstanding

/-- a quote that is offered is not dated later than the clock -/
theorem offered_date {timestamp : ℕ} {call : Call} {offer : GasKey × StoredGasQuote}
    (h : c.offered recover timestamp call = some offer) : offer.2.issuedAt.toNat ≤ timestamp := by
  cases call with
  | addQuoteSigner signer => cases h
  | removeQuoteSigner signer => cases h
  | setTokenGasOracle feeToken destination oracle => cases h
  | submitQuote sender sq signature =>
    rw [offered] at h
    obtain ⟨hstanding, hcheck, -, hvalue⟩ := AbstractOffchainQuoter.offered_standing h
    rw [storedQuote_spec hvalue]
    exact AbstractOffchainQuoter.checkQuote_spec hcheck hstanding

/-- a key covers a dispatch by equality or wildcard; the fee token has no wildcard -/
def Covers (feeToken : Address) (destination : UInt32) (sender : Address) (key : GasKey) : Prop :=
  key.1 = feeToken ∧ (key.2.1 = destination ∨ key.2.1 = WILDCARD_DOMAIN) ∧
    (key.2.2 = sender ∨ key.2.2 = WILDCARD_SENDER)

/-- the place of a key among those that cover a dispatch -/
def specificity (feeToken : Address) (destination : UInt32) (sender : Address) (key : GasKey) : ℕ :=
  if key = (feeToken, destination, sender) then 0
  else if key = (feeToken, destination, WILDCARD_SENDER) then 1
  else if key = (feeToken, WILDCARD_DOMAIN, sender) then 2
  else 3

/-- **Resolution**: the keys that cover a dispatch are asked, but for one of two wildcards. -/
theorem resolveExchangeRateAndGasPrice_resolves (c : OffchainQuotedIGP) (timestamp : ℕ) (feeToken : Address)
    (destination : UInt32) (sender : Address)
    (htransient : c.transient.filter (matchesTransient · feeToken destination sender) = none) :
    ResolvesTo (fun key => Covers feeToken destination sender key ∧ (key.2.1 = destination ∨ key.2.2 = sender))
      (fun key => isActive (c.offchainQuotes key) timestamp) (specificity feeToken destination sender)
      (fun key => .ok ((c.offchainQuotes key).tokenExchangeRate, (c.offchainQuotes key).gasPrice))
      (c.getExchangeRateAndGasPrice feeToken destination)
      (c.resolveExchangeRateAndGasPrice timestamp feeToken destination sender) := by
  have hcascade : c.resolveExchangeRateAndGasPrice timestamp feeToken destination sender =
      (([(feeToken, destination, sender), (feeToken, destination, WILDCARD_SENDER),
          (feeToken, WILDCARD_DOMAIN, sender)].find? fun key => isActive (c.offchainQuotes key) timestamp).elim
        (c.getExchangeRateAndGasPrice feeToken destination)
          fun key => .ok ((c.offchainQuotes key).tokenExchangeRate, (c.offchainQuotes key).gasPrice)) := by
    unfold resolveExchangeRateAndGasPrice resolveOffchainQuote
    rw [htransient, List.find?_map, Function.comp_def]
    generalize List.find? _ _ = found
    cases found with
    | none => rfl
    | some key => rfl
  rw [hcascade]
  refine find?_resolvesTo (fun key => ?_) fun key hkey => ?_
  · obtain ⟨t, d, r⟩ := key
    simp only [Covers, List.mem_cons, Prod.mk.injEq, List.not_mem_nil, or_false]
    grind
  · unfold specificity
    simp only [List.idxOf_cons, List.idxOf_nil]
    grind

/-- standing quotes of a new contract after any run -/
structure StandingQuotes (recover : SignedQuote → List UInt8 → Option Address) (c : OffchainQuotedIGP)
    (calls : List (ℕ × Call)) : Prop where
  /-- each slot holds the newest quote that was submitted while valid; date zero is that of an empty slot -/
  newest : HoldsNewest StoredGasQuote.issuedAt .blank (c.allOffered recover calls) (c.run recover calls).offchainQuotes
  /-- any other run that offers the same quotes, of distinct dates for each key, leaves the same -/
  order : ∀ (c' : OffchainQuotedIGP) (calls' : List (ℕ × Call)), (c'.offchainQuotes = fun _ => .blank) →
    (∀ offer, offer ∈ c.allOffered recover calls ↔ offer ∈ c'.allOffered recover calls') →
      (∀ key, Set.InjOn StoredGasQuote.issuedAt (logged (c.allOffered recover calls) key)) →
        (c.run recover calls).offchainQuotes = (c'.run recover calls').offchainQuotes
  clock : ∀ now, (∀ e ∈ calls, e.1 ≤ now) → ∀ key, ((c.run recover calls).offchainQuotes key).issuedAt.toNat ≤ now
  /-- a dispatch in a transaction without a transient quote for it -/
  resolution : ∀ (transient : Option TransientGasQuote) (timestamp : ℕ) (feeToken : Address) (destination : UInt32)
    (sender : Address), transient.filter (matchesTransient · feeToken destination sender) = none →
      ResolvesTo (fun key => Covers feeToken destination sender key ∧ (key.2.1 = destination ∨ key.2.2 = sender))
        (fun key => isActive ((c.run recover calls).offchainQuotes key) timestamp) (specificity feeToken destination sender)
        (fun key => .ok (((c.run recover calls).offchainQuotes key).tokenExchangeRate,
          ((c.run recover calls).offchainQuotes key).gasPrice))
        ((c.run recover calls).getExchangeRateAndGasPrice feeToken destination)
        ({ c.run recover calls with transient := transient }.resolveExchangeRateAndGasPrice timestamp feeToken destination sender)

theorem run_standingQuotes (recover : SignedQuote → List UInt8 → Option Address) {c : OffchainQuotedIGP}
    (hblank : c.offchainQuotes = fun _ => .blank) (calls : List (ℕ × Call)) : StandingQuotes recover c calls := by
  have hnewest : HoldsNewest StoredGasQuote.issuedAt .blank (c.allOffered recover calls)
      (c.run recover calls).offchainQuotes := run_holdsNewest step_quotes hblank rfl
  refine ⟨hnewest, fun c' calls' hblank' => run_order step_quotes hblank hblank', fun now hnow key => ?_, ?_⟩
  · exact hnewest.clock rfl (fun c _ _ _ => offered_date) hnow key
  · intro transient timestamp feeToken destination sender hnone
    exact resolveExchangeRateAndGasPrice_resolves { c.run recover calls with transient := transient } timestamp feeToken
      destination sender hnone

end OffchainQuotedIGP

/-- **Standing quotes** of both contracts: independent of the order of submission, never dated ahead of the clock, and
resolved from the most specific active slot that covers the request, unless by two wildcards. -/
theorem standing_quotes (recover : SignedQuote → List UInt8 → Option Address) :
    (∀ quoteSigner maxFee halfAmount calls,
      OffchainQuotedLinearFee.StandingQuotes recover (.deployed quoteSigner maxFee halfAmount) calls) ∧
      ∀ signers calls, OffchainQuotedIGP.StandingQuotes recover (.deployed signers) calls :=
  ⟨fun _ _ _ calls => OffchainQuotedLinearFee.run_standingQuotes recover rfl rfl calls,
    fun _ calls => OffchainQuotedIGP.run_standingQuotes recover rfl calls⟩

/-! ### Two wildcards, and date zero -/

namespace OffchainQuotedLinearFee

def quoteSigner : Address := Word.filled 20 7

/-- a maximum fee of 200 at half amount 50 -/
def wildcardQuote (destination : UInt32) (issuedAt : BitVec 48) : SignedQuote :=
  ⟨be 4 destination.toNat ++ List.replicate 64 255, be 32 200 ++ be 32 50, issuedAt, 100, 0, Word.filled 20 0⟩

/-- a contract with the curve of maximum 1000 and half amount 500, after a submission at time 10 -/
def submitted (sq : SignedQuote) : OffchainQuotedLinearFee :=
  (deployed quoteSigner 1000 500).run (fun _ _ => some quoteSigner) [(10, .submitQuote quoteSigner sq [])]

/-- the quote for all domains and recipients is stored and active, and a transfer of 10 pays 10, not the 20 it asks for; a
quote dated zero is offered, and its slot stays empty -/
theorem wildcards_unresolved :
    (¬ResolvesTo (Covers 42 5) (fun key => resolves ((submitted (wildcardQuote WILDCARD_DOMAIN 5)).quotes key) 11)
        (specificity 42 5)
        (fun key => computeLinearFee ((submitted (wildcardQuote WILDCARD_DOMAIN 5)).quotes key).maxFee
          ((submitted (wildcardQuote WILDCARD_DOMAIN 5)).quotes key).halfAmount 10)
        (computeLinearFee 1000 500 10) ((submitted (wildcardQuote WILDCARD_DOMAIN 5)).quoteTransferRemote 11 42 5 10)) ∧
      ((deployed quoteSigner 1000 500).allOffered (fun _ _ => some quoteSigner)
          [(10, .submitQuote quoteSigner (wildcardQuote 42 0) [])] = [((42, WILDCARD_RECIPIENT), ⟨200, 50, 0, 100⟩)] ∧
        (submitted (wildcardQuote 42 0)).quotes (42, WILDCARD_RECIPIENT) = .blank) := by
  refine ⟨?_, by decide +kernel, by decide +kernel⟩
  rintro (⟨key, hcovers, hactive, -, hresult⟩ | ⟨hnone, -⟩)
  · obtain ⟨d, r⟩ := key
    obtain ⟨rfl | rfl, rfl | rfl⟩ := hcovers
    · exact absurd hactive (by decide +kernel)
    · exact absurd hactive (by decide +kernel)
    · exact absurd hactive (by decide +kernel)
    · exact absurd hresult (by decide +kernel)
  · exact absurd (hnone (WILDCARD_DOMAIN, WILDCARD_RECIPIENT) ⟨.inr rfl, .inr rfl⟩) (by decide +kernel)

end OffchainQuotedLinearFee

end Hyperlane.Fee
