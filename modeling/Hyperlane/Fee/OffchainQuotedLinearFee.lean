/-
The contract OffchainQuotedLinearFee (solidity/contracts/token/fees, libs/AbstractOffchainQuoter.sol): signed quotes in a
mapping by destination and recipient, and the fee of a transfer.

- `submitQuote`, `quoteTransferRemote`: the contract.
- `storeStanding_spec`: what a submission does to the mapping.
- `run_newest`: the quote that is stored for a key is the newest one accepted.
-/
import Hyperlane.Core.DatedRegister
import Hyperlane.Core.Outcome
import Hyperlane.Fee.FeeProgram

namespace Hyperlane.Fee

open Hyperlane.Bytes Hyperlane.Outcome Hyperlane.DatedRegister

abbrev Address := H160

inductive Revert where
  | invalidQuote | quoteExpired | invalidSubmitter | invalidSigner | staleQuote
  | standingQuoteAmountMustBeWildcard | badLength | overflow
deriving DecidableEq

/-- `issuedAt` and `expiry` are `uint48` -/
structure SignedQuote where
  context : List UInt8
  data : List UInt8
  issuedAt : BitVec 48
  expiry : BitVec 48
  salt : H256
  submitter : Address

/-- the values of a quote: `maxFee` and `halfAmount` are `uint256` -/
structure StoredQuote where
  maxFee : ℕ
  halfAmount : ℕ
  issuedAt : BitVec 48
  expiry : BitVec 48
deriving DecidableEq

/-- a slot that was never written -/
def StoredQuote.blank : StoredQuote := ⟨0, 0, 0, 0⟩

structure TransientStorage where
  destination : UInt32
  recipient : H256
  amount : ℕ
  maxFee : ℕ
  halfAmount : ℕ

structure OffchainQuotedLinearFee where
  signers : List Address
  maxFee : ℕ
  halfAmount : ℕ
  quotes : UInt32 × H256 → StoredQuote
  transient : Option TransientStorage

namespace OffchainQuotedLinearFee

/-- `type(uint256).max` -/
def WILDCARD_AMOUNT : ℕ := 2 ^ 256 - 1

/-- a contract without quotes -/
def deployed (quoteSigner : Address) (maxFee halfAmount : ℕ) : OffchainQuotedLinearFee :=
  ⟨[quoteSigner], maxFee, halfAmount, fun _ => .blank, none⟩

/-- `FeeQuoteContext.decode` -/
def decodeContext (ctx : List UInt8) : Except Revert (UInt32 × H256 × ℕ) :=
  if ctx.length = 68 then
    .ok (UInt32.ofNat (ofBe (ctx.take 4)), BitVec.ofNat 256 (ofBe ((ctx.drop 4).take 32)), ofBe ((ctx.drop 36).take 32))
  else .error .badLength

/-- `FeeQuoteData.decode` -/
def decodeData (data : List UInt8) : Except Revert (ℕ × ℕ) :=
  if data.length = 64 then .ok (ofBe (data.take 32), ofBe ((data.drop 32).take 32)) else .error .badLength

/-- a checked `uint256` product -/
def mul (a b : ℕ) : Except Revert ℕ := if a * b < 2 ^ 256 then .ok (a * b) else .error .overflow

/-- `LinearFee._computeLinearFee` -/
def computeLinearFee (maxFee halfAmount amount : ℕ) : Except Revert ℕ :=
  if maxFee = 0 ∨ halfAmount = 0 then .ok 0
  else do
    let product ← mul amount maxFee
    let denominator ← mul 2 halfAmount
    let uncapped := product / denominator
    .ok (if maxFee < uncapped then maxFee else uncapped)

/-! ## Submissions -/

def storeTransient (c : OffchainQuotedLinearFee) (sq : SignedQuote) : Except Revert OffchainQuotedLinearFee := do
  let (destination, recipient, amount) ← decodeContext sq.context
  let (maxFee, halfAmount) ← decodeData sq.data
  .ok { c with transient := some ⟨destination, recipient, amount, maxFee, halfAmount⟩ }

/-- the key of a standing quote -/
def storageKey (sq : SignedQuote) : Except Revert (UInt32 × H256) := do
  let (destination, recipient, amount) ← decodeContext sq.context
  if amount ≠ WILDCARD_AMOUNT then .error .standingQuoteAmountMustBeWildcard else .ok (destination, recipient)

/-- the value of a standing quote -/
def storedQuote (sq : SignedQuote) : Except Revert StoredQuote := do
  let (maxFee, halfAmount) ← decodeData sq.data
  .ok ⟨maxFee, halfAmount, sq.issuedAt, sq.expiry⟩

def storeStanding (c : OffchainQuotedLinearFee) (sq : SignedQuote) : Except Revert (OffchainQuotedLinearFee × Bool) := do
  let key ← storageKey sq
  let existing := c.quotes key
  if sq.issuedAt < existing.issuedAt then .error .staleQuote
  else if sq.issuedAt = existing.issuedAt then .ok (c, false)
  else do
    let stored ← storedQuote sq
    .ok ({ c with quotes := Function.update c.quotes key stored }, true)

/-- `recover` is `ECDSA.recover` of the typed-data digest of a quote -/
def verifyQuoteSigner (recover : SignedQuote → List UInt8 → Option Address) (c : OffchainQuotedLinearFee) (sq : SignedQuote)
    (signature : List UInt8) : Except Revert Unit :=
  match recover sq signature with
  | some signer => if signer ∈ c.signers then .ok () else .error .invalidSigner
  | none => .error .invalidSigner

/-- the checks that a quote passes before it is stored -/
def checkQuote (recover : SignedQuote → List UInt8 → Option Address) (c : OffchainQuotedLinearFee) (timestamp : ℕ)
    (sender : Address) (sq : SignedQuote) (signature : List UInt8) : Except Revert Unit :=
  if sq.expiry < sq.issuedAt then .error .invalidQuote
  else if sq.expiry < BitVec.ofNat 48 timestamp then .error .quoteExpired
  else if sq.expiry ≠ sq.issuedAt ∧ BitVec.ofNat 48 timestamp < sq.issuedAt then .error .invalidQuote
  else if sq.submitter.1 ≠ List.replicate 20 0 ∧ sender ≠ sq.submitter then .error .invalidSubmitter
  else c.verifyQuoteSigner recover sq signature

def submitQuote (recover : SignedQuote → List UInt8 → Option Address) (c : OffchainQuotedLinearFee) (timestamp : ℕ)
    (sender : Address) (sq : SignedQuote) (signature : List UInt8) : Except Revert OffchainQuotedLinearFee := do
  c.checkQuote recover timestamp sender sq signature
  if sq.expiry = sq.issuedAt then c.storeTransient sq
  else do
    let (c', _) ← c.storeStanding sq
    .ok c'

/-! ## Fees -/

def matchesTransient (t : TransientStorage) (destination : UInt32) (recipient : H256) (amount : ℕ) : Bool :=
  (t.destination == WILDCARD_DOMAIN || t.destination == destination) &&
    (t.recipient == WILDCARD_RECIPIENT || t.recipient == recipient) &&
      (t.amount == WILDCARD_AMOUNT || t.amount == amount)

/-- the stored quote is set and not expired: the condition of `_resolveStored` -/
def resolves (sq : StoredQuote) (timestamp : ℕ) : Bool :=
  decide (0 < sq.expiry) && decide (BitVec.ofNat 48 timestamp ≤ sq.expiry)

def quoteTransferRemote (c : OffchainQuotedLinearFee) (timestamp : ℕ) (destination : UInt32) (recipient : H256)
    (amount : ℕ) : Except Revert ℕ :=
  match c.transient.filter (matchesTransient · destination recipient amount) with
  | some t => computeLinearFee t.maxFee t.halfAmount amount
  | none =>
    match ([(destination, recipient), (destination, WILDCARD_RECIPIENT), (WILDCARD_DOMAIN, recipient)].map c.quotes).find?
        (resolves · timestamp) with
    | some sq => computeLinearFee sq.maxFee sq.halfAmount amount
    | none => computeLinearFee c.maxFee c.halfAmount amount

/-! ## Runs -/

inductive Call where
  | submitQuote (sender : Address) (sq : SignedQuote) (signature : List UInt8)
  | addQuoteSigner (signer : Address)
  | removeQuoteSigner (signer : Address)

variable (recover : SignedQuote → List UInt8 → Option Address)

/-- a transaction: it changes nothing when it reverts, and the transient storage ends with it -/
def step (c : OffchainQuotedLinearFee) (timestamp : ℕ) : Call → OffchainQuotedLinearFee
  | .submitQuote sender sq signature =>
    match c.submitQuote recover timestamp sender sq signature with
    | .ok c' => { c' with transient := none }
    | .error _ => c
  | .addQuoteSigner signer => { c with signers := c.signers.insert signer }
  | .removeQuoteSigner signer => { c with signers := c.signers.erase signer }

/-- the standing quote that a transaction gets accepted -/
def accepted (c : OffchainQuotedLinearFee) (timestamp : ℕ) : Call → Option ((UInt32 × H256) × StoredQuote)
  | .submitQuote sender sq signature =>
    if sq.expiry = sq.issuedAt then none
    else
      match c.submitQuote recover timestamp sender sq signature, storageKey sq, storedQuote sq with
      | .ok _, .ok key, .ok stored => some (key, stored)
      | _, _, _ => none
  | _ => none

def run (c : OffchainQuotedLinearFee) (calls : List (ℕ × Call)) : OffchainQuotedLinearFee :=
  calls.foldl (fun c e => c.step recover e.1 e.2) c

def allAccepted (c : OffchainQuotedLinearFee) : List (ℕ × Call) → List ((UInt32 × H256) × StoredQuote)
  | [] => []
  | (timestamp, call) :: calls =>
    (c.accepted recover timestamp call).toList ++ allAccepted (c.step recover timestamp call) calls

/-! ## The register of a key -/

variable {recover} {c c' : OffchainQuotedLinearFee}

/-- all that a transaction can do to the quotes -/
inductive Effect (c c' : OffchainQuotedLinearFee) : Option ((UInt32 × H256) × StoredQuote) → Prop
  | quiet (hquotes : c'.quotes = c.quotes) : Effect c c' none
  | again {key : UInt32 × H256} {w : StoredQuote} (hexpiry : w.issuedAt ≤ w.expiry)
      (hsame : w.issuedAt = (c.quotes key).issuedAt) (hquotes : c'.quotes = c.quotes) : Effect c c' (some (key, w))
  | stores {key : UInt32 × H256} {w : StoredQuote} (hexpiry : w.issuedAt ≤ w.expiry)
      (hnewer : (c.quotes key).issuedAt < w.issuedAt) (hquotes : c'.quotes = Function.update c.quotes key w) :
      Effect c c' (some (key, w))

theorem storeTransient_quotes {sq : SignedQuote} (h : c.storeTransient sq = .ok c') :
    c'.quotes = c.quotes ∧ c'.maxFee = c.maxFee ∧ c'.halfAmount = c.halfAmount := by
  obtain ⟨_, _, h⟩ := bind_eq_ok.1 h
  obtain ⟨_, _, h⟩ := bind_eq_ok.1 h
  cases h
  exact ⟨rfl, rfl, rfl⟩

theorem storedQuote_spec {sq : SignedQuote} {w : StoredQuote} (h : storedQuote sq = .ok w) :
    w.issuedAt = sq.issuedAt ∧ w.expiry = sq.expiry := by
  obtain ⟨_, _, h⟩ := bind_eq_ok.1 h
  cases h
  exact ⟨rfl, rfl⟩

/-- a submission of a standing quote stores it, or does nothing as one of its date is stored -/
theorem storeStanding_spec {sq : SignedQuote} {updated : Bool} (h : c.storeStanding sq = .ok (c', updated)) :
    ∃ key, storageKey sq = .ok key ∧
      ((c' = c ∧ sq.issuedAt = (c.quotes key).issuedAt) ∨
        ∃ w, storedQuote sq = .ok w ∧ (c.quotes key).issuedAt < sq.issuedAt ∧
          c' = { c with quotes := Function.update c.quotes key w }) := by
  obtain ⟨key, hkey, h⟩ := bind_eq_ok.1 h
  refine ⟨key, hkey, ?_⟩
  dsimp only at h
  split at h
  · cases h
  · rename_i hstale
    split at h
    · rename_i hsame
      cases h
      exact .inl ⟨rfl, hsame⟩
    · rename_i hdiffer
      obtain ⟨w, hw, h⟩ := bind_eq_ok.1 h
      cases h
      exact .inr ⟨w, hw, BitVec.lt_of_le_ne (BitVec.not_lt.1 hstale) (Ne.symm hdiffer), rfl⟩

theorem checkQuote_expiry {timestamp : ℕ} {sender : Address} {sq : SignedQuote} {signature : List UInt8}
    (h : c.checkQuote recover timestamp sender sq signature = .ok ()) : sq.issuedAt ≤ sq.expiry := by
  unfold checkQuote at h
  split at h
  · cases h
  · rename_i hexpiry
    exact BitVec.not_lt.1 hexpiry

theorem step_effect (recover : SignedQuote → List UInt8 → Option Address) (c : OffchainQuotedLinearFee) (timestamp : ℕ)
    (call : Call) : Effect c (c.step recover timestamp call) (c.accepted recover timestamp call) := by
  cases call with
  | addQuoteSigner signer => exact .quiet rfl
  | removeQuoteSigner signer => exact .quiet rfl
  | submitQuote sender sq signature =>
    simp only [step, accepted]
    cases hc : c.submitQuote recover timestamp sender sq signature with
    | error e =>
      split_ifs
      · exact .quiet rfl
      · exact .quiet rfl
    | ok c₁ =>
      obtain ⟨⟨⟩, hcheck, hstore⟩ := bind_eq_ok.1 hc
      split_ifs at hstore ⊢ with htransient
      · exact .quiet (storeTransient_quotes hstore).1
      · obtain ⟨⟨c₂, updated⟩, hstanding, h⟩ := bind_eq_ok.1 hstore
        cases h
        obtain ⟨key, hkey, ⟨rfl, hsame⟩ | ⟨w, hw, hnewer, rfl⟩⟩ := storeStanding_spec hstanding
        · rw [hkey]
          cases hw : storedQuote sq with
          | error e => exact .quiet rfl
          | ok w =>
            obtain ⟨hissued, hexpiry⟩ := storedQuote_spec hw
            exact .again (by rw [hissued, hexpiry]; exact checkQuote_expiry hcheck) (hissued.trans hsame) rfl
        · rw [hkey, hw]
          obtain ⟨hissued, hexpiry⟩ := storedQuote_spec hw
          exact .stores (by rw [hissued, hexpiry]; exact checkQuote_expiry hcheck) (hissued ▸ hnewer) rfl

/-- the curve of a contract stays, and its transient storage is empty between transactions -/
theorem step_curve (recover : SignedQuote → List UInt8 → Option Address) (c : OffchainQuotedLinearFee) (timestamp : ℕ)
    (call : Call) (htransient : c.transient = none) :
    (c.step recover timestamp call).maxFee = c.maxFee ∧ (c.step recover timestamp call).halfAmount = c.halfAmount ∧
      (c.step recover timestamp call).transient = none := by
  cases call with
  | addQuoteSigner signer => exact ⟨rfl, rfl, htransient⟩
  | removeQuoteSigner signer => exact ⟨rfl, rfl, htransient⟩
  | submitQuote sender sq signature =>
    simp only [step]
    cases hc : c.submitQuote recover timestamp sender sq signature with
    | error e => exact ⟨rfl, rfl, htransient⟩
    | ok c₁ =>
      obtain ⟨_, _, hstore⟩ := bind_eq_ok.1 hc
      split_ifs at hstore
      · exact ⟨(storeTransient_quotes hstore).2.1, (storeTransient_quotes hstore).2.2, rfl⟩
      · obtain ⟨⟨c₂, updated⟩, hstanding, h⟩ := bind_eq_ok.1 hstore
        cases h
        obtain ⟨key, _, ⟨rfl, _⟩ | ⟨w, _, _, rfl⟩⟩ := storeStanding_spec hstanding
        · exact ⟨rfl, rfl, rfl⟩
        · exact ⟨rfl, rfl, rfl⟩

theorem run_curve (recover : SignedQuote → List UInt8 → Option Address) (calls : List (ℕ × Call))
    (htransient : c.transient = none) :
    (c.run recover calls).maxFee = c.maxFee ∧ (c.run recover calls).halfAmount = c.halfAmount ∧
      (c.run recover calls).transient = none := by
  induction calls generalizing c with
  | nil => exact ⟨rfl, rfl, htransient⟩
  | cons e calls ih =>
    obtain ⟨hmax, hhalf, htransient⟩ := step_curve recover c e.1 e.2 htransient
    obtain ⟨hmax', hhalf', htransient'⟩ := ih htransient
    exact ⟨hmax'.trans hmax, hhalf'.trans hhalf, htransient'⟩

/-- the quotes of a contract: none dies, as the contract deletes none -/
def contractQuotes : Offers StoredQuote ℤ Unit where
  date w := w.issuedAt.toNat
  offered := Set.univ
  dead _ _ := False
  dead_later _ h := h

/-- the quote of a key, if there is one -/
def stored (c : OffchainQuotedLinearFee) (key : UInt32 × H256) : Option StoredQuote :=
  if c.quotes key = .blank then none else some (c.quotes key)

theorem ne_blank {w : StoredQuote} (h : w.issuedAt ≠ 0) : w ≠ .blank := fun hw => h (congrArg StoredQuote.issuedAt hw)

/-- a transaction turns the register of a key, if the quote it gets accepted is dated -/
theorem step_turn (recover : SignedQuote → List UInt8 → Option Address) (c : OffchainQuotedLinearFee) (timestamp : ℕ)
    (call : Call) (key : UInt32 × H256) (hdated : ∀ e ∈ (c.accepted recover timestamp call).toList, e.2.issuedAt ≠ 0) :
    Turn contractQuotes () key (c.accepted recover timestamp call) (c.stored key)
      ((c.step recover timestamp call).stored key) := by
  have heffect := step_effect recover c timestamp call
  generalize c.accepted recover timestamp call = a at heffect hdated ⊢
  generalize c.step recover timestamp call = c' at heffect ⊢
  cases heffect with
  | quiet hquotes =>
    rw [stored, stored, hquotes]
    exact .keep _
  | @again key' w _ hsame hquotes =>
    rw [stored, stored, hquotes]
    by_cases hkey : key' = key
    · subst hkey
      have hw : w.issuedAt ≠ 0 := hdated (key', w) (List.mem_singleton_self _)
      rw [if_neg (ne_blank (hsame ▸ hw))]
      exact .again (congrArg (fun d : BitVec 48 => (d.toNat : ℤ)) hsame)
    · exact .other hkey w _
  | @stores key' w _ hnewer hquotes =>
    by_cases hkey : key' = key
    · subst hkey
      have hw : w.issuedAt ≠ 0 := hdated (key', w) (List.mem_singleton_self _)
      have hstored : c'.stored key' = some w := by
        rw [stored, hquotes, Function.update_self, if_neg (ne_blank hw)]
      rw [hstored]
      refine .put (Set.mem_univ w) id fun x hx => ?_
      rw [stored] at hx
      split_ifs at hx
      cases hx
      exact Int.ofNat_lt.2 hnewer
    · have hstored : c'.stored key = c.stored key := by
        rw [stored, stored, hquotes, Function.update_of_ne (Ne.symm hkey)]
      rw [hstored]
      exact .other hkey w _

/-- **The quote of a key is the newest one accepted**, over any run that accepts dated quotes only, with distinct dates. -/
theorem run_newest {log : List ((UInt32 × H256) × StoredQuote)} {calls : List (ℕ × Call)} {key : UInt32 × H256}
    (h : Newest contractQuotes (logged log key) () (c.stored key))
    (hdated : ∀ e ∈ c.allAccepted recover calls, e.2.issuedAt ≠ 0)
    (hdates : Set.InjOn contractQuotes.date (logged (log ++ c.allAccepted recover calls) key)) :
    Newest contractQuotes (logged (log ++ c.allAccepted recover calls) key) () ((c.run recover calls).stored key) := by
  induction calls generalizing c log with
  | nil =>
    rw [allAccepted, List.append_nil]
    exact h
  | cons e calls ih =>
    obtain ⟨timestamp, call⟩ := e
    rw [allAccepted, ← List.append_assoc] at hdates ⊢
    rw [allAccepted] at hdated
    refine ih (h.turn (step_turn recover c timestamp call key fun e he => ?_) (hdates.mono fun w hw => ?_)) (fun e he => ?_)
      hdates
    · exact hdated e (List.mem_append_left _ he)
    · exact List.mem_append_left _ hw
    · exact hdated e (List.mem_append_right _ he)

theorem allAccepted_expiry {calls : List (ℕ × Call)} :
    ∀ e ∈ c.allAccepted recover calls, e.2.issuedAt ≤ e.2.expiry := by
  induction calls generalizing c with
  | nil => exact fun _ he => (List.not_mem_nil he).elim
  | cons e calls ih =>
    obtain ⟨timestamp, call⟩ := e
    rintro ⟨key, w⟩ he
    rcases List.mem_append.1 he with hfirst | hlater
    · have heffect := step_effect recover c timestamp call
      rw [Option.mem_toList.1 hfirst] at heffect
      cases heffect with
      | again hexpiry => exact hexpiry
      | stores hexpiry => exact hexpiry
    · exact ih _ hlater

end OffchainQuotedLinearFee

end Hyperlane.Fee
