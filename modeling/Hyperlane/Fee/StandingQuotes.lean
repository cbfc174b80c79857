/-
Standing quotes over runs of the Sealevel fee program: the dates of the quotes that QuoteFee applies for one key.

An older quote is kept out by the entry of a newer one. PruneExpiredQuotes deletes the entry once it has expired, and an
older quote that expires later can then be submitted again. The contract that quotes on EVM
(token/fees/OffchainQuotedLinearFee.sol) keeps its entries.

- `submit_spec`, `prune_spec`, `setMinIssuedAt_spec`, `quoteFee_spec`: what an instruction does to the entries.
- `step_turn`: the entry of a key is a register of dated quotes, when no prune lets an older one in.
- `applied_forward`: over any run.
-/
import Hyperlane.Core.DatedRegister
import Hyperlane.Core.Outcome
import Hyperlane.Fee.FeeProgram

namespace Hyperlane.Fee

open Hyperlane.Outcome Hyperlane.DatedRegister

variable {C : Crypto} {s s' : Accounts} {now : ℤ} {k : StandingKey}

/-! ## What an instruction does to the entries -/

theorem StandingKey.eq_iff {k k' : StandingKey} : k = k' ↔ k.pda = k'.pda ∧ k.recipient = k'.recipient := by
  cases k
  cases k'
  simp [StandingKey.pda, and_assoc]

namespace Accounts

/-- the entries of one PDA -/
theorem entry_update (s : Accounts) (p : UInt32 × H256) (quotes : Option FeeStandingQuotePda) (k : StandingKey) :
    entry { s with standing := Function.update s.standing p quotes } k =
      if k.pda = p then quotes.bind fun quotes => quotes[k.recipient]? else s.entry k := by
  by_cases hp : k.pda = p
  · simp [entry, hp]
  · simp [entry, hp]

theorem entry_getD (s : Accounts) (k : StandingKey) : ((s.standing k.pda).getD ∅)[k.recipient]? = s.entry k := by
  unfold entry
  cases s.standing k.pda with
  | none => exact Std.TreeMap.getElem?_emptyc
  | some quotes => rfl

theorem entry_insert (s : Accounts) (k : StandingKey) (value : FeeStandingQuoteValue) :
    entry
      { s with
        standing := Function.update s.standing k.pda (some (((s.standing k.pda).getD ∅).insert k.recipient value)) } =
      Function.update s.entry k (some value) := by
  funext k'
  rw [entry_update]
  by_cases hp : k'.pda = k.pda
  · rw [if_pos hp, Option.bind_some, Std.TreeMap.getElem?_insert]
    by_cases hr : k'.recipient = k.recipient
    · rw [StandingKey.eq_iff.2 ⟨hp, hr⟩, Function.update_self, if_pos Std.ReflCmp.compare_self]
    · have hk : k' ≠ k := fun h => hr (StandingKey.eq_iff.1 h).2
      have hcmp : compare k.recipient k'.recipient ≠ .eq := fun h => hr (Std.LawfulEqCmp.eq_of_compare h).symm
      rw [Function.update_of_ne hk, if_neg hcmp, ← hp, entry_getD]
  · have hk : k' ≠ k := fun h => hp (StandingKey.eq_iff.1 h).1
    rw [if_neg hp, Function.update_of_ne hk]

/-- a quote that is stored is newer than the one it replaces -/
theorem upsert_spec {value : FeeStandingQuoteValue} (h : s.upsert k value = .ok s') :
    s'.feeAccount = s.feeAccount ∧
      ((s'.entry = s.entry ∧ ∃ x, s.entry k = some x ∧ x.issuedAt = value.issuedAt) ∨
        (s'.entry = Function.update s.entry k (some value) ∧ ∀ x, s.entry k = some x → x.issuedAt < value.issuedAt)) := by
  simp only [upsert, entry_getD] at h
  cases hx : s.entry k with
  | none =>
    simp only [hx, Except.ok.injEq] at h
    subst h
    exact ⟨rfl, .inr ⟨entry_insert s k value, fun x hx => nomatch hx⟩⟩
  | some x =>
    simp only [hx] at h
    split at h
    · cases h
    · rename_i hstale
      split at h
      · rename_i hsame
        cases h
        exact ⟨rfl, .inl ⟨rfl, x, rfl, hsame.symm⟩⟩
      · rename_i hdiffer
        cases h
        refine ⟨rfl, .inr ⟨entry_insert s k value, fun y hy => ?_⟩⟩
        cases hy
        exact lt_of_le_of_ne (not_lt.1 hstale) (Ne.symm hdiffer)

end Accounts

/-- a quote that is submitted is neither expired nor revoked -/
theorem validateQuoteSubmission_live {issuedAt expiry minIssuedAt : ℤ}
    (h : validateQuoteSubmission issuedAt expiry minIssuedAt now = .ok ()) : now ≤ expiry ∧ minIssuedAt ≤ issuedAt := by
  unfold validateQuoteSubmission at h
  split at h
  · cases h
  · split at h
    · cases h
    · split at h
      · cases h
      · split at h
        · cases h
        · rename_i hexpiry _ hmin
          exact ⟨not_lt.1 hexpiry, not_lt.1 hmin⟩

theorem SvmSignedQuote.value_spec {q : SvmSignedQuote} {value : FeeStandingQuoteValue} (h : q.value = .ok value) :
    value.issuedAt = q.issuedAtTimestamp ∧ value.expiry = q.expiryTimestamp := by
  unfold SvmSignedQuote.value at h
  split at h
  · cases h
  · cases h
    exact ⟨rfl, rfl⟩

namespace Accounts

/-- a quote that is stored or known: its key, and the value it stores -/
structure Stores (s : Accounts) (now : ℤ) (quote : SvmSignedQuote) (s' : Accounts) (k : StandingKey)
    (value : FeeStandingQuoteValue) : Prop where
  hkey : standingKey s.feeAccount.feeData quote.context = .ok k
  hvalue : quote.value = .ok value
  unexpired : now ≤ value.expiry
  unrevoked : s.feeAccount.minIssuedAt ≤ value.issuedAt
  hupsert : s.upsert k value = .ok s'

theorem submit_spec {payer : Pubkey} {quote : SvmSignedQuote} (h : s.processSubmitQuote C now payer quote = .ok s') :
    (quote.isTransient ∧ s'.feeAccount = s.feeAccount ∧ s'.entry = s.entry) ∨
      (¬quote.isTransient ∧ ∃ k value, s.Stores now quote s' k value) := by
  obtain ⟨_, hcheck, h⟩ := bind_eq_ok.1 h
  obtain ⟨_, hvalid, _⟩ := bind_eq_ok.1 hcheck
  split at h
  · rename_i htransient
    refine .inl ⟨htransient, ?_⟩
    simp only [submitTransient] at h
    split at h
    · cases h
    · cases h
      exact ⟨rfl, rfl⟩
  · rename_i hstanding
    obtain ⟨k, hk, h⟩ := bind_eq_ok.1 h
    obtain ⟨value, hvalue, h⟩ := bind_eq_ok.1 h
    have hlive := validateQuoteSubmission_live hvalid
    have hdates := SvmSignedQuote.value_spec hvalue
    exact .inr ⟨hstanding, k, value, hk, hvalue, hdates.2 ▸ hlive.1, hdates.1 ▸ hlive.2, h⟩

theorem prune_spec {signer : Pubkey} {domain : UInt32} {targetRouter : Option H256}
    (h : s.processPruneExpiredQuotes now signer domain targetRouter = .ok s') :
    s'.feeAccount = s.feeAccount ∧ s.ensureOwnerSigner signer = .ok () ∧
      ∃ router, resolvedRouter s.feeAccount.feeData targetRouter = .ok router ∧
        ∀ k, s'.entry k = if k.pda = (domain, router) then (s.entry k).filter (retained s.feeAccount.minIssuedAt now)
          else s.entry k := by
  obtain ⟨⟨⟩, howner, h⟩ := bind_eq_ok.1 h
  obtain ⟨router, hrouter, h⟩ := bind_eq_ok.1 h
  split at h
  · cases h
  · rename_i quotes hquotes
    cases h
    refine ⟨rfl, howner, router, hrouter, fun k => ?_⟩
    rw [entry_update]
    split_ifs with hk hempty
    · have hnone : (quotes.filter fun _ value => retained s.feeAccount.minIssuedAt now value)[k.recipient]? = none :=
        Std.TreeMap.getElem?_eq_none (Std.TreeMap.isEmpty_iff_forall_not_mem.1 hempty k.recipient)
      rw [Std.TreeMap.getElem?_filter'] at hnone
      simp only [entry, hk, hquotes, Option.bind_some, Option.bind_none]
      exact hnone.symm
    · simp only [entry, hk, hquotes, Option.bind_some]
      rw [Std.TreeMap.getElem?_filter']
    · rfl

theorem setMinIssuedAt_spec {signer : Pubkey} {minIssuedAt : ℤ} (h : s.processSetMinIssuedAt signer minIssuedAt = .ok s') :
    s.feeAccount.minIssuedAt ≤ minIssuedAt ∧
      s' = { s with feeAccount := { s.feeAccount with minIssuedAt := minIssuedAt } } := by
  obtain ⟨_, _, h⟩ := bind_eq_ok.1 h
  split at h
  · cases h
  · rename_i hmin
    cases h
    exact ⟨not_lt.1 hmin, rfl⟩

theorem tryConsumeTransientQuote_spec {payer : Pubkey} {scopedSalt : H256} {strategy : FeeDataStrategy} {specific : Bool}
    {data : QuoteFee} {fee : UInt64}
    (h : s.tryConsumeTransientQuote now payer scopedSalt strategy specific data = .ok (s', fee)) :
    s'.feeAccount = s.feeAccount ∧ s'.entry = s.entry := by
  unfold tryConsumeTransientQuote at h
  split at h
  · cases h
  · split at h
    · cases h
    · obtain ⟨_, _, h⟩ := bind_eq_ok.1 h
      obtain ⟨_, _, h⟩ := bind_eq_ok.1 h
      split at h
      · cases h
      · split at h
        · obtain ⟨_, _, h⟩ := bind_eq_ok.1 h
          cases h
          exact ⟨rfl, rfl⟩
        · cases h

/-- the quote that is applied is the entry of its key, and usable -/
theorem cascade_entry {strategy : FeeDataStrategy} {specific : Bool} {data : QuoteFee} {value : FeeStandingQuoteValue}
    (h : s.cascade now strategy specific data = some (k, value)) : s.entry k = some value := by
  obtain ⟨k', _, hk'⟩ := List.exists_of_findSome?_eq_some h
  obtain ⟨value', hvalue, heq⟩ := Option.map_eq_some_iff.1 hk'
  cases heq
  exact (Option.filter_eq_some_iff.1 hvalue).1

theorem quoteFee_spec {payer : Pubkey} {slot : Option H256} {data : QuoteFee} {r : Quoted}
    (h : s.processQuoteFee now payer slot data = .ok (s', r)) :
    s'.feeAccount = s.feeAccount ∧ s'.entry = s.entry ∧ ∀ k value, r.applied = some (k, value) → s.entry k = some value := by
  obtain ⟨_, _, h⟩ := bind_eq_ok.1 h
  obtain ⟨strategy, _, h⟩ := bind_eq_ok.1 h
  split at h
  · cases h
    exact ⟨rfl, rfl, fun _ _ ha => nomatch ha⟩
  · split at h
    · obtain ⟨⟨s₁, fee⟩, htransient, h⟩ := bind_eq_ok.1 h
      cases h
      have hspec := tryConsumeTransientQuote_spec htransient
      exact ⟨hspec.1, hspec.2, fun _ _ ha => nomatch ha⟩
    · split at h
      · rename_i k value hcascade
        obtain ⟨fee, _, h⟩ := bind_eq_ok.1 h
        cases h
        refine ⟨rfl, rfl, fun k' value' ha => ?_⟩
        cases ha
        exact cascade_entry hcascade
      · obtain ⟨fee, _, h⟩ := bind_eq_ok.1 h
        cases h
        exact ⟨rfl, rfl, fun _ _ ha => nomatch ha⟩

end Accounts

/-! ## The entry of a key as a register -/

/-- the standing quotes of `Q` for one key -/
def signedFor (feeData : FeeData) (Q : Set SvmSignedQuote) (k : StandingKey) : Set FeeStandingQuoteValue :=
  {value | ∃ quote ∈ Q, ¬quote.isTransient ∧ standingKey feeData quote.context = .ok k ∧ quote.value = .ok value}

/-- the quotes of a key: dead when expired or revoked, at a clock and a `min_issued_at` -/
def quotesFor (feeData : FeeData) (Q : Set SvmSignedQuote) (k : StandingKey) : Offers FeeStandingQuoteValue ℤ (ℤ × ℤ) where
  date := FeeStandingQuoteValue.issuedAt
  offered := signedFor feeData Q k
  dead t value := value.expiry < t.1 ∨ value.issuedAt < t.2
  dead_later := by
    rintro t t' value ht (h | h)
    · exact .inl (lt_of_lt_of_le h ht.1)
    · exact .inr (lt_of_lt_of_le h ht.2)

namespace Accounts

/-- the prune deletes the expired quote of the key, while a quote of `Q` that was issued before it can still be submitted -/
def LetsOlderIn (Q : Set SvmSignedQuote) (k : StandingKey) (s : Accounts) (now : ℤ) : Instruction → Prop
  | .pruneExpiredQuotes signer domain targetRouter =>
    s.ensureOwnerSigner signer = .ok () ∧
      (∃ router, resolvedRouter s.feeAccount.feeData targetRouter = .ok router ∧ k.pda = (domain, router)) ∧
      ∃ value, s.entry k = some value ∧ value.expiry < now ∧
        ∃ older ∈ signedFor s.feeAccount.feeData Q k, older.issuedAt < value.issuedAt ∧ now ≤ older.expiry ∧
          s.feeAccount.minIssuedAt ≤ older.issuedAt
  | _ => False

/-- the quote of a submission is one of `Q` -/
def SubmitsFrom (Q : Set SvmSignedQuote) : Instruction → Prop
  | .submitQuote _ quote => quote ∈ Q
  | _ => True

/-- the standing quote that a submission gets accepted -/
def accepted (C : Crypto) (s : Accounts) (now : ℤ) : Instruction → Option (StandingKey × FeeStandingQuoteValue)
  | .submitQuote payer quote =>
    if quote.isTransient then none
    else
      match s.processSubmitQuote C now payer quote, standingKey s.feeAccount.feeData quote.context, quote.value with
      | .ok _, .ok k, .ok value => some (k, value)
      | _, _, _ => none
  | _ => none

/-- all that a step can do to the entries -/
inductive Effect (s : Accounts) (now : ℤ) : Instruction → Accounts → Option (StandingKey × FeeStandingQuoteValue) → Prop
  | quiet {i : Instruction} {s' : Accounts} (hfee : s'.feeAccount = s.feeAccount) (hentry : s'.entry = s.entry) :
      Effect s now i s' none
  | stores {payer : Pubkey} {quote : SvmSignedQuote} {s' : Accounts} {k : StandingKey} {value : FeeStandingQuoteValue}
      (hstanding : ¬quote.isTransient) (h : s.Stores now quote s' k value) :
      Effect s now (.submitQuote payer quote) s' (some (k, value))
  | prunes {signer : Pubkey} {domain : UInt32} {targetRouter : Option H256} {router : H256} {s' : Accounts}
      (howner : s.ensureOwnerSigner signer = .ok ())
      (hrouter : resolvedRouter s.feeAccount.feeData targetRouter = .ok router) (hfee : s'.feeAccount = s.feeAccount)
      (hentry : ∀ k, s'.entry k = if k.pda = (domain, router) then
        (s.entry k).filter (retained s.feeAccount.minIssuedAt now) else s.entry k) :
      Effect s now (.pruneExpiredQuotes signer domain targetRouter) s' none
  | revokes {signer : Pubkey} {minIssuedAt : ℤ} (h : s.feeAccount.minIssuedAt ≤ minIssuedAt) :
      Effect s now (.setMinIssuedAt signer minIssuedAt)
        { s with feeAccount := { s.feeAccount with minIssuedAt := minIssuedAt } } none

theorem step_effect (C : Crypto) (s : Accounts) (now : ℤ) (i : Instruction) :
    Effect s now i (s.step C now i) (s.accepted C now i) := by
  cases i with
  | submitQuote payer quote =>
    simp only [step, exec, accepted]
    cases hs' : s.processSubmitQuote C now payer quote with
    | error e =>
      split_ifs
      · exact .quiet rfl rfl
      · exact .quiet rfl rfl
    | ok s' =>
      rcases submit_spec hs' with ⟨htransient, hfee, hentry⟩ | ⟨hstanding, k, value, hstores⟩
      · rw [if_pos htransient]
        exact .quiet hfee hentry
      · rw [if_neg hstanding, hstores.hkey, hstores.hvalue]
        exact .stores hstanding hstores
  | pruneExpiredQuotes signer domain targetRouter =>
    simp only [step, exec, accepted]
    cases hs' : s.processPruneExpiredQuotes now signer domain targetRouter with
    | error e => exact .quiet rfl rfl
    | ok s' =>
      obtain ⟨hfee, howner, router, hrouter, hentry⟩ := prune_spec hs'
      exact .prunes howner hrouter hfee hentry
  | setMinIssuedAt signer minIssuedAt =>
    simp only [step, exec, accepted]
    cases hs' : s.processSetMinIssuedAt signer minIssuedAt with
    | error e => exact .quiet rfl rfl
    | ok s' =>
      obtain ⟨hmin, rfl⟩ := setMinIssuedAt_spec hs'
      exact .revokes hmin
  | quoteFee payer slot data =>
    simp only [step, exec, accepted]
    cases hs' : s.processQuoteFee now payer slot data with
    | error e => exact .quiet rfl rfl
    | ok r => exact .quiet (quoteFee_spec hs').1 (quoteFee_spec hs').2.1

/-- `min_issued_at` only grows, and the kind of the fee account stays -/
theorem step_feeAccount (C : Crypto) (s : Accounts) (now : ℤ) (i : Instruction) :
    (s.step C now i).feeAccount.feeData = s.feeAccount.feeData ∧
      s.feeAccount.minIssuedAt ≤ (s.step C now i).feeAccount.minIssuedAt := by
  have heffect := step_effect C s now i
  generalize s.accepted C now i = a at heffect
  generalize s.step C now i = s' at heffect ⊢
  cases heffect with
  | quiet hfee _ => exact ⟨by rw [hfee], by rw [hfee]⟩
  | stores _ h => exact ⟨by rw [(upsert_spec h.hupsert).1], by rw [(upsert_spec h.hupsert).1]⟩
  | prunes _ _ hfee _ => exact ⟨by rw [hfee], by rw [hfee]⟩
  | revokes h => exact ⟨rfl, h⟩

/-- a step turns the register of a key -/
theorem step_turn {Q : Set SvmSignedQuote} {i : Instruction} (C : Crypto) (hfrom : SubmitsFrom Q i)
    (hsafe : ¬s.LetsOlderIn Q k now i) :
    Turn (quotesFor s.feeAccount.feeData Q k) (now, s.feeAccount.minIssuedAt) k (s.accepted C now i) (s.entry k)
      ((s.step C now i).entry k) := by
  have heffect := step_effect C s now i
  generalize s.accepted C now i = a at heffect ⊢
  generalize s.step C now i = s' at heffect ⊢
  cases heffect with
  | quiet _ hentry =>
    rw [hentry]
    exact .keep _
  | @stores payer quote _ k' value hstanding h =>
    by_cases hk : k' = k
    · subst hk
      rcases (upsert_spec h.hupsert).2 with ⟨hentry, x, hx, hdate⟩ | ⟨hentry, hnewer⟩
      · rw [hentry, hx]
        exact .again hdate.symm
      · rw [hentry, Function.update_self]
        refine .put ⟨quote, hfrom, hstanding, h.hkey, h.hvalue⟩ ?_ hnewer
        rintro (hdead | hdead)
        · exact absurd h.unexpired (not_le.2 hdead)
        · exact absurd h.unrevoked (not_le.2 hdead)
    · have hentry : s'.entry k = s.entry k := by
        rcases (upsert_spec h.hupsert).2 with ⟨hentry, _⟩ | ⟨hentry, _⟩
        · rw [hentry]
        · rw [hentry, Function.update_of_ne (Ne.symm hk)]
      rw [hentry]
      exact .other hk value _
  | @prunes signer domain targetRouter router _ howner hrouter _ hentry =>
    rw [hentry]
    split_ifs with hk
    · cases hvalue : s.entry k with
      | none => exact .keep _
      | some value =>
        rw [Option.filter_some]
        split_ifs with hretained
        · exact .keep _
        · simp only [retained, Bool.and_eq_true, decide_eq_true_eq, not_and_or, not_le] at hretained
          refine .drop hretained fun older holder hlt => ?_
          rcases hretained with hexpired | hrevoked
          · by_contra hlive
            simp only [quotesFor, not_or, not_lt] at hlive
            exact hsafe ⟨howner, ⟨router, hrouter, hk⟩, value, hvalue, hexpired, older, holder, hlt, hlive.1, hlive.2⟩
          · exact .inr (hlt.trans hrevoked)
    · exact .keep _
  | revokes => exact .keep _

/-! ## Runs -/

/-- instructions with the clock of each, which does not go back; submissions are of `Q`, and no prune lets an older
quote in -/
def Follows (C : Crypto) (Q : Set SvmSignedQuote) (k : StandingKey) : Accounts → ℤ → List (ℤ × Instruction) → Prop
  | _, _, [] => True
  | s, clock, (now, i) :: es =>
    clock ≤ now ∧ SubmitsFrom Q i ∧ ¬s.LetsOlderIn Q k now i ∧ Follows C Q k (s.step C now i) now es

/-- the `issued_at` of the quote of the key, when the instruction is a QuoteFee that applies it -/
def appliedDate (C : Crypto) (k : StandingKey) (s : Accounts) (now : ℤ) (i : Instruction) : Option ℤ :=
  match s.exec C now i with
  | .ok (_, some (k', value)) => if k' = k then some value.issuedAt else none
  | _ => none

/-- the dates of the quotes of the key that a run applies -/
def appliedDates (C : Crypto) (k : StandingKey) : Accounts → List (ℤ × Instruction) → List ℤ
  | _, [] => []
  | s, (now, i) :: es => (s.appliedDate C k now i).toList ++ appliedDates C k (s.step C now i) es

theorem appliedDate_entry {i : Instruction} {date : ℤ} (h : s.appliedDate C k now i = some date) :
    ∃ value, s.entry k = some value ∧ value.issuedAt = date := by
  unfold appliedDate at h
  split at h
  · rename_i s' k' value hexec
    split_ifs at h with hk
    cases h
    subst hk
    refine ⟨value, ?_, rfl⟩
    cases i with
    | quoteFee payer slot data =>
      obtain ⟨r, hr, heq⟩ := map_eq_ok.1 hexec
      exact (quoteFee_spec hr).2.2 _ _ (congrArg Prod.snd heq)
    | submitQuote payer quote =>
      obtain ⟨_, _, heq⟩ := map_eq_ok.1 hexec
      cases heq
    | pruneExpiredQuotes signer domain targetRouter =>
      obtain ⟨_, _, heq⟩ := map_eq_ok.1 hexec
      cases heq
    | setMinIssuedAt signer minIssuedAt =>
      obtain ⟨_, _, heq⟩ := map_eq_ok.1 hexec
      cases heq
  · cases h

def run (C : Crypto) (s : Accounts) (es : List (ℤ × Instruction)) : Accounts := es.foldl (fun s e => s.step C e.1 e.2) s

/-- the standing quotes that a run gets accepted -/
def allAccepted (C : Crypto) : Accounts → List (ℤ × Instruction) → List (StandingKey × FeeStandingQuoteValue)
  | _, [] => []
  | s, (now, i) :: es => (s.accepted C now i).toList ++ allAccepted C (s.step C now i) es

/-- the register at a date stays there -/
theorem step_above {Q : Set SvmSignedQuote} {i : Instruction} {b clock : ℤ}
    (h : Above (quotesFor s.feeAccount.feeData Q k) b (clock, s.feeAccount.minIssuedAt) (s.entry k)) (hclock : clock ≤ now)
    (hfrom : SubmitsFrom Q i) (hsafe : ¬s.LetsOlderIn Q k now i) :
    Above (quotesFor (s.step C now i).feeAccount.feeData Q k) b (now, (s.step C now i).feeAccount.minIssuedAt)
      ((s.step C now i).entry k) := by
  have hnow : Above (quotesFor s.feeAccount.feeData Q k) b (now, s.feeAccount.minIssuedAt) (s.entry k) :=
    h.later ⟨hclock, le_rfl⟩
  rw [(step_feeAccount C s now i).1]
  exact (hnow.turn (step_turn C hfrom hsafe)).later ⟨le_rfl, (step_feeAccount C s now i).2⟩

/-- from a date on, no quote of an earlier one is applied -/
theorem appliedDates_ge {Q : Set SvmSignedQuote} {es : List (ℤ × Instruction)} {b clock : ℤ}
    (h : Above (quotesFor s.feeAccount.feeData Q k) b (clock, s.feeAccount.minIssuedAt) (s.entry k))
    (hrun : Follows C Q k s clock es) : ∀ date ∈ appliedDates C k s es, b ≤ date := by
  induction es generalizing s clock with
  | nil => exact fun _ hdate => nomatch hdate
  | cons e es ih =>
    obtain ⟨now, i⟩ := e
    obtain ⟨hclock, hfrom, hsafe, hrest⟩ := hrun
    intro date hdate
    rcases List.mem_append.1 hdate with hfirst | hlater
    · obtain ⟨value, hvalue, rfl⟩ := appliedDate_entry (Option.mem_toList.1 hfirst)
      rw [hvalue] at h
      exact h
    · exact ih (step_above h hclock hfrom hsafe) hrest date hlater

/-- **The standing quotes that are applied for a key never go back in time** over any run whose prunes let no older quote
in. -/
theorem applied_forward {Q : Set SvmSignedQuote} {es : List (ℤ × Instruction)} {clock : ℤ}
    (hrun : Follows C Q k s clock es) : (appliedDates C k s es).Pairwise (· ≤ ·) := by
  induction es generalizing s clock with
  | nil => exact List.Pairwise.nil
  | cons e es ih =>
    obtain ⟨now, i⟩ := e
    obtain ⟨hclock, hfrom, hsafe, hrest⟩ := hrun
    rw [appliedDates]
    cases hdate : s.appliedDate C k now i with
    | none => exact ih hrest
    | some date =>
      obtain ⟨value, hvalue, rfl⟩ := appliedDate_entry hdate
      have habove : Above (quotesFor s.feeAccount.feeData Q k) value.issuedAt (clock, s.feeAccount.minIssuedAt) (s.entry k) := by
        rw [hvalue]
        exact le_refl value.issuedAt
      exact List.Pairwise.cons (appliedDates_ge (step_above habove hclock hfrom hsafe) hrest) (ih hrest)

/-- **The quote of a key is the newest one accepted, or all that were accepted are dead**, over any run that accepts quotes
of distinct dates. -/
theorem run_newest {Q : Set SvmSignedQuote} {log : List (StandingKey × FeeStandingQuoteValue)} {es : List (ℤ × Instruction)}
    {clock now : ℤ}
    (h : Newest (quotesFor s.feeAccount.feeData Q k) (logged log k) (clock, s.feeAccount.minIssuedAt) (s.entry k))
    (hrun : Follows C Q k s clock es) (hclock : clock ≤ now) (hnow : ∀ e ∈ es, e.1 ≤ now)
    (hdates : Set.InjOn FeeStandingQuoteValue.issuedAt (logged (log ++ allAccepted C s es) k)) :
    Newest (quotesFor s.feeAccount.feeData Q k) (logged (log ++ allAccepted C s es) k)
      (now, (s.run C es).feeAccount.minIssuedAt) ((s.run C es).entry k) := by
  induction es generalizing s log clock with
  | nil =>
    rw [allAccepted, List.append_nil]
    exact h.later ⟨hclock, le_rfl⟩
  | cons e es ih =>
    obtain ⟨t, i⟩ := e
    obtain ⟨ht, hfrom, hsafe, hrest⟩ := hrun
    rw [allAccepted, ← List.append_assoc] at hdates ⊢
    have hearlier : logged (log ++ (s.accepted C t i).toList) k ⊆
        logged (log ++ (s.accepted C t i).toList ++ allAccepted C (s.step C t i) es) k :=
      fun value hvalue => List.mem_append_left _ hvalue
    have hlater : Newest (quotesFor s.feeAccount.feeData Q k) (logged log k) (t, s.feeAccount.minIssuedAt) (s.entry k) :=
      h.later ⟨ht, le_rfl⟩
    have hstep : Newest (quotesFor s.feeAccount.feeData Q k) (logged (log ++ (s.accepted C t i).toList) k)
        (t, s.feeAccount.minIssuedAt) ((s.step C t i).entry k) :=
      hlater.turn (step_turn C hfrom hsafe) (hdates.mono hearlier)
    obtain ⟨hfeeData, hmin⟩ := step_feeAccount C s t i
    rw [← hfeeData] at hstep ⊢
    exact ih (hstep.later ⟨le_rfl, hmin⟩) hrest (hnow _ List.mem_cons_self)
      (fun e he => hnow e (List.mem_cons_of_mem _ he)) hdates

theorem run_feeData (C : Crypto) (s : Accounts) (es : List (ℤ × Instruction)) :
    (s.run C es).feeAccount.feeData = s.feeAccount.feeData := by
  induction es generalizing s with
  | nil => rfl
  | cons e es ih => exact (ih _).trans (step_feeAccount C s e.1 e.2).1

/-- an accepted quote is for a domain or for a recipient -/
theorem allAccepted_key {es : List (ℤ × Instruction)} {e : StandingKey × FeeStandingQuoteValue}
    (he : e ∈ allAccepted C s es) : ∃ context, standingKey s.feeAccount.feeData context = .ok e.1 := by
  induction es generalizing s with
  | nil => exact (List.not_mem_nil he).elim
  | cons step es ih =>
    obtain ⟨t, i⟩ := step
    rcases List.mem_append.1 he with hfirst | hlater
    · have heffect := step_effect C s t i
      rw [Option.mem_toList.1 hfirst] at heffect
      generalize s.step C t i = s' at heffect
      cases heffect with
      | @stores _ quote _ _ _ _ h => exact ⟨quote.context, h.hkey⟩
    · rw [← (step_feeAccount C s t i).1]
      exact ih hlater

end Accounts

theorem standingKey_leaf {cfg : LeafFeeConfig} {context : List UInt8} (h : standingKey (.leaf cfg) context = .ok k) :
    k.targetRouter = 0 ∧ ¬(k.domain = WILDCARD_DOMAIN ∧ k.recipient = WILDCARD_RECIPIENT) := by
  obtain ⟨k', hk', h⟩ := bind_eq_ok.1 h
  split at h
  · cases h
  · rename_i hwild
    cases h
    obtain ⟨ctx, _, hctx⟩ := bind_eq_ok.1 hk'
    split at hctx
    · cases hctx
    · cases hctx
      exact ⟨rfl, hwild⟩

/-! ### A quote that comes back -/

open Hyperlane.Bytes

/-- the signature of a hash starts with the hash -/
def sampleCrypto : Crypto :=
  ⟨fun bs => BitVec.ofNat 256 (ofBe bs % (2 ^ 256 - 189)),
    fun hash signature => if signature.1.take 32 = be 32 hash.toNat then some (Word.filled 20 7) else none⟩

def sampleOwner : Pubkey := Word.filled 32 1

def samplePayer : Pubkey := Word.filled 32 2

/-- a linear fee account without quotes -/
def sampleAccounts : Accounts :=
  ⟨Word.filled 32 3,
    ⟨some sampleOwner, 7, 0, .leaf ⟨.linear ⟨1000, 500⟩, some [Word.filled 20 7]⟩⟩,
    fun _ => none, fun _ => none, fun _ => none, fun _ => none⟩

/-- a quote for recipient 5 on domain 42 -/
def sampleQuote (issuedAt expiry maxFee : ℕ) : SvmSignedQuote :=
  let quote : SvmSignedQuote :=
    ⟨(be 4 42).reverse ++ be 32 5 ++ List.replicate 8 255, [0] ++ (be 8 maxFee).reverse ++ (be 8 50).reverse,
      ⟨be 6 issuedAt, be_length _ _⟩, ⟨be 6 expiry, be_length _ _⟩, 9, Word.filled 65 0⟩
  let hash := quote.buildMessageHash sampleCrypto sampleAccounts.key 7 (quote.computeScopedSalt sampleCrypto samplePayer)
  { quote with signature := ⟨be 32 hash.toNat ++ List.replicate 33 0, by rw [List.length_append, be_length]; rfl⟩ }

def sampleKey : StandingKey := ⟨42, 0, 5⟩

def sampleTransfer : Instruction := .quoteFee samplePayer none ⟨42, 5, 10, 0⟩

/-- a quote issued at 200 expires at 300 and is pruned, and then one issued at 100 is submitted -/
def pruneThenOlder : List (ℤ × Instruction) :=
  [(210, .submitQuote samplePayer (sampleQuote 200 300 20)), (220, sampleTransfer),
    (301, .pruneExpiredQuotes sampleOwner 42 none), (302, .submitQuote samplePayer (sampleQuote 100 1000 10)),
    (303, sampleTransfer)]

/-- both quotes have expired when the newer one is pruned -/
def pruneBothExpired : List (ℤ × Instruction) :=
  [(110, .submitQuote samplePayer (sampleQuote 100 250 10)), (120, sampleTransfer),
    (210, .submitQuote samplePayer (sampleQuote 200 300 20)), (220, sampleTransfer),
    (301, .pruneExpiredQuotes sampleOwner 42 none)]

namespace Accounts

theorem older_quote_applied_again :
    (pruneThenOlder.map Prod.fst).Pairwise (· ≤ ·) ∧
      appliedDates sampleCrypto sampleKey sampleAccounts pruneThenOlder = [200, 100] ∧
        ¬(appliedDates sampleCrypto sampleKey sampleAccounts pruneThenOlder).Pairwise (· ≤ ·) := by
  decide +kernel

theorem applied_forward_sample :
    (appliedDates sampleCrypto sampleKey sampleAccounts pruneBothExpired).Pairwise (· ≤ ·) := by
  have hprune (s : Accounts) : ¬s.LetsOlderIn {sampleQuote 100 250 10, sampleQuote 200 300 20} sampleKey 301
      (.pruneExpiredQuotes sampleOwner 42 none) := by
    rintro ⟨_, _, _, _, _, older, ⟨quote, hquote, _, _, hvalue⟩, _, hlive, _⟩
    have hexpiry : quote.expiryTimestamp < 301 := by
      rcases hquote with rfl | rfl
      · decide +kernel
      · decide +kernel
    rw [← (SvmSignedQuote.value_spec hvalue).2] at hexpiry
    exact absurd hlive (not_le.2 hexpiry)
  have hrun : Follows sampleCrypto {sampleQuote 100 250 10, sampleQuote 200 300 20} sampleKey sampleAccounts 0
      pruneBothExpired :=
    ⟨by decide, .inl rfl, id, by decide, trivial, id, by decide, .inr rfl, id, by decide, trivial, id, by decide, trivial,
      hprune _, trivial⟩
  exact applied_forward hrun

end Accounts

end Hyperlane.Fee
