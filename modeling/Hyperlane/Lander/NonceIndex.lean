/-
The two indexes of a signer's nonces, and what each function of `NonceManagerState` makes of them.

The nonce a live transaction holds is tracked for that transaction (`Indexed`). Only the two writes that clear a nonce
break this, for the transaction they clear (`Clearing`). Each function has one rule, for a caller that has the store:
the environment only changes the status of transactions, and a dropped one stays dropped.

- `assignNextNonceBody_keeps`, `updateBoundaryNoncesBody_keeps`, `overwriteUpperNonce_keeps`: from a settled store to a
  settled store, with uniqueness at every access in between.
-/
import Hyperlane.Lander.NonceState

namespace Hyperlane.Lander

open Interleaving

variable {Uuid : Type}

/-! ## What holds of the store -/

def Live (s : NonceStore Uuid) (u : Uuid) : Prop := s.transactions u ≠ some .Dropped

/-- the nonce a transaction was given; the largest one stands for none -/
def Holds (s : NonceStore Uuid) (u : Uuid) (n : U256) : Prop := s.nonceByTransactionUuid u = some n ∧ n ≠ U256.MAX

def Unique (s : NonceStore Uuid) : Prop := ∀ u v n, Live s u → Live s v → Holds s u n → Holds s v n → u = v

/-- the nonces of live transactions satisfy `L` -/
def Within (L : U256 → Prop) (s : NonceStore Uuid) : Prop := ∀ u n, Live s u → Holds s u n → L n

def FinalizedBelow (s : NonceStore Uuid) : Prop := ∀ f, s.finalized = some f → f < s.upper

/-- the two indexes agree on live transactions, and only stored transactions are tracked -/
structure Indexed (L : U256 → Prop) (s : NonceStore Uuid) : Prop where
  tracked : ∀ u n, Live s u → Holds s u n → s.transactionUuidByNonce n = some u
  within : Within L s
  stored : ∀ n u, s.transactionUuidByNonce n = some u → s.transactions u ≠ none

theorem Indexed.unique {L : U256 → Prop} {s : NonceStore Uuid} (h : Indexed L s) : Unique s :=
  fun u v n hu hv hun hvn => Option.some.inj ((h.tracked u n hu hun).symm.trans (h.tracked v n hv hvn))

theorem Indexed.mono {L L' : U256 → Prop} {s : NonceStore Uuid} (h : Indexed L s) (hL : ∀ n, L n → L' n) :
    Indexed L' s :=
  ⟨h.tracked, fun u n hu hn => hL n (h.within u n hu hn), h.stored⟩

/-- the transactions move on, the rest stays -/
structure Progress (s s' : NonceStore Uuid) : Prop where
  same : s' = { s with transactions := s'.transactions }
  dropped : ∀ u, s.transactions u = some .Dropped → s'.transactions u = some .Dropped
  stored : ∀ u, s.transactions u ≠ none → s'.transactions u ≠ none

def Keep (s s' : NonceStore Uuid) : Prop := ∀ u, s.transactions u ≠ none → s'.transactions u ≠ none

namespace Progress

variable {s s' : NonceStore Uuid}

theorem refl (s : NonceStore Uuid) : Progress s s := ⟨rfl, fun _ h => h, fun _ h => h⟩

theorem trans {s'' : NonceStore Uuid} (h : Progress s s') (h' : Progress s' s'') : Progress s s'' := by
  refine ⟨?_, fun u hu => h'.dropped u (h.dropped u hu), fun u hu => h'.stored u (h.stored u hu)⟩
  rw [h'.same, h.same]

theorem live (h : Progress s s') {u : Uuid} (hu : Live s' u) : Live s u := fun hd => hu (h.dropped u hd)

theorem nonces (h : Progress s s') : s'.nonceByTransactionUuid = s.nonceByTransactionUuid := by rw [h.same]

theorem uuids (h : Progress s s') : s'.transactionUuidByNonce = s.transactionUuidByNonce := by rw [h.same]

theorem upper (h : Progress s s') : s'.upper = s.upper := by rw [h.same]; rfl

theorem finalized (h : Progress s s') : s'.finalized = s.finalized := by rw [h.same]; rfl

theorem present (h : Progress s s') : s'.finalizedNoncePresent = s.finalizedNoncePresent := by rw [h.same]

theorem holds (h : Progress s s') {u : Uuid} {n : U256} (hu : Holds s' u n) : Holds s u n := by
  rw [Holds, h.nonces] at hu
  exact hu

end Progress

variable {L : U256 → Prop} {s s' : NonceStore Uuid}

theorem Unique.stable (h : Unique s) (hp : Progress s s') : Unique s' :=
  fun u v n hu hv hun hvn => h u v n (hp.live hu) (hp.live hv) (hp.holds hun) (hp.holds hvn)

theorem Within.stable (h : Within L s) (hp : Progress s s') : Within L s' :=
  fun u n hu hn => h u n (hp.live hu) (hp.holds hn)

theorem Indexed.stable (h : Indexed L s) (hp : Progress s s') : Indexed L s' := by
  refine ⟨fun u n hu hn => ?_, h.within.stable hp, fun n u hn => ?_⟩
  · rw [hp.uuids]
    exact h.tracked u n (hp.live hu) (hp.holds hn)
  · rw [hp.uuids] at hn
    exact hp.stored u (h.stored n u hn)

/-- what holds when nobody has the store -/
structure Settled (s : NonceStore Uuid) : Prop where
  indexed : Indexed (fun n => n < s.upper) s
  finalized : FinalizedBelow s

theorem empty_settled : Settled (NonceStore.empty : NonceStore Uuid) :=
  ⟨⟨fun _ _ _ hn => (nomatch hn.1), fun _ _ _ hn => (nomatch hn.1), fun _ _ hn => nomatch hn⟩,
    fun _ hf => nomatch hf⟩

theorem Settled.stable (h : Settled s) (hp : Progress s s') : Settled s' := by
  constructor
  · rw [hp.upper]
    exact h.indexed.stable hp
  · rw [FinalizedBelow, hp.finalized, hp.upper]
    exact h.finalized

/-! ## Reading under an assertion -/

section Reading

variable {A P : NonceStore Uuid → Prop}

theorem keep_refl (s : NonceStore Uuid) : Keep s s := fun _ h => h

theorem getFinalizedNonce_keeps {R G : NonceStore Uuid → NonceStore Uuid → Prop} (hA : Asserts R A P)
    (hG : ∀ s, G s s) (hR : ∀ s s', R s s' → s'.finalizedNoncePresent = s.finalizedNoncePresent) (h : A s) :
    Keeps R G P (fun f s => A s ∧ f = s.finalized) getFinalizedNonce s := by
  refine (hA.read hG _ h).bind fun present s1 h1 => ?_
  split
  next hp => exact Keeps.pure ⟨h1.1, by rw [NonceStore.finalized, if_pos (h1.2.symm.trans hp)]⟩
  next hp =>
    have hA' : Asserts R (fun s => A s ∧ present = s.finalizedNoncePresent) P :=
      ⟨fun s s' h hs' => ⟨hA.stable s s' h.1 hs', h.2.trans (hR s s' hs').symm⟩, fun s h => hA.holds s h.1⟩
    refine (hA'.read hG _ h1).mono fun f s2 h2 => ⟨h2.1.1, ?_⟩
    rw [NonceStore.finalized, if_neg (h2.1.2 ▸ hp)]
    exact h2.2

/-- nobody tracked for the nonce is live any more -/
def Available (s : NonceStore Uuid) (n : U256) : Prop :=
  ∀ u, s.transactionUuidByNonce n = some u → s.transactions u = some .Dropped

theorem Available.stable {n : U256} (h : Available s n) (hp : Progress s s') : Available s' n := by
  intro u hu
  rw [hp.uuids] at hu
  exact hp.dropped u (h u hu)

/-- a nonce found available stays so while the store is ours -/
theorem nonceAvailable_keeps (hA : Asserts Progress A P) (hindexed : ∀ s, A s → ∃ L, Indexed L s) (n : U256) (h : A s) :
    Keeps Progress Keep P (fun b s => A s ∧ (b = true → Available s n)) (nonceAvailable n) s := by
  refine (hA.read keep_refl _ h).bind fun tracked s1 h1 => ?_
  cases tracked with
  | none => exact Keeps.pure ⟨h1.1, fun _ u hu => by cases h1.2.trans hu⟩
  | some uuid =>
    have hA' : Asserts Progress (fun s => A s ∧ some uuid = s.transactionUuidByNonce n) P :=
      ⟨fun s s' h hs' => ⟨hA.stable s s' h.1 hs', by rw [hs'.uuids]; exact h.2⟩, fun s h => hA.holds s h.1⟩
    refine (hA'.read keep_refl _ h1).bind fun tx s2 h2 => ?_
    obtain ⟨⟨hA2, htracked⟩, htx⟩ := h2
    cases tx with
    | none =>
      -- a tracked transaction is stored
      obtain ⟨L, hL⟩ := hindexed s2 hA2
      exact absurd htx.symm (hL.stored n uuid htracked.symm)
    | some status =>
      refine Keeps.pure ⟨hA2, fun hfreed u hu => ?_⟩
      obtain rfl := Option.some.inj (htracked.trans hu)
      have hdropped : status = .Dropped := by cases status <;> first | rfl | cases hfreed
      exact htx.symm.trans (congrArg some hdropped)

theorem getFinalizedNonce_readOnly : (getFinalizedNonce : Db Uuid (Option U256)).ReadOnly := by
  refine (Prog.steps_read (fun _ => rfl) _).bind fun present => ?_
  split
  · trivial
  · exact Prog.steps_read (fun _ => rfl) _

theorem validateAssignedNonce_readOnly (txUuid : Uuid) (status : TransactionStatus) (txNonce : Option U256) :
    (validateAssignedNonce txUuid status txNonce).ReadOnly := by
  refine (Prog.steps_read (fun _ => rfl) _).bind fun stored => ?_
  dsimp only
  split
  · trivial
  · refine getFinalizedNonce_readOnly.bind fun finalized => ?_
    cases calculateNonceStatus status with
    | Freed => trivial
    | Taken =>
      dsimp only
      split <;> trivial
    | Committed => trivial

end Reading

/-! ## Clearing a nonce -/

/-- the indexes agree within `L`, and the boundaries are `f` and `u` -/
structure At (f : Option U256) (u : U256) (L : U256 → Prop) (s : NonceStore Uuid) : Prop where
  indexed : Indexed L s
  finalized : s.finalized = f
  upper : s.upper = u

theorem At.stable {f : Option U256} {u : U256} (h : At f u L s) (hp : Progress s s') : At f u L s' :=
  ⟨h.indexed.stable hp, hp.finalized.trans h.finalized, hp.upper.trans h.upper⟩

/-- `P` asks for no more than uniqueness, nonces within `L` and the boundaries -/
def Allows (P : NonceStore Uuid → Prop) (f : Option U256) (u : U256) (L : U256 → Prop) : Prop :=
  ∀ s, Unique s → Within L s → s.finalized = f → s.upper = u → P s

theorem Allows.asserts {P : NonceStore Uuid → Prop} {f : Option U256} {u : U256} (h : Allows P f u L) :
    Asserts Progress (At f u L) P :=
  ⟨fun _ _ h hs' => h.stable hs', fun s hat => h s hat.indexed.unique hat.indexed.within hat.finalized hat.upper⟩

/-- the tracking of `n` is cleared, its transaction `tx` not yet -/
structure Clearing (f : Option U256) (u : U256) (L : U256 → Prop) (n : U256) (tx : Uuid) (s : NonceStore Uuid) :
    Prop where
  unique : Unique s
  within : Within L s
  tracked : ∀ v m, v ≠ tx → Live s v → Holds s v m → m ≠ n ∧ s.transactionUuidByNonce m = some v
  stored : ∀ m v, s.transactionUuidByNonce m = some v → s.transactions v ≠ none
  finalized : s.finalized = f
  upper : s.upper = u

variable {f : Option U256} {u n : U256} {tx : Uuid}

theorem Clearing.stable (h : Clearing f u L n tx s) (hp : Progress s s') : Clearing f u L n tx s' where
  unique := h.unique.stable hp
  within := h.within.stable hp
  tracked v m hv hlive hm := by
    rw [hp.uuids]
    exact h.tracked v m hv (hp.live hlive) (hp.holds hm)
  stored m v hm := by
    rw [hp.uuids] at hm
    exact hp.stored v (h.stored m v hm)
  finalized := hp.finalized.trans h.finalized
  upper := hp.upper.trans h.upper

theorem At.clearUuid (h : At f u L s) (ht : s.transactionUuidByNonce n = some tx) :
    Clearing f u L n tx
      { s with transactionUuidByNonce := Function.update s.transactionUuidByNonce n none } where
  unique := h.indexed.unique
  within := h.indexed.within
  tracked v m hv hlive hm := by
    have htracked := h.indexed.tracked v m hlive hm
    have hne : m ≠ n := fun he => hv (Option.some.inj (htracked.symm.trans (he ▸ ht)))
    exact ⟨hne, (Function.update_of_ne hne _ _).trans htracked⟩
  stored m v hm := by
    by_cases he : m = n
    · subst he
      simp only [Function.update_self] at hm
      cases hm
    · simp only [Function.update_of_ne he] at hm
      exact h.indexed.stored m v hm
  finalized := h.finalized
  upper := h.upper

/-- who holds what after a nonce is stored for a transaction -/
theorem Holds.of_storeNonce [DecidableEq Uuid] {k m : U256} {v : Uuid}
    (h : Holds { s with nonceByTransactionUuid := Function.update s.nonceByTransactionUuid tx (some k) } v m) :
    (v = tx ∧ m = k ∧ k ≠ U256.MAX) ∨ (v ≠ tx ∧ Holds s v m) := by
  obtain ⟨hm, hmax⟩ := h
  by_cases hv : v = tx
  · subst hv
    simp only [Function.update_self] at hm
    obtain rfl := Option.some.inj hm
    exact Or.inl ⟨rfl, rfl, hmax⟩
  · simp only [Function.update_of_ne hv] at hm
    exact Or.inr ⟨hv, hm, hmax⟩

/-- afterwards nobody live holds `n` -/
theorem Clearing.clearNonce [DecidableEq Uuid] (h : Clearing f u L n tx s) :
    At f u (fun m => L m ∧ m ≠ n)
      { s with nonceByTransactionUuid := Function.update s.nonceByTransactionUuid tx (some U256.MAX) } := by
  refine ⟨⟨fun v m hlive hm => ?_, fun v m hlive hm => ?_, h.stored⟩, h.finalized, h.upper⟩
  · rcases hm.of_storeNonce with ⟨-, -, hmax⟩ | ⟨hv, hm⟩
    · exact absurd rfl hmax
    · exact (h.tracked v m hv hlive hm).2
  · rcases hm.of_storeNonce with ⟨-, -, hmax⟩ | ⟨hv, hm⟩
    · exact absurd rfl hmax
    · exact ⟨h.within v m hlive hm, (h.tracked v m hv hlive hm).1⟩

section ClearPrograms

variable {P : NonceStore Uuid → Prop}

theorem clearTrackedTxUuid_keeps (hP : Allows P f u L)
    (h : At f u L s) (ht : s.transactionUuidByNonce n = some tx) :
    Keeps Progress Keep P (fun _ s => Clearing f u L n tx s) (clearTrackedTxUuid n) s := by
  have hA : Asserts Progress (fun s => At f u L s ∧ s.transactionUuidByNonce n = some tx) P :=
    ⟨fun s s' h hs' => ⟨h.1.stable hs', by rw [hs'.uuids]; exact h.2⟩,
      fun s h => hP s h.1.indexed.unique h.1.indexed.within h.1.finalized h.1.upper⟩
  exact hA.write (fun _ _ _ h => h) (fun s h => h.1.clearUuid h.2) ⟨h, ht⟩

theorem clearTrackedTxNonce_keeps [DecidableEq Uuid]
    (hP : Allows P f u L) (h : Clearing f u L n tx s) :
    Keeps Progress Keep P (fun _ s => At f u (fun m => L m ∧ m ≠ n) s) (clearTrackedTxNonce tx) s := by
  have hA : Asserts Progress (Clearing f u L n tx) P :=
    ⟨fun s s' h hs' => h.stable hs', fun s h => hP s h.unique h.within h.finalized h.upper⟩
  exact hA.write (fun _ _ _ h => h) (fun s h => h.clearNonce) h

end ClearPrograms

/-! ## Assigning a nonce -/

section Assign

variable {A P : NonceStore Uuid → Prop}

/-- the scan ends at the first available nonce or at the end -/
theorem scanFreeNonce_keeps (hA : Asserts Progress A P) (hindexed : ∀ s, A s → ∃ L, Indexed L s) (k : ℕ) (m : U256)
    (hk : m.val + k < 2 ^ 256) (h : A s) :
    Keeps Progress Keep P
      (fun r s => A s ∧ m.val ≤ r.val ∧ r.val ≤ m.val + k ∧ (r.val < m.val + k → Available s r))
      (scanFreeNonce k m) s := by
  induction k generalizing m s with
  | zero => exact Keeps.pure ⟨h, le_rfl, le_rfl, fun hlt => absurd hlt (lt_irrefl _)⟩
  | succ k ih =>
    refine (nonceAvailable_keeps hA hindexed m h).bind fun b s1 h1 => ?_
    cases b with
    | true => exact Keeps.pure ⟨h1.1, le_rfl, Nat.le_add_right _ _, fun _ => h1.2 rfl⟩
    | false =>
      have hval : m.succ.val = m.val + 1 := U256.succ_val (by omega)
      refine (ih m.succ (by omega) h1.1).mono fun r s2 h2 => ?_
      obtain ⟨hA2, hle, hge, hav⟩ := h2
      exact ⟨hA2, by omega, by omega, fun hlt => hav (by omega)⟩

theorem identifyNextNonce_keeps (hA : Asserts Progress A P) (hindexed : ∀ s, A s → ∃ L, Indexed L s)
    (hf : ∀ g, f = some g → g < u) (h : A s) :
    Keeps Progress Keep P (fun r s => A s ∧ r ≤ u ∧ (r < u → Available s r)) (identifyNextNonce f u) s := by
  have hstart : f.elim 0 U256.succ ≤ u := by
    cases f with
    | none => exact Fin.zero_le u
    | some g => exact U256.succ_le (hf g rfl)
  have hsum : (f.elim 0 U256.succ).val + (u.val - (f.elim 0 U256.succ).val) = u.val := Nat.add_sub_cancel' hstart
  refine (scanFreeNonce_keeps hA hindexed _ _ (lt_of_eq_of_lt hsum u.2) h).mono fun r s1 h1 => ?_
  rw [hsum] at h1
  exact ⟨h1.1, h1.2.2.1, h1.2.2.2⟩

end Assign

/-- nobody live holds `n` -/
def Unheld (n : U256) (s : NonceStore Uuid) : Prop := ∀ v, Live s v → ¬ Holds s v n

theorem Unheld.stable (h : Unheld n s) (hp : Progress s s') : Unheld n s' :=
  fun v hv hn => h v (hp.live hv) (hp.holds hn)

theorem Indexed.unheld (h : Indexed (fun m => m < u) s) (hav : n < u → Available s n) : Unheld n s := by
  intro v hv hn
  have hlt := h.within v n hv hn
  exact hv (hav hlt v (h.tracked v n hv hn))

theorem At.track (h : At f u L s) (hn : Unheld n s) (htx : s.transactions tx ≠ none) :
    At f u L { s with transactionUuidByNonce := Function.update s.transactionUuidByNonce n (some tx) } := by
  refine ⟨⟨fun v m hlive hm => ?_, h.indexed.within, fun m v hm => ?_⟩, h.finalized, h.upper⟩
  · have hne : m ≠ n := fun he => hn v hlive (he ▸ hm)
    exact (Function.update_of_ne hne _ _).trans (h.indexed.tracked v m hlive hm)
  · by_cases he : m = n
    · subst he
      simp only [Function.update_self] at hm
      exact Option.some.inj hm ▸ htx
    · simp only [Function.update_of_ne he] at hm
      exact h.indexed.stored m v hm

theorem At.storeNonce [DecidableEq Uuid] (h : At f u L s) (ht : s.transactionUuidByNonce n = some tx)
    (hL : n ≠ U256.MAX → L n) :
    At f u L { s with nonceByTransactionUuid := Function.update s.nonceByTransactionUuid tx (some n) } := by
  refine ⟨⟨fun v m hlive hm => ?_, fun v m hlive hm => ?_, h.indexed.stored⟩, h.finalized, h.upper⟩
  · rcases hm.of_storeNonce with ⟨rfl, rfl, -⟩ | ⟨-, hm⟩
    · exact ht
    · exact h.indexed.tracked v m hlive hm
  · rcases hm.of_storeNonce with ⟨-, rfl, hmax⟩ | ⟨-, hm⟩
    · exact hL hmax
    · exact h.indexed.within v m hlive hm

theorem At.mono {L' : U256 → Prop} (h : At f u L s) (hL : ∀ m, L m → L' m) : At f u L' s :=
  ⟨h.indexed.mono hL, h.finalized, h.upper⟩

theorem At.settled (h : At f u (fun m => m < u) s) (hf : ∀ g, f = some g → g < u) : Settled s := by
  obtain ⟨hindexed, rfl, rfl⟩ := h
  exact ⟨hindexed, hf⟩

theorem At.setUpper (h : At f u L s) (u' : U256) : At f u' L { s with upperNonce := some u' } :=
  ⟨⟨h.indexed.tracked, h.indexed.within, h.indexed.stored⟩, h.finalized, rfl⟩

/-- `n` may be given to `tx` -/
structure Chosen (f : Option U256) (u n : U256) (tx : Uuid) (s : NonceStore Uuid) : Prop where
  indexed : At f u (fun m => m < u) s
  unheld : Unheld n s
  stored : s.transactions tx ≠ none

theorem Chosen.asserts {P : NonceStore Uuid → Prop} (hP : Allows P f u fun m => m < u) :
    Asserts Progress (Chosen f u n tx) P :=
  ⟨fun _ _ h hs' => ⟨h.indexed.stable hs', h.unheld.stable hs', hs'.stored tx h.stored⟩,
    fun s h => hP.asserts.holds s h.indexed⟩

theorem Chosen.setUpper (h : Chosen f n n tx s) : Chosen f n.succ n tx { s with upperNonce := some n.succ } :=
  ⟨(h.indexed.setUpper n.succ).mono fun _ hm => hm.trans_le (U256.le_succ n), h.unheld, h.stored⟩

section AssignProgram

variable [DecidableEq Uuid] {P : NonceStore Uuid → Prop}

theorem clearOldNonce_keeps (hP : Allows P f u L) (old : Option U256)
    (h : At f u L s) : Keeps Progress Keep P (fun _ s => At f u L s) (clearOldNonce tx old) s := by
  cases old with
  | none => exact Keeps.pure h
  | some m =>
    refine (hP.asserts.read keep_refl _ h).bind fun tracked s1 h1 => ?_
    split
    next ht =>
      refine (clearTrackedTxUuid_keeps hP h1.1 (h1.2.symm.trans ht)).bind fun _ s2 h2 => ?_
      exact (clearTrackedTxNonce_keeps hP h2).mono fun _ s3 h3 => h3.mono fun _ h => h.1
    next => exact Keeps.pure h1.1

/-- the chosen nonce is stored in both indexes -/
theorem setTrackedTxUuid_keeps (hP : Allows P f u fun m => m < u) (h : Chosen f u n tx s)
    (hn : n ≠ U256.MAX → n < u) :
    Keeps Progress Keep P (fun _ s => At f u (fun m => m < u) s) (setTrackedTxUuid n tx) s := by
  have hB : Asserts Progress (fun s => At f u (fun m => m < u) s ∧ s.transactionUuidByNonce n = some tx) P :=
    ⟨fun s s' h hs' => ⟨h.1.stable hs', by rw [hs'.uuids]; exact h.2⟩, fun s h => hP.asserts.holds s h.1⟩
  refine Keeps.bind (Q := fun _ s => At f u (fun m => m < u) s ∧ s.transactionUuidByNonce n = some tx) ?_
    fun _ s1 h1 => ?_
  · refine (Chosen.asserts hP).write (fun _ _ _ h => h) (fun s h => ⟨h.indexed.track h.unheld h.stored, ?_⟩) h
    exact Function.update_self n (some tx) s.transactionUuidByNonce
  · exact hB.write (fun _ _ _ h => h) (fun s h => h.1.storeNonce h.2 hn) h1

theorem assignNextNonceBody_keeps (old : Option U256) (hf : ∀ g, f = some g → g < u)
    (hP : ∀ u, (∀ g, f = some g → g < u) → Allows P f u fun m => m < u) (h : At f u (fun m => m < u) s)
    (htx : s.transactions tx ≠ none) :
    Keeps Progress Keep P (fun _ s => Settled s) (assignNextNonceBody tx old) s := by
  have hA := (hP u hf).asserts
  refine ((clearOldNonce_keeps (hP u hf) old h).frame (fun _ _ hs' => hs'.stored tx) (fun _ _ hk => hk tx)
    htx).bind fun _ s1 h1 => ?_
  have hA' : Asserts Progress (fun s => At f u (fun m => m < u) s ∧ s.transactions tx ≠ none) P :=
    ⟨fun s s' h hs' => ⟨h.1.stable hs', hs'.stored tx h.2⟩, fun s h => hA.holds s h.1⟩
  refine (getFinalizedNonce_keeps hA' keep_refl (fun _ _ => Progress.present) h1).bind fun f' s2 h2 => ?_
  obtain rfl : f' = f := h2.2.trans h2.1.1.finalized
  refine (hA'.read keep_refl _ h2.1).bind fun u' s3 h3 => ?_
  obtain rfl : u' = u := h3.2.trans h3.1.1.upper
  refine (identifyNextNonce_keeps hA' (fun s h => ⟨_, h.1.indexed⟩) hf h3.1).bind fun next s4 h4 => ?_
  obtain ⟨⟨hat, htx⟩, hle, hav⟩ := h4
  have hunheld : Unheld next s4 := hat.indexed.unheld hav
  -- the last two writes, under the boundary as it is by then
  have hstore : ∀ w s, (∀ g, f' = some g → g < w) → Chosen f' w next tx s → (next ≠ U256.MAX → next < w) →
      Keeps Progress Keep P (fun _ s => Settled s) (do setTrackedTxUuid next tx; pure next) s :=
    fun w s hw hchosen hL =>
      (setTrackedTxUuid_keeps (hP w hw) hchosen hL).bind fun _ _ hat => Keeps.pure (hat.settled hw)
  dsimp only
  split
  next heq =>
    subst heq
    have hup : ∀ g, f' = some g → g < next.succ := fun g hg => (hf g hg).trans_le (U256.le_succ next)
    refine Keeps.bind (Q := fun _ s => Chosen f' next.succ next tx s) ?_ fun _ s5 h5 => ?_
    · exact (Chosen.asserts (hP next hf)).write (fun _ _ _ h => h) (fun s h => h.setUpper) ⟨hat, hunheld, htx⟩
    · exact hstore next.succ s5 hup h5 U256.lt_succ
  next hne => exact hstore u' s4 hf ⟨hat, hunheld, htx⟩ fun _ => lt_of_le_of_ne hle hne

end AssignProgram

/-! ## Following the chain -/

section Update

variable {P : NonceStore Uuid → Prop}

/-- the indexes agree below the upper nonce `u`; the finalized nonce is on its way -/
def Moving (u : U256) (s : NonceStore Uuid) : Prop := Indexed (fun m => m < u) s ∧ s.upper = u

/-- `P` asks for no more than uniqueness and nonces below the upper one -/
def AllowsMoving (P : NonceStore Uuid → Prop) : Prop := ∀ s, Unique s → Within (fun m => m < s.upper) s → P s

theorem AllowsMoving.asserts (hP : AllowsMoving P) (u : U256) : Asserts Progress (Moving u) P := by
  refine ⟨fun _ _ h hs' => ⟨h.1.stable hs', hs'.upper.trans h.2⟩, ?_⟩
  rintro s ⟨hindexed, rfl⟩
  exact hP s hindexed.unique hindexed.within

theorem AllowsMoving.allows (hP : AllowsMoving P) : Allows P f u fun m => m < u := by
  rintro s hunique hwithin - rfl
  exact hP s hunique hwithin

theorem recordRegression_keeps (hP : AllowsMoving P) (new old : Option U256) (existing : Option ReorgedNonceRange)
    (h : Moving u s) : Keeps Progress Keep P (fun _ s => Moving u s) (recordRegression new old existing) s := by
  rw [recordRegression]
  split
  · exact Keeps.pure h
  · refine Keeps.bind (Q := fun _ s => Moving u s) ?_ fun _ s1 h1 => Keeps.pure h1
    exact (hP.asserts u).write (fun _ _ _ h => h) (fun s h => ⟨⟨h.1.tracked, h.1.within, h.1.stored⟩, h.2⟩) h

theorem storeFinalizedNonce_keeps (hP : AllowsMoving P) (new : Option U256) (h : Moving u s) :
    Keeps Progress Keep P (fun _ s => At new u (fun m => m < u) s) (storeFinalizedNonce new) s := by
  have hkeep : ∀ (s : NonceStore Uuid) (value : Option U256) (present : Option Bool), Indexed (fun m => m < u) s →
      Indexed (fun m => m < u) { s with finalizedNonce := value, finalizedNoncePresent := present } :=
    fun s _ _ h => ⟨h.tracked, h.within, h.stored⟩
  cases new with
  | none => exact (hP.asserts u).write (fun _ _ _ h => h) (fun s h => ⟨hkeep s _ _ h.1, rfl, h.2⟩) h
  | some nonce =>
    have hB : Asserts Progress (fun s => Moving u s ∧ s.finalizedNonce = some nonce) P :=
      ⟨fun s s' h hs' => ⟨(hP.asserts u).stable s s' h.1 hs', by rw [hs'.same]; exact h.2⟩,
        fun s h => (hP.asserts u).holds s h.1⟩
    refine Keeps.bind (Q := fun _ s => Moving u s ∧ s.finalizedNonce = some nonce) ?_ fun _ s1 h1 => ?_
    · exact (hP.asserts u).write (fun _ _ _ h => h) (fun s h => ⟨⟨hkeep s _ _ h.1, h.2⟩, rfl⟩) h
    · exact hB.write (fun _ _ _ h => h) (fun s h => ⟨hkeep s _ _ h.1.1, h.2, h.1.2⟩) h1

theorem raiseUpperNonce_keeps (hP : AllowsMoving P) (hmax : ∀ g, f = some g → g ≠ U256.MAX)
    (h : At f u (fun m => m < u) s) :
    Keeps Progress Keep P (fun r s => At f r (fun m => m < r) s ∧ ∀ g, f = some g → g < r) (raiseUpperNonce f) s := by
  have hA := (hP.allows : Allows P f u fun m => m < u).asserts
  refine (hA.read keep_refl _ h).bind fun u' s1 h1 => ?_
  obtain rfl : u' = u := h1.2.trans h1.1.upper
  cases hpassed : f.filter fun nonce => u' ≤ nonce with
  | none =>
    refine Keeps.pure ⟨h1.1, fun g hg => ?_⟩
    subst hg
    simpa [Option.filter] using hpassed
  | some nonce =>
    obtain ⟨rfl, hle⟩ := Option.filter_eq_some_iff.1 hpassed
    have hlt : nonce < nonce.succ := U256.lt_succ (hmax nonce rfl)
    have hle : u' ≤ nonce.succ := (of_decide_eq_true hle).trans hlt.le
    refine Keeps.bind (Q := fun _ s => At (some nonce) nonce.succ (fun m => m < nonce.succ) s) ?_ fun _ s2 h2 => ?_
    · exact hA.write (fun _ _ _ h => h) (fun s h => (h.setUpper nonce.succ).mono fun _ hm => hm.trans_le hle) h1.1
    · refine Keeps.pure ⟨h2, fun g hg => ?_⟩
      obtain rfl := Option.some.inj hg
      exact hlt

/-- nothing from `r` on is held by a live transaction -/
structure Trimmed (f : Option U256) (u r : U256) (s : NonceStore Uuid) : Prop where
  indexed : At f u (fun m => m < u) s
  available : ∀ m, r ≤ m → m < u → Available s m

theorem Trimmed.asserts (hP : AllowsMoving P) (r : U256) : Asserts Progress (Trimmed f u r) P :=
  ⟨fun _ _ h hs' => ⟨h.indexed.stable hs', fun m h1 h2 => (h.available m h1 h2).stable hs'⟩,
    fun s h => (hP.allows : Allows P f u fun m => m < u).asserts.holds s h.indexed⟩

theorem Trimmed.below {r : U256} (h : Trimmed f u r s) : At f u (fun m => m < r) s := by
  obtain ⟨⟨hindexed, hf, hu⟩, hav⟩ := h
  refine ⟨⟨hindexed.tracked, fun v m hlive hm => ?_, hindexed.stored⟩, hf, hu⟩
  by_contra hle
  have hlt := hindexed.within v m hlive hm
  exact hlive (hav m (not_lt.1 hle) hlt v (hindexed.tracked v m hlive hm))

theorem scanTrim_keeps (hP : AllowsMoving P) (k : ℕ) (r : U256) (hk : k ≤ r.val) (h : Trimmed f u r s) :
    Keeps Progress Keep P (fun r' s => Trimmed f u r' s ∧ r.val - k ≤ r'.val) (scanTrim k r) s := by
  induction k generalizing r s with
  | zero => exact Keeps.pure ⟨h, le_rfl⟩
  | succ k ih =>
    have hval : r.pred.val = r.val - 1 := rfl
    refine (nonceAvailable_keeps (Trimmed.asserts hP r) (fun s h => ⟨_, h.indexed.indexed⟩) r.pred h).bind
      fun b s1 h1 => ?_
    cases b with
    | true =>
      have htrim : Trimmed f u r.pred s1 := by
        refine ⟨h1.1.indexed, fun m hle hlt => ?_⟩
        rcases eq_or_lt_of_le hle with rfl | hgt
        · exact h1.2 rfl
        · refine h1.1.available m (Fin.le_def.2 ?_) hlt
          have := Fin.lt_def.1 hgt
          omega
      refine (ih r.pred (by omega) htrim).mono fun r' s2 h2 => ⟨h2.1, ?_⟩
      have := h2.2
      omega
    | false => exact Keeps.pure ⟨h1.1, Nat.sub_le _ _⟩

theorem trimFreedUpperNonces_keeps (hP : AllowsMoving P) (hf : ∀ g, f = some g → g < u)
    (h : At f u (fun m => m < u) s) :
    Keeps Progress Keep P (fun _ s => Settled s) (trimFreedUpperNonces f u) s := by
  have hfloor : f.elim 0 U256.succ ≤ u := by
    cases f with
    | none => exact Fin.zero_le u
    | some g => exact U256.succ_le (hf g rfl)
  have hstart : Trimmed f u u s := ⟨h, fun m h1 h2 => absurd h2 (not_lt.2 h1)⟩
  refine (scanTrim_keeps hP _ u (Nat.sub_le _ _) hstart).bind fun r s1 h1 => ?_
  obtain ⟨htrim, hr⟩ := h1
  rw [Nat.sub_sub_self hfloor] at hr
  have hbelow : ∀ g, f = some g → g < r := by
    rintro g rfl
    have hmax : g ≠ U256.MAX := by
      rintro rfl
      exact not_lt.2 (Fin.le_last u) (hf _ rfl)
    exact (U256.lt_succ hmax).trans_le hr
  dsimp only
  split
  · refine Keeps.bind (Q := fun _ s => Settled s) ?_ fun _ s2 h2 => Keeps.pure h2
    exact (Trimmed.asserts hP r).write (fun _ _ _ h => h) (fun s h => (h.below.setUpper r).settled hbelow) htrim
  next heq => exact Keeps.pure (htrim.indexed.settled hf)

theorem updateBoundaryNoncesBody_keeps (hP : AllowsMoving P) (hJ : ∀ s, Settled s → P s)
    (hmax : ∀ g, f = some g → g ≠ U256.MAX) (h : Settled s) :
    Keeps Progress Keep P (fun _ s => Settled s) (updateBoundaryNoncesBody f) s := by
  have hA := hP.asserts s.upper
  refine (getFinalizedNonce_keeps hA keep_refl (fun _ _ => Progress.present) ⟨h.indexed, rfl⟩).bind fun old s1 h1 => ?_
  refine (hA.read keep_refl _ h1.1).bind fun existing s2 h2 => ?_
  refine (recordRegression_keeps hP f old existing h2.1).bind fun pending s3 h3 => ?_
  refine (storeFinalizedNonce_keeps hP f h3).bind fun _ s4 h4 => ?_
  refine (raiseUpperNonce_keeps hP hmax h4).bind fun u s5 h5 => ?_
  refine (trimFreedUpperNonces_keeps hP h5.2 h5.1).bind fun _ s6 h6 => ?_
  rw [clearRecovered.eq_def]
  split
  · refine Asserts.write ⟨fun _ _ h hs' => h.stable hs', hJ⟩ (fun _ _ _ h => h) (fun s h => ?_) h6
    exact ⟨⟨h.indexed.tracked, h.indexed.within, h.indexed.stored⟩, h.finalized⟩
  · exact Keeps.pure h6

end Update

/-! ## The operator's reset -/

theorem checkDesired_ok {d : U256} (h : checkDesired f u d = .ok ()) : d < u ∧ ∀ g, f = some g → g < d := by
  unfold checkDesired at h
  split at h
  · exact nomatch h
  next hlt =>
    refine ⟨not_le.1 hlt, fun g hg => ?_⟩
    subst hg
    simp only at h
    split at h
    · exact nomatch h
    next hle => exact not_le.1 hle

section Reset

variable [DecidableEq Uuid] {P : NonceStore Uuid → Prop}

/-- what is left of the range from `d` to `u` when the nonces before `m` are cleared -/
def Uncleared (d u m n : U256) : Prop := n < d ∨ (m ≤ n ∧ n < u)

theorem clearNonces_keeps (hP : ∀ s, Unique s → P s) {d w : U256} (k : ℕ) (m : U256) (hk : m.val + k = u.val)
    (h : At f w (Uncleared d u m) s) :
    Keeps Progress Keep P (fun _ s => At f w (fun n => n < d) s) (clearNonces k m) s := by
  have hallows : ∀ L, Allows P f w L := fun _ s hunique _ _ _ => hP s hunique
  induction k generalizing m s with
  | zero =>
    refine Keeps.pure (h.mono fun n hn => ?_)
    rcases hn with hlt | ⟨hge, hlt⟩
    · exact hlt
    · exact absurd (hge.trans_lt hlt) (not_lt.2 (Fin.le_def.2 hk.symm.le))
  | succ k ih =>
    have hval : m.succ.val = m.val + 1 := U256.succ_val (by have := u.2; omega)
    have hnext : ∀ n, Uncleared d u m n ∧ n ≠ m → Uncleared d u m.succ n := by
      rintro n ⟨hlt | ⟨hge, hlt⟩, hne⟩
      · exact Or.inl hlt
      · exact Or.inr ⟨U256.succ_le (lt_of_le_of_ne hge hne.symm), hlt⟩
    refine ((hallows _).asserts.read keep_refl _ h).bind fun tracked s1 h1 => ?_
    cases tracked with
    | none =>
      -- a nonce that is not tracked is not held
      refine ih m.succ (by omega) ⟨⟨h1.1.indexed.tracked, fun v n hlive hn => ?_, h1.1.indexed.stored⟩,
        h1.1.finalized, h1.1.upper⟩
      refine hnext n ⟨h1.1.indexed.within v n hlive hn, ?_⟩
      rintro rfl
      cases h1.2.trans (h1.1.indexed.tracked v n hlive hn)
    | some uuid =>
      refine (clearTrackedTxUuid_keeps (hallows _) h1.1 h1.2.symm).bind fun _ s2 h2 => ?_
      refine (clearTrackedTxNonce_keeps (hallows _) h2).bind fun _ s3 h3 => ?_
      exact ih m.succ (by omega) (h3.mono hnext)

theorem overwriteUpperNonce_keeps (hP : ∀ s, Unique s → P s) (desired : Option (Fin (2 ^ 64))) (h : Settled s) :
    Keeps Progress Keep P (fun _ s => Settled s) (overwriteUpperNonce desired) s := by
  have hallows : ∀ f u L, Allows P f u L := fun _ _ _ s hunique _ _ _ => hP s hunique
  have hA := (hallows s.finalized s.upper fun m => m < s.upper).asserts
  have hsettled := h.finalized
  refine (getFinalizedNonce_keeps hA keep_refl (fun _ _ => Progress.present) ⟨h.indexed, rfl, rfl⟩).bind fun f s1 h1 => ?_
  refine (hA.read keep_refl _ h1.1).bind fun u s2 h2 => ?_
  obtain rfl : f = s.finalized := h1.2.trans h1.1.finalized
  obtain rfl : u = s.upper := h2.2.trans h2.1.upper
  generalize hd : (desired.elim (s.finalized.elim 0 U256.succ) fun n => (⟨n.val, _⟩ : U256)) = d
  cases hcheck : checkDesired s.finalized s.upper d with
  | error e => exact Keeps.pure (h2.1.settled hsettled)
  | ok _ =>
    obtain ⟨hlt, hf⟩ := checkDesired_ok hcheck
    refine Keeps.bind (Q := fun _ s' => At s.finalized d (Uncleared d s.upper d) s') ?_ fun _ s3 h3 => ?_
    · refine hA.write (fun _ _ _ h => h) (fun s' h' => (h'.setUpper d).mono fun n hn => ?_) h2.1
      rcases lt_or_ge n d with hnd | hnd
      · exact Or.inl hnd
      · exact Or.inr ⟨hnd, hn⟩
    · refine (clearNonces_keeps hP _ d (Nat.add_sub_cancel' hlt.le) h3).bind fun _ s4 h4 => ?_
      exact Keeps.pure (h4.settled hf)

end Reset

end Hyperlane.Lander
