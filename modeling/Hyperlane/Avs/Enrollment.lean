/-
How long an operator stays within reach of a challenger it enrolled into.

- `decode_encode`: enrollments survive storage.
- `SystemOp.step_turns`: what a call does to an enrollment, as turns: enrol, start, complete.
- `no_escape`: a challenger that asks for at least `D` blocks, an operator that is enrolled in it and registered at block
  `t`: in every run with blocks before `t + D` the operator stays registered and the challenger may freeze it.
- `others_keep`, `can_leave`: nobody else changes the enrollments of an operator, and after the delay it can leave.

A start block is stored in 248 bits; the run stays below block `2^248`.
-/
import Hyperlane.Avs.ServiceManager
import Hyperlane.Avs.StakeHistory

namespace Hyperlane.Avs

open Hyperlane.Checkpoints Hyperlane.Reentrancy Hyperlane.Outcome Hyperlane.Bytes

variable {H M : Type} {C : History H} {E : EnumerableMap.Ops M Address (Word 32)} {manager : Address} {now : ℕ}
variable {v : ManagerView} {s s' s'' : System H M} {r r' : Registry H}

/-! ## Storage -/

theorem ofByte_toByte (status : EnrollmentStatus) : EnrollmentStatus.ofByte status.toByte = .ok status := by
  cases status <;> rfl

theorem decode_encode {e : Enrollment} (h : e.unenrollmentStartBlock < 2 ^ 248) : decode (encode e) = .ok e := by
  have hblock : ofBe (be 31 e.unenrollmentStartBlock) = e.unenrollmentStartBlock := ofBe_be (by norm_num at h ⊢; exact h)
  unfold decode encode
  rw [List.headD_cons, ofByte_toByte, ok_bind, List.tail_cons, hblock]
  rfl

variable (E s) in
/-- the enrollment of an operator in a challenger, if there is one that can be read -/
def enrollmentOf (operator challenger : Address) : Option Enrollment :=
  (E.tryGet (s.enrolledChallengers operator) challenger).bind fun value => (decode value).toOption

theorem tryGet_found {operator challenger : Address} {e : Enrollment}
    (h : tryGet E s operator challenger = .ok (true, e)) : enrollmentOf E s operator challenger = some e := by
  unfold tryGet at h
  unfold enrollmentOf
  split at h
  · rename_i value hvalue
    obtain ⟨e', he', h⟩ := bind_eq_ok.1 h
    cases h
    rw [hvalue, Option.bind_some, he']
    rfl
  · obtain ⟨e', -, h⟩ := bind_eq_ok.1 h
    cases h

theorem tryGet_of_enrollment {operator challenger : Address} {e : Enrollment}
    (h : enrollmentOf E s operator challenger = some e) : tryGet E s operator challenger = .ok (true, e) := by
  unfold enrollmentOf at h
  obtain ⟨value, hvalue, hdecode⟩ := Option.bind_eq_some_iff.1 h
  unfold tryGet
  rw [hvalue]
  exact bind_eq_ok.2 ⟨e, toOption_eq_some hdecode, rfl⟩

theorem enrollmentOf_set_self {operator challenger : Address} (map : M) :
    enrollmentOf E (setEnrollments s operator map) operator challenger =
      (E.tryGet map challenger).bind fun value => (decode value).toOption := by
  unfold enrollmentOf setEnrollments
  simp

/-! ## Turns -/

/-- what can happen to one enrollment in block `now`, if the challenger answers with `delay` -/
inductive Turn (now : ℕ) (delay : Option ℕ) : Option Enrollment → Option Enrollment → Prop
  | enrol : Turn now delay none (some ⟨.ENROLLED, 0⟩)
  | start {e : Enrollment} (he : e.status = .ENROLLED) :
      Turn now delay (some e) (some ⟨.PENDING_UNENROLLMENT, now % 2 ^ 248⟩)
  | complete {e : Enrollment} {d : ℕ} (he : e.status = .PENDING_UNENROLLMENT) (hd : delay = some d)
      (hnow : e.unenrollmentStartBlock + d ≤ now) : Turn now delay (some e) none

/-- the turns of one call; only the caller's enrollments change -/
structure Turns (now : ℕ) (v : ManagerView) (E : EnumerableMap.Ops M Address (Word 32)) (s s' : System H M) : Prop where
  own : ∀ challenger, Relation.ReflTransGen (Turn now (v.challengeDelayBlocks challenger))
    (enrollmentOf E s v.sender challenger) (enrollmentOf E s' v.sender challenger)
  others : ∀ operator, operator ≠ v.sender → s'.enrolledChallengers operator = s.enrolledChallengers operator

theorem enrollmentOf_congr {operator : Address} (h : s'.enrolledChallengers operator = s.enrolledChallengers operator)
    (challenger : Address) : enrollmentOf E s' operator challenger = enrollmentOf E s operator challenger := by
  unfold enrollmentOf
  rw [h]

theorem Turns.trans (h₁ : Turns now v E s s') (h₂ : Turns now v E s' s'') : Turns now v E s s'' :=
  ⟨fun c => (h₁.own c).trans (h₂.own c), fun o ho => (h₂.others o ho).trans (h₁.others o ho)⟩

/-- only the enrollments matter -/
theorem Turns.of_eq (h : s'.enrolledChallengers = s.enrolledChallengers) : Turns now v E s s' := by
  refine ⟨fun c => ?_, fun o _ => congrFun h o⟩
  rw [enrollmentOf_congr (congrFun h v.sender) c]

theorem Turns.refl (s : System H M) : Turns now v E s s := Turns.of_eq rfl

/-- one entry of the caller's map changes -/
theorem Turns.single {challenger : Address} {map : M}
    (hother : ∀ c, c ≠ challenger → E.tryGet map c = E.tryGet (s.enrolledChallengers v.sender) c)
    (hturn : Turn now (v.challengeDelayBlocks challenger) (enrollmentOf E s v.sender challenger)
      ((E.tryGet map challenger).bind fun value => (decode value).toOption)) :
    Turns now v E s (setEnrollments s v.sender map) := by
  refine ⟨fun c => ?_, fun o ho => ?_⟩
  · rw [enrollmentOf_set_self]
    by_cases hc : c = challenger
    · rw [hc]
      exact .single hturn
    · rw [hother c hc]
      exact .refl
  · unfold setEnrollments
    simp [ho]

theorem enrollIntoChallenger_turns (hE : E.Lawful) {challenger : Address}
    (h : enrollIntoChallenger E v s challenger = .ok s') : Turns now v E s s' := by
  unfold enrollIntoChallenger at h
  obtain ⟨hadded, h⟩ := revertIf_bind.1 h
  cases h
  rw [hE.set_added] at hadded
  have hnone : E.tryGet (s.enrolledChallengers v.sender) challenger = none := by simpa using hadded
  refine Turns.single (fun c hc => hE.tryGet_set_ne _ _ hc) ?_
  rw [hE.tryGet_set_self, Option.bind_some, decode_encode (by norm_num)]
  unfold enrollmentOf
  rw [hnone]
  exact .enrol

theorem startUnenrollment_turns (hE : E.Lawful) {challenger : Address}
    (h : startUnenrollment E now v s challenger = .ok s') : Turns now v E s s' := by
  obtain ⟨⟨found, e⟩, hget, h⟩ := bind_eq_ok.1 h
  obtain ⟨hcheck, hrest⟩ := revertIf_bind.1 h
  obtain ⟨rfl, hstatus⟩ := not_not.1 hcheck
  obtain ⟨d, -, hrest⟩ := bind_eq_ok.1 hrest
  cases hrest
  refine Turns.single (fun c hc => hE.tryGet_set_ne _ _ hc) ?_
  rw [hE.tryGet_set_self, Option.bind_some, decode_encode (Nat.mod_lt _ (by norm_num)), tryGet_found hget]
  exact .start hstatus

theorem completeUnenrollment_turns (hE : E.Lawful) {challenger : Address}
    (h : completeUnenrollment E now v v.sender s challenger = .ok s') :
    Turns now v E s s' ∧ enrollmentOf E s' v.sender challenger = none := by
  obtain ⟨⟨found, e⟩, hget, h⟩ := bind_eq_ok.1 h
  obtain ⟨hcheck, hrest⟩ := revertIf_bind.1 h
  obtain ⟨rfl, hstatus⟩ := not_not.1 hcheck
  obtain ⟨d, hd, hrest⟩ := bind_eq_ok.1 hrest
  obtain ⟨deadline, hdeadline, hrest⟩ := bind_eq_ok.1 hrest
  obtain ⟨rfl, -⟩ := checked_eq_ok hdeadline
  obtain ⟨hnow, hrest⟩ := revertIf_bind.1 hrest
  cases hrest
  have hdelay : v.challengeDelayBlocks challenger = some d := by
    unfold challengeDelay at hd
    split at hd
    · rename_i blocks hblocks
      cases hd
      exact hblocks
    · cases hd
  have hgone : (E.tryGet (E.remove (s.enrolledChallengers v.sender) challenger).2 challenger) = none := by
    rw [hE.tryGet_remove, if_pos rfl]
  refine ⟨Turns.single (fun c hc => hE.tryGet_remove_ne _ hc) ?_, ?_⟩
  · rw [hgone, tryGet_found hget]
    exact .complete hstatus hdelay (not_lt.1 hnow)
  · rw [enrollmentOf_set_self, hgone]
    rfl

/-- a list of calls -/
theorem foldlM_turns {f : System H M → Address → Except Error (System H M)}
    (hf : ∀ s s' challenger, f s challenger = .ok s' → Turns now v E s s') {challengers : List Address}
    (h : challengers.foldlM f s = .ok s') : Turns now v E s s' := by
  induction challengers generalizing s with
  | nil =>
    cases h
    exact Turns.refl _
  | cons challenger challengers ih =>
    rw [List.foldlM_cons] at h
    obtain ⟨s₁, hfirst, h⟩ := bind_eq_ok.1 h
    exact (hf s s₁ challenger hfirst).trans (ih h)

/-- an enrollment that is gone is not completed again -/
theorem completeUnenrollments_none (hE : E.Lawful) {challengers : List Address} {challenger : Address}
    (hnone : enrollmentOf E s v.sender challenger = none)
    (h : completeUnenrollments E now v v.sender s challengers = .ok s') :
    enrollmentOf E s' v.sender challenger = none := by
  unfold completeUnenrollments at h
  induction challengers generalizing s with
  | nil =>
    cases h
    exact hnone
  | cons c challengers ih =>
    rw [List.foldlM_cons] at h
    obtain ⟨s₁, hfirst, h⟩ := bind_eq_ok.1 h
    refine ih ?_ h
    by_cases hc : challenger = c
    · rw [hc]
      exact (completeUnenrollment_turns hE hfirst).2
    · obtain ⟨⟨found, e⟩, -, hfirst⟩ := bind_eq_ok.1 hfirst
      obtain ⟨-, hfirst⟩ := revertIf_bind.1 hfirst
      obtain ⟨d, -, hfirst⟩ := bind_eq_ok.1 hfirst
      obtain ⟨deadline, -, hfirst⟩ := bind_eq_ok.1 hfirst
      obtain ⟨-, hfirst⟩ := revertIf_bind.1 hfirst
      cases hfirst
      rw [enrollmentOf_set_self, hE.tryGet_remove_ne _ hc]
      exact hnone

theorem completeUnenrollments_gone (hE : E.Lawful) {challengers : List Address} {challenger : Address}
    (hmem : challenger ∈ challengers) (h : completeUnenrollments E now v v.sender s challengers = .ok s') :
    enrollmentOf E s' v.sender challenger = none := by
  unfold completeUnenrollments at h
  induction challengers generalizing s with
  | nil => cases hmem
  | cons c challengers ih =>
    rw [List.foldlM_cons] at h
    obtain ⟨s₁, hfirst, h⟩ := bind_eq_ok.1 h
    rcases List.mem_cons.1 hmem with heq | hmem
    · rw [heq]
      exact completeUnenrollments_none hE (completeUnenrollment_turns hE hfirst).2 h
    · exact ih hmem h

/-! ## The registry below the service manager -/

/-- the operator set and the service manager are the same -/
def SameSet (r r' : Registry H) : Prop :=
  r'.operatorRegistered = r.operatorRegistered ∧ r'.serviceManager = r.serviceManager

theorem SameSet.trans {r'' : Registry H} (h₁ : SameSet r r') (h₂ : SameSet r' r'') : SameSet r r'' :=
  ⟨h₂.1.trans h₁.1, h₂.2.trans h₁.2⟩

theorem updateOperatorWeight_same {w : View} {operator : Address} {delta : ℤ}
    (h : updateOperatorWeight C now w r operator = .ok (delta, r')) : SameSet r r' := by
  unfold updateOperatorWeight at h
  dsimp only at h
  split_ifs at h
  · obtain ⟨d, -, h⟩ := bind_eq_ok.1 h
    split_ifs at h
    · cases h
      exact ⟨rfl, rfl⟩
    · obtain ⟨history, -, h⟩ := bind_eq_ok.1 h
      cases h
      exact ⟨rfl, rfl⟩
  · obtain ⟨weight, -, h⟩ := bind_eq_ok.1 h
    obtain ⟨d, -, h⟩ := bind_eq_ok.1 h
    split_ifs at h
    · cases h
      exact ⟨rfl, rfl⟩
    · obtain ⟨history, -, h⟩ := bind_eq_ok.1 h
      cases h
      exact ⟨rfl, rfl⟩

theorem updateTotalWeight_same {delta : ℤ} (h : updateTotalWeight C now r delta = .ok r') : SameSet r r' := by
  obtain ⟨weight, -, h⟩ := bind_eq_ok.1 h
  obtain ⟨history, -, h⟩ := bind_eq_ok.1 h
  cases h
  exact ⟨rfl, rfl⟩

theorem updateOperators_same {w : View} {operators : List Address}
    (h : updateOperators C now w r operators = .ok r') : SameSet r r' := by
  obtain ⟨⟨delta, r₁⟩, hweights, h⟩ := bind_eq_ok.1 h
  have hloop : ∀ (operators : List Address) (delta delta' : ℤ) (r r' : Registry H),
      updateOperatorWeights C now w operators delta r = .ok (delta', r') → SameSet r r' := by
    intro operators
    induction operators with
    | nil =>
      intro delta delta' r r' h
      cases h
      exact ⟨rfl, rfl⟩
    | cons operator operators ih =>
      intro delta delta' r r' h
      obtain ⟨⟨change, r₁⟩, hone, h⟩ := bind_eq_ok.1 h
      obtain ⟨next, -, h⟩ := bind_eq_ok.1 h
      exact (updateOperatorWeight_same hone).trans (ih _ _ _ _ h)
  exact (hloop _ _ _ _ _ hweights).trans (updateTotalWeight_same h)

theorem updateStakeThreshold_same {thresholdWeight : ℕ} (h : updateStakeThreshold C now r thresholdWeight = .ok r') :
    SameSet r r' := by
  obtain ⟨history, -, h⟩ := bind_eq_ok.1 h
  cases h
  exact ⟨rfl, rfl⟩

theorem updateQuorumConfig_same {quorum : List StrategyParams} (h : updateQuorumConfig r quorum = .ok r') :
    SameSet r r' := by
  obtain ⟨valid, -, h⟩ := bind_eq_ok.1 h
  cases valid with
  | false => cases h
  | true =>
    cases h
    exact ⟨rfl, rfl⟩

theorem updateOperatorSigningKey_same {operator newSigningKey : Address}
    (h : updateOperatorSigningKey C now r operator newSigningKey = .ok r') : SameSet r r' := by
  unfold updateOperatorSigningKey at h
  dsimp only at h
  split_ifs at h
  · cases h
    exact ⟨rfl, rfl⟩
  · obtain ⟨history, -, h⟩ := bind_eq_ok.1 h
    cases h
    exact ⟨rfl, rfl⟩

/-- a registry that is configured is not configured again -/
theorem configure_refused {w : View} {serviceManager : Address} {thresholdWeight : ℕ} {quorum : List StrategyParams}
    (hset : r.serviceManager ≠ 0) : configure C now w r serviceManager thresholdWeight quorum ≠ .ok r' := by
  intro h
  obtain ⟨-, h⟩ := revertIf_bind.1 h
  obtain ⟨hunset, -⟩ := revertIf_bind.1 h
  exact hunset hset

/-- **What an entry point does to the operator set** of a configured registry: only an operator itself can leave. -/
theorem Op.step_set {w : View} {op : Op} (hset : r.serviceManager ≠ 0) (h : op.step C now w r = .ok r') :
    r'.serviceManager = r.serviceManager ∧ ∀ a, r.operatorRegistered a = true →
      r'.operatorRegistered a = true ∨ op = .deregisterOperator ∧ a = w.sender := by
  have hsame : SameSet r r' → r'.serviceManager = r.serviceManager ∧ ∀ a, r.operatorRegistered a = true →
      r'.operatorRegistered a = true ∨ op = .deregisterOperator ∧ a = w.sender := by
    intro ⟨hregistered, hmanager⟩
    refine ⟨hmanager, fun a ha => .inl ?_⟩
    rw [hregistered]
    exact ha
  cases op with
  | init serviceManager thresholdWeight quorum =>
    obtain ⟨r₁, hinit, h⟩ := bind_eq_ok.1 h
    obtain ⟨-, hinit⟩ := revertIf_bind.1 hinit
    cases hinit
    exact absurd h (configure_refused hset)
  | initializeOwner owner =>
    obtain ⟨r₁, hinit, h⟩ := bind_eq_ok.1 h
    obtain ⟨-, hinit⟩ := revertIf_bind.1 hinit
    cases hinit
    obtain ⟨-, h⟩ := revertIf_bind.1 h
    cases h
    exact hsame ⟨rfl, rfl⟩
  | configure serviceManager thresholdWeight quorum =>
    obtain ⟨-, h⟩ := revertIf_bind.1 h
    exact absurd h (configure_refused hset)
  | registerOperatorWithSignature signingKey =>
    obtain ⟨-, h⟩ := revertIf_bind.1 h
    obtain ⟨n, -, h⟩ := bind_eq_ok.1 h
    obtain ⟨⟨delta, r₁⟩, hweight, h⟩ := bind_eq_ok.1 h
    obtain ⟨r₂, htotal, h⟩ := bind_eq_ok.1 h
    obtain ⟨hregistered, hmanager⟩ :=
      ((updateOperatorWeight_same hweight).trans (updateTotalWeight_same htotal)).trans (updateOperatorSigningKey_same h)
    refine ⟨hmanager, fun a ha => .inl ?_⟩
    rw [hregistered]
    by_cases hop : a = w.sender
    · simp [hop]
    · simpa [hop] using ha
  | deregisterOperator =>
    obtain ⟨-, h⟩ := revertIf_bind.1 h
    obtain ⟨-, h⟩ := revertIf_bind.1 h
    obtain ⟨⟨delta, r₁⟩, hweight, h⟩ := bind_eq_ok.1 h
    obtain ⟨hregistered, hmanager⟩ := (updateOperatorWeight_same hweight).trans (updateTotalWeight_same h)
    refine ⟨hmanager, fun a ha => ?_⟩
    by_cases hop : a = w.sender
    · exact .inr ⟨rfl, hop⟩
    · rw [hregistered]
      exact .inl (by simpa [hop] using ha)
  | updateOperatorSigningKey newSigningKey =>
    obtain ⟨-, h⟩ := revertIf_bind.1 h
    exact hsame (updateOperatorSigningKey_same h)
  | updateOperators operators => exact hsame (updateOperators_same h)
  | updateQuorumConfig quorum operators =>
    obtain ⟨-, h⟩ := revertIf_bind.1 h
    obtain ⟨r₁, hquorum, h⟩ := bind_eq_ok.1 h
    exact hsame ((updateQuorumConfig_same hquorum).trans (updateOperators_same h))
  | updateMinimumWeight newMinimumWeight operators =>
    obtain ⟨-, h⟩ := revertIf_bind.1 h
    have hupdated := updateOperators_same h
    exact hsame hupdated
  | updateStakeThreshold thresholdWeight =>
    obtain ⟨-, h⟩ := revertIf_bind.1 h
    exact hsame (updateStakeThreshold_same h)
  | updateOperatorsForQuorum operatorsPerQuorum =>
    cases operatorsPerQuorum with
    | nil => cases h
    | cons operators rest =>
      obtain ⟨-, h⟩ := revertIf_bind.1 h
      exact hsame (updateOperators_same h)
  | transferOwnership newOwner =>
    obtain ⟨-, h⟩ := revertIf_bind.1 h
    obtain ⟨-, h⟩ := revertIf_bind.1 h
    cases h
    exact hsame ⟨rfl, rfl⟩
  | renounceOwnership =>
    obtain ⟨-, h⟩ := revertIf_bind.1 h
    cases h
    exact hsame ⟨rfl, rfl⟩

/-! ## Every entry point -/

theorem registryStep_turns (hE : E.Lawful) {op : Op} (h : registryStep C E manager now v s op = .ok s') :
    Turns now v E s s' := by
  obtain ⟨registry, hop, h⟩ := bind_eq_ok.1 h
  have hkept : ∀ s₁ : System H M, s₁ = { s with registry := registry } → Turns now v E s s₁ := by
    intro s₁ hs₁
    exact Turns.of_eq (by rw [hs₁])
  cases op with
  | deregisterOperator =>
    dsimp only at h
    split_ifs at h
    · refine (hkept _ rfl).trans (foldlM_turns (fun s₁ s₂ c hc => ?_) h)
      exact (completeUnenrollment_turns hE hc).1
    · cases h
      exact hkept _ rfl
  | _ =>
    cases h
    exact hkept _ rfl

theorem SystemOp.step_turns (hE : E.Lawful) {op : SystemOp} (h : op.step C E manager now v s = .ok s') :
    Turns now v E s s' := by
  cases op with
  | registry op => exact registryStep_turns hE h
  | enrollIntoChallenger challenger => exact enrollIntoChallenger_turns hE h
  | enrollIntoChallengers challengers => exact foldlM_turns (fun _ _ _ => enrollIntoChallenger_turns hE) h
  | startUnenrollment challenger => exact startUnenrollment_turns hE h
  | startUnenrollments challengers => exact foldlM_turns (fun _ _ _ => startUnenrollment_turns hE) h
  | completeUnenrollment challenger => exact (completeUnenrollment_turns hE h).1
  | completeUnenrollments challengers =>
    exact foldlM_turns (fun _ _ _ hc => (completeUnenrollment_turns hE hc).1) h
  | freezeOperator operator =>
    obtain ⟨u, -, h⟩ := bind_eq_ok.1 h
    cases h
    exact Turns.refl _
  | setSlasher slasher =>
    obtain ⟨-, h⟩ := revertIf_bind.1 h
    cases h
    exact Turns.of_eq rfl

section SameRegistry

theorem enrollIntoChallenger_registry {challenger : Address} (h : enrollIntoChallenger E v s challenger = .ok s') :
    s'.registry = s.registry := by
  unfold enrollIntoChallenger at h
  obtain ⟨-, h⟩ := revertIf_bind.1 h
  cases h
  rfl

theorem startUnenrollment_registry {challenger : Address} (h : startUnenrollment E now v s challenger = .ok s') :
    s'.registry = s.registry := by
  obtain ⟨⟨found, e⟩, -, h⟩ := bind_eq_ok.1 h
  obtain ⟨-, h⟩ := revertIf_bind.1 h
  obtain ⟨d, -, h⟩ := bind_eq_ok.1 h
  cases h
  rfl

theorem completeUnenrollment_registry {operator challenger : Address}
    (h : completeUnenrollment E now v operator s challenger = .ok s') : s'.registry = s.registry := by
  obtain ⟨⟨found, e⟩, -, h⟩ := bind_eq_ok.1 h
  obtain ⟨-, h⟩ := revertIf_bind.1 h
  obtain ⟨d, -, h⟩ := bind_eq_ok.1 h
  obtain ⟨deadline, -, h⟩ := bind_eq_ok.1 h
  obtain ⟨-, h⟩ := revertIf_bind.1 h
  cases h
  rfl

theorem foldlM_registry {f : System H M → Address → Except Error (System H M)}
    (hf : ∀ {s s' challenger}, f s challenger = .ok s' → s'.registry = s.registry) {challengers : List Address}
    (h : challengers.foldlM f s = .ok s') : s'.registry = s.registry := by
  induction challengers generalizing s with
  | nil =>
    cases h
    rfl
  | cons challenger challengers ih =>
    rw [List.foldlM_cons] at h
    obtain ⟨s₁, hfirst, h⟩ := bind_eq_ok.1 h
    exact (ih h).trans (hf hfirst)

end SameRegistry

/-- the registry changes only through its own entry points -/
theorem SystemOp.step_registry {op : SystemOp} (h : op.step C E manager now v s = .ok s') :
    s'.registry = s.registry ∨ ∃ rop, op = .registry rop ∧ rop.step C now v.toView s.registry = .ok s'.registry := by
  cases op with
  | registry op =>
    obtain ⟨registry, hop, h⟩ := bind_eq_ok.1 h
    refine .inr ⟨op, rfl, ?_⟩
    cases op with
    | deregisterOperator =>
      dsimp only at h
      split_ifs at h
      · rw [foldlM_registry completeUnenrollment_registry h]
        exact hop
      · cases h
        exact hop
    | _ =>
      cases h
      exact hop
  | enrollIntoChallenger challenger => exact .inl (enrollIntoChallenger_registry h)
  | enrollIntoChallengers challengers => exact .inl (foldlM_registry enrollIntoChallenger_registry h)
  | startUnenrollment challenger => exact .inl (startUnenrollment_registry h)
  | startUnenrollments challengers => exact .inl (foldlM_registry startUnenrollment_registry h)
  | completeUnenrollment challenger => exact .inl (completeUnenrollment_registry h)
  | completeUnenrollments challengers => exact .inl (foldlM_registry completeUnenrollment_registry h)
  | freezeOperator operator =>
    obtain ⟨u, -, h⟩ := bind_eq_ok.1 h
    cases h
    exact .inl rfl
  | setSlasher slasher =>
    obtain ⟨-, h⟩ := revertIf_bind.1 h
    cases h
    exact .inl rfl

/-! ## No escape -/

/-- an enrollment that is not over: its unenrollment has not started, or not before block `t` -/
def Open (t : ℕ) (enrollment : Option Enrollment) : Prop :=
  ∃ e, enrollment = some e ∧ (e.status = .ENROLLED ∨ e.status = .PENDING_UNENROLLMENT ∧ t ≤ e.unenrollmentStartBlock)

variable (E manager s) in
/-- the operator is registered and enrolled -/
structure Bound (t : ℕ) (operator challenger : Address) : Prop where
  configured : s.registry.serviceManager = manager
  registered : s.registry.operatorRegistered operator = true
  reach : Open t (enrollmentOf E s operator challenger)

variable {t D : ℕ} {operator challenger : Address}

/-- before block `t + D` no turn ends an enrollment that asks for `D` blocks -/
theorem Open.turns {delay : Option ℕ} {x y : Option Enrollment} (hopen : Open t x) (hlo : t ≤ now) (hhi : now < t + D)
    (hD : t + D ≤ 2 ^ 248) (hdelay : ∀ d, delay = some d → D ≤ d) (h : Relation.ReflTransGen (Turn now delay) x y) :
    Open t y := by
  induction h with
  | refl => exact hopen
  | tail _ hturn ih =>
    obtain ⟨e, he, hstate⟩ := ih
    cases hturn with
    | enrol => cases he
    | start hstatus =>
      refine ⟨_, rfl, .inr ⟨rfl, ?_⟩⟩
      rw [Nat.mod_eq_of_lt (by omega)]
      exact hlo
    | complete hstatus hd hnow =>
      cases he
      have hle := hdelay _ hd
      rcases hstate with hstate | ⟨-, hstart⟩
      · rw [hstatus] at hstate
        cases hstate
      · omega

/-- one call in a block before `t + D` -/
theorem Bound.step (hE : E.Lawful) (hmanager0 : manager ≠ 0) (hbound : Bound E manager s t operator challenger)
    (hlo : t ≤ now) (hhi : now < t + D) (hD : t + D ≤ 2 ^ 248) {op : SystemOp}
    (hdelay : ∀ d, v.challengeDelayBlocks challenger = some d → D ≤ d) (h : op.step C E manager now v s = .ok s') :
    Bound E manager s' t operator challenger := by
  have hturns := SystemOp.step_turns hE h
  have hreach : Open t (enrollmentOf E s' operator challenger) := by
    by_cases ho : operator = v.sender
    · have hown := hturns.own challenger
      rw [← ho] at hown
      exact hbound.reach.turns hlo hhi hD hdelay hown
    · rw [enrollmentOf_congr (hturns.others operator ho)]
      exact hbound.reach
  rcases SystemOp.step_registry h with hsame | ⟨rop, rfl, hrop⟩
  · exact ⟨by rw [hsame]; exact hbound.configured, by rw [hsame]; exact hbound.registered, hreach⟩
  · have hset : s.registry.serviceManager ≠ 0 := by
      rw [hbound.configured]
      exact hmanager0
    obtain ⟨hmanager, hstay⟩ := Op.step_set hset hrop
    refine ⟨hmanager.trans hbound.configured, ?_, hreach⟩
    rcases hstay operator hbound.registered with hreg | ⟨rfl, ho⟩
    · exact hreg
    · -- leaving the registry would have completed the enrollment
      exfalso
      obtain ⟨registry, hop, h⟩ := bind_eq_ok.1 h
      have hconfigured : registry.serviceManager = manager := ((Op.step_set hset hop).1).trans hbound.configured
      dsimp only at h
      rw [if_pos hconfigured] at h
      obtain ⟨e, he, -⟩ := hbound.reach
      have hkey : challenger ∈ E.keys (s.enrolledChallengers v.sender) := by
        rw [hE.mem_keys, ← ho]
        obtain ⟨value, hvalue, -⟩ := Option.bind_eq_some_iff.1 he
        rw [hvalue]
        rfl
      have hgone := completeUnenrollments_gone hE hkey h
      obtain ⟨e', he', -⟩ := hreach
      rw [ho, hgone] at he'
      cases he'

/-- the calls of a chain on which the challenger asks for at least `D` blocks -/
abbrev PatientCall (challenger : Address) (D : ℕ) : Type :=
  { call : ManagerView × SystemOp // ∀ d, call.1.challengeDelayBlocks challenger = some d → D ≤ d }

/-- an entry point is its step, before and after foreign code -/
theorem systemBody_ensures {K : System H M → System H M → Prop} (htrans : ∀ {a b c}, K a b → K b c → K a c)
    (call : ManagerView × SystemOp) (s : System H M)
    (hstep : ∀ s', call.2.step C E manager now call.1 s = .ok s' → K s s') :
    (systemBody C E manager now call).Ensures K (K s) s := by
  have hsteps : ∀ s', (call.2.step C E manager now call.1 s).toOption = some s' → K s s' :=
    fun s' h => hstep s' (toOption_eq_some h)
  unfold systemBody
  dsimp only
  split_ifs
  · intro s₁ h₁ s₂ h₂ answer s₃ h₃
    cases h₃
    exact htrans (hsteps s₁ h₁) h₂
  · exact hsteps

/-- **No escape.** An operator that is registered and enrolled in a challenger at block `t`, where the challenger asks for
at least `D` blocks: after every run with blocks before `t + D`, whatever foreign code does, the operator is registered
and the challenger passes the check of `freezeOperator`. -/
theorem no_escape (hE : E.Lawful) (hmanager0 : manager ≠ 0) (hD : t + D ≤ 2 ^ 248)
    (hconfigured : s.registry.serviceManager = manager) (hregistered : s.registry.operatorRegistered operator = true)
    {e : Enrollment} (henrolled : enrollmentOf E s operator challenger = some e) (hstatus : e.status = .ENROLLED)
    (txs : List (ℕ × Frame (PatientCall challenger D))) (hblocks : ∀ tx ∈ txs, t ≤ tx.1 ∧ tx.1 < t + D) :
    let s' := run (fun now call => systemBody C E manager now call.1) s txs
    s'.registry.operatorRegistered operator = true ∧
      ∀ v : ManagerView, v.sender = challenger → onlyEnrolledChallenger E v s' operator = .ok () := by
  intro s'
  have hbound : Bound E manager s' t operator challenger := by
    refine run_guarantee
      (K := fun s s' => Bound E manager s t operator challenger → Bound E manager s' t operator challenger)
      (fun _ => id) (fun h₁ h₂ h => h₂ (h₁ h)) txs ?_ s ⟨hconfigured, hregistered, e, henrolled, .inl hstatus⟩
    intro tx htx call s
    refine systemBody_ensures (fun h₁ h₂ h => h₂ (h₁ h)) call.1 s fun s' hstep hb => ?_
    exact hb.step hE hmanager0 (hblocks tx htx).1 (hblocks tx htx).2 hD call.2 hstep
  refine ⟨hbound.registered, ?_⟩
  intro v hv
  obtain ⟨e', he', -⟩ := hbound.reach
  unfold onlyEnrolledChallenger
  rw [hv, tryGet_of_enrollment he']
  rfl

/-! ## Leaving -/

/-- the calls of everybody but the operator -/
abbrev CallByOthers (operator : Address) : Type := { call : ManagerView × SystemOp // call.1.sender ≠ operator }

/-- **Nobody else** changes the enrollments of an operator. -/
theorem others_keep (hE : E.Lawful) (txs : List (ℕ × Frame (CallByOthers operator))) :
    (run (fun now call => systemBody C E manager now call.1) s txs).enrolledChallengers operator =
      s.enrolledChallengers operator := by
  refine run_guarantee (K := fun s s' : System H M => s'.enrolledChallengers operator = s.enrolledChallengers operator)
    (fun _ => rfl) (fun h₁ h₂ => h₂.trans h₁) txs ?_ s
  intro tx _ call s
  refine systemBody_ensures (fun h₁ h₂ => h₂.trans h₁) call.1 s fun s' hstep => ?_
  exact (SystemOp.step_turns hE hstep).others operator (Ne.symm call.2)

variable (E now v s operator) in
/-- the delay of a started unenrollment is over -/
def Expired (challenger : Address) : Prop :=
  ∃ b d, enrollmentOf E s operator challenger = some ⟨.PENDING_UNENROLLMENT, b⟩ ∧
    v.challengeDelayBlocks challenger = some d ∧ b + d ≤ now ∧ b + d < 2 ^ 256

theorem completeUnenrollment_of_expired (h : Expired E now v s operator challenger) :
    completeUnenrollment E now v operator s challenger =
      .ok (setEnrollments s operator (E.remove (s.enrolledChallengers operator) challenger).2) := by
  obtain ⟨b, d, henrolled, hd, hnow, hlt⟩ := h
  have hdelay : challengeDelay v challenger = .ok d := by
    unfold challengeDelay
    rw [hd]
  have hdeadline : checked (b + d) = .ok (b + d) := if_pos hlt
  refine bind_eq_ok.2 ⟨_, tryGet_of_enrollment henrolled, revertIf_bind.2 ⟨by simp, ?_⟩⟩
  exact bind_eq_ok.2 ⟨d, hdelay, bind_eq_ok.2 ⟨b + d, hdeadline, revertIf_bind.2 ⟨not_lt.2 hnow, rfl⟩⟩⟩

theorem completeUnenrollments_of_expired (hE : E.Lawful) {challengers : List Address} (hnodup : challengers.Nodup)
    (h : ∀ c ∈ challengers, Expired E now v s operator c) :
    ∃ s', completeUnenrollments E now v operator s challengers = .ok s' ∧
      ∀ c, E.tryGet (s'.enrolledChallengers operator) c =
        if c ∈ challengers then none else E.tryGet (s.enrolledChallengers operator) c := by
  induction challengers generalizing s with
  | nil => exact ⟨s, rfl, fun c => by simp⟩
  | cons c challengers ih =>
    obtain ⟨hnew, hnodup⟩ := List.nodup_cons.1 hnodup
    have hfirst := completeUnenrollment_of_expired (h c List.mem_cons_self)
    have hmap : ∀ x, E.tryGet ((setEnrollments s operator
        (E.remove (s.enrolledChallengers operator) c).2).enrolledChallengers operator) x =
        if x = c then none else E.tryGet (s.enrolledChallengers operator) x := by
      intro x
      rw [← hE.tryGet_remove]
      simp [setEnrollments]
    obtain ⟨s', hrest, hgone⟩ := ih hnodup (s := setEnrollments s operator
        (E.remove (s.enrolledChallengers operator) c).2) (by
      intro x hx
      obtain ⟨b, d, henrolled, hd⟩ := h x (List.mem_cons_of_mem c hx)
      refine ⟨b, d, ?_, hd⟩
      rw [← henrolled]
      unfold enrollmentOf
      have hne : x ≠ c := fun heq => hnew (heq ▸ hx)
      rw [hmap, if_neg hne])
    refine ⟨s', ?_, ?_⟩
    · unfold completeUnenrollments
      rw [List.foldlM_cons, hfirst]
      exact hrest
    · intro x
      rw [hgone x, hmap x]
      by_cases hx : x = c
      · simp [hx]
      · simp [hx]

/-- **After the delays an operator can leave**, whatever others did in the meantime: they change none of its enrollments, and
if all its unenrollments had started and their delays are over, completing them succeeds, and none is left. -/
theorem can_leave (hE : E.Lawful) (txs : List (ℕ × Frame (CallByOthers operator))) :
    let s' := run (fun now call => systemBody C E manager now call.1) s txs
    s'.enrolledChallengers operator = s.enrolledChallengers operator ∧
    ((∀ c ∈ E.keys (s.enrolledChallengers operator), Expired E now v s operator c) →
      ∃ s'', completeUnenrollments E now v operator s' (E.keys (s'.enrolledChallengers operator)) = .ok s'' ∧
        E.keys (s''.enrolledChallengers operator) = []) := by
  intro s'
  have hsame : s'.enrolledChallengers operator = s.enrolledChallengers operator := others_keep hE txs
  refine ⟨hsame, fun hexpired => ?_⟩
  have hexpired' : ∀ c ∈ E.keys (s'.enrolledChallengers operator), Expired E now v s' operator c := by
    intro c hc
    rw [hsame] at hc
    obtain ⟨b, d, henrolled, hd⟩ := hexpired c hc
    exact ⟨b, d, (enrollmentOf_congr hsame c).trans henrolled, hd⟩
  obtain ⟨s'', hleave, hgone⟩ := completeUnenrollments_of_expired hE (hE.keys_nodup _) hexpired'
  refine ⟨s'', hleave, List.eq_nil_iff_forall_not_mem.2 ?_⟩
  intro c hc
  rw [hE.mem_keys, hgone c] at hc
  split_ifs at hc with hmem
  · cases hc
  · exact hmem ((hE.mem_keys _ _).2 hc)

/-! ## A chain -/

abbrev Enrollments : EnumerableMap.Ops (EnumerableMap.Assoc Address (Word 32)) Address (Word 32) :=
  EnumerableMap.assoc Address (Word 32)

/-- a caller; challenger 8 asks for 50 blocks -/
def watched (sender : Address) : ManagerView := ⟨caller sender 30, fun c => if c = 8 then some 50 else none⟩

/-- operator 5 is registered with service manager 9 and enrolled in challenger 8 -/
def enrolled : System (List (ℕ × ℕ)) (EnumerableMap.Assoc Address (Word 32)) where
  registry := { fresh (listed maxValue) with
    serviceManager := 9
    totalOperators := 1
    operatorRegistered := Function.update (fun _ => false) 5 true }
  enrolledChallengers := Function.update (fun _ => Enrollments.empty) 5
    (Enrollments.set Enrollments.empty 8 (encode ⟨.ENROLLED, 0⟩)).2
  slasher := 0
  owner := 0

theorem watched_patient (sender : Address) {d : ℕ} (h : (watched sender).challengeDelayBlocks 8 = some d) : 50 ≤ d := by
  simp only [watched, if_true] at h
  cases h
  exact le_rfl

def watchedCall (sender : Address) (op : SystemOp) : PatientCall 8 50 :=
  ⟨(watched sender, op), fun _ => watched_patient sender⟩

/-- the operator starts to leave at block 110 and tries to get away at block 149 -/
def hasty : List (ℕ × Frame (PatientCall 8 50)) :=
  [(110, .call (watchedCall 5 (.startUnenrollment 8)) [] (.ret true)),
    (149, .call (watchedCall 5 (.completeUnenrollment 8)) []
      (.call (watchedCall 5 (.registry .deregisterOperator)) [.ret true] (.ret true)))]

theorem no_escape_hasty :
    let s' := run (fun now call => systemBody (listed maxValue) Enrollments 9 now call.1) enrolled hasty
    s'.registry.operatorRegistered 5 = true ∧
      ∀ v : ManagerView, v.sender = 8 → onlyEnrolledChallenger Enrollments v s' 5 = .ok () :=
  no_escape (s := enrolled) (t := 100) (D := 50) (e := ⟨.ENROLLED, 0⟩) EnumerableMap.assoc_lawful (by decide) (by norm_num)
    rfl rfl (by decide +kernel) rfl hasty (by decide)

/-- operator 5 at block 110, with a started unenrollment -/
def leaving : System (List (ℕ × ℕ)) (EnumerableMap.Assoc Address (Word 32)) :=
  { enrolled with
    enrolledChallengers := Function.update (fun _ => Enrollments.empty) 5
      (Enrollments.set Enrollments.empty 8 (encode ⟨.PENDING_UNENROLLMENT, 110⟩)).2 }

/-- operator 6 enrols in the meantime; at block 160 operator 5 is free -/
theorem can_leave_later :
    let s' := run (fun now (call : CallByOthers 5) => systemBody (listed maxValue) Enrollments 9 now call.1) leaving
      [(120, .call ⟨(watched 6, .enrollIntoChallenger 8), by decide⟩ [] (.ret true))]
    ∃ s'', completeUnenrollments Enrollments 160 (watched 5) 5 s' (Enrollments.keys (s'.enrolledChallengers 5)) = .ok s'' ∧
      Enrollments.keys (s''.enrolledChallengers 5) = [] := by
  refine (can_leave (s := leaving) EnumerableMap.assoc_lawful _).2 ?_
  intro c hc
  have hc : c = 8 := by simpa [leaving, Enrollments, EnumerableMap.assoc, EnumerableMap.without] using hc
  rw [hc]
  exact ⟨110, 50, by decide +kernel, rfl, by norm_num, by norm_num⟩

end Hyperlane.Avs
