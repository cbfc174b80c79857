/-
The nonces a reorg took back are on record: `update_boundary_nonces_from_chain` under crashes.

The function writes the range of the nonces taken back before the finalized nonce that takes them back, and clears the
range after a finalized nonce that has passed it. A call may stop between any two accesses (a crash, a failing write);
the next one starts from what is stored. Meanwhile other tasks change the rest of the store.

A nonce is on record when it is at or below the finalized nonce, or when everything above the finalized nonce and up to
it is in the range. No access takes anything off the record.
-/
import Hyperlane.Lander.NonceIndex

namespace Hyperlane.Lander

open Interleaving

variable {Uuid : Type} {s s' : NonceStore Uuid}

/-! ## Model -/

/-- the finalized nonce and the range are as in `s`, the rest as in `rest` -/
def NonceStore.withRest (s rest : NonceStore Uuid) : NonceStore Uuid :=
  { rest with
    finalizedNonce := s.finalizedNonce
    finalizedNoncePresent := s.finalizedNoncePresent
    reorgedNonceRange := s.reorgedNonceRange }

/-- a call, what the other tasks make of the rest of the store meanwhile, and how many moments it lives -/
structure UpdateCall (Uuid : Type) where
  finalizedNonce : Option U256
  rest : ℕ → NonceStore Uuid
  lives : ℕ

def UpdateCall.moments (c : UpdateCall Uuid) (s : NonceStore Uuid) : List (NonceStore Uuid) :=
  ((updateBoundaryNoncesBody c.finalizedNonce).trace (fun k s => s.withRest (c.rest k)) 0 s).take c.lives

/-- every moment of a sequence of calls, each starting from what the one before it left -/
def moments (s : NonceStore Uuid) : List (UpdateCall Uuid) → List (NonceStore Uuid)
  | [] => []
  | c :: cs => c.moments s ++ moments ((c.moments s).getLastD s) cs

/-- the nonce is not covered by the finalized nonce -/
def Above (s : NonceStore Uuid) (n : U256) : Prop := ∀ g, s.finalized = some g → g < n

/-! ## The record -/

/-- everything above the finalized nonce, up to `m`, is in the range -/
def OnRecord (finalized : Option U256) (range : Option ReorgedNonceRange) (m : U256) : Prop :=
  (∃ g, finalized = some g ∧ m ≤ g) ∨
    ∃ r, range = some r ∧ m ≤ r.stop ∧ ∀ n, (∀ g, finalized = some g → g < n) → r.start ≤ n

/-- nothing is taken off the record, and no range is cleared while it reaches above the finalized nonce -/
structure Recorded (s s' : NonceStore Uuid) : Prop where
  kept : ∀ m, OnRecord s.finalized s.reorgedNonceRange m → OnRecord s'.finalized s'.reorgedNonceRange m
  cleared : ∀ r, s.reorgedNonceRange = some r → s'.reorgedNonceRange = none →
    ∀ n, r.start ≤ n → n ≤ r.stop → ¬ Above s' n

/-- the finalized nonce and the range stay -/
structure SameRecord (s s' : NonceStore Uuid) : Prop where
  value : s'.finalizedNonce = s.finalizedNonce
  present : s'.finalizedNoncePresent = s.finalizedNoncePresent
  range : s'.reorgedNonceRange = s.reorgedNonceRange

theorem SameRecord.refl (s : NonceStore Uuid) : SameRecord s s := ⟨rfl, rfl, rfl⟩

theorem SameRecord.finalized (h : SameRecord s s') : s'.finalized = s.finalized := by
  rw [NonceStore.finalized, NonceStore.finalized, h.value, h.present]

theorem SameRecord.recorded (h : SameRecord s s') : Recorded s s' := by
  constructor
  · rw [h.finalized, h.range]
    exact fun _ hm => hm
  · intro r hr hnone
    exact nomatch hr.symm.trans (h.range.symm.trans hnone)

theorem Recorded.refl (s : NonceStore Uuid) : Recorded s s := (SameRecord.refl s).recorded

theorem withRest_sameRecord (s rest : NonceStore Uuid) : SameRecord s (s.withRest rest) := ⟨rfl, rfl, rfl⟩

/-- the range holds what going from `old` to `new` takes back, or nothing is taken back -/
def Covers (new old : Option U256) (range : Option ReorgedNonceRange) : Prop :=
  (∃ r, range = some r ∧ (∀ o, old = some o → o ≤ r.stop) ∧ ∀ n, (∀ g, new = some g → g < n) → r.start ≤ n) ∨
    ∀ o, old = some o → ∃ g, new = some g ∧ o ≤ g

theorem OnRecord.move {new old : Option U256} {range : Option ReorgedNonceRange} {m : U256} (hcover : Covers new old range)
    (h : OnRecord old range m) : OnRecord new range m := by
  rcases hcover with ⟨r, hr, hstop, hstart⟩ | hrise
  · refine Or.inr ⟨r, hr, ?_, hstart⟩
    rcases h with ⟨o, ho, hm⟩ | ⟨r', hr', hm, -⟩
    · exact hm.trans (hstop o ho)
    · obtain rfl := Option.some.inj (hr.symm.trans hr')
      exact hm
  · rcases h with ⟨o, ho, hm⟩ | ⟨r, hr, hm, hstart⟩
    · obtain ⟨g, hg, hle⟩ := hrise o ho
      exact Or.inl ⟨g, hg, hm.trans hle⟩
    · refine Or.inr ⟨r, hr, hm, fun n hn => hstart n fun o ho => ?_⟩
      obtain ⟨g, hg, hle⟩ := hrise o ho
      exact hle.trans_lt (hn g hg)

theorem OnRecord.widen {finalized : Option U256} {r r' : ReorgedNonceRange} {m : U256} (hstart : r'.start ≤ r.start)
    (hstop : r.stop ≤ r'.stop) (h : OnRecord finalized (some r) m) : OnRecord finalized (some r') m := by
  rcases h with hm | ⟨r'', hr, hm, hn⟩
  · exact Or.inl hm
  · obtain rfl := Option.some.inj hr
    exact Or.inr ⟨r', rfl, hm.trans hstop, fun n h => hstart.trans (hn n h)⟩

/-- everything above the finalized nonce starts at its successor -/
theorem succ_le_of_above {new : Option U256} {n : U256} (h : ∀ g, new = some g → g < n) : new.elim 0 U256.succ ≤ n := by
  cases new with
  | none => exact Fin.zero_le n
  | some g => exact U256.succ_le (h g rfl)

/-! ## Every access keeps the record -/

section Update

variable {f : Option U256}

/-- between the writes of the call: the record of the store, with the range as it is kept until the end -/
structure Pending (old : Option U256) (range : Option ReorgedNonceRange) (s : NonceStore Uuid) : Prop where
  finalized : s.finalized = old
  range : s.reorgedNonceRange = range

theorem Pending.asserts (old : Option U256) (range : Option ReorgedNonceRange) :
    Asserts SameRecord (Pending old range : NonceStore Uuid → Prop) fun _ => True :=
  ⟨fun _ _ h hs' => ⟨hs'.finalized.trans h.finalized, hs'.range.trans h.range⟩, fun _ _ => trivial⟩

theorem recordRegression_recorded (new old : Option U256) (existing : Option ReorgedNonceRange)
    (h : Pending old existing s) :
    Keeps SameRecord Recorded (fun _ => True) (fun pending s => Pending old pending s ∧ Covers new old pending)
      (recordRegression new old existing) s := by
  rw [recordRegression]
  cases hreg : old.filter fun o => new.all fun g => g < o with
  | none =>
    refine Keeps.pure ⟨h, Or.inr fun o ho => ?_⟩
    subst ho
    cases new with
    | none => simp at hreg
    | some g => exact ⟨g, rfl, by simpa [Option.filter] using hreg⟩
  | some o =>
    obtain ⟨rfl, -⟩ := Option.filter_eq_some_iff.1 hreg
    dsimp only
    generalize hmerged : (existing.elim (⟨new.elim 0 U256.succ, o⟩ : ReorgedNonceRange) fun e =>
      ⟨min e.start (new.elim 0 U256.succ), max e.stop o⟩) = merged
    have hnew : merged.start ≤ new.elim 0 U256.succ ∧ o ≤ merged.stop := by
      cases existing with
      | none => exact hmerged ▸ ⟨le_rfl, le_rfl⟩
      | some e => exact hmerged ▸ ⟨min_le_right _ _, le_max_right _ _⟩
    have hkept : ∀ m, OnRecord (some o) existing m → OnRecord (some o) (some merged) m := by
      intro m hm
      cases existing with
      | none =>
        rcases hm with hm | ⟨_, hr, -⟩
        · exact Or.inl hm
        · cases hr
      | some e => exact hm.widen (hmerged ▸ min_le_left _ _) (hmerged ▸ le_max_left _ _)
    refine Keeps.bind (Q := fun _ s => Pending (some o) (some merged) s) ?_ fun _ s1 h1 => Keeps.pure ⟨h1, Or.inl ?_⟩
    · refine (Pending.asserts (some o) existing).write (fun s h => ⟨fun m hm => ?_, fun _ _ hnone => by cases hnone⟩)
        (fun s h => ⟨h.finalized, rfl⟩) h
      have hfin : NonceStore.finalized { s with reorgedNonceRange := some merged } = some o := h.finalized
      rw [hfin]
      rw [h.finalized, h.range] at hm
      exact hkept m hm
    · refine ⟨merged, rfl, fun o' ho => ?_, fun n hn => hnew.1.trans (succ_le_of_above hn)⟩
      exact Option.some.inj ho ▸ hnew.2

/-- the finalized nonce changes under a range that stays -/
theorem Pending.recorded {old new : Option U256} {range : Option ReorgedNonceRange} (h : Pending old range s)
    (h' : Pending new range s') (hmove : ∀ m, OnRecord old range m → OnRecord new range m) : Recorded s s' := by
  refine ⟨fun m hm => ?_, fun r hr hnone => ?_⟩
  · rw [h.finalized, h.range] at hm
    rw [h'.finalized, h'.range]
    exact hmove m hm
  · exact nomatch hr.symm.trans (h.range.trans (h'.range.symm.trans hnone))

/-- the value is written before the mark that it is present; in between the old or the new one is read -/
theorem storeFinalizedNonce_recorded {new old : Option U256} {range : Option ReorgedNonceRange}
    (hcover : Covers new old range) (h : Pending old range s) :
    Keeps SameRecord Recorded (fun _ => True) (fun _ s => Pending new range s) (storeFinalizedNonce new) s := by
  have hA : Asserts SameRecord (Pending old range : NonceStore Uuid → Prop) _ := Pending.asserts old range
  cases new with
  | none =>
    have hclear : ∀ s : NonceStore Uuid, Pending old range s →
        Pending none range { s with finalizedNoncePresent := some false } := fun s h => ⟨rfl, h.range⟩
    exact hA.write (fun s h => h.recorded (hclear s h) fun _ hm => hm.move hcover) hclear h
  | some nonce =>
    have hvalue : ∀ s : NonceStore Uuid, Pending old range s →
        Pending old range { s with finalizedNonce := some nonce } ∨
          Pending (some nonce) range { s with finalizedNonce := some nonce } := by
      intro s h
      by_cases hp : s.finalizedNoncePresent = some false
      · refine Or.inl ⟨?_, h.range⟩
        rw [← h.finalized, NonceStore.finalized, NonceStore.finalized, if_pos hp, if_pos hp]
      · exact Or.inr ⟨if_neg hp, h.range⟩
    have hpresent : ∀ s : NonceStore Uuid, s.finalizedNonce = some nonce → s.reorgedNonceRange = range →
        Pending (some nonce) range { s with finalizedNoncePresent := some true } := fun s hv hr => ⟨hv, hr⟩
    have hB : Asserts SameRecord (fun s : NonceStore Uuid =>
        (Pending old range s ∨ Pending (some nonce) range s) ∧ s.finalizedNonce = some nonce) fun _ => True :=
      ⟨fun s s' h hs' => ⟨h.1.imp (fun h => hA.stable s s' h hs') fun h => (Pending.asserts _ _).stable s s' h hs',
        hs'.value.trans h.2⟩, fun _ _ => trivial⟩
    refine Keeps.bind (Q := fun _ s => (Pending old range s ∨ Pending (some nonce) range s) ∧
      s.finalizedNonce = some nonce) ?_ fun _ s1 h1 => ?_
    · refine hA.write (fun s h => ?_) (fun s h => ⟨hvalue s h, rfl⟩) h
      rcases hvalue s h with h' | h'
      · exact h.recorded h' fun _ hm => hm
      · exact h.recorded h' fun _ hm => hm.move hcover
    · refine hB.write (fun s h => ?_) (fun s h => ?_) h1
      · rcases h.1 with h' | h'
        · exact h'.recorded (hpresent s h.2 h'.range) fun _ hm => hm.move hcover
        · exact h'.recorded (hpresent s h.2 h'.range) fun _ hm => hm
      · rcases h.1 with h' | h'
        · exact hpresent s h.2 h'.range
        · exact hpresent s h.2 h'.range

theorem nonceAvailable_sameRecord (n : U256) : (nonceAvailable n : Db Uuid Bool).Steps SameRecord := by
  refine (Prog.steps_read SameRecord.refl _).bind fun tracked => ?_
  cases tracked with
  | none => trivial
  | some uuid =>
    refine (Prog.steps_read SameRecord.refl _).bind fun tx => ?_
    cases tx <;> trivial

theorem raiseUpperNonce_sameRecord : (raiseUpperNonce f : Db Uuid U256).Steps SameRecord := by
  refine (Prog.steps_read SameRecord.refl _).bind fun u => ?_
  split
  · exact (Prog.steps_write fun s => ⟨rfl, rfl, rfl⟩).bind fun _ => trivial
  · trivial

theorem scanTrim_sameRecord (k : ℕ) (r : U256) : (scanTrim k r : Db Uuid U256).Steps SameRecord := by
  induction k generalizing r with
  | zero => trivial
  | succ k ih =>
    refine (nonceAvailable_sameRecord _).bind fun b => ?_
    split
    · exact ih _
    · trivial

theorem trimFreedUpperNonces_sameRecord (u : U256) : (trimFreedUpperNonces f u : Db Uuid U256).Steps SameRecord := by
  refine (scanTrim_sameRecord _ _).bind fun r => ?_
  dsimp only
  split
  · exact (Prog.steps_write fun s => ⟨rfl, rfl, rfl⟩).bind fun _ => trivial
  · trivial

/-- the range is cleared when the finalized nonce has passed it -/
theorem clearRecovered_recorded {range : Option ReorgedNonceRange} (h : Pending f range s) :
    Keeps SameRecord Recorded (fun _ => True) (fun _ _ => True)
      (clearRecovered (range.filter fun r => f.any fun nonce => r.stop ≤ nonce)) s := by
  cases hrec : range.filter fun r => f.any fun nonce => r.stop ≤ nonce with
  | none => exact Keeps.pure trivial
  | some r =>
    obtain ⟨rfl, hany⟩ := Option.filter_eq_some_iff.1 hrec
    obtain ⟨g, rfl, hle⟩ := (Option.any_eq_true _ _).1 hany
    have hle : r.stop ≤ g := of_decide_eq_true hle
    refine (Pending.asserts (some g) (some r)).write (fun s h => ⟨fun m hm => ?_, fun r' hr _ n _ hn => ?_⟩)
      (fun _ _ => trivial) h
    · rw [h.finalized, h.range] at hm
      refine Or.inl ⟨g, h.finalized, ?_⟩
      rcases hm with ⟨g', hg, hm⟩ | ⟨r', hr, hm, -⟩
      · exact Option.some.inj hg ▸ hm
      · exact (Option.some.inj hr ▸ hm : m ≤ r.stop).trans hle
    · obtain rfl := Option.some.inj (h.range.symm.trans hr)
      exact fun habove => absurd (habove g h.finalized) (not_lt.2 (hn.trans hle))

theorem updateBoundaryNoncesBody_recorded (f : Option U256) (s : NonceStore Uuid) :
    Keeps SameRecord Recorded (fun _ => True) (fun _ _ => True) (updateBoundaryNoncesBody f) s := by
  have hA := fun old range => (Pending.asserts old range : Asserts SameRecord (Pending old range : NonceStore Uuid → _) _)
  have hsteps : ∀ {α : Type} {range : Option ReorgedNonceRange} {p : Db Uuid α} {s}, p.Steps SameRecord →
      Pending f range s → Keeps SameRecord Recorded (fun _ => True) (fun _ s => Pending f range s) p s :=
    fun hp h => (hA _ _).steps (fun s s' h hs => (hA _ _).stable s s' h hs) (fun _ _ hs => hs.recorded) hp h
  have hstart : Pending s.finalized s.reorgedNonceRange s := ⟨rfl, rfl⟩
  refine (getFinalizedNonce_keeps (hA _ _) Recorded.refl (fun _ _ hs => hs.present) hstart).bind fun old s1 h1 => ?_
  obtain rfl : old = s.finalized := h1.2.trans h1.1.finalized
  refine ((hA _ _).read Recorded.refl _ h1.1).bind fun existing s2 h2 => ?_
  obtain rfl : existing = s.reorgedNonceRange := h2.2.trans h2.1.range
  refine (recordRegression_recorded f _ _ h2.1).bind fun range s3 h3 => ?_
  refine (storeFinalizedNonce_recorded h3.2 h3.1).bind fun _ s4 h4 => ?_
  refine (hsteps raiseUpperNonce_sameRecord h4).bind fun u s5 h5 => ?_
  refine (hsteps (trimFreedUpperNonces_sameRecord u) h5).bind fun _ s6 h6 => ?_
  exact clearRecovered_recorded h6

end Update

/-! ## Every moment of every sequence of calls -/

theorem call_chain (c : UpdateCall Uuid) (s : NonceStore Uuid) : (s :: c.moments s).IsChain Recorded := by
  have hkeeps := updateBoundaryNoncesBody_recorded c.finalizedNonce s
  have hchain := (hkeeps.trace (fun k s => withRest_sameRecord s (c.rest k)) 0).imp
    fun a b h => h.elim SameRecord.recorded id
  exact hchain.take (c.lives + 1)

theorem moments_chain (s : NonceStore Uuid) (calls : List (UpdateCall Uuid)) :
    (s :: moments s calls).IsChain Recorded := by
  induction calls generalizing s with
  | nil => exact List.isChain_singleton s
  | cons c cs ih =>
    obtain ⟨hlink, hrest⟩ := List.isChain_cons.1 (ih ((c.moments s).getLastD s))
    rw [moments, ← List.cons_append]
    refine (call_chain c s).append hrest fun x hx y hy => ?_
    rw [List.getLast?_cons, ← List.getLastD_eq_getLast?] at hx
    exact Option.some.inj hx ▸ hlink y hy

/-- from any moment to any later one nothing is taken off the record -/
theorem onRecord_later {l : List (NonceStore Uuid)} (h : l.IsChain Recorded) {i j : ℕ} (hij : i ≤ j)
    {a b : NonceStore Uuid} (ha : l[i]? = some a) (hb : l[j]? = some b) {m : U256}
    (hm : OnRecord a.finalized a.reorgedNonceRange m) : OnRecord b.finalized b.reorgedNonceRange m := by
  induction j, hij using Nat.le_induction generalizing b with
  | base =>
    obtain rfl := Option.some.inj (ha.symm.trans hb)
    exact hm
  | succ j hij ih =>
    have hlt : j + 1 < l.length := (List.getElem?_eq_some_iff.1 hb).1
    obtain ⟨hlt', hget⟩ := List.getElem?_eq_some_iff.1 hb
    have hstep := (List.isChain_iff_getElem.1 h) j hlt
    rw [hget] at hstep
    exact hstep.kept m (ih (List.getElem?_eq_getElem (Nat.lt_of_succ_lt hlt)))

/-- **What a reorg takes back is in the range.** At every moment of every sequence of calls, with a crash anywhere, a nonce
that an earlier finalized nonce covered and the present one does not is in the stored range; and a range is cleared only
when the finalized nonce covers all of it. -/
theorem reorged_range_covers (s : NonceStore Uuid) (calls : List (UpdateCall Uuid)) :
    let history := s :: moments s calls
    (∀ (i j : ℕ) (a b : NonceStore Uuid) (f n : U256), history[i]? = some a → history[j]? = some b → i ≤ j →
      a.finalized = some f → n ≤ f → Above b n → ∃ r, b.reorgedNonceRange = some r ∧ r.start ≤ n ∧ n ≤ r.stop) ∧
    ∀ (i : ℕ) (a b : NonceStore Uuid) (r : ReorgedNonceRange) (n : U256), history[i]? = some a →
      history[i + 1]? = some b → a.reorgedNonceRange = some r → b.reorgedNonceRange = none → r.start ≤ n →
      n ≤ r.stop → ¬ Above b n := by
  intro history
  have hchain := moments_chain s calls
  refine ⟨fun i j a b f n ha hb hij hf hn habove => ?_, fun i a b r n ha hb hr hnone hstart hstop => ?_⟩
  · have hrec : OnRecord b.finalized b.reorgedNonceRange f := onRecord_later hchain hij ha hb (Or.inl ⟨f, hf, le_rfl⟩)
    rcases hrec with ⟨g, hg, hle⟩ | ⟨r, hr, hle, hstart⟩
    · exact absurd (habove g hg) (not_lt.2 (hn.trans hle))
    · exact ⟨r, hr, hstart n habove, hn.trans hle⟩
  · obtain ⟨hlt, hget⟩ := List.getElem?_eq_some_iff.1 hb
    have hstep := (List.isChain_iff_getElem.1 hchain) i hlt
    rw [hget, (List.getElem?_eq_some_iff.1 ha).2] at hstep
    exact hstep.cleared r hr hnone n hstart hstop

end Hyperlane.Lander
