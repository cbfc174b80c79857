/-
The inclusion stage loses no transaction.

A transaction that ever entered the pool is at every moment in the pool, handed to the finality stage, or recorded as
dropped together with its payloads, whatever the chain answers and whatever the other tasks insert meanwhile. It can be
in two of these places at once: a transaction leaves the pool only after it is sent or recorded, and one that was sent
may be inserted again after a reorg (`handed_and_pooled`). Between two steps of the processing task, a transaction that
entered once from the building stage is in exactly one.

- `Stage.Fine`: what holds of a transaction that is not being processed.
- `processResult_runs`: applying one result.
- `step_inv`, `run_inv`: one round, and every run.
- `inclusion_conserves`: every moment of every run.
-/
import Hyperlane.Lander.InclusionStage

namespace Hyperlane.Lander

open Interleaving

variable {Uuid Payload D : Type} {owner : Payload → Uuid}

namespace Stage

/-! ## Places -/

def InPool (s : Stage D owner) (u : Uuid) : Prop := s.pool u ≠ none

def Handed (s : Stage D owner) (u : Uuid) : Prop := ∃ t ∈ s.finalityStage, t.uuid = u

def RecordedDropped (s : Stage D owner) (u : Uuid) : Prop :=
  ∃ t, s.txDb u = some t ∧ t.uuid = u ∧ t.status = .Dropped ∧
    ∀ p ∈ t.payloadDetails, s.payloadDb p = some (.InTransaction .Dropped)

def NotDropped (s : Stage D owner) (u : Uuid) : Prop := ∀ t, s.txDb u = some t → t.status ≠ .Dropped

/-- somewhere, or its drop could not be stored -/
def Located (s : Stage D owner) (u : Uuid) : Prop :=
  s.InPool u ∨ s.Handed u ∨ s.RecordedDropped u ∨ s.failedDrop u = true

/-- every transaction that ever entered the pool -/
def Conserved (s : Stage D owner) : Prop := ∀ u, s.received u = true → s.Located u

/-- it entered once, from the building stage, and no write of its drop failed -/
def Regular (s : Stage D owner) (u : Uuid) : Prop := s.reentered u = false ∧ s.failedDrop u = false

/-- not sent, and no trace of a drop in the pool -/
def Clean (s : Stage D owner) (u : Uuid) : Prop := ¬ s.Handed u ∧ ∀ t, s.pool u = some t → t.status ≠ .Dropped

/-- exactly one of the three places -/
def ExactlyOne (s : Stage D owner) (u : Uuid) : Prop :=
  (s.InPool u ∧ ¬ s.Handed u ∧ ¬ s.RecordedDropped u) ∨ (¬ s.InPool u ∧ s.Handed u ∧ ¬ s.RecordedDropped u) ∨
    (¬ s.InPool u ∧ ¬ s.Handed u ∧ s.RecordedDropped u)

/-- one place, and nothing that could lead to a second one -/
def OnePlace (s : Stage D owner) (u : Uuid) : Prop :=
  (s.InPool u ∧ s.Clean u ∧ s.NotDropped u) ∨ (s.Handed u ∧ ¬ s.InPool u ∧ s.NotDropped u) ∨
    (s.RecordedDropped u ∧ ¬ s.InPool u ∧ ¬ s.Handed u)

/-- what holds of a transaction that is not being processed -/
def Fine (s : Stage D owner) (u : Uuid) : Prop :=
  s.received u = true ∨ s.InPool u → s.Located u ∧ (s.Regular u → s.OnePlace u)

theorem RecordedDropped.not_notDropped {s : Stage D owner} {u : Uuid} (h : s.RecordedDropped u) : ¬ s.NotDropped u := by
  obtain ⟨t, ht, -, hstatus, -⟩ := h
  exact fun hnot => hnot t ht hstatus

theorem OnePlace.exactlyOne {s : Stage D owner} {u : Uuid} (h : s.OnePlace u) : s.ExactlyOne u := by
  rcases h with ⟨hpool, hclean, hnot⟩ | ⟨hhanded, hpool, hnot⟩ | ⟨hrec, hpool, hhanded⟩
  · exact Or.inl ⟨hpool, hclean.1, fun hrec => hrec.not_notDropped hnot⟩
  · exact Or.inr (Or.inl ⟨hpool, hhanded, fun hrec => hrec.not_notDropped hnot⟩)
  · exact Or.inr (Or.inr ⟨hpool, hhanded, hrec⟩)

/-! ## Steps that touch one transaction -/

/-- the two states agree on everything of `u` -/
structure SameAt (s s' : Stage D owner) (u : Uuid) : Prop where
  pool : s'.pool u = s.pool u
  handed : s'.Handed u ↔ s.Handed u
  txDb : s'.txDb u = s.txDb u
  payloadDb : ∀ p, owner p = u → s'.payloadDb p = s.payloadDb p
  received : s'.received u = s.received u
  reentered : s'.reentered u = s.reentered u
  failedDrop : s'.failedDrop u = s.failedDrop u

theorem SameAt.recordedDropped {s s' : Stage D owner} {u : Uuid} (h : SameAt s s' u) (hrec : s.RecordedDropped u) :
    s'.RecordedDropped u := by
  obtain ⟨t, ht, huuid, hstatus, hpayloads⟩ := hrec
  refine ⟨t, h.txDb.trans ht, huuid, hstatus, fun p hp => ?_⟩
  rw [h.payloadDb p ((t.owned p hp).trans huuid)]
  exact hpayloads p hp

theorem SameAt.fine {s s' : Stage D owner} {u : Uuid} (h : SameAt s s' u) (hfine : s.Fine u) : s'.Fine u := by
  have hpool : s'.InPool u ↔ s.InPool u := by rw [InPool, InPool, h.pool]
  intro hentered
  rw [h.received, hpool] at hentered
  obtain ⟨hloc, hone⟩ := hfine hentered
  have hnot : s'.NotDropped u ↔ s.NotDropped u := by rw [NotDropped, NotDropped, h.txDb]
  constructor
  · rcases hloc with hp | hh | hr | hf
    · exact Or.inl (hpool.2 hp)
    · exact Or.inr (Or.inl (h.handed.2 hh))
    · exact Or.inr (Or.inr (Or.inl (h.recordedDropped hr)))
    · exact Or.inr (Or.inr (Or.inr (h.failedDrop.trans hf)))
  · intro hregular
    have hregular' : s.Regular u := ⟨h.reentered.symm.trans hregular.1, h.failedDrop.symm.trans hregular.2⟩
    rcases hone hregular' with ⟨hp, hc, hn⟩ | ⟨hh, hp, hn⟩ | ⟨hr, hp, hh⟩
    · refine Or.inl ⟨hpool.2 hp, ⟨fun hh => hc.1 (h.handed.1 hh), fun t ht => hc.2 t (h.pool.symm.trans ht)⟩, hnot.2 hn⟩
    · exact Or.inr (Or.inl ⟨h.handed.2 hh, fun hp' => hp (hpool.1 hp'), hnot.2 hn⟩)
    · exact Or.inr (Or.inr ⟨h.recordedDropped hr, fun hp' => hp (hpool.1 hp'), fun hh' => hh (h.handed.1 hh')⟩)

/-- everything but `a` is fine -/
def Others (a : Uuid) (s : Stage D owner) : Prop := ∀ u, u ≠ a → s.Fine u

theorem Others.step {a : Uuid} {s s' : Stage D owner} (h : Others a s) (hstep : ∀ u, u ≠ a → SameAt s s' u) :
    Others a s' := fun u hu => (hstep u hu).fine (h u hu)

/-- `a` is being processed: it is in the pool -/
structure Busy (a : Uuid) (s : Stage D owner) : Prop where
  others : Others a s
  inPool : s.InPool a
  clean : s.Regular a → s.Clean a

/-- `a` is through: it may leave the pool -/
structure Leaving (a : Uuid) (s : Stage D owner) : Prop where
  others : Others a s
  inPool : s.InPool a
  gone : s.Handed a ∨ s.RecordedDropped a ∨ s.failedDrop a = true
  regular : s.Regular a → (s.Handed a ∧ s.NotDropped a) ∨ (s.RecordedDropped a ∧ ¬ s.Handed a)

theorem Others.conserved {a : Uuid} {s : Stage D owner} (h : Others a s) (ha : s.InPool a) : s.Conserved := by
  intro u hu
  by_cases hua : u = a
  · exact Or.inl (hua ▸ ha)
  · exact (h u hua (Or.inl hu)).1

theorem Busy.step {a : Uuid} {s s' : Stage D owner} (h : Busy a s) (hothers : ∀ u, u ≠ a → SameAt s s' u)
    (hpool : s'.pool a = s.pool a) (hhanded : s'.Handed a → s.Handed a) (hregular : s'.Regular a → s.Regular a) :
    Busy a s' := by
  refine ⟨h.others.step hothers, ?_, fun hr => ?_⟩
  · rw [InPool, hpool]
    exact h.inPool
  · obtain ⟨hnot, hstatus⟩ := h.clean (hregular hr)
    exact ⟨fun hh => hnot (hhanded hh), fun t ht => hstatus t (hpool.symm.trans ht)⟩

/-! ## What the other tasks do -/

variable [DecidableEq Uuid]

theorem arrive_pool (s : Stage D owner) (x : Arrival D owner) :
    (s.arrive x).pool = Function.update s.pool x.tx.uuid (some x.tx) := by cases x <;> rfl

theorem arrive_received (s : Stage D owner) (x : Arrival D owner) :
    (s.arrive x).received = Function.update s.received x.tx.uuid true := by cases x <;> rfl

/-- the channel and the database stay -/
theorem arrive_rest (s : Stage D owner) (x : Arrival D owner) :
    (s.arrive x).finalityStage = s.finalityStage ∧ (s.arrive x).txDb = s.txDb ∧ (s.arrive x).payloadDb = s.payloadDb ∧
      (s.arrive x).failedDrop = s.failedDrop := by
  cases x <;> exact ⟨rfl, rfl, rfl, rfl⟩

theorem arrive_reentered {s : Stage D owner} {x : Arrival D owner} {u : Uuid} (hu : u ≠ x.tx.uuid) :
    (s.arrive x).reentered u = s.reentered u := by
  cases x with
  | receive tx => exact Function.update_of_ne hu _ _
  | reprocess tx => exact Function.update_of_ne hu _ _

/-- a transaction that stays regular is new -/
theorem arrive_regular {s : Stage D owner} {x : Arrival D owner} (h : (s.arrive x).Regular x.tx.uuid) :
    s.Regular x.tx.uuid ∧ s.fresh x.tx = true := by
  obtain ⟨hre, hfail⟩ := h
  rw [(arrive_rest s x).2.2.2] at hfail
  cases x with
  | receive tx =>
    simp only [arrive, Arrival.tx, Function.update_self, Bool.or_eq_false_iff, Bool.not_eq_false'] at hre
    exact ⟨⟨hre.1, hfail⟩, hre.2⟩
  | reprocess tx =>
    simp only [arrive, Arrival.tx, Function.update_self] at hre
    exact nomatch hre

theorem fresh_spec {s : Stage D owner} {tx : Transaction D owner} (h : s.fresh tx = true) :
    tx.status ≠ .Dropped ∧ s.NotDropped tx.uuid ∧ ¬ s.Handed tx.uuid := by
  simp only [fresh, Bool.and_eq_true, ne_eq, List.all_eq_true, decide_not, Bool.not_eq_true',
    decide_eq_false_iff_not] at h
  obtain ⟨⟨⟨-, hstatus⟩, hdb⟩, hsent⟩ := h
  refine ⟨hstatus, fun t ht => ?_, fun ⟨t, ht, huuid⟩ => hsent t ht huuid⟩
  simpa [ht] using hdb

theorem arrive_sameAt (s : Stage D owner) (x : Arrival D owner) {u : Uuid} (hu : u ≠ x.tx.uuid) :
    SameAt s (s.arrive x) u := by
  obtain ⟨hsent, htx, hpayload, hfail⟩ := arrive_rest s x
  refine ⟨?_, ?_, congrFun htx u, fun p _ => congrFun hpayload p, ?_, arrive_reentered hu, congrFun hfail u⟩
  · rw [arrive_pool, Function.update_of_ne hu]
  · rw [Handed, Handed, hsent]
  · rw [arrive_received, Function.update_of_ne hu]

theorem arrive_inPool (s : Stage D owner) (x : Arrival D owner) {u : Uuid} (h : s.InPool u ∨ u = x.tx.uuid) :
    (s.arrive x).InPool u := by
  rw [InPool, arrive_pool]
  by_cases hu : u = x.tx.uuid
  · rw [hu, Function.update_self]
    exact Option.some_ne_none _
  · rw [Function.update_of_ne hu]
    exact h.resolve_right hu

/-- a transaction that arrives and stays regular is in the pool and nowhere else -/
theorem arrive_clean {s : Stage D owner} {x : Arrival D owner} (h : (s.arrive x).Regular x.tx.uuid) :
    (s.arrive x).Clean x.tx.uuid ∧ (s.arrive x).NotDropped x.tx.uuid := by
  obtain ⟨hstatus, hnot, hsent⟩ := fresh_spec (arrive_regular h).2
  obtain ⟨hchan, htx, -, -⟩ := arrive_rest s x
  refine ⟨⟨?_, fun t ht => ?_⟩, ?_⟩
  · rwa [Handed, hchan]
  · rw [arrive_pool, Function.update_self] at ht
    exact Option.some.inj ht ▸ hstatus
  · rwa [NotDropped, htx]

theorem arrive_fine {s : Stage D owner} {x : Arrival D owner} {u : Uuid} (h : u ≠ x.tx.uuid → s.Fine u) :
    (s.arrive x).Fine u := by
  by_cases hu : u = x.tx.uuid
  · subst hu
    have hpool := arrive_inPool s x (u := x.tx.uuid) (Or.inr rfl)
    exact fun _ => ⟨Or.inl hpool, fun hregular => Or.inl ⟨hpool, arrive_clean hregular⟩⟩
  · exact (arrive_sameAt s x hu).fine (h hu)

theorem Others.arrive {a : Uuid} {s : Stage D owner} (h : Others a s) (x : Arrival D owner) : Others a (s.arrive x) :=
  fun u hu => arrive_fine fun _ => h u hu

theorem Busy.arrive {a : Uuid} {s : Stage D owner} (h : Busy a s) (x : Arrival D owner) : Busy a (s.arrive x) := by
  refine ⟨h.others.arrive x, arrive_inPool s x (Or.inl h.inPool), fun hregular => ?_⟩
  by_cases ha : a = x.tx.uuid
  · subst ha
    exact (arrive_clean hregular).1
  · have hsame := arrive_sameAt s x ha
    obtain ⟨hnot, hstatus⟩ := h.clean ⟨hsame.reentered.symm.trans hregular.1, hsame.failedDrop.symm.trans hregular.2⟩
    exact ⟨fun hh => hnot (hsame.handed.1 hh), fun t ht => hstatus t (hsame.pool.symm.trans ht)⟩

/-- an arrival never makes a transaction regular -/
theorem regular_of_arrive {s : Stage D owner} {x : Arrival D owner} {a : Uuid} (h : (s.arrive x).Regular a) :
    s.Regular a := by
  by_cases ha : a = x.tx.uuid
  · subst ha
    exact (arrive_regular h).1
  · have hsame := arrive_sameAt s x ha
    exact ⟨hsame.reentered.symm.trans h.1, hsame.failedDrop.symm.trans h.2⟩

theorem Leaving.arrive {a : Uuid} {s : Stage D owner} (h : Leaving a s) (x : Arrival D owner) :
    Leaving a (s.arrive x) := by
  obtain ⟨hchan, htx, hpayload, hfail⟩ := arrive_rest s x
  have hhanded : (s.arrive x).Handed a ↔ s.Handed a := by rw [Handed, Handed, hchan]
  have hrec : (s.arrive x).RecordedDropped a ↔ s.RecordedDropped a := by
    rw [RecordedDropped, RecordedDropped, htx, hpayload]
  have hnot : (s.arrive x).NotDropped a ↔ s.NotDropped a := by rw [NotDropped, NotDropped, htx]
  refine ⟨h.others.arrive x, arrive_inPool s x (Or.inl h.inPool), ?_, fun hregular => ?_⟩
  · rw [hhanded, hrec, hfail]
    exact h.gone
  · rw [hhanded, hrec, hnot]
    exact h.regular (regular_of_arrive hregular)

end Stage

/-! ## Assertions of the processing -/

variable {s : Stage D owner} {a : Uuid}

/-- a regular transaction has no record of a drop -/
def Undropped (a : Uuid) (s : Stage D owner) : Prop := s.Regular a → s.NotDropped a

/-- `a` is being processed and has no record of a drop -/
def Work (a : Uuid) (s : Stage D owner) : Prop := s.Busy a ∧ Undropped a s

/-- nothing is being processed -/
def AllFine (s : Stage D owner) : Prop := ∀ u, s.Fine u

theorem Work.allFine (h : Work a s) : AllFine s := by
  intro u
  by_cases hu : u = a
  · subst hu
    exact fun _ => ⟨Or.inl h.1.inPool, fun hr => Or.inl ⟨h.1.inPool, h.1.clean hr, h.2 hr⟩⟩
  · exact h.1.others u hu

theorem start_allFine (txDb : Uuid → Option (Transaction D owner)) (payloadDb : Payload → Option PayloadStatus) :
    AllFine (Stage.start txDb payloadDb) := by
  intro u hentered
  rcases hentered with hreceived | hpool
  · exact nomatch hreceived
  · exact absurd rfl hpool

/-- the record of `a` is `tx`, unless the write failed -/
def Kept (a : Uuid) (tx : Transaction D owner) (s : Stage D owner) : Prop :=
  s.failedDrop a = true ∨ s.txDb a = some tx

/-- the payloads in `done` are recorded as dropped, unless a write failed -/
def Marked (a : Uuid) (done : Payload → Prop) (s : Stage D owner) : Prop :=
  s.failedDrop a = true ∨ ∀ p, done p → s.payloadDb p = some (.InTransaction .Dropped)

/-- a transaction whose drop is stored may leave the pool -/
theorem leaving_of_dropped {tx : Transaction D owner} (htx : tx.uuid = a) (hstatus : tx.status = .Dropped)
    (h : s.Busy a) (hkept : Kept a tx s) (hmarked : Marked a (fun p => p ∈ tx.payloadDetails) s) : s.Leaving a := by
  have hrec : s.failedDrop a = true ∨ s.RecordedDropped a := by
    rcases hkept with hfail | hdb
    · exact Or.inl hfail
    · exact hmarked.imp id fun hpayloads => ⟨tx, hdb, htx, hstatus, hpayloads⟩
  refine ⟨h.others, h.inPool, Or.inr hrec.symm, fun hr => Or.inr ⟨?_, (h.clean hr).1⟩⟩
  exact hrec.resolve_left fun hfail => Bool.false_ne_true (hr.2.symm.trans hfail)

theorem busy_payloadDb [DecidableEq Payload] (h : s.Busy a) {p : Payload} (hp : owner p = a)
    (status : Option PayloadStatus) :
    Stage.Busy a { s with payloadDb := Function.update s.payloadDb p status } := by
  refine h.step (fun u hu => ⟨rfl, Iff.rfl, rfl, fun q hq => ?_, rfl, rfl, rfl⟩) rfl id id
  have hne : q ≠ p := fun he => hu (hq.symm.trans (he ▸ hp))
  exact Function.update_of_ne hne _ _

variable [DecidableEq Uuid]

theorem not_regular_failedDrop : ¬ Stage.Regular { s with failedDrop := Function.update s.failedDrop a true } a := by
  rintro ⟨-, hfail⟩
  simp at hfail

theorem busy_failedDrop (h : s.Busy a) :
    Stage.Busy a { s with failedDrop := Function.update s.failedDrop a true } := by
  refine h.step (fun u hu => ?_) rfl id fun hregular => absurd hregular not_regular_failedDrop
  exact ⟨rfl, Iff.rfl, rfl, fun _ _ => rfl, rfl, rfl, Function.update_of_ne hu _ _⟩

theorem work_failedDrop (h : Work a s) : Work a { s with failedDrop := Function.update s.failedDrop a true } :=
  ⟨busy_failedDrop h.1, fun hregular => absurd hregular not_regular_failedDrop⟩

theorem busy_txDb (h : s.Busy a) (t : Option (Transaction D owner)) :
    Stage.Busy a { s with txDb := Function.update s.txDb a t } :=
  h.step (fun _ hu => ⟨rfl, Iff.rfl, Function.update_of_ne hu _ _, fun _ _ => rfl, rfl, rfl, rfl⟩) rfl id id

theorem work_txDb {tx : Transaction D owner} (h : Work a s) (hstatus : s.Regular a → tx.status ≠ .Dropped) :
    Work a { s with txDb := Function.update s.txDb a (some tx) } := by
  refine ⟨busy_txDb h.1 _, fun hr t ht => ?_⟩
  have hself := Function.update_self a (some tx) s.txDb
  exact Option.some.inj (hself.symm.trans ht) ▸ hstatus hr

theorem work_insert {tx : Transaction D owner} (htx : tx.uuid = a) (hothers : s.Others a)
    (hclean : s.Regular a → ¬ s.Handed a ∧ s.NotDropped a ∧ tx.status ≠ .Dropped) : Work a (s.insert tx) := by
  have hself : (s.insert tx).pool a = some tx := by
    subst htx
    exact Function.update_self tx.uuid (some tx) s.pool
  refine ⟨⟨hothers.step fun u hu => ?_, ?_, fun hr => ⟨(hclean hr).1, fun t ht => ?_⟩⟩, fun hr => (hclean hr).2.1⟩
  · exact ⟨Function.update_of_ne (htx ▸ hu) _ _, Iff.rfl, rfl, fun _ _ => rfl, rfl, rfl, rfl⟩
  · exact ne_of_eq_of_ne hself (Option.some_ne_none tx)
  · exact Option.some.inj (hself.symm.trans ht) ▸ (hclean hr).2.2

/-! ## Transactions arrive meanwhile -/

/-- any number of arrivals -/
def Arrives (s s' : Stage D owner) : Prop := ∃ l : List (Arrival D owner), s' = l.foldl Stage.arrive s

theorem Arrives.refl (s : Stage D owner) : Arrives s s := ⟨[], rfl⟩

theorem Arrives.induct {A : Stage D owner → Prop} (hA : ∀ s x, A s → A (s.arrive x)) {s s' : Stage D owner}
    (h : Arrives s s') (hs : A s) : A s' := by
  obtain ⟨l, rfl⟩ := h
  induction l generalizing s with
  | nil => exact hs
  | cons x l ih => exact ih (hA s x hs)

/-- a piece of the processing that runs while transactions arrive -/
abbrev Runs {α : Type} (Q : α → Stage D owner → Prop) (p : StageProg D owner α) (s : Stage D owner) : Prop :=
  Keeps Arrives (fun _ _ => True) Stage.Conserved Q p s

theorem steady {A : Stage D owner → Prop} (hA : ∀ s x, A s → A (s.arrive x)) (hP : ∀ s, A s → s.Conserved) :
    Asserts Arrives A Stage.Conserved :=
  ⟨fun _ _ h hs' => hs'.induct hA h, hP⟩

/-- the transaction being processed, with what is known of its records -/
theorem busy_steady {F : Stage D owner → Prop} (hF : ∀ s x, F s → F (s.arrive x)) :
    Asserts Arrives (fun s => s.Busy a ∧ F s) Stage.Conserved :=
  steady (fun s x h => ⟨h.1.arrive x, hF s x h.2⟩) fun _ h => h.1.others.conserved h.1.inPool

theorem Kept.arrive {tx : Transaction D owner} (h : Kept a tx s) (x : Arrival D owner) : Kept a tx (s.arrive x) := by
  obtain ⟨-, htx, -, hfail⟩ := s.arrive_rest x
  rwa [Kept, htx, hfail]

theorem Marked.arrive {done : Payload → Prop} (h : Marked a done s) (x : Arrival D owner) :
    Marked a done (s.arrive x) := by
  obtain ⟨-, -, hpayload, hfail⟩ := s.arrive_rest x
  rwa [Marked, hpayload, hfail]

theorem Undropped.arrive (h : Undropped a s) (x : Arrival D owner) : Undropped a (s.arrive x) := by
  intro hregular
  rw [Stage.NotDropped, (s.arrive_rest x).2.1]
  exact h (Stage.regular_of_arrive hregular)

theorem Work.asserts : Asserts Arrives (Work a : Stage D owner → Prop) Stage.Conserved :=
  busy_steady fun _ x h => h.arrive x

theorem AllFine.asserts : Asserts Arrives (AllFine : Stage D owner → Prop) Stage.Conserved :=
  steady (fun _ _ h u => Stage.arrive_fine fun _ => h u) fun _ h u hu => (h u (Or.inl hu)).1

/-! ## The pool and the channel -/

theorem insertIntoPool_runs {tx : Transaction D owner} (htx : tx.uuid = a) (hstatus : tx.status ≠ .Dropped)
    (h : Work a s) : Runs (fun _ s => Work a s) (insertIntoPool tx) s :=
  Work.asserts.write (fun _ _ => trivial)
    (fun _ h => work_insert htx h.1.others fun hr => ⟨(h.1.clean hr).1, h.2 hr, hstatus⟩) h

/-- a transaction that was sent or recorded leaves the pool -/
theorem removeFromPool_runs (h : s.Leaving a) : Runs (fun _ s => AllFine s) (removeFromPool a) s := by
  have hA : Asserts Arrives (Stage.Leaving a : Stage D owner → Prop) Stage.Conserved :=
    steady (fun _ x h => h.arrive x) fun _ h => h.others.conserved h.inPool
  refine hA.write (fun _ _ => trivial) (fun s h u => ?_) h
  by_cases hu : u = a
  · subst hu
    have hout : ¬ Stage.InPool { s with pool := Function.update s.pool u none } u :=
      fun hin => hin (Function.update_self u none s.pool)
    refine fun _ => ⟨Or.inr h.gone, fun hr => ?_⟩
    rcases h.regular hr with ⟨hh, hn⟩ | ⟨hrec, hh⟩
    · exact Or.inr (Or.inl ⟨hh, hout, hn⟩)
    · exact Or.inr (Or.inr ⟨hrec, hout, hh⟩)
  · have hsame : Stage.SameAt s { s with pool := Function.update s.pool a none } u :=
      ⟨Function.update_of_ne hu _ _, Iff.rfl, rfl, fun _ _ => rfl, rfl, rfl, rfl⟩
    exact hsame.fine (h.others u hu)

theorem sendToFinalityStage_runs {tx : Transaction D owner} (htx : tx.uuid = a) (h : Work a s) :
    Runs (fun _ s => s.Leaving a) (sendToFinalityStage tx) s := by
  refine Work.asserts.write (fun _ _ => trivial) (fun s h => ?_) h
  have hsent : Stage.Handed { s with finalityStage := s.finalityStage ++ [tx] } a :=
    ⟨tx, List.mem_append_right _ List.mem_cons_self, htx⟩
  refine ⟨h.1.others.step fun u hu => ?_, h.1.inPool, Or.inl hsent, fun hr => Or.inl ⟨hsent, h.2 hr⟩⟩
  refine ⟨rfl, ⟨?_, ?_⟩, rfl, fun _ _ => rfl, rfl, rfl, rfl⟩
  · rintro ⟨t, ht, huuid⟩
    rcases List.mem_append.1 ht with ht | ht
    · exact ⟨t, ht, huuid⟩
    · obtain rfl := List.mem_singleton.1 ht
      exact absurd (huuid.symm.trans htx) hu
  · rintro ⟨t, ht, huuid⟩
    exact ⟨t, List.mem_append_left _ ht, huuid⟩

/-! ## Records -/

section Records

variable [DecidableEq Payload]

/-- a write for a payload of `a` -/
def PayloadStep (a : Uuid) (s s' : Stage D owner) : Prop :=
  s' = s ∨ s' = { s with failedDrop := Function.update s.failedDrop a true } ∨
    ∃ p status, owner p = a ∧ s' = { s with payloadDb := Function.update s.payloadDb p status }

theorem Work.payloadStep {s' : Stage D owner} (h : Work a s) (hstep : PayloadStep a s s') : Work a s' := by
  rcases hstep with rfl | rfl | ⟨p, status, hp, rfl⟩
  · exact h
  · exact work_failedDrop h
  · exact ⟨busy_payloadDb h.1 hp status, h.2⟩

theorem updateStatusForPayloads_steps (status : PayloadStatus) (ok : Payload → Bool) {ps : List Payload}
    (hps : ∀ p ∈ ps, owner p = a) :
    (updateStatusForPayloads status ok ps).Steps (PayloadStep a : Stage D owner → Stage D owner → Prop) := by
  induction ps with
  | nil => trivial
  | cons p ps ih =>
    refine Prog.Steps.bind (Prog.steps_write fun s => ?_) fun _ => ih fun q hq => hps q (List.mem_cons_of_mem p hq)
    have hp : owner p = a := hps p List.mem_cons_self
    split
    · exact Or.inr (Or.inr ⟨p, _, hp, rfl⟩)
    · split
      · exact Or.inr (Or.inl (by rw [hp]))
      · exact Or.inl rfl

theorem updateStatusForPayloads_runs (status : PayloadStatus) (ok : Payload → Bool) {ps : List Payload}
    (hps : ∀ p ∈ ps, owner p = a) (h : Work a s) :
    Runs (fun _ s => Work a s) (updateStatusForPayloads status ok ps) s :=
  Work.asserts.steps (fun _ _ h hstep => h.payloadStep hstep) (fun _ _ _ => trivial)
    (updateStatusForPayloads_steps status ok hps) h

/-- the status stored is not that of a drop -/
theorem storeTx_runs {tx : Transaction D owner} (w : Writes Payload) (htx : tx.uuid = a)
    (hstatus : s.Regular a → tx.status ≠ .Dropped) (h : Work a s) : Runs (fun _ s => Work a s) (storeTx tx w) s := by
  have hA : Asserts Arrives
      (fun s : Stage D owner => s.Busy a ∧ Undropped a s ∧ (s.Regular a → tx.status ≠ .Dropped)) _ :=
    busy_steady fun s x h => ⟨h.1.arrive x, fun hr => h.2 (Stage.regular_of_arrive hr)⟩
  refine Keeps.bind (Q := fun _ s => Work a s) ?_
    fun _ s1 h1 => updateStatusForPayloads_runs _ _ (fun p hp => (tx.owned p hp).trans htx) h1
  refine hA.write (fun _ _ => trivial) (fun s h => ?_) ⟨h.1, h.2, hstatus⟩
  have hwork : Work a s := ⟨h.1, h.2.1⟩
  split
  · rw [htx]
    exact work_txDb hwork h.2.2
  · split
    · rw [htx]
      exact work_failedDrop hwork
    · exact hwork

theorem updateTxStatus_runs {tx : Transaction D owner} (htx : tx.uuid = a) {status : TransactionStatus}
    (hstatus : status ≠ .Dropped) (w : Writes Payload) (h : Work a s) :
    Runs (fun t s => Work a s ∧ t = { tx with status := status }) (updateTxStatus tx status w) s :=
  Keeps.bind (storeTx_runs w (show Transaction.uuid { tx with status := status } = a from htx) (fun _ => hstatus) h)
    fun _ _ h1 => Keeps.pure ⟨h1, rfl⟩

/-- the payloads of a dropped transaction, one after the other -/
theorem updateStatusForPayloads_drops {tx : Transaction D owner} (ok : Payload → Bool) (ps : List Payload)
    (hps : ∀ p ∈ ps, owner p = a) (done : Payload → Prop) (h : s.Busy a ∧ Kept a tx s ∧ Marked a done s) :
    Runs (fun _ s => s.Busy a ∧ Kept a tx s ∧ Marked a (fun p => done p ∨ p ∈ ps) s)
      (updateStatusForPayloads (.InTransaction .Dropped) ok ps) s := by
  induction ps generalizing s done with
  | nil => exact Keeps.pure ⟨h.1, h.2.1, h.2.2.imp id fun hd p hp => hd p (hp.resolve_right List.not_mem_nil)⟩
  | cons p ps ih =>
    have hp : owner p = a := hps p List.mem_cons_self
    have hA : Asserts Arrives (fun s : Stage D owner => s.Busy a ∧ Kept a tx s ∧ Marked a done s) _ :=
      busy_steady fun s x h => ⟨h.1.arrive x, h.2.arrive x⟩
    refine Keeps.bind (Q := fun _ s => s.Busy a ∧ Kept a tx s ∧ Marked a (fun q => done q ∨ q = p) s) ?_
      fun _ s1 h1 => ?_
    · refine hA.write (fun _ _ => trivial) (fun s h => ?_) h
      obtain ⟨hbusy, hkept, hmarked⟩ := h
      cases ok p with
      | false =>
        have hself := Function.update_self a true s.failedDrop
        simp only [Bool.false_eq_true, ↓reduceIte, hp]
        exact ⟨busy_failedDrop hbusy, Or.inl hself, Or.inl hself⟩
      | true =>
        simp only [↓reduceIte]
        refine ⟨busy_payloadDb hbusy hp _, hkept, hmarked.imp id fun hd q hq => ?_⟩
        by_cases hqp : q = p
        · subst hqp
          exact Function.update_self q _ s.payloadDb
        · exact (Function.update_of_ne hqp _ _).trans (hd q (hq.resolve_right hqp))
    · refine (ih (fun q hq => hps q (List.mem_cons_of_mem p hq)) _ h1).mono fun _ s2 h2 => ⟨h2.1, h2.2.1, ?_⟩
      refine h2.2.2.imp id fun hd q hq => hd q ?_
      rcases hq with hq | hq
      · exact Or.inl (Or.inl hq)
      · exact (List.mem_cons.1 hq).imp Or.inr id

theorem storeTx_drops {tx : Transaction D owner} (w : Writes Payload) (htx : tx.uuid = a)
    (hstatus : tx.status = .Dropped) (h : s.Busy a) : Runs (fun _ s => s.Leaving a) (storeTx tx w) s := by
  have hA : Asserts Arrives (fun s : Stage D owner => s.Busy a ∧ True) _ := busy_steady fun _ _ _ => trivial
  refine Keeps.bind (Q := fun _ s => s.Busy a ∧ Kept a tx s) ?_ fun _ s1 h1 => ?_
  · refine hA.write (fun _ _ => trivial) (fun s h => ?_) ⟨h, trivial⟩
    cases w.tx with
    | false =>
      simp only [Bool.false_eq_true, ↓reduceIte, hstatus, htx]
      exact ⟨busy_failedDrop h.1, Or.inl (Function.update_self a true s.failedDrop)⟩
    | true =>
      simp only [↓reduceIte, htx]
      exact ⟨busy_txDb h.1 _, Or.inr (Function.update_self a _ s.txDb)⟩
  · have hown : ∀ p ∈ tx.payloadDetails, owner p = a := fun p hp => (tx.owned p hp).trans htx
    have hstart : s1.Busy a ∧ Kept a tx s1 ∧ Marked a (fun _ => False) s1 := ⟨h1.1, h1.2, Or.inr fun _ hp => hp.elim⟩
    have hrun := updateStatusForPayloads_drops w.payload tx.payloadDetails hown _ hstart
    rw [hstatus]
    exact hrun.mono fun _ s2 h2 =>
      leaving_of_dropped htx hstatus h2.1 h2.2.1 (h2.2.2.imp id fun hd p hp => hd p (Or.inr hp))

/-- a drop is stored before the transaction leaves the pool -/
theorem dropTx_runs {tx : Transaction D owner} (htx : tx.uuid = a) (w : Writes Payload) (h : s.Busy a) :
    Runs (fun _ s => AllFine s) (dropTx tx w) s := by
  refine Keeps.bind (Q := fun _ s => s.Leaving a) ?_ fun _ s1 h1 => htx ▸ removeFromPool_runs (htx ▸ h1)
  exact Keeps.bind (storeTx_drops w (show Transaction.uuid { tx with status := .Dropped } = a from htx) rfl h)
    fun _ s1 h1 => Keeps.pure h1

/-! ## Processing a result -/

theorem simulateTx_runs {tx : Transaction D owner} (htx : tx.uuid = a) (script : Script Payload D) (h : Work a s) :
    Runs (fun r s => Work a s ∧ ∀ t, r = .ok t → t.uuid = a ∧ t.status = tx.status) (simulateTx tx script) s := by
  unfold simulateTx
  split
  · refine Keeps.pure ⟨h, fun t ht => ?_⟩
    obtain rfl := Except.ok.inj ht
    exact ⟨htx, rfl⟩
  · split
    · exact Keeps.pure ⟨h, fun _ ht => nomatch ht⟩
    · refine Keeps.bind (updateStatusForPayloads_runs _ _ (fun p hp => ?_) h) fun _ _ h1 => Keeps.pure ⟨h1, fun t ht => ?_⟩
      · exact (tx.owned p (List.mem_filter.1 hp).1).trans htx
      · obtain rfl := Except.ok.inj ht
        exact ⟨htx, rfl⟩

/-- a status is stored and the entry of the pool replaced -/
theorem updateAndInsert_runs {tx : Transaction D owner} (htx : tx.uuid = a) {status : TransactionStatus}
    (hstatus : status ≠ .Dropped) (w : Writes Payload) {α : Type} {Q : α → Stage D owner → Prop}
    {k : Transaction D owner → StageProg D owner α} (h : Work a s)
    (hk : ∀ s, Work a s → Runs Q (k { tx with status := status }) s) :
    Runs Q (do
      let tx ← updateTxStatus tx status w
      insertIntoPool tx
      k tx) s := by
  refine Keeps.bind (updateTxStatus_runs htx hstatus w h) fun t s1 h1 => ?_
  obtain ⟨hwork, rfl⟩ := h1
  exact Keeps.bind (insertIntoPool_runs htx hstatus hwork) fun _ s2 h2 => hk s2 h2

omit [DecidableEq Uuid] [DecidableEq Payload] in
/-- submitting changes neither the identity nor the status -/
theorem submitTx_spec {tx t : Transaction D owner} {script : Script Payload D}
    (h : submitTx tx script = .ok (.Submitted t) ∨ submitTx tx script = .ok (.GasCapReached t)) :
    t.uuid = tx.uuid ∧ t.status = tx.status := by
  have hedit : t = tx.edit script.submission.1 := by
    unfold submitTx at h
    split at h <;> simp_all
  rw [hedit]
  exact ⟨rfl, rfl⟩

theorem submitPendingTx_runs {tx : Transaction D owner} (htx : tx.uuid = a) (hstatus : tx.status ≠ .Dropped)
    (script : Script Payload D) (h : Work a s) : Runs (fun _ s => Work a s) (submitPendingTx tx script) s := by
  unfold submitPendingTx estimateTx
  cases script.estimation with
  | error e => exact Keeps.pure h
  | ok e =>
    simp only
    split
    next => exact Keeps.pure h
    next t ht =>
      obtain ⟨huuid, hsame⟩ := submitTx_spec (Or.inr ht)
      exact updateAndInsert_runs (huuid.trans htx) (hsame ▸ hstatus) _ h fun _ h1 => Keeps.pure h1
    next t ht =>
      have huuid := (submitTx_spec (Or.inl ht)).1
      exact updateAndInsert_runs (huuid.trans htx) (by decide) _ h fun _ h1 => Keeps.pure h1

theorem processPendingTx_runs {tx : Transaction D owner} (htx : tx.uuid = a) (hstatus : tx.status ≠ .Dropped)
    (script : Script Payload D) (h : Work a s) : Runs (fun _ s => Work a s) (processPendingTx tx script) s := by
  refine Keeps.bind (simulateTx_runs (by exact htx) script h) fun r s1 h1 => ?_
  cases r with
  | error e => exact Keeps.pure h1.1
  | ok t =>
    obtain ⟨huuid, hsame⟩ := h1.2 t rfl
    exact submitPendingTx_runs huuid (hsame ▸ hstatus) script h1.1

/-- after an error the transaction is still in the pool -/
def Processed (a : Uuid) (r : Except LanderError Unit) (s : Stage D owner) : Prop :=
  AllFine s ∧ ∀ e, r = .error e → Work a s

omit [DecidableEq Uuid] [DecidableEq Payload] in
theorem Work.processed (h : Work a s) (r : Except LanderError Unit) : Processed a r s := ⟨h.allFine, fun _ _ => h⟩

theorem tryProcessTxWithNextStatus_runs {tx : Transaction D owner} (htx : tx.uuid = a) (status : TransactionStatus)
    (script : Script Payload D) (h : Work a s) :
    Runs (Processed a) (tryProcessTxWithNextStatus tx status script) s := by
  have hpending : ∀ status, status ≠ .Dropped → Runs (Processed a) (do
      let tx ← updateTxStatus tx status script.statusWrites
      insertIntoPool tx
      if script.readyForResubmission then processPendingTx tx script else pure (.ok ())) s := by
    refine fun status hstatus => updateAndInsert_runs htx hstatus _ h fun s1 h1 => ?_
    split
    · exact Keeps.mono (processPendingTx_runs (by exact htx) (by exact hstatus) script h1) fun r _ h2 => h2.processed r
    · exact Keeps.pure (h1.processed _)
  have hincluded : ∀ status, status ≠ .Dropped → Runs (Processed a) (do
      let tx ← updateTxStatus tx status script.statusWrites
      insertIntoPool tx
      if script.channelOpen then do
        sendToFinalityStage tx
        removeFromPool tx.uuid
        pure (.ok ())
      else pure (.error .ChannelSendFailure)) s := by
    refine fun status hstatus => updateAndInsert_runs htx hstatus _ h fun s1 h1 => ?_
    split
    · refine Keeps.bind (sendToFinalityStage_runs htx h1) fun _ s2 h2 => ?_
      refine Keeps.bind (removeFromPool_runs (htx ▸ h2)) fun _ s3 h3 => Keeps.pure ⟨h3, fun _ he => nomatch he⟩
    · exact Keeps.pure (h1.processed _)
  cases status with
  | PendingInclusion => exact hpending _ (by decide)
  | Mempool => exact hpending _ (by decide)
  | Included => exact hincluded _ (by decide)
  | Finalized => exact hincluded _ (by decide)
  | Dropped => exact Keeps.pure (h.processed _)

variable [DecidableEq D]

/-- the entry is compared with the snapshot and replaced under one lock -/
theorem replaceIfUnchanged_runs (tx : Transaction D owner) (checkedAt : ℕ) (h : AllFine s) :
    Runs (fun r s => AllFine s ∧ (r = true → Work tx.uuid s ∧ (s.Regular tx.uuid → tx.status ≠ .Dropped)))
      (replaceIfUnchanged tx { tx with lastStatusCheck := some checkedAt }) s := by
  intro s' hs'
  have hfine : AllFine s' := AllFine.asserts.stable s s' h hs'
  refine ⟨AllFine.asserts.holds s' hfine, trivial, ?_⟩
  by_cases hpool : s'.pool tx.uuid = some tx
  · have hclean : s'.Regular tx.uuid → ¬ s'.Handed tx.uuid ∧ s'.NotDropped tx.uuid ∧ tx.status ≠ .Dropped := by
      intro hr
      have hin : s'.InPool tx.uuid := ne_of_eq_of_ne hpool (Option.some_ne_none tx)
      rcases (hfine tx.uuid (Or.inr hin)).2 hr with ⟨-, hc, hn⟩ | ⟨-, hout, -⟩ | ⟨-, hout, -⟩
      · exact ⟨hc.1, hn, hc.2 tx hpool⟩
      · exact absurd hin hout
      · exact absurd hin hout
    have hwork : Work tx.uuid (s'.insert { tx with lastStatusCheck := some checkedAt }) :=
      work_insert rfl (fun u _ => hfine u) hclean
    simp only [hpool, ↓reduceIte, decide_true]
    exact ⟨hwork.allFine, fun _ => ⟨hwork, fun hr => (hclean hr).2.2⟩⟩
  · simp only [hpool, ↓reduceIte, decide_false]
    exact ⟨hfine, fun hr => nomatch hr⟩

theorem processResult_runs (tx : Transaction D owner) (script : Script Payload D) (h : AllFine s) :
    Runs (fun _ s => AllFine s) (processResult tx script) s := by
  refine Keeps.bind (replaceIfUnchanged_runs tx script.checkedAt h) fun r s1 h1 => ?_
  cases r with
  | false => exact Keeps.pure h1.1
  | true =>
    obtain ⟨hwork, hstatus⟩ := h1.2 rfl
    simp only [↓reduceIte]
    cases script.status with
    | error err =>
      simp only
      split
      · exact Keeps.mono (storeTx_runs script.statusWrites (by exact rfl) (by exact hstatus) hwork)
          fun _ _ h2 => h2.allFine
      · exact dropTx_runs (by exact rfl) script.dropWrites hwork.1
    | ok status =>
      refine Keeps.bind (tryProcessTxWithNextStatus_runs (by exact rfl) status script hwork) fun r s2 h2 => ?_
      split
      next => exact Keeps.pure h2.1
      next => exact Keeps.pure h2.1
      next e _ => exact dropTx_runs (by exact rfl) script.dropWrites (h2.2 e rfl).1

theorem processResults_runs (results : List (Transaction D owner × Script Payload D)) (h : AllFine s) :
    Runs (fun _ s => AllFine s) (processResults results) s := by
  induction results generalizing s with
  | nil => exact Keeps.pure h
  | cons r rest ih => exact Keeps.bind (processResult_runs r.1 r.2 h) fun _ s1 h1 => ih h1

theorem processTxsStep_runs (order : List (Uuid × Script Payload D)) (h : AllFine s) :
    Runs (fun _ s => AllFine s) (processTxsStep order) s :=
  Keeps.bind (AllFine.asserts.read (fun _ => trivial) _ h) fun snapshot _ h1 => processResults_runs snapshot h1.1

end Records

/-! ## Runs -/

/-- one `process_txs_step`, and the transactions that arrive before each of its accesses -/
structure Round (D : Type) (owner : Payload → Uuid) where
  order : List (Uuid × Script Payload D)
  arrivals : ℕ → List (Arrival D owner)

variable [DecidableEq Payload] [DecidableEq D]

def Round.others (r : Round D owner) (k : ℕ) (s : Stage D owner) : Stage D owner := (r.arrivals k).foldl Stage.arrive s

def Round.moments (r : Round D owner) (s : Stage D owner) : List (Stage D owner) :=
  (processTxsStep r.order).trace r.others 0 s

def Round.finish (r : Round D owner) (s : Stage D owner) : Stage D owner := (r.moments s).getLastD s

/-- every moment of the rounds, one after the other -/
def runMoments (s : Stage D owner) : List (Round D owner) → List (Stage D owner)
  | [] => [s]
  | r :: rest => s :: r.moments s ++ runMoments (r.finish s) rest

/-- the state after the last round -/
def finish (s : Stage D owner) (rounds : List (Round D owner)) : Stage D owner := rounds.foldl (fun s r => r.finish s) s

theorem step_inv (r : Round D owner) (h : AllFine s) :
    (∀ m ∈ r.moments s, m.Conserved) ∧ AllFine (r.finish s) := by
  have hothers : ∀ k s, Arrives s (r.others k s) := fun k s => ⟨r.arrivals k, rfl⟩
  have hrun := processTxsStep_runs r.order h
  constructor
  · exact (hrun.moments hothers Arrives.refl (fun _ s h => AllFine.asserts.holds s h) 0).2
  · exact (hrun.last hothers 0).choose_spec

theorem run_inv (rounds : List (Round D owner)) (h : AllFine s) :
    (∀ m ∈ runMoments s rounds, m.Conserved) ∧ AllFine (finish s rounds) := by
  induction rounds generalizing s with
  | nil => exact ⟨fun m hm => List.mem_singleton.1 hm ▸ AllFine.asserts.holds s h, h⟩
  | cons r rest ih =>
    obtain ⟨hstep, hfinish⟩ := step_inv r h
    obtain ⟨hrest, hend⟩ := ih hfinish
    refine ⟨fun m hm => ?_, hend⟩
    rcases List.mem_append.1 hm with hm | hm
    · rcases List.mem_cons.1 hm with rfl | hm
      · exact AllFine.asserts.holds m h
      · exact hstep m hm
    · exact hrest m hm

/-- a result that does not belong to the entry of the pool changes nothing -/
theorem processResult_stale {others : ℕ → Stage D owner → Stage D owner} {k : ℕ} {tx : Transaction D owner}
    (script : Script Payload D) (h : (others k s).pool tx.uuid ≠ some tx) :
    (processResult tx script).trace others k s = [others k s, others k s] := by
  change (Prog.bind (replaceIfUnchanged tx _) _).trace others k s = _
  simp only [replaceIfUnchanged, Prog.bind, Prog.trace, h, ↓reduceIte, decide_false]
  rfl

/-- **No transaction is lost.** At every moment of every run a transaction that ever entered the pool is in the pool, sent
to the finality stage, or recorded as dropped with its payloads, unless its drop could not be stored. After every round
one that entered once from the building stage is in exactly one of these places. A result whose snapshot is no longer
the entry of the pool is skipped. -/
theorem inclusion_conserves (txDb : Uuid → Option (Transaction D owner)) (payloadDb : Payload → Option PayloadStatus)
    (rounds : List (Round D owner)) :
    (∀ m ∈ runMoments (Stage.start txDb payloadDb) rounds, m.Conserved) ∧
    (∀ u, (finish (Stage.start txDb payloadDb) rounds).received u = true →
      (finish (Stage.start txDb payloadDb) rounds).Regular u →
      (finish (Stage.start txDb payloadDb) rounds).ExactlyOne u) ∧
    ∀ (others : ℕ → Stage D owner → Stage D owner) (k : ℕ) (s : Stage D owner) (tx : Transaction D owner)
      (script : Script Payload D), (others k s).pool tx.uuid ≠ some tx →
      (processResult tx script).trace others k s = [others k s, others k s] := by
  obtain ⟨hmoments, hfinish⟩ := run_inv rounds (start_allFine txDb payloadDb)
  refine ⟨hmoments, fun u hreceived hregular => ?_, fun others k s tx script h => processResult_stale script h⟩
  exact ((hfinish u (Or.inl hreceived)).2 hregular).exactlyOne

/-! ## Two places at once -/

section Handover

def allWrites : Writes ℕ := ⟨true, fun _ => true⟩

/-- the chain answers with the status, and everything else succeeds -/
def quietScript (status : TransactionStatus) : Script ℕ ℕ :=
  ⟨0, .ok status, false, .ok (⟨0, fun _ => true⟩, fun _ => false), .ok ⟨0, fun _ => true⟩, (⟨0, fun _ => true⟩, .ok ()), true,
    allWrites, fun _ => true, allWrites, allWrites⟩

def newTransaction (data : ℕ) : Transaction ℕ (fun _ : ℕ => 0) :=
  ⟨0, data, [7], .PendingInclusion, 0, none, fun _ _ => rfl⟩

/-- a transaction is received and found included -/
def handover : Round ℕ (fun _ : ℕ => 0) :=
  ⟨[(0, quietScript .Included)], fun k => if k = 0 then [.receive (newTransaction 0)] else []⟩

/-- a newer version of the transaction is inserted while a result for the older one is applied -/
def overtaken : Round ℕ (fun _ : ℕ => 0) :=
  ⟨[(0, quietScript .Mempool)],
    fun k => if k = 0 then [.receive (newTransaction 0)] else if k = 2 then [.reprocess (newTransaction 1)] else []⟩

/-- a transaction that was sent is in the pool until it is removed; and the writes after the comparison replace a newer
entry -/
theorem handed_and_pooled :
    ¬ (∀ (rounds : List (Round ℕ (fun _ : ℕ => 0))), ∀ m ∈ runMoments (Stage.start (fun _ => none) fun _ => none) rounds,
      ∀ u, m.received u = true → m.ExactlyOne u) ∧
    (∃ m ∈ overtaken.moments (Stage.start (fun _ => none) fun _ => none), m.pool 0 = some (newTransaction 1)) ∧
    ((overtaken.finish (Stage.start (fun _ => none) fun _ => none)).pool 0).map Transaction.data = some 0 := by
  refine ⟨fun h => ?_, by decide +kernel, by decide +kernel⟩
  have hboth : ∃ m ∈ runMoments (Stage.start (fun _ => none) fun _ => none) [handover],
      m.received 0 = true ∧ m.pool 0 ≠ none ∧ ∃ t ∈ m.finalityStage, t.uuid = 0 := by decide +kernel
  obtain ⟨m, hm, hreceived, hpool, hhanded⟩ := hboth
  rcases h _ m hm 0 hreceived with ⟨-, hnot, -⟩ | ⟨hnot, -⟩ | ⟨hnot, -⟩
  · exact hnot hhanded
  · exact hnot hpool
  · exact hnot hpool

end Handover

end Hyperlane.Lander
