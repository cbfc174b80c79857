/-
When a dropped transaction has each of its payloads queued once.

Nothing marks a payload as pushed. A second attempt pushes again what the first one pushed, which the queue refuses only
while the payload is still in it; and an attempt passes over the payloads it fails to read.

- `Pushes`: the reads and writes of a payload succeed, so that an attempt comes to its push.
- `KeepsPushed`: a payload that is pushed again is still in the queue.
- `ReadsAll`: an attempt that comes to its end reads every payload that was not pushed before.
- `requeued_once_iff`: in every state of a run each payload is pushed at most once, and exactly once when the transaction has
  left the pool, if and only if every scan satisfies the last two.
-/
import Hyperlane.Lander.FinalityStage

namespace Hyperlane.Lander.Finality

variable {Uuid Payload D : Type} {owner : Payload → Uuid} [DecidableEq Payload] {u : Uuid}

namespace FinalityStage

/-! ## The conditions -/

/-- the attempt comes to the push of the payload -/
def Pushes (s : FinalityStage D owner) (a : Attempt owner u) (p : Payload) : Prop :=
  a.read p = true ∧ s.payloadDb p ≠ none ∧ a.linkWrite p = true

variable [Inhabited Uuid]

/-- along the loop, a payload that is pushed again is still in the queue -/
def KeepsPushed (a : Attempt owner u) : List Payload → FinalityStage D owner → Prop
  | [], _ => True
  | p :: ps, s =>
    (s.Pushes a p → p ∈ s.pushed → p ∈ (s.queueOps (a.meanwhile p)).queue.uuids) ∧
      ((s.handlePayload a p).2 = true → KeepsPushed a ps (s.handlePayload a p).1)

/-- a loop whose links are all written reads every payload that was not pushed before -/
def ReadsAll (a : Attempt owner u) (ps : List Payload) (s : FinalityStage D owner) : Prop :=
  (∀ p ∈ ps, a.read p = true → s.payloadDb p ≠ none → a.linkWrite p = true) →
    ∀ p ∈ ps, s.payloadDb p ≠ none → p ∉ s.pushed → a.read p = true

variable [DecidableEq Uuid] in
/-- the conditions on a scan; there is none once the transaction has left the pool -/
def Fits (s : FinalityStage D owner) : Event owner u → Prop
  | .queue _ => True
  | .scan a => ∀ tx, s.pool u = some tx →
    KeepsPushed a tx.payloadDetails (s.dropped a tx) ∧ ReadsAll a tx.payloadDetails (s.dropped a tx)

variable [DecidableEq Uuid] in
def AllFit (s : FinalityStage D owner) : List (Event owner u) → Prop
  | [] => True
  | e :: es => s.Fits e ∧ (s.step e).AllFit es

/-- each payload of the transaction is pushed at most once, and exactly once if it is in the database and the transaction has
left the pool -/
structure Once (tx : Transaction D owner) (s : FinalityStage D owner) : Prop where
  atMost : ∀ p ∈ tx.payloadDetails, s.pushed.count p ≤ 1
  all : s.pool tx.uuid = none → ∀ p ∈ tx.payloadDetails, s.payloadDb p ≠ none → s.pushed.count p = 1

/-! ## What stays -/

/-- the payloads of `u` that are queued or held by the building stage have been pushed -/
structure Tracked (u : Uuid) (s : FinalityStage D owner) : Prop where
  uuids : ∀ p ∈ s.queue.uuids, owner p = u → p ∈ s.pushed
  payloads : ∀ x ∈ s.queue.payloads, owner x.uuid = u → x.uuid ∈ s.pushed
  held : ∀ x ∈ s.held, owner x.uuid = u → x.uuid ∈ s.pushed

end FinalityStage

section Queue

variable {q : QueueInner Payload} {P : FullPayload Payload → Prop} {Q : Payload → Prop}

/-- what holds of everything in the queue holds of everything in it and of everything popped -/
theorem popN_all (count : ℕ) (hu : ∀ v ∈ q.uuids, Q v) (hp : ∀ x ∈ q.payloads, P x) :
    (∀ v ∈ (q.popN count).1.uuids, Q v) ∧ (∀ x ∈ (q.popN count).1.payloads, P x) ∧ ∀ x ∈ (q.popN count).2, P x := by
  induction count generalizing q with
  | zero => exact ⟨hu, hp, nofun⟩
  | succ count ih =>
    unfold QueueInner.popN
    cases hq : q.payloads with
    | nil =>
      dsimp only
      rw [hq]
      exact ⟨hu, nofun, nofun⟩
    | cons p rest =>
      rw [hq] at hp
      obtain ⟨h1, h2, h3⟩ := ih (q := ⟨rest, q.uuids.erase p.uuid⟩) (fun v hv => hu v (Finset.mem_of_mem_erase hv))
        fun x hx => hp x (List.mem_cons_of_mem _ hx)
      refine ⟨h1, h2, ?_⟩
      intro x hx
      rcases List.mem_cons.1 hx with rfl | hx
      · exact hp _ List.mem_cons_self
      · exact h3 x hx

theorem pushBack_all {p : FullPayload Payload} (hu : ∀ v ∈ q.uuids, Q v) (hp : ∀ x ∈ q.payloads, P x) (hQ : Q p.uuid)
    (hP : P p) : (∀ v ∈ (q.pushBack p).uuids, Q v) ∧ ∀ x ∈ (q.pushBack p).payloads, P x := by
  unfold QueueInner.pushBack
  split
  · exact ⟨hu, hp⟩
  · constructor
    · intro v hv
      rcases Finset.mem_insert.1 hv with rfl | hv
      · exact hQ
      · exact hu v hv
    · intro x hx
      rcases List.mem_append.1 hx with hx | hx
      · exact hp x hx
      · rw [List.mem_singleton.1 hx]
        exact hP

theorem pushFront_all {p : FullPayload Payload} (hu : ∀ v ∈ q.uuids, Q v) (hp : ∀ x ∈ q.payloads, P x) (hQ : Q p.uuid)
    (hP : P p) : (∀ v ∈ (q.pushFront p).uuids, Q v) ∧ ∀ x ∈ (q.pushFront p).payloads, P x := by
  unfold QueueInner.pushFront
  split
  · exact ⟨hu, hp⟩
  · constructor
    · intro v hv
      rcases Finset.mem_insert.1 hv with rfl | hv
      · exact hQ
      · exact hu v hv
    · intro x hx
      rcases List.mem_cons.1 hx with rfl | hx
      · exact hP
      · exact hp x hx

theorem extend_all {ps : List (FullPayload Payload)} (hu : ∀ v ∈ q.uuids, Q v) (hp : ∀ x ∈ q.payloads, P x)
    (hQ : ∀ p ∈ ps, Q p.uuid) (hP : ∀ p ∈ ps, P p) :
    (∀ v ∈ (q.extend ps).uuids, Q v) ∧ ∀ x ∈ (q.extend ps).payloads, P x := by
  induction ps generalizing q with
  | nil => exact ⟨hu, hp⟩
  | cons p ps ih =>
    obtain ⟨hu', hp'⟩ := pushBack_all hu hp (hQ p List.mem_cons_self) (hP p List.mem_cons_self)
    exact ih hu' hp' (fun x hx => hQ x (List.mem_cons_of_mem _ hx)) fun x hx => hP x (List.mem_cons_of_mem _ hx)

end Queue

namespace FinalityStage

variable {s s' : FinalityStage D owner}

/-- only the queue and what the building stage holds may differ -/
structure SameRest (s s' : FinalityStage D owner) : Prop where
  pool : s'.pool = s.pool
  payloadDb : s'.payloadDb = s.payloadDb
  pushed : s'.pushed = s.pushed

theorem queueOp_sameRest (s : FinalityStage D owner) (op : QueueOp owner u) : SameRest s (s.queueOp op) := by
  cases op <;> exact ⟨rfl, rfl, rfl⟩

theorem queueOps_sameRest (s : FinalityStage D owner) (ops : List (QueueOp owner u)) : SameRest s (s.queueOps ops) := by
  induction ops generalizing s with
  | nil => exact ⟨rfl, rfl, rfl⟩
  | cons op ops ih =>
    have h := queueOp_sameRest s op
    have h' := ih (s.queueOp op)
    exact ⟨h'.pool.trans h.pool, h'.payloadDb.trans h.payloadDb, h'.pushed.trans h.pushed⟩

theorem Tracked.queueOp (h : Tracked u s) (op : QueueOp owner u) : Tracked u (s.queueOp op) := by
  cases op with
  | popN count =>
    obtain ⟨hu, hp, hpopped⟩ := popN_all count h.uuids h.payloads
    exact ⟨hu, hp, hpopped⟩
  | putBack details =>
    have hheld : ∀ x ∈ s.held.filter (fun p => decide (p.uuid ∈ details)), owner x.uuid = u → x.uuid ∈ s.pushed :=
      fun x hx => h.held x (List.mem_filter.1 hx).1
    obtain ⟨hu, hp⟩ := extend_all h.uuids h.payloads hheld hheld
    exact ⟨hu, hp, h.held⟩
  | push front payload other =>
    have hpayload : owner payload.uuid = u → payload.uuid ∈ s.pushed := fun hu => absurd hu other
    cases front with
    | true =>
      obtain ⟨hu, hp⟩ := pushFront_all h.uuids h.payloads hpayload hpayload
      exact ⟨hu, hp, h.held⟩
    | false =>
      obtain ⟨hu, hp⟩ := pushBack_all h.uuids h.payloads hpayload hpayload
      exact ⟨hu, hp, h.held⟩

theorem Tracked.queueOps (h : Tracked u s) (ops : List (QueueOp owner u)) : Tracked u (s.queueOps ops) := by
  induction ops generalizing s with
  | nil => exact h
  | cons op ops ih => exact ih (h.queueOp op)

/-- the queue's side and the pool stay, and the database holds the same payloads -/
structure SameQueue (s s' : FinalityStage D owner) : Prop where
  pool : s'.pool = s.pool
  present : ∀ p, s'.payloadDb p ≠ none ↔ s.payloadDb p ≠ none
  queue : s'.queue = s.queue
  held : s'.held = s.held
  pushed : s'.pushed = s.pushed

omit [DecidableEq Payload] in
theorem SameQueue.refl (s : FinalityStage D owner) : SameQueue s s := ⟨rfl, fun _ => .rfl, rfl, rfl, rfl⟩

omit [DecidableEq Payload] in
theorem SameQueue.trans {s'' : FinalityStage D owner} (h : SameQueue s s') (h' : SameQueue s' s'') : SameQueue s s'' :=
  ⟨h'.pool.trans h.pool, fun p => (h'.present p).trans (h.present p), h'.queue.trans h.queue, h'.held.trans h.held,
    h'.pushed.trans h.pushed⟩

theorem storeNewPayloadStatus_sameQueue (s : FinalityStage D owner) (p : Payload) (status : PayloadStatus) (ok : Bool) :
    SameQueue s (s.storeNewPayloadStatus p status ok) := by
  unfold storeNewPayloadStatus
  split
  · rename_i h
    refine ⟨rfl, ?_, rfl, rfl, rfl⟩
    intro q
    dsimp only
    by_cases hq : q = p
    · subst hq
      rw [Function.update_self]
      exact ⟨fun _ => h.2, fun _ => nofun⟩
    · rw [Function.update_of_ne hq]
  · exact .refl s

omit [DecidableEq Payload] in
theorem foldl_sameQueue {f : FinalityStage D owner → Payload → FinalityStage D owner} (hf : ∀ s p, SameQueue s (f s p))
    (ps : List Payload) (s : FinalityStage D owner) : SameQueue s (ps.foldl f s) := by
  induction ps generalizing s with
  | nil => exact .refl s
  | cons p ps ih => exact (hf s p).trans (ih (f s p))

variable [DecidableEq Uuid] in
theorem storeTx_sameQueue (s : FinalityStage D owner) (tx : Transaction D owner) (w : Writes Payload)
    (relink : Payload → Bool) : SameQueue s (s.storeTx tx w relink) := by
  have htx : SameQueue s (if w.tx then { s with txDb := Function.update s.txDb tx.uuid (some tx) } else s) := by
    split
    · exact ⟨rfl, fun _ => .rfl, rfl, rfl, rfl⟩
    · exact .refl s
  refine (htx.trans (foldl_sameQueue (fun s p => ?_) _ _)).trans (foldl_sameQueue (fun s p => ?_) _ _)
  · exact storeNewPayloadStatus_sameQueue s p _ _
  · split
    · exact ⟨rfl, fun _ => .rfl, rfl, rfl, rfl⟩
    · exact .refl s

theorem link_sameQueue (s : FinalityStage D owner) (p : Payload) (txUuid : Uuid) : SameQueue s (s.link p txUuid) :=
  ⟨rfl, fun _ => .rfl, rfl, rfl, rfl⟩

omit [DecidableEq Payload] in
theorem Tracked.sameQueue (h : Tracked u s) (hs : SameQueue s s') : Tracked u s' := by
  refine ⟨?_, ?_, ?_⟩
  · rw [hs.queue, hs.pushed]
    exact h.uuids
  · rw [hs.queue, hs.pushed]
    exact h.payloads
  · rw [hs.held, hs.pushed]
    exact h.held

theorem Tracked.pushFront (h : Tracked u s) (p : FullPayload Payload) : Tracked u (s.pushFront p) := by
  unfold FinalityStage.pushFront
  by_cases hin : p.uuid ∈ s.queue.uuids
  · have hqueue : s.queue.pushFront p = s.queue := if_pos hin
    rw [if_pos hin, hqueue]
    exact h
  · rw [if_neg hin]
    have hself : owner p.uuid = u → p.uuid ∈ p.uuid :: s.pushed := fun _ => List.mem_cons_self
    obtain ⟨hu, hp⟩ := pushFront_all (fun v hv hv' => List.mem_cons_of_mem p.uuid (h.uuids v hv hv'))
      (fun x hx hx' => List.mem_cons_of_mem p.uuid (h.payloads x hx hx')) hself hself
    exact ⟨hu, hp, fun x hx hx' => List.mem_cons_of_mem _ (h.held x hx hx')⟩

/-! ## One payload -/

variable [Inhabited Uuid] {a : Attempt owner u} {p : Payload}

/-- what one payload of the loop does to the pushes: it adds itself when its reads and writes succeed and it is not queued -/
structure Handled (a : Attempt owner u) (p : Payload) (s s' : FinalityStage D owner) : Prop where
  pool : s'.pool = s.pool
  present : ∀ q, s'.payloadDb q ≠ none ↔ s.payloadDb q ≠ none
  tracked : Tracked u s → Tracked u s'
  added : s.Pushes a p → p ∉ (s.queueOps (a.meanwhile p)).queue.uuids → s'.pushed = p :: s.pushed
  same : ¬ (s.Pushes a p ∧ p ∉ (s.queueOps (a.meanwhile p)).queue.uuids) → s'.pushed = s.pushed

theorem handlePayload_handled (a : Attempt owner u) (s : FinalityStage D owner) (p : Payload) :
    Handled a p s (s.handlePayload a p).1 := by
  have hops := queueOps_sameRest s (a.meanwhile p)
  have hpresent : ∀ q, (s.queueOps (a.meanwhile p)).payloadDb q ≠ none ↔ s.payloadDb q ≠ none := by
    intro q
    rw [hops.payloadDb]
  have htracked : Tracked u s → Tracked u (s.queueOps (a.meanwhile p)) := fun h => h.queueOps _
  unfold handlePayload
  dsimp only
  split
  · rename_i hread
    split
    · rename_i hnone
      refine ⟨hops.pool, hpresent, htracked, ?_, fun _ => hops.pushed⟩
      rintro ⟨-, hdb, -⟩
      rw [← hpresent] at hdb
      exact absurd hnone hdb
    · rename_i status hstatus
      have hdb : s.payloadDb p ≠ none := by
        rw [← hpresent, hstatus]
        nofun
      have hstore := storeNewPayloadStatus_sameQueue (s.queueOps (a.meanwhile p)) p .ReadyToSubmit (a.statusWrite p)
      split
      · rename_i hlink
        have hpushes : s.Pushes a p := ⟨hread, hdb, hlink⟩
        refine ⟨hstore.pool.trans hops.pool, fun q => (hstore.present q).trans (hpresent q), ?_, ?_, ?_⟩
        · intro h
          exact ((htracked h).sameQueue (hstore.trans (link_sameQueue _ p default))).pushFront _
        · intro _ hnot
          simp only [pushFront, link, hstore.queue, hstore.pushed, if_neg hnot, hops.pushed]
        · intro hsame
          have hin : p ∈ (s.queueOps (a.meanwhile p)).queue.uuids := by
            by_contra hnot
            exact hsame ⟨hpushes, hnot⟩
          simp only [pushFront, link, hstore.queue, hstore.pushed, if_pos hin, hops.pushed]
      · rename_i hlink
        refine ⟨hstore.pool.trans hops.pool, fun q => (hstore.present q).trans (hpresent q), ?_, ?_,
          fun _ => hstore.pushed.trans hops.pushed⟩
        · intro h
          exact (htracked h).sameQueue hstore
        · rintro ⟨-, -, hlink'⟩
          exact absurd hlink' hlink
  · rename_i hread
    refine ⟨hops.pool, hpresent, htracked, ?_, fun _ => hops.pushed⟩
    rintro ⟨hread', -⟩
    exact absurd hread' hread

/-- the loop goes on unless a payload that was read cannot be linked -/
theorem handlePayload_ok (a : Attempt owner u) (s : FinalityStage D owner) (p : Payload) :
    (s.handlePayload a p).2 = true ↔ (a.read p = true → s.payloadDb p ≠ none → a.linkWrite p = true) := by
  have hops := queueOps_sameRest s (a.meanwhile p)
  unfold handlePayload
  dsimp only
  split
  · rename_i hread
    rw [hops.payloadDb]
    split
    · rename_i hnone
      simp [hnone]
    · rename_i status hstatus
      split
      · rename_i hlink
        simp [hlink]
      · rename_i hlink
        simp [hlink, hread, hstatus]
  · rename_i hread
    simp [hread]

/-! ## The loop -/

omit [Inhabited Uuid] in
theorem Handled.grows (h : Handled a p s s') (q : Payload) : s.pushed.count q ≤ s'.pushed.count q := by
  by_cases hadd : s.Pushes a p ∧ p ∉ (s.queueOps (a.meanwhile p)).queue.uuids
  · rw [h.added hadd.1 hadd.2]
    exact List.count_le_count_cons
  · rw [h.same hadd]

omit [Inhabited Uuid] in
/-- a payload that is pushed is among the pushed ones afterwards, whether the queue took it or had it -/
theorem Handled.mem (h : Handled a p s s') (ht : Tracked u s) (hp : owner p = u) (hpushes : s.Pushes a p) :
    p ∈ s'.pushed := by
  by_cases hin : p ∈ (s.queueOps (a.meanwhile p)).queue.uuids
  · rw [h.same fun hadd => hadd.2 hin, ← (queueOps_sameRest s (a.meanwhile p)).pushed]
    exact (ht.queueOps _).uuids p hin hp
  · rw [h.added hpushes hin]
    exact List.mem_cons_self

/-- what the loop as a whole leaves as it is, and that it only adds pushes -/
structure Looped (u : Uuid) (s s' : FinalityStage D owner) : Prop where
  pool : s'.pool = s.pool
  present : ∀ q, s'.payloadDb q ≠ none ↔ s.payloadDb q ≠ none
  tracked : Tracked u s → Tracked u s'
  grows : ∀ q, s.pushed.count q ≤ s'.pushed.count q

theorem handlePayloads_cons (a : Attempt owner u) (p : Payload) (ps : List Payload) (s : FinalityStage D owner) :
    handlePayloads a (p :: ps) s =
      if (s.handlePayload a p).2 = true then handlePayloads a ps (s.handlePayload a p).1
      else ((s.handlePayload a p).1, false) := by
  rw [handlePayloads]
  split
  · rename_i s' h
    rw [h]
    rfl
  · rename_i s' h
    rw [h]
    rfl

theorem handlePayloads_looped (a : Attempt owner u) (ps : List Payload) (s : FinalityStage D owner) :
    Looped u s (handlePayloads a ps s).1 := by
  induction ps generalizing s with
  | nil => exact ⟨rfl, fun _ => .rfl, fun h => h, fun _ => le_rfl⟩
  | cons p ps ih =>
    have h := handlePayload_handled a s p
    have hstep : Looped u s (s.handlePayload a p).1 := ⟨h.pool, h.present, h.tracked, h.grows⟩
    rw [handlePayloads_cons]
    split
    · have h' := ih (s.handlePayload a p).1
      exact ⟨h'.pool.trans hstep.pool, fun q => (h'.present q).trans (hstep.present q), fun ht => h'.tracked (hstep.tracked ht),
        fun q => (hstep.grows q).trans (h'.grows q)⟩
    · exact hstep

/-- the loop comes to its end when every payload that is read can be linked -/
theorem handlePayloads_ok (a : Attempt owner u) (ps : List Payload) (s : FinalityStage D owner) :
    (handlePayloads a ps s).2 = true ↔ ∀ p ∈ ps, a.read p = true → s.payloadDb p ≠ none → a.linkWrite p = true := by
  induction ps generalizing s with
  | nil => exact ⟨fun _ => nofun, fun _ => rfl⟩
  | cons p ps ih =>
    have hp := handlePayload_ok a s p
    have hpresent := (handlePayload_handled a s p).present
    rw [handlePayloads_cons, List.forall_mem_cons]
    split
    · rename_i hok
      rw [ih]
      simp only [hpresent]
      exact ⟨fun h => ⟨hp.1 hok, h⟩, fun h => h.2⟩
    · rename_i hok
      constructor
      · nofun
      · rintro ⟨h, -⟩
        exact absurd (hp.2 h) hok

/-- no payload is pushed twice when those that are pushed again are still in the queue -/
theorem handlePayloads_once {ps : List Payload} (hk : KeepsPushed a ps s) (h : ∀ q, s.pushed.count q ≤ 1) :
    ∀ q, (handlePayloads a ps s).1.pushed.count q ≤ 1 := by
  induction ps generalizing s with
  | nil => exact h
  | cons p ps ih =>
    have hp := handlePayload_handled a s p
    have hone : ∀ q, (s.handlePayload a p).1.pushed.count q ≤ 1 := by
      intro q
      by_cases hadd : s.Pushes a p ∧ p ∉ (s.queueOps (a.meanwhile p)).queue.uuids
      · rw [hp.added hadd.1 hadd.2]
        by_cases hq : q = p
        · have hnew : p ∉ s.pushed := fun hmem => hadd.2 (hk.1 hadd.1 hmem)
          rw [hq, List.count_cons_self, List.count_eq_zero_of_not_mem hnew]
        · rw [List.count_cons_of_ne (Ne.symm hq)]
          exact h q
      · rw [hp.same hadd]
        exact h q
    rw [handlePayloads_cons]
    split
    · rename_i hok
      exact ih (hk.2 hok) hone
    · exact hone

/-- otherwise one of them is pushed twice -/
theorem handlePayloads_twice {ps : List Payload} (hk : ¬ KeepsPushed a ps s) :
    ∃ p ∈ ps, 2 ≤ (handlePayloads a ps s).1.pushed.count p := by
  induction ps generalizing s with
  | nil => exact absurd trivial hk
  | cons p ps ih =>
    have hp := handlePayload_handled a s p
    rw [handlePayloads_cons]
    by_cases hhead : s.Pushes a p → p ∈ s.pushed → p ∈ (s.queueOps (a.meanwhile p)).queue.uuids
    · have htail : ¬ ((s.handlePayload a p).2 = true → KeepsPushed a ps (s.handlePayload a p).1) :=
        fun htail => hk ⟨hhead, htail⟩
      obtain ⟨hok, htail⟩ := Classical.not_imp.1 htail
      obtain ⟨q, hq, htwice⟩ := ih htail
      rw [if_pos hok]
      exact ⟨q, List.mem_cons_of_mem _ hq, htwice⟩
    · obtain ⟨hpushes, hhead⟩ := Classical.not_imp.1 hhead
      obtain ⟨hmem, hout⟩ := Classical.not_imp.1 hhead
      have htwice : 2 ≤ (s.handlePayload a p).1.pushed.count p := by
        rw [hp.added hpushes hout, List.count_cons_self]
        exact Nat.succ_le_succ (List.count_pos_iff.2 hmem)
      refine ⟨p, List.mem_cons_self, ?_⟩
      split
      · exact htwice.trans ((handlePayloads_looped a ps _).grows p)
      · exact htwice

/-- a loop that comes to its end has pushed every payload it could read -/
theorem handlePayloads_all {ps : List Payload} (ht : Tracked u s) (hown : ∀ p ∈ ps, owner p = u)
    (hok : (handlePayloads a ps s).2 = true) :
    ∀ p ∈ ps, a.read p = true → s.payloadDb p ≠ none → p ∈ (handlePayloads a ps s).1.pushed := by
  induction ps generalizing s with
  | nil => nofun
  | cons p ps ih =>
    have hp := handlePayload_handled a s p
    rw [handlePayloads_cons] at hok ⊢
    split at hok
    · rename_i hgo
      rw [if_pos hgo]
      intro q hq hread hdb
      rcases List.mem_cons.1 hq with rfl | hq
      · have hmem := hp.mem ht (hown _ List.mem_cons_self) ⟨hread, hdb, (handlePayload_ok a s q).1 hgo hread hdb⟩
        exact List.count_pos_iff.1 ((List.count_pos_iff.2 hmem).trans_le ((handlePayloads_looped a ps _).grows q))
      · apply ih (hp.tracked ht) (fun x hx => hown x (List.mem_cons_of_mem _ hx)) hok q hq hread
        rwa [hp.present]
    · cases hok

/-- a payload that cannot be read is not pushed -/
theorem handlePayloads_unread (ps : List Payload) {q : Payload} (hread : a.read q ≠ true) (hq : q ∉ s.pushed) :
    q ∉ (handlePayloads a ps s).1.pushed := by
  induction ps generalizing s with
  | nil => exact hq
  | cons p ps ih =>
    have hp := handlePayload_handled a s p
    have hstep : q ∉ (s.handlePayload a p).1.pushed := by
      by_cases hadd : s.Pushes a p ∧ p ∉ (s.queueOps (a.meanwhile p)).queue.uuids
      · rw [hp.added hadd.1 hadd.2, List.mem_cons]
        rintro (rfl | hmem)
        · exact hread hadd.1.1
        · exact hq hmem
      · rw [hp.same hadd]
        exact hq
    rw [handlePayloads_cons]
    split
    · exact ih hstep
    · exact hstep

/-! ## Scans -/

variable [DecidableEq Uuid] {tx : Transaction D owner}

/-- what holds of the transaction in every state of a run whose scans fit -/
structure Watching (tx : Transaction D owner) (s : FinalityStage D owner) : Prop where
  tracked : Tracked tx.uuid s
  atMost : ∀ q, s.pushed.count q ≤ 1
  pool : ∀ t, s.pool tx.uuid = some t → t.payloadDetails = tx.payloadDetails

omit [Inhabited Uuid] in
theorem dropped_sameQueue (s : FinalityStage D owner) (a : Attempt owner u) (tx : Transaction D owner) :
    (∀ p, (s.dropped a tx).payloadDb p ≠ none ↔ s.payloadDb p ≠ none) ∧ (s.dropped a tx).pushed = s.pushed ∧
      (Tracked u s → Tracked u (s.dropped a tx)) ∧
        (s.dropped a tx).pool u = some { tx with lastStatusCheck := some a.checkedAt } := by
  let checked : FinalityStage D owner :=
    { s with pool := Function.update s.pool u (some { tx with lastStatusCheck := some a.checkedAt }) }
  have hstore : SameQueue checked (s.dropped a tx) := storeTx_sameQueue checked _ a.writes a.relink
  refine ⟨hstore.present, hstore.pushed, ?_, ?_⟩
  · intro h
    have hchecked : Tracked u checked := ⟨h.uuids, h.payloads, h.held⟩
    exact hchecked.sameQueue hstore
  · rw [hstore.pool]
    exact Function.update_self _ _ _

/-- a scan queues each payload once exactly when it fits -/
theorem scan_once (hw : Watching tx s) (h : Once tx s) (a : Attempt owner tx.uuid) :
    (Once tx (s.scan a) ↔ s.Fits (.scan a)) ∧ (s.Fits (.scan a) → Watching tx (s.scan a)) := by
  cases hpool : s.pool tx.uuid with
  | none =>
    have hscan : s.scan a = s := by
      unfold scan
      rw [hpool]
    have hfits : s.Fits (.scan a) := by
      intro t ht
      rw [hpool] at ht
      cases ht
    rw [hscan]
    exact ⟨⟨fun _ => hfits, fun _ => h⟩, fun _ => hw⟩
  | some t =>
    have hdetails := hw.pool t hpool
    obtain ⟨hpresent, hpushed, htracked, hstays⟩ := dropped_sameQueue s a t
    have htracked := htracked hw.tracked
    have hloop := handlePayloads_looped a t.payloadDetails (s.dropped a t)
    have hone : ∀ q, (s.dropped a t).pushed.count q ≤ 1 := by
      rw [hpushed]
      exact hw.atMost
    have hown : ∀ p ∈ t.payloadDetails, owner p = tx.uuid := fun p hp => tx.owned p (hdetails ▸ hp)
    -- the state after the scan: that of the loop, without the transaction when the loop came to its end
    have hscan : (s.scan a).pushed = (handlePayloads a t.payloadDetails (s.dropped a t)).1.pushed ∧
        (∀ p, (s.scan a).payloadDb p ≠ none ↔ (s.dropped a t).payloadDb p ≠ none) ∧
        Tracked tx.uuid (s.scan a) ∧
        ((handlePayloads a t.payloadDetails (s.dropped a t)).2 = true ∧ (s.scan a).pool tx.uuid = none ∨
          (handlePayloads a t.payloadDetails (s.dropped a t)).2 = false ∧
            (s.scan a).pool tx.uuid = some { t with lastStatusCheck := some a.checkedAt }) := by
      have hafter := hloop.tracked htracked
      have hin := hloop.pool ▸ hstays
      have hdb := hloop.present
      unfold scan
      rw [hpool]
      dsimp only
      split
      · rename_i s' he
        rw [he] at hafter hdb ⊢
        exact ⟨rfl, hdb, ⟨hafter.uuids, hafter.payloads, hafter.held⟩, Or.inl ⟨rfl, Function.update_self _ _ _⟩⟩
      · rename_i s' he
        rw [he] at hafter hin hdb ⊢
        exact ⟨rfl, hdb, hafter, Or.inr ⟨rfl, hin⟩⟩
    obtain ⟨hafter, hdb, htracked', hend⟩ := hscan
    have hfits_iff : s.Fits (.scan a) ↔ KeepsPushed a t.payloadDetails (s.dropped a t) ∧
        ReadsAll a t.payloadDetails (s.dropped a t) := by
      constructor
      · intro hfits
        exact hfits t hpool
      · intro hfits t' ht'
        rw [hpool] at ht'
        cases ht'
        exact hfits
    refine ⟨⟨?_, ?_⟩, ?_⟩
    · -- a scan after which each payload is queued once fits
      intro honce
      rw [hfits_iff]
      constructor
      · by_contra hk
        obtain ⟨p, hp, htwice⟩ := handlePayloads_twice hk
        rw [← hafter] at htwice
        exact absurd (honce.atMost p (hdetails ▸ hp)) (by omega)
      · intro hlinks p hp hin hnew
        have hok := (handlePayloads_ok a t.payloadDetails (s.dropped a t)).2 hlinks
        have hgone : (s.scan a).pool tx.uuid = none := by
          rcases hend with ⟨-, hgone⟩ | ⟨hfailed, -⟩
          · exact hgone
          · rw [hok] at hfailed
            cases hfailed
        by_contra hread
        have hcount := honce.all hgone p (hdetails ▸ hp) ((hdb p).2 hin)
        have hout := handlePayloads_unread (a := a) t.payloadDetails hread hnew
        rw [hafter, List.count_eq_zero_of_not_mem hout] at hcount
        cases hcount
    · intro hfits
      obtain ⟨hk, hreads⟩ := hfits_iff.1 hfits
      have honce := handlePayloads_once hk hone
      refine ⟨fun p _ => hafter ▸ honce p, ?_⟩
      intro hgone p hp hin
      have hok : (handlePayloads a t.payloadDetails (s.dropped a t)).2 = true := by
        rcases hend with ⟨hok, -⟩ | ⟨-, hstill⟩
        · exact hok
        · rw [hgone] at hstill
          cases hstill
      have hp' : p ∈ t.payloadDetails := hdetails ▸ hp
      have hin' := (hdb p).1 hin
      have hmem : p ∈ (handlePayloads a t.payloadDetails (s.dropped a t)).1.pushed := by
        by_cases hold : p ∈ (s.dropped a t).pushed
        · exact List.count_pos_iff.1 ((List.count_pos_iff.2 hold).trans_le (hloop.grows p))
        · exact handlePayloads_all htracked hown hok p hp'
            (hreads ((handlePayloads_ok a _ _).1 hok) p hp' hin' hold) hin'
      rw [hafter]
      exact le_antisymm (honce p) (List.count_pos_iff.2 hmem)
    · intro hfits
      refine ⟨htracked', ?_, ?_⟩
      · rw [hafter]
        exact handlePayloads_once (hfits_iff.1 hfits).1 hone
      · intro t' ht'
        rcases hend with ⟨-, hgone⟩ | ⟨-, hstill⟩
        · rw [hgone] at ht'
          cases ht'
        · rw [hstill] at ht'
          cases ht'
          exact hdetails

/-! ## Runs -/

/-- the transaction is in the pool, nothing has been pushed, and none of its payloads is in the queue or popped -/
structure Start (tx : Transaction D owner) (s : FinalityStage D owner) : Prop where
  pool : s.pool tx.uuid = some tx
  pushed : s.pushed = []
  uuids : ∀ p ∈ s.queue.uuids, owner p ≠ tx.uuid
  payloads : ∀ x ∈ s.queue.payloads, owner x.uuid ≠ tx.uuid
  held : ∀ x ∈ s.held, owner x.uuid ≠ tx.uuid

omit [Inhabited Uuid] [DecidableEq Uuid] in
theorem Start.watching (h : Start tx s) : Watching tx s := by
  refine ⟨⟨?_, ?_, ?_⟩, ?_, ?_⟩
  · intro p hp hu
    exact absurd hu (h.uuids p hp)
  · intro x hx hu
    exact absurd hu (h.payloads x hx)
  · intro x hx hu
    exact absurd hu (h.held x hx)
  · intro q
    rw [h.pushed]
    exact Nat.zero_le _
  · intro t ht
    rw [h.pool] at ht
    cases ht
    rfl

omit [Inhabited Uuid] [DecidableEq Uuid] in
theorem Start.once (h : Start tx s) : Once tx s := by
  constructor
  · intro p _
    rw [h.pushed]
    exact Nat.zero_le _
  · intro hnone
    rw [h.pool] at hnone
    cases hnone

omit [Inhabited Uuid] [DecidableEq Uuid] in
theorem queueOp_once (hw : Watching tx s) (h : Once tx s) (op : QueueOp owner tx.uuid) :
    Once tx (s.queueOp op) ∧ Watching tx (s.queueOp op) := by
  have hsame := queueOp_sameRest s op
  refine ⟨⟨?_, ?_⟩, hw.tracked.queueOp op, ?_, ?_⟩
  · rw [hsame.pushed]
    exact h.atMost
  · rw [hsame.pool, hsame.payloadDb, hsame.pushed]
    exact h.all
  · rw [hsame.pushed]
    exact hw.atMost
  · rw [hsame.pool]
    exact hw.pool

theorem run_once_iff (hw : Watching tx s) (h : Once tx s) (events : List (Event owner tx.uuid)) :
    (∀ n, Once tx (s.run (events.take n))) ↔ s.AllFit events := by
  induction events generalizing s with
  | nil =>
    constructor
    · intro _
      trivial
    · intro _ n
      rw [List.take_nil]
      exact h
  | cons e es ih =>
    have hstep : (Once tx (s.step e) ↔ s.Fits e) ∧ (s.Fits e → Watching tx (s.step e)) := by
      cases e with
      | scan a => exact scan_once hw h a
      | queue op =>
        obtain ⟨honce, hwatching⟩ := queueOp_once hw h op
        exact ⟨⟨fun _ => trivial, fun _ => honce⟩, fun _ => hwatching⟩
    constructor
    · intro hall
      have hfits := hstep.1.1 (hall 1)
      refine ⟨hfits, ?_⟩
      apply (ih (hstep.2 hfits) (hall 1)).1
      intro n
      exact hall (n + 1)
    · rintro ⟨hfits, hrest⟩ n
      cases n with
      | zero => exact h
      | succ n => exact (ih (hstep.2 hfits) (hstep.1.2 hfits)).2 hrest n

/-- **When a dropped transaction has each payload queued once.** For every transaction in the pool and every run of scans that
find it dropped, with any failing reads and writes and any operations on the queue in between: in every state each of its
payloads was pushed at most once, and exactly once if it is in the database and the transaction has left the pool, if and only
if every scan fits. -/
theorem requeued_once_iff (h : Start tx s) (events : List (Event owner tx.uuid)) :
    (∀ n, Once tx (s.run (events.take n))) ↔ s.AllFit events :=
  run_once_iff h.watching h.once events

/-! ## Two payloads -/

/-- transaction 7 with the payloads 1 and 2 -/
def twoPayloads : Transaction Unit (fun _ : ℕ => 7) where
  uuid := 7
  data := ()
  payloadDetails := [1, 2]
  status := .Included
  submissionAttempts := 1
  lastStatusCheck := none
  owned := fun _ _ => rfl

def twoStage : FinalityStage Unit (fun _ : ℕ => 7) where
  pool u := if u = 7 then some twoPayloads else none
  txDb _ := none
  payloadDb _ := some (.InTransaction .Included)
  txUuidByPayload _ := none
  queue := ⟨[], ∅⟩
  held := []
  pushed := []

def attempt (read linkWrite : ℕ → Bool) : Attempt (fun _ : ℕ => 7) 7 where
  checkedAt := 0
  writes := ⟨true, fun _ => true⟩
  relink _ := true
  read := read
  statusWrite _ := true
  linkWrite := linkWrite
  meanwhile _ := []

theorem twoStage_start : Start twoPayloads twoStage := ⟨rfl, rfl, nofun, nofun, nofun⟩

/-- one attempt without an error -/
theorem requeued_once_two : Once twoPayloads (twoStage.run [.scan (attempt (fun _ => true) fun _ => true)]) := by
  refine (requeued_once_iff twoStage_start [.scan (attempt (fun _ => true) fun _ => true)]).2 ⟨?_, trivial⟩ 1
  intro tx htx
  cases htx
  refine ⟨⟨?_, fun _ => ⟨?_, fun _ => trivial⟩⟩, fun _ _ _ _ _ => rfl⟩
  · rintro - ⟨⟩
  · intro _ hmem
    exact absurd hmem (by decide)

/-- the read of payload 1 fails: the transaction leaves the pool, and payload 1 is never pushed -/
def unreadEvents : List (Event (fun _ : ℕ => 7) 7) := [.scan (attempt (fun p => decide (p ≠ 1)) fun _ => true)]

/-- the link of payload 2 fails, the building stage pops payload 1, and the next attempt pushes it again -/
def retriedEvents : List (Event (fun _ : ℕ => 7) 7) :=
  [.scan (attempt (fun _ => true) fun p => decide (p ≠ 2)), .queue (.popN 10), .scan (attempt (fun _ => true) fun _ => true)]

theorem not_requeued_once : ¬ Once twoPayloads (twoStage.run unreadEvents) ∧ ¬ Once twoPayloads (twoStage.run retriedEvents) := by
  constructor
  · intro honce
    have hcount := honce.all rfl 1 (by decide) nofun
    revert hcount
    decide
  · intro honce
    have hcount := honce.atMost 1 (by decide)
    revert hcount
    decide

end FinalityStage

end Hyperlane.Lander.Finality
