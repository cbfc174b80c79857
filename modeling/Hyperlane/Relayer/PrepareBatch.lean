/-
The concurrent preparation of a batch: `process_batch` and `dispose_prepared_operation`
(agents/relayer/src/msg/message_processor.rs).

Every operation of a batch is prepared in a future of its own. Futures complete in any order; the operations of one origin
are disposed of in the order of the batch, from a reorder buffer for each origin.

What an operation becomes in its future, and how it answers, is arbitrary.

- `processBatch`: what is disposed of, for the futures that complete, in their order.
- `Tracked`: after some completions, of each origin the longest run of completed operations is disposed of.
- `batch_disposed_in_order`: every operation once, each origin in order, and none later than its own origin allows.
-/
import Mathlib.Data.List.TakeWhile
import Hyperlane.Core.ReorderBuffer
import Hyperlane.Relayer.PendingOperation

namespace Hyperlane.Relayer.PrepareBatch

open ReorderBuffer

/-! ## The model -/

def USIZE_MAX : ℕ := 2 ^ 64 - 1

variable {Op : Type}

/-- a future of `prepare_futures`: the operation before it is prepared -/
structure Future (Op : Type) where
  origin : UInt32
  sequence : ℕ
  op : Op

/-- a completed future: the operation after it was prepared, and what it answered -/
structure Prepared (Op : Type) where
  origin : UInt32
  outcome : Op × PendingOperationResult

/-- `dispose_prepared_operation`: the queue an operation is pushed to, and its new status; a dropped operation is pushed to
none -/
def disposePreparedOperation : PendingOperationResult → Option (Queue × Option PendingOperationStatus)
  | .Success => some (.submit, some .ReadyToSubmit)
  | .NotReady => some (.prepare, none)
  | .Reprepare reason => some (.prepare, some (.Retry reason))
  | .Drop => none
  | .Confirm reason => some (.confirm, some (.Confirm reason))

/-- a vector has no more elements than a `usize` can count -/
abbrev Batch (Op : Type) := { ops : List Op // ops.length ≤ USIZE_MAX }

/-- the buffers of the origins, and what has been disposed of -/
structure State (Op : Type) where
  byOrigin : UInt32 → Buffer (Op × PendingOperationResult)
  disposed : List (Prepared Op)

def State.init : State Op := ⟨fun _ => .empty, []⟩

/-- a future completes: what can be disposed of now, of its origin, is -/
def complete (s : State Op) (origin : UInt32) (sequence : ℕ) (outcome : Op × PendingOperationResult) : State Op :=
  let out := arrive USIZE_MAX (s.byOrigin origin) sequence outcome
  { byOrigin := Function.update s.byOrigin origin out.2
    disposed := s.disposed ++ out.1.map (Prepared.mk origin) }

section

variable (originDomainId : Op → UInt32) (prepare : ℕ → Op → Op × PendingOperationResult)

/-- numbers the operations of each origin, and pushes a future for each -/
def pushFutures (nextSequence : UInt32 → ℕ) : List Op → List (Future Op)
  | [] => []
  | op :: batch =>
    let origin := originDomainId op
    let next := saturatingSucc USIZE_MAX (nextSequence origin)
    ⟨origin, nextSequence origin, op⟩ :: pushFutures (Function.update nextSequence origin next) batch

/-- the `i`-th future completes -/
def completeFuture (futures : List (Future Op)) (s : State Op) (i : ℕ) : State Op :=
  match futures[i]? with
  | none => s
  | some future => complete s future.origin future.sequence (prepare i future.op)

/-- `process_batch`, after the futures of `completed` have completed, in this order -/
def processBatch (batch : Batch Op) (completed : List ℕ) : State Op :=
  completed.foldl (completeFuture prepare (pushFutures originDomainId (fun _ => 0) batch.1)) .init

/-- the operations of a batch, each after its preparation -/
def prepared (batch : Batch Op) : List (Prepared Op) :=
  batch.1.mapIdx fun i op => ⟨originDomainId op, prepare i op⟩

end

/-- what is pushed to a queue, and with which status -/
def pushedTo (queue : Queue) (disposed : List (Prepared Op)) : List (Op × Option PendingOperationStatus) :=
  disposed.filterMap fun p => ((disposePreparedOperation p.outcome.2).filter (·.1 = queue)).map fun push =>
    (p.outcome.1, push.2)

/-! ## Numbers -/

section Proofs

variable {originDomainId : Op → UInt32} {prepare : ℕ → Op → Op × PendingOperationResult}

/-- an operation is numbered by the operations of its origin before it -/
theorem pushFutures_getElem? {nextSequence : UInt32 → ℕ} {batch : List Op}
    (h : ∀ origin, nextSequence origin + batch.length ≤ USIZE_MAX) (i : ℕ) :
    (pushFutures originDomainId nextSequence batch)[i]? = batch[i]?.map fun op =>
      ⟨originDomainId op, nextSequence (originDomainId op) +
        (batch.take i).countP (fun before => originDomainId before = originDomainId op), op⟩ := by
  induction batch generalizing nextSequence i with
  | nil => rfl
  | cons op batch ih =>
    cases i with
    | zero => rfl
    | succ i =>
      have hnext : saturatingSucc USIZE_MAX (nextSequence (originDomainId op)) = nextSequence (originDomainId op) + 1 := by
        have := h (originDomainId op)
        rw [List.length_cons] at this
        exact Nat.min_eq_left (by omega)
      rw [pushFutures, List.getElem?_cons_succ, List.getElem?_cons_succ, hnext, ih]
      · cases hop : batch[i]? with
        | none => rfl
        | some later =>
          simp only [Option.map_some, List.take_succ_cons, List.countP_cons, decide_eq_true_eq]
          by_cases heq : originDomainId op = originDomainId later
          · rw [heq, Function.update_self, if_pos rfl]
            congr 2
            omega
          · rw [Function.update_of_ne (Ne.symm heq), if_neg heq, Nat.add_zero]
      · intro origin
        have := h origin
        rw [List.length_cons] at this
        by_cases heq : origin = originDomainId op
        · rw [heq, Function.update_self]
          rw [heq] at this
          omega
        · rw [Function.update_of_ne heq]
          omega

/-- an element of a filtered list stands behind the elements before it -/
theorem getElem?_filter_countP {α : Type} {p : α → Bool} {l : List α} {i : ℕ} {x : α} (hx : l[i]? = some x)
    (hp : p x = true) : (l.filter p)[(l.take i).countP p]? = some x := by
  obtain ⟨hi, rfl⟩ := List.getElem?_eq_some_iff.1 hx
  have hsplit : l.take i ++ l[i] :: l.drop (i + 1) = l := by rw [List.getElem_cons_drop, List.take_append_drop]
  calc (l.filter p)[(l.take i).countP p]?
      = ((l.take i ++ l[i] :: l.drop (i + 1)).filter p)[(l.take i).countP p]? := by rw [hsplit]
    _ = ((l.take i).filter p ++ l[i] :: (l.drop (i + 1)).filter p)[((l.take i).filter p).length]? := by
        rw [List.filter_append, List.filter_cons_of_pos hp, List.countP_eq_length_filter]
    _ = some l[i] := by rw [List.getElem?_append_right le_rfl, Nat.sub_self, List.getElem?_cons_zero]

/-! ## Runs -/

variable {batch : Batch Op}

/-- the operations of one origin, with their positions in the batch -/
def numbered (items : List (Prepared Op)) (origin : UInt32) : List (Prepared Op × ℕ) :=
  items.zipIdx.filter fun x => x.1.origin = origin

/-- the longest run of the operations of an origin that have completed -/
def ready (items : List (Prepared Op)) (completed : List ℕ) (origin : UInt32) : List (Prepared Op) :=
  ((numbered items origin).takeWhile fun x => x.2 ∈ completed).map Prod.fst

/-- what has arrived at the buffer of an origin -/
def arrived (items : List (Prepared Op)) (completed : List ℕ) (origin : UInt32) (i : ℕ) :
    Option (Op × PendingOperationResult) :=
  ((numbered items origin)[i]?.filter fun x => x.2 ∈ completed).map fun x => x.1.outcome

/-- every buffer holds what has arrived and cannot leave, and the rest of what has arrived is disposed of -/
def Tracked (items : List (Prepared Op)) (completed : List ℕ) (s : State Op) : Prop :=
  ∀ origin, ∃ left, s.disposed.filter (fun p => p.origin = origin) = left.map (Prepared.mk origin) ∧
    Settled (arrived items completed origin) (s.byOrigin origin) left

theorem mem_numbered {items : List (Prepared Op)} {origin : UInt32} {x : Prepared Op × ℕ} (h : x ∈ numbered items origin) :
    items[x.2]? = some x.1 ∧ x.1.origin = origin := by
  obtain ⟨hmem, horigin⟩ := List.mem_filter.1 h
  exact ⟨List.mem_zipIdx_iff_getElem?.1 hmem, of_decide_eq_true horigin⟩

/-- positions in the batch are not repeated -/
theorem numbered_position {items : List (Prepared Op)} {origin : UInt32} {i j : ℕ} {x y : Prepared Op × ℕ}
    (hx : (numbered items origin)[i]? = some x) (hy : (numbered items origin)[j]? = some y) (h : x.2 = y.2) : i = j := by
  have hnodup : ((numbered items origin).map Prod.snd).Nodup := by
    have hsub := (List.filter_sublist (p := fun x : Prepared Op × ℕ => x.1.origin = origin) (l := items.zipIdx)).map Prod.snd
    rw [List.zipIdx_map_snd] at hsub
    exact hsub.nodup List.nodup_range'
  have hi : ((numbered items origin).map Prod.snd)[i]? = some x.2 := by rw [List.getElem?_map, hx, Option.map_some]
  have hj : ((numbered items origin).map Prod.snd)[j]? = some x.2 := by rw [List.getElem?_map, hy, Option.map_some, h]
  obtain ⟨hi', hxi⟩ := List.getElem?_eq_some_iff.1 hi
  obtain ⟨hj', hxj⟩ := List.getElem?_eq_some_iff.1 hj
  exact (hnodup.getElem_inj_iff).1 (hxi.trans hxj.symm)

theorem tracked_init (items : List (Prepared Op)) : Tracked items [] .init := by
  intro origin
  have harrived : arrived items [] origin = fun _ => none := by
    funext i
    rw [arrived]
    cases (numbered items origin)[i]? with
    | none => rfl
    | some x => rfl
  exact ⟨[], rfl, harrived ▸ settled_empty⟩

theorem Tracked.ready {items : List (Prepared Op)} {completed : List ℕ} {s : State Op} (h : Tracked items completed s)
    (origin : UInt32) : s.disposed.filter (fun p => p.origin = origin) = ready items completed origin := by
  obtain ⟨left, hfilter, hsettled⟩ := h origin
  rw [hfilter, hsettled.left_eq, PrepareBatch.ready, List.map_map]
  refine List.map_congr_left fun x hx => ?_
  obtain ⟨_, horigin⟩ := mem_numbered ((List.takeWhile_sublist _).subset hx)
  rw [Function.comp_apply, ← horigin]

theorem arrived_complete_ne {items : List (Prepared Op)} {completed : List ℕ} {i : ℕ} {x : Prepared Op} {origin : UInt32}
    (hx : items[i]? = some x) (hne : x.origin ≠ origin) :
    arrived items (completed ++ [i]) origin = arrived items completed origin := by
  funext j
  rw [arrived, arrived]
  cases hj : (numbered items origin)[j]? with
  | none => rfl
  | some y =>
    obtain ⟨hy, horigin⟩ := mem_numbered (List.mem_of_getElem? hj)
    have hyi : y.2 ≠ i := by
      intro heq
      rw [heq, hx] at hy
      exact hne ((congrArg Prepared.origin (Option.some.inj hy)).trans horigin)
    simp only [Option.filter_some, List.mem_append, List.mem_singleton, hyi, or_false]

theorem arrived_complete {items : List (Prepared Op)} {completed : List ℕ} {i sequence : ℕ} {x : Prepared Op}
    (hx : (numbered items x.origin)[sequence]? = some (x, i)) :
    arrived items (completed ++ [i]) x.origin =
      Function.update (arrived items completed x.origin) sequence (some x.outcome) := by
  funext j
  by_cases hj : j = sequence
  · rw [hj, Function.update_self, arrived, hx]
    simp only [Option.filter_some, List.mem_append, List.mem_singleton, or_true, decide_true, if_true, Option.map_some]
  · rw [Function.update_of_ne hj, arrived, arrived]
    cases hy : (numbered items x.origin)[j]? with
    | none => rfl
    | some y =>
      have hyi : y.2 ≠ i := fun heq => hj (numbered_position hy hx heq)
      simp only [Option.filter_some, List.mem_append, List.mem_singleton, hyi, or_false]

theorem arrived_lt {items : List (Prepared Op)} {completed : List ℕ} {origin : UInt32} {i : ℕ}
    (h : arrived items completed origin i ≠ none) : i < items.length := by
  have hlt : i < (numbered items origin).length := by
    by_contra hle
    refine h ?_
    rw [arrived, List.getElem?_eq_none (Nat.not_lt.1 hle)]
    rfl
  have hle : (numbered items origin).length ≤ items.zipIdx.length := List.length_filter_le ..
  rw [List.length_zipIdx] at hle
  omega

/-- a future completes -/
theorem Tracked.complete {items : List (Prepared Op)} {completed : List ℕ} {s : State Op} (h : Tracked items completed s)
    {i sequence : ℕ} {x : Prepared Op} (hx : (numbered items x.origin)[sequence]? = some (x, i)) (hnew : i ∉ completed)
    (hlen : items.length ≤ USIZE_MAX) :
    Tracked items (completed ++ [i]) (complete s x.origin sequence x.outcome) := by
  intro origin
  obtain ⟨left, hfilter, hsettled⟩ := h origin
  by_cases horigin : origin = x.origin
  · subst horigin
    have hlimit : ∀ j, arrived items completed x.origin j ≠ none → j < USIZE_MAX :=
      fun j hj => (arrived_lt hj).trans_le hlen
    have hnone : arrived items completed x.origin sequence = none := by
      rw [arrived, hx, Option.filter_some, if_neg (by simpa using hnew), Option.map_none]
    have hsequence : sequence < USIZE_MAX := by
      have hlt := (List.getElem?_eq_some_iff.1 hx).1
      have hle : (numbered items x.origin).length ≤ items.zipIdx.length := List.length_filter_le ..
      rw [List.length_zipIdx] at hle
      omega
    refine ⟨left ++ (arrive USIZE_MAX (s.byOrigin x.origin) sequence x.outcome).1, ?_, ?_⟩
    · rw [PrepareBatch.complete, List.filter_append, hfilter, List.map_append]
      congr 1
      refine List.filter_eq_self.2 fun p hp => ?_
      obtain ⟨outcome, _, rfl⟩ := List.mem_map.1 hp
      exact decide_eq_true rfl
    · rw [arrived_complete hx, PrepareBatch.complete]
      dsimp only
      rw [Function.update_self]
      exact arrive_settled hsettled x.outcome hnone hlimit hsequence
  · obtain ⟨hitem, _⟩ := mem_numbered (List.mem_of_getElem? hx)
    refine ⟨left, ?_, ?_⟩
    · rw [PrepareBatch.complete, List.filter_append, hfilter, List.append_right_eq_self]
      refine List.filter_eq_nil_iff.2 fun p hp => ?_
      obtain ⟨outcome, _, rfl⟩ := List.mem_map.1 hp
      exact fun heq => horigin (of_decide_eq_true heq).symm
    · rw [arrived_complete_ne hitem (Ne.symm horigin), PrepareBatch.complete]
      dsimp only
      rw [Function.update_of_ne horigin]
      exact hsettled

theorem prepared_length : (prepared originDomainId prepare batch).length = batch.1.length := List.length_mapIdx

theorem prepared_origins (originDomainId : Op → UInt32) (prepare : ℕ → Op → Op × PendingOperationResult) (batch : Batch Op) :
    (prepared originDomainId prepare batch).zipIdx.map (fun x => x.1.origin) = batch.1.map originDomainId := by
  refine List.ext_getElem? fun i => ?_
  rw [List.getElem?_map, List.getElem?_zipIdx, prepared, List.getElem?_mapIdx, List.getElem?_map]
  cases batch.1[i]? with
  | none => rfl
  | some op => rfl

/-- a future carries the number of its operation among those of its origin -/
theorem future_numbered {i : ℕ} {future : Future Op}
    (h : (pushFutures originDomainId (fun _ => 0) batch.1)[i]? = some future) :
    (numbered (prepared originDomainId prepare batch) future.origin)[future.sequence]? =
      some (⟨future.origin, prepare i future.op⟩, i) := by
  rw [pushFutures_getElem? (fun _ => by rw [Nat.zero_add]; exact batch.2)] at h
  obtain ⟨op, hop, rfl⟩ := Option.map_eq_some_iff.1 h
  have hitem : (prepared originDomainId prepare batch).zipIdx[i]? = some (⟨originDomainId op, prepare i op⟩, i) := by
    rw [List.getElem?_zipIdx, prepared, List.getElem?_mapIdx, hop]
    simp
  have hcount : (batch.1.take i).countP (fun before => originDomainId before = originDomainId op) =
      ((prepared originDomainId prepare batch).zipIdx.take i).countP (fun x => x.1.origin = originDomainId op) := by
    have horigins := congrArg (List.countP (· = originDomainId op)) (congrArg (List.take i)
      (prepared_origins originDomainId prepare batch))
    rw [← List.map_take, ← List.map_take, List.countP_map, List.countP_map] at horigins
    exact horigins.symm
  dsimp only
  rw [Nat.zero_add, hcount, numbered]
  exact getElem?_filter_countP hitem (decide_eq_true rfl)

/-- the futures that have completed so far, without repetition -/
theorem processBatch_tracked {completed : List ℕ} (hnodup : completed.Nodup) (hlt : ∀ i ∈ completed, i < batch.1.length) :
    Tracked (prepared originDomainId prepare batch) completed (processBatch originDomainId prepare batch completed) := by
  induction completed using List.reverseRecOn with
  | nil => exact tracked_init _
  | append_singleton completed i ih =>
    rw [List.nodup_append] at hnodup
    have hbefore := ih hnodup.1 fun j hj => hlt j (List.mem_append_left _ hj)
    have hnew : i ∉ completed := fun hi => hnodup.2.2 i hi i (List.mem_singleton_self i) rfl
    rw [processBatch, List.foldl_append, List.foldl_cons, List.foldl_nil, completeFuture]
    split
    next hnone =>
      have hi := hlt i (List.mem_append_right _ (List.mem_singleton_self i))
      rw [pushFutures_getElem? (fun _ => by rw [Nat.zero_add]; exact batch.2), List.getElem?_eq_getElem hi] at hnone
      exact nomatch hnone
    next future hfuture =>
      exact hbefore.complete (x := ⟨future.origin, prepare i future.op⟩) (future_numbered hfuture) hnew
        (prepared_length ▸ batch.2)

/-- an order in which the futures of a batch complete -/
abbrev Completions (batch : Batch Op) := { order : List ℕ // order.Perm (List.range batch.1.length) }

theorem Completions.tracked (order : Completions batch) (k : ℕ) :
    Tracked (prepared originDomainId prepare batch) (order.1.take k)
      (processBatch originDomainId prepare batch (order.1.take k)) := by
  refine processBatch_tracked ?_ fun i hi => ?_
  · exact (List.take_sublist k order.1).nodup (order.2.nodup_iff.2 List.nodup_range)
  · exact List.mem_range.1 (order.2.mem_iff.1 (List.mem_of_mem_take hi))

theorem takeWhile_all {items : List (Prepared Op)} {completed : List ℕ} (h : ∀ i < items.length, i ∈ completed)
    (origin : UInt32) :
    ((numbered items origin).takeWhile fun x => x.2 ∈ completed) = numbered items origin :=
  List.takeWhile_eq_self_iff.2 fun x hx =>
    decide_eq_true (h x.2 (List.getElem?_eq_some_iff.1 (mem_numbered hx).1).1)

theorem ready_all {items : List (Prepared Op)} {completed : List ℕ} (h : ∀ i < items.length, i ∈ completed)
    (origin : UInt32) : ready items completed origin = items.filter fun p => p.origin = origin := by
  rw [ready, takeWhile_all h, numbered]
  conv_rhs => rw [← List.zipIdx_map_fst 0 items, List.filter_map]
  rfl

theorem Completions.all (order : Completions batch) :
    ∀ i < (prepared originDomainId prepare batch).length, i ∈ order.1 := by
  intro i hi
  rw [prepared_length] at hi
  exact order.2.mem_iff.2 (List.mem_range.2 hi)

open Classical in
theorem perm_of_filter_origin {l l' : List (Prepared Op)}
    (h : ∀ origin, l.filter (fun p => p.origin = origin) = l'.filter fun p => p.origin = origin) : l.Perm l' := by
  refine List.perm_iff_count.2 fun x => ?_
  have hcount : ∀ l : List (Prepared Op), (l.filter fun q => q.origin = x.origin).count x = l.count x :=
    fun l => List.count_filter (p := fun q : Prepared Op => decide (q.origin = x.origin)) (decide_eq_true rfl)
  rw [← hcount l, h, hcount]

end Proofs

/-- for every batch and every order in which its futures complete: every operation is disposed of exactly once, into the queue
that its answer names; the operations of one origin in the order of the batch; and at every moment, of each origin as many
as have completed without a gap, whatever the other origins do -/
theorem batch_disposed_in_order (originDomainId : Op → UInt32) (prepare : ℕ → Op → Op × PendingOperationResult)
    (batch : Batch Op) (order : Completions batch) :
    let items := prepared originDomainId prepare batch
    let disposed := fun completed => (processBatch originDomainId prepare batch completed).disposed
    (disposed order.1).Perm items ∧
    (∀ queue, (pushedTo queue (disposed order.1)).Perm (pushedTo queue items)) ∧
    (∀ origin, (disposed order.1).filter (fun p => p.origin = origin) = items.filter fun p => p.origin = origin) ∧
    (∀ k origin, (disposed (order.1.take k)).filter (fun p => p.origin = origin) = ready items (order.1.take k) origin) := by
  intro items disposed
  have hrun : ∀ k origin, (disposed (order.1.take k)).filter (fun p => p.origin = origin) =
      ready items (order.1.take k) origin := fun k origin => (order.tracked k).ready origin
  have horigin : ∀ origin, (disposed order.1).filter (fun p => p.origin = origin) =
      items.filter fun p => p.origin = origin := by
    intro origin
    have hall := hrun order.1.length origin
    rw [List.take_length] at hall
    rw [hall]
    exact ready_all order.all origin
  have hperm := perm_of_filter_origin horigin
  exact ⟨hperm, fun queue => hperm.filterMap _, horigin, hrun⟩

end Hyperlane.Relayer.PrepareBatch
