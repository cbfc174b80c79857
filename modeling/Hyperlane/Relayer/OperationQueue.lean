/-
The priority queue of the relayer's operations: `Ord for QueueOperation` (hyperlane-core/src/traits/pending_operation.rs)
and `OpQueue` (agents/relayer/src/msg/op_queue.rs), a `BinaryHeap` of `Reverse`d operations.

Without a deadline, operations of one origin are ordered by nonce and operations of two origins by message id. The two
orders do not fit together.

- `cmp_le_iff`: the order as arithmetic; `cmp_swap`: it is always antisymmetric.
- `preorder_of_no_straddle`, `no_straddle_of_preorder`: it is a total preorder on exactly the sets without an operation
  whose id lies between two of another origin, against their nonces.
- `batches_in_order`: on a total preorder every run of the queue pops each origin in the order of its nonces.
- `queue_ordered_iff`: the two together. `straddled_pops_out_of_order`: three pushes that come out in the wrong order.
-/
import Hyperlane.Core.BinaryHeap

namespace Hyperlane.Relayer.Queueing

open BinaryHeap

/-! ## The model -/

/-- what the queue reads of an operation; the id is the message id as a number -/
structure QueueOperation where
  id : ℕ
  originDomainId : ℕ
  priority : ℕ
  nextAttemptAfter : Option ℕ
deriving DecidableEq

/-- `Ord::cmp`; with mixing enabled, the salted hash of the id decides -/
def QueueOperation.cmp (mixing : Option (ℕ → ℕ)) (x y : QueueOperation) : Ordering :=
  match x.nextAttemptAfter, y.nextAttemptAfter with
  | some a, some b => compare a b
  | none, some _ => .lt
  | some _, none => .gt
  | none, none =>
    match mixing with
    | some saltedHash => compare (saltedHash x.id) (saltedHash y.id)
    | none => if x.originDomainId = y.originDomainId then compare x.priority y.priority else compare x.id y.id

/-- `Ord for Reverse` -/
def reverse (x y : QueueOperation) : Ordering := QueueOperation.cmp none y x

/-- `BinaryHeap<Reverse<QueueOperation>>` -/
abbrev OpQueue := Array QueueOperation

def OpQueue.push (queue : OpQueue) (op : QueueOperation) : OpQueue := BinaryHeap.push reverse queue op

/-- `reprioritize_matching`: the operations that match and whose reset was stored lose their deadline; the heap is built
again -/
def OpQueue.reprioritizeMatching (queue : OpQueue) (reset : QueueOperation → Bool) : OpQueue :=
  rebuild reverse (queue.map fun op => if reset op then { op with nextAttemptAfter := none } else op)

/-- `process_retry_requests`, which does nothing without requests -/
def OpQueue.processRetryRequests (queue : OpQueue) : Option (QueueOperation → Bool) → OpQueue
  | none => queue
  | some reset => queue.reprioritizeMatching reset

/-- `pop_many` looks at the limit after a pop, so one operation leaves even with the limit 0 -/
def OpQueue.popMany (queue : OpQueue) (requests : Option (QueueOperation → Bool)) (limit : ℕ) :
    List QueueOperation × OpQueue :=
  BinaryHeap.popMany reverse (max 1 limit) (queue.processRetryRequests requests)

/-- the loop of `pop_many_ready`, for `n` more operations -/
def popReady (now : ℕ) : ℕ → OpQueue → List QueueOperation × OpQueue
  | 0, queue => ([], queue)
  | n + 1, queue =>
    match queue[0]? with
    | none => ([], queue)
    | some next =>
      if next.nextAttemptAfter.any fun deadline => now < deadline then ([], queue)
      else
        match pop reverse queue with
        | none => ([], queue)
        | some (op, rest) => (op :: (popReady now n rest).1, (popReady now n rest).2)

def OpQueue.popManyReady (queue : OpQueue) (requests : Option (QueueOperation → Bool)) (now limit : ℕ) :
    List QueueOperation × OpQueue :=
  popReady now limit (queue.processRetryRequests requests)

/-- what happens to a queue -/
inductive Step where
  | push (op : QueueOperation)
  | popMany (requests : Option (QueueOperation → Bool)) (limit : ℕ)
  | popManyReady (requests : Option (QueueOperation → Bool)) (now limit : ℕ)

/-- the operations that leave, and the queue after -/
def step (queue : OpQueue) : Step → List QueueOperation × OpQueue
  | .push op => ([], queue.push op)
  | .popMany requests limit => queue.popMany requests limit
  | .popManyReady requests now limit => queue.popManyReady requests now limit

/-- what leaves at each step of a run -/
def batches (queue : OpQueue) : List Step → List (List QueueOperation)
  | [] => []
  | s :: steps => (step queue s).1 :: batches (step queue s).2 steps

/-- operations of one origin come in the order of their nonces -/
def InOrder (popped : List QueueOperation) : Prop :=
  popped.Pairwise fun a b => a.originDomainId = b.originDomainId → a.priority ≤ b.priority

instance (popped : List QueueOperation) : Decidable (InOrder popped) := by
  unfold InOrder; infer_instance

/-! ## The order -/

theorem cmp_le_iff {x y : QueueOperation} : (QueueOperation.cmp none x y).isLE ↔
    match x.nextAttemptAfter, y.nextAttemptAfter with
    | some a, some b => a ≤ b
    | none, some _ => True
    | some _, none => False
    | none, none => if x.originDomainId = y.originDomainId then x.priority ≤ y.priority else x.id ≤ y.id := by
  unfold QueueOperation.cmp
  cases x.nextAttemptAfter with
  | some a =>
    cases y.nextAttemptAfter with
    | some b => exact Nat.isLE_compare
    | none => simp
  | none =>
    cases y.nextAttemptAfter with
    | some b => simp
    | none =>
      simp only
      split
      · exact Nat.isLE_compare
      · exact Nat.isLE_compare

/-- swapping the two sides reverses the order, with and without mixing -/
theorem cmp_swap (mixing : Option (ℕ → ℕ)) (x y : QueueOperation) :
    QueueOperation.cmp mixing x y = (QueueOperation.cmp mixing y x).swap := by
  unfold QueueOperation.cmp
  cases x.nextAttemptAfter with
  | some a =>
    cases y.nextAttemptAfter with
    | some b => exact (Nat.compare_swap b a).symm
    | none => rfl
  | none =>
    cases y.nextAttemptAfter with
    | some b => rfl
    | none =>
      cases mixing with
      | some saltedHash => exact (Nat.compare_swap _ _).symm
      | none =>
        simp only [eq_comm (a := y.originDomainId)]
        split
        · exact (Nat.compare_swap _ _).symm
        · exact (Nat.compare_swap _ _).symm

/-- the id of `y` lies between the ids of two operations of another origin, against the order of their nonces -/
structure Straddles (x y z : QueueOperation) : Prop where
  ready : x.nextAttemptAfter = none ∧ y.nextAttemptAfter = none ∧ z.nextAttemptAfter = none
  same : x.originDomainId = z.originDomainId
  other : y.originDomainId ≠ x.originDomainId
  nonces : x.priority ≤ z.priority
  between : z.id ≤ y.id ∧ y.id ≤ x.id
  strict : x.priority < z.priority ∨ z.id < x.id

/-- the order of two operations without a deadline -/
theorem cmp_le_none {x y : QueueOperation} (hx : x.nextAttemptAfter = none) (hy : y.nextAttemptAfter = none) :
    (QueueOperation.cmp none x y).isLE ↔
      (x.originDomainId = y.originDomainId → x.priority ≤ y.priority) ∧
      (x.originDomainId ≠ y.originDomainId → x.id ≤ y.id) := by
  rw [cmp_le_iff, hx, hy]
  by_cases h : x.originDomainId = y.originDomainId <;> simp [h]

/-- without a straddled operation the order of operations without a deadline is transitive -/
theorem cmp_trans_none {a b c : QueueOperation} (ha : a.nextAttemptAfter = none) (hb : b.nextAttemptAfter = none)
    (hc : c.nextAttemptAfter = none) (hca : ¬ Straddles c b a) (hac : ¬ Straddles a c b) (hba : ¬ Straddles b a c)
    (hab : (QueueOperation.cmp none a b).isLE) (hbc : (QueueOperation.cmp none b c).isLE) :
    (QueueOperation.cmp none a c).isLE := by
  rw [cmp_le_none ha hb] at hab
  rw [cmp_le_none hb hc] at hbc
  rw [cmp_le_none ha hc]
  rcases eq_or_ne a.originDomainId b.originDomainId with h | h
  · rcases eq_or_ne b.originDomainId c.originDomainId with h' | h'
    · exact ⟨fun _ => (hab.1 h).trans (hbc.1 h'), fun hne => absurd (h.trans h') hne⟩
    · refine ⟨fun heq => absurd (h.symm.trans heq) h', fun _ => ?_⟩
      by_contra hgt
      have hid := hbc.2 h'
      exact hac ⟨⟨ha, hc, hb⟩, h, fun heq => h' (h.symm.trans heq.symm), hab.1 h, ⟨hid, by omega⟩, .inr (by omega)⟩
  · rcases eq_or_ne b.originDomainId c.originDomainId with h' | h'
    · refine ⟨fun heq => absurd (heq.trans h'.symm) h, fun _ => ?_⟩
      by_contra hgt
      have hid := hab.2 h
      exact hba ⟨⟨hb, ha, hc⟩, h', h, hbc.1 h', ⟨by omega, hid⟩, .inr (by omega)⟩
    · have hid := (hab.2 h).trans (hbc.2 h')
      refine ⟨fun heq => ?_, fun _ => hid⟩
      by_contra hgt
      exact hca ⟨⟨hc, hb, ha⟩, heq.symm, h', by omega, ⟨hab.2 h, hbc.2 h'⟩, .inl (by omega)⟩

theorem preorder_of_no_straddle {S : QueueOperation → Prop}
    (h : ∀ x y z, S x → S y → S z → ¬ Straddles x y z) : PreorderOn (QueueOperation.cmp none) S := by
  refine ⟨fun _ _ => cmp_swap none _ _, fun {a b c} ha hb hc hab hbc => ?_⟩
  cases hta : a.nextAttemptAfter with
  | none =>
    cases htc : c.nextAttemptAfter with
    | none =>
      cases htb : b.nextAttemptAfter with
      | none => exact cmp_trans_none hta htb htc (h c b a hc hb ha) (h a c b ha hc hb) (h b a c hb ha hc) hab hbc
      | some tb => simp [cmp_le_iff, htb, htc] at hbc
    | some tc => simp [cmp_le_iff, hta, htc]
  | some ta =>
    cases htb : b.nextAttemptAfter with
    | none => simp [cmp_le_iff, hta, htb] at hab
    | some tb =>
      cases htc : c.nextAttemptAfter with
      | none => simp [cmp_le_iff, htb, htc] at hbc
      | some tc =>
        simp only [cmp_le_iff, hta, htb] at hab
        simp only [cmp_le_iff, htb, htc] at hbc
        simp only [cmp_le_iff, hta, htc]
        exact hab.trans hbc

/-- a straddled operation is in a cycle of the order -/
theorem no_straddle_of_preorder {S : QueueOperation → Prop} (h : PreorderOn (QueueOperation.cmp none) S)
    {x y z : QueueOperation} (hx : S x) (hy : S y) (hz : S z) : ¬ Straddles x y z := by
  rintro ⟨⟨tx, ty, tz⟩, hsame, hother, hnonces, ⟨hzy, hyx⟩, hstrict⟩
  have hxz : (QueueOperation.cmp none x z).isLE := (cmp_le_none tx tz).2 ⟨fun _ => hnonces, fun hne => absurd hsame hne⟩
  have hzyLe : (QueueOperation.cmp none z y).isLE :=
    (cmp_le_none tz ty).2 ⟨fun heq => absurd (hsame.trans heq).symm hother, fun _ => hzy⟩
  have hyxLe : (QueueOperation.cmp none y x).isLE := (cmp_le_none ty tx).2 ⟨fun heq => absurd heq hother, fun _ => hyx⟩
  rcases hstrict with hlt | hlt
  · have hzx := ((cmp_le_none tz tx).1 (h.trans hz hy hx hzyLe hyxLe)).1 hsame.symm
    omega
  · have hyz := ((cmp_le_none ty tz).1 (h.trans hy hx hz hyxLe hxz)).2 fun heq => hother (heq.trans hsame.symm)
    have hxy := ((cmp_le_none tx ty).1 (h.trans hx hz hy hxz hzyLe)).2 hother.symm
    omega

/-! ## Runs of the queue -/

/-- operations of the set, without a deadline, as a heap -/
structure Good (S : QueueOperation → Prop) (queue : OpQueue) : Prop where
  all : AllIn (fun op => S op ∧ op.nextAttemptAfter = none) queue
  heap : IsHeap reverse queue

section Runs

variable {S : QueueOperation → Prop} {queue : OpQueue}

theorem reverse_preorder (h : PreorderOn (QueueOperation.cmp none) S) :
    PreorderOn reverse fun op => S op ∧ op.nextAttemptAfter = none :=
  h.reverse.mono fun _ hop => hop.1

/-- a retry request builds the heap again, of the same operations -/
theorem Good.retry (ho : PreorderOn (QueueOperation.cmp none) S) (h : Good S queue)
    (requests : Option (QueueOperation → Bool)) : Good S (queue.processRetryRequests requests) := by
  cases requests with
  | none => exact h
  | some reset =>
    have hall : AllIn (fun op => S op ∧ op.nextAttemptAfter = none)
        (queue.map fun op => if reset op then { op with nextAttemptAfter := none } else op) := by
      intro op hop
      obtain ⟨old, hold, rfl⟩ := Array.mem_map.1 hop
      obtain ⟨hS, hnone⟩ := h.all old hold
      have hsame : { old with nextAttemptAfter := none } = old := by rw [← hnone]
      rw [hsame, ite_self]
      exact ⟨hS, hnone⟩
    exact ⟨hall.of_perm (rebuild_perm _), rebuild_heap (reverse_preorder ho) hall⟩

theorem Good.push (ho : PreorderOn (QueueOperation.cmp none) S) (h : Good S queue) {op : QueueOperation} (hop : S op)
    (hnone : op.nextAttemptAfter = none) : Good S (queue.push op) :=
  ⟨h.all.push ⟨hop, hnone⟩, push_heap (reverse_preorder ho) h.all ⟨hop, hnone⟩ h.heap⟩

/-- a run of pops keeps the heap and comes in order -/
theorem Good.pops (ho : PreorderOn (QueueOperation.cmp none) S) (h : Good S queue) (n : ℕ) :
    Good S (BinaryHeap.popMany reverse n queue).2 ∧ InOrder (BinaryHeap.popMany reverse n queue).1 := by
  have hmem : ∀ op ∈ (BinaryHeap.popMany reverse n queue).1 ++ (BinaryHeap.popMany reverse n queue).2.toList,
      S op ∧ op.nextAttemptAfter = none := by
    intro op hop
    exact h.all op (Array.mem_toList_iff.1 ((popMany_perm n queue).mem_iff.1 hop))
  refine ⟨⟨fun op hop => hmem op (List.mem_append_right _ (Array.mem_toList_iff.2 hop)),
    popMany_heap (reverse_preorder ho) n h.all h.heap⟩, ?_⟩
  refine (popMany_sorted (reverse_preorder ho) n h.all h.heap).imp_of_mem ?_
  intro a b ha hb hle
  have hna := (hmem a (List.mem_append_left _ ha)).2
  have hnb := (hmem b (List.mem_append_left _ hb)).2
  exact ((cmp_le_none hna hnb).1 hle).1

/-- without deadlines everything is ready -/
theorem popReady_eq (now n : ℕ) (hall : AllIn (fun op => S op ∧ op.nextAttemptAfter = none) queue) :
    popReady now n queue = BinaryHeap.popMany reverse n queue := by
  induction n generalizing queue with
  | zero => rfl
  | succ n ih =>
    rw [popReady, BinaryHeap.popMany]
    cases hroot : queue[0]? with
    | none => rw [pop_of_root_none hroot]
    | some next =>
      have hnone := (hall.entry hroot).2
      simp only [hnone, Option.any_none, Bool.false_eq_true, if_false]
      cases hpop : pop reverse queue with
      | none => rfl
      | some p => simp only [ih (hall.of_pop hpop).2]

/-- one step keeps the heap, and what leaves comes in order -/
theorem step_good (ho : PreorderOn (QueueOperation.cmp none) S) (h : Good S queue) (s : Step)
    (hs : ∀ op, s = .push op → S op ∧ op.nextAttemptAfter = none) :
    Good S (step queue s).2 ∧ InOrder (step queue s).1 := by
  cases s with
  | push op =>
    obtain ⟨hop, hnone⟩ := hs op rfl
    exact ⟨h.push ho hop hnone, .nil⟩
  | popMany requests limit => exact (h.retry ho requests).pops ho _
  | popManyReady requests now limit =>
    have hretry := h.retry ho requests
    simp only [step, OpQueue.popManyReady]
    rw [popReady_eq now limit hretry.all]
    exact hretry.pops ho limit

/-- every run pops each origin in the order of its nonces -/
theorem batches_in_order (ho : PreorderOn (QueueOperation.cmp none) S) {steps : List Step} (h : Good S queue)
    (hs : ∀ op, .push op ∈ steps → S op ∧ op.nextAttemptAfter = none) : ∀ popped ∈ batches queue steps, InOrder popped := by
  induction steps generalizing queue with
  | nil => simp [batches]
  | cons s steps ih =>
    obtain ⟨hgood, horder⟩ := step_good ho h s fun op heq => hs op (heq ▸ List.mem_cons_self)
    intro popped hpopped
    rcases List.mem_cons.1 hpopped with rfl | hpopped
    · exact horder
    · exact ih hgood (fun op hop => hs op (List.mem_cons_of_mem _ hop)) popped hpopped

end Runs

theorem good_empty (S : QueueOperation → Prop) : Good S #[] := by
  refine ⟨by simp [AllIn], ?_⟩
  intro i _ x y hx
  simp at hx

/-- **The queue is in order exactly without straddled operations.** For every set of operations: the order on it is
antisymmetric and transitive, and every run that pushes only operations of the set without a deadline pops operations of
one origin in the order of their nonces, if and only if no operation of the set has an id between those of two operations
of another origin, against their nonces. -/
theorem queue_ordered_iff (S : QueueOperation → Prop) :
    ((∀ x y, S x → S y → QueueOperation.cmp none x y = (QueueOperation.cmp none y x).swap) ∧
      (∀ x y z, S x → S y → S z → (QueueOperation.cmp none x y).isLE → (QueueOperation.cmp none y z).isLE →
        (QueueOperation.cmp none x z).isLE) ∧
      ∀ steps : List Step, (∀ op, .push op ∈ steps → S op ∧ op.nextAttemptAfter = none) →
        ∀ popped ∈ batches #[] steps, InOrder popped) ↔
      ∀ x y z, S x → S y → S z → ¬ Straddles x y z := by
  constructor
  · rintro ⟨hswap, htrans, -⟩ x y z hx hy hz
    exact no_straddle_of_preorder ⟨fun ha hb => hswap _ _ ha hb, fun ha hb hc => htrans _ _ _ ha hb hc⟩ hx hy hz
  · intro h
    have ho := preorder_of_no_straddle h
    refine ⟨fun x y hx hy => ho.swap hx hy, fun x y z hx hy hz => ho.trans hx hy hz, fun steps hsteps => ?_⟩
    exact batches_in_order ho (good_empty S) hsteps

def firstOfA : QueueOperation := ⟨9, 1, 1, none⟩

def secondOfA : QueueOperation := ⟨1, 1, 2, none⟩

def onlyOfB : QueueOperation := ⟨5, 2, 1, none⟩

/-- three operations in a cycle of the order; pushed one after the other, the second nonce comes out before the first -/
theorem straddled_pops_out_of_order :
    ((QueueOperation.cmp none firstOfA secondOfA).isLE ∧ (QueueOperation.cmp none secondOfA onlyOfB).isLE ∧
      ¬ (QueueOperation.cmp none firstOfA onlyOfB).isLE) ∧
    batches #[] [.push firstOfA, .push onlyOfB, .push secondOfA, .popMany none 3] =
      [[], [], [], [secondOfA, onlyOfB, firstOfA]] ∧
    ¬ InOrder [secondOfA, onlyOfB, firstOfA] := by
  decide

end Hyperlane.Relayer.Queueing
