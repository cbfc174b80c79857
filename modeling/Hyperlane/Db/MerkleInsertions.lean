/-
The Merkle insertions of the database (hyperlane-base/src/db/rocks/hyperlane_db.rs): by leaf index, and the leaf index of
each message.

A write commits one batch: the row of the message it replaces is deleted, then the insertion, its leaf index and its block
are stored. After a reorg the leaves are written again, in any order; a message can then be at two leaf indices for a
while, and replacing one of them deletes the row of the other.

- `step_sound`: a leaf index that is stored for a message is one at which the message is inserted.
- `step_complete_iff`: messages that are inserted once keep their leaf index, unless a write strands one.
- `merkle_tables_inverse`: over any run.
-/
import Hyperlane.Core.ReverseIndex

namespace Hyperlane.Db

open Hyperlane.ReverseIndex

structure MerkleTreeInsertion (MessageId : Type) where
  index : UInt32
  messageId : MessageId
deriving DecidableEq

/-- `MERKLE_TREE_INSERTION`, `MERKLE_LEAF_INDEX_BY_MESSAGE_ID`, `MERKLE_TREE_INSERTION_BLOCK_NUMBER_BY_LEAF_INDEX` -/
structure MerkleTables (MessageId : Type) where
  insertion : UInt32 → Option (MerkleTreeInsertion MessageId)
  leafIndex : MessageId → Option UInt32
  blockNumber : UInt32 → Option UInt64

variable {MessageId : Type} [DecidableEq MessageId]

namespace MerkleTables

def empty : MerkleTables MessageId := ⟨fun _ => none, fun _ => none, fun _ => none⟩

/-- the `delete_keyed` of a batch that stores `insertion` -/
def deleteReplaced (t : MerkleTables MessageId) (insertion : MerkleTreeInsertion MessageId) : MessageId → Option UInt32 :=
  match t.insertion insertion.index with
  | some existing =>
    if existing.messageId ≠ insertion.messageId then Function.update t.leafIndex existing.messageId none else t.leafIndex
  | none => t.leafIndex

/-- `store_tree_insertion_inner` -/
def storeTreeInsertionInner (t : MerkleTables MessageId) (insertion : MerkleTreeInsertion MessageId)
    (insertionBlockNumber : UInt64) : MerkleTables MessageId × Bool :=
  ({ insertion := Function.update t.insertion insertion.index (some insertion)
     leafIndex := Function.update (t.deleteReplaced insertion) insertion.messageId (some insertion.index)
     blockNumber := Function.update t.blockNumber insertion.index (some insertionBlockNumber) }, true)

/-- `process_tree_insertion` -/
def processTreeInsertion (t : MerkleTables MessageId) (insertion : MerkleTreeInsertion MessageId)
    (insertionBlockNumber : UInt64) : MerkleTables MessageId × Bool :=
  match t.insertion insertion.index with
  | some existing =>
    if existing = insertion ∧ t.leafIndex insertion.messageId = some insertion.index ∧
        t.blockNumber insertion.index = some insertionBlockNumber then (t, false)
    else ((t.storeTreeInsertionInner insertion insertionBlockNumber).1, decide (existing ≠ insertion))
  | none => t.storeTreeInsertionInner insertion insertionBlockNumber

/-- `store_tree_insertion` -/
def storeTreeInsertion (t : MerkleTables MessageId) (insertion : MerkleTreeInsertion MessageId)
    (insertionBlockNumber : UInt64) : MerkleTables MessageId × Bool :=
  t.storeTreeInsertionInner insertion insertionBlockNumber

/-- `store_tree_insertion_if_absent` -/
def storeTreeInsertionIfAbsent (t : MerkleTables MessageId) (insertion : MerkleTreeInsertion MessageId)
    (insertionBlockNumber : UInt64) : MerkleTables MessageId × Option (MerkleTreeInsertion MessageId) :=
  match t.insertion insertion.index with
  | some existing => (t, some existing)
  | none => ((t.storeTreeInsertionInner insertion insertionBlockNumber).1, none)

end MerkleTables

inductive InsertionCall (MessageId : Type) where
  | processTreeInsertion (insertion : MerkleTreeInsertion MessageId) (block : UInt64)
  | storeTreeInsertion (insertion : MerkleTreeInsertion MessageId) (block : UInt64)
  | storeTreeInsertionIfAbsent (insertion : MerkleTreeInsertion MessageId) (block : UInt64)
deriving DecidableEq

namespace MerkleTables

def step (t : MerkleTables MessageId) : InsertionCall MessageId → MerkleTables MessageId
  | .processTreeInsertion insertion block => (t.processTreeInsertion insertion block).1
  | .storeTreeInsertion insertion block => (t.storeTreeInsertion insertion block).1
  | .storeTreeInsertionIfAbsent insertion block => (t.storeTreeInsertionIfAbsent insertion block).1

def run (calls : List (InsertionCall MessageId)) : MerkleTables MessageId := calls.foldl step empty

/-! ## The message at a leaf index, and the leaf index of a message -/

/-- the messages by leaf index, with the leaf index of each -/
def index (t : MerkleTables MessageId) : Index UInt32 MessageId :=
  ⟨fun i => (t.insertion i).map MerkleTreeInsertion.messageId, t.leafIndex⟩

/-- the write of a call -/
def written (t : MerkleTables MessageId) : InsertionCall MessageId → Option (MerkleTreeInsertion MessageId)
  | .processTreeInsertion insertion block =>
    if t.insertion insertion.index = some insertion ∧ t.leafIndex insertion.messageId = some insertion.index ∧
      t.blockNumber insertion.index = some block then none else some insertion
  | .storeTreeInsertion insertion _ => some insertion
  | .storeTreeInsertionIfAbsent insertion _ => if (t.insertion insertion.index).isSome then none else some insertion

/-- the call takes one of the two leaf indices of another message -/
def Strands (t : MerkleTables MessageId) (c : InsertionCall MessageId) : Prop :=
  ∃ insertion, t.written c = some insertion ∧ t.index.Strands insertion.index insertion.messageId

theorem storeTreeInsertionInner_index (t : MerkleTables MessageId) (insertion : MerkleTreeInsertion MessageId)
    (block : UInt64) :
    (t.storeTreeInsertionInner insertion block).1.index = t.index.put insertion.index insertion.messageId := by
  have htable : (fun i => (Function.update t.insertion insertion.index (some insertion) i).map
      MerkleTreeInsertion.messageId) = Function.update t.index.table insertion.index (some insertion.messageId) := by
    funext i
    by_cases hi : i = insertion.index
    · rw [hi, Function.update_self, Function.update_self, Option.map_some]
    · rw [Function.update_of_ne hi, Function.update_of_ne hi]
      rfl
  have hdrop : t.deleteReplaced insertion = t.index.drop insertion.index insertion.messageId := by
    cases hold : t.insertion insertion.index with
    | none =>
      rw [Index.drop_none (congrArg (Option.map MerkleTreeInsertion.messageId) hold)]
      simp only [deleteReplaced, hold, index]
    | some existing =>
      rw [Index.drop_some (congrArg (Option.map MerkleTreeInsertion.messageId) hold)]
      simp only [deleteReplaced, hold, index, ne_eq, ite_not]
  rw [index, Index.put, storeTreeInsertionInner, ← hdrop, ← htable]

/-- what a call does -/
theorem step_index (t : MerkleTables MessageId) (c : InsertionCall MessageId) :
    (t.step c).index = match t.written c with
      | some insertion => t.index.put insertion.index insertion.messageId
      | none => t.index := by
  cases c with
  | processTreeInsertion insertion block =>
    simp only [step, processTreeInsertion, written]
    cases hold : t.insertion insertion.index with
    | none =>
      rw [if_neg (by simp)]
      exact storeTreeInsertionInner_index t insertion block
    | some existing =>
      simp only [Option.some.injEq]
      split
      · rfl
      · exact storeTreeInsertionInner_index t insertion block
  | storeTreeInsertion insertion block => exact storeTreeInsertionInner_index t insertion block
  | storeTreeInsertionIfAbsent insertion block =>
    simp only [step, storeTreeInsertionIfAbsent, written]
    cases hold : t.insertion insertion.index with
    | none => exact storeTreeInsertionInner_index t insertion block
    | some existing => rfl

theorem step_sound {t : MerkleTables MessageId} (h : t.index.Sound) (c : InsertionCall MessageId) :
    (t.step c).index.Sound := by
  rw [step_index]
  split
  · exact Index.put_sound h _ _
  · exact h

theorem step_complete_iff {t : MerkleTables MessageId} (h : t.index.Complete) (c : InsertionCall MessageId) :
    (t.step c).index.Complete ↔ ¬ t.Strands c := by
  rw [step_index, Strands]
  cases t.written c with
  | none => simpa using h
  | some insertion => simpa using Index.put_complete_iff h insertion.index insertion.messageId

/-! ## Runs -/

theorem run_concat (calls : List (InsertionCall MessageId)) (c : InsertionCall MessageId) :
    run (calls ++ [c]) = (run calls).step c := List.foldl_concat ..

theorem run_sound (calls : List (InsertionCall MessageId)) : (run calls).index.Sound := by
  induction calls using List.reverseRecOn with
  | nil => exact Index.empty_sound
  | append_singleton calls c ih =>
    rw [run_concat]
    exact step_sound ih c

/-- if no call strands a message, every message that is inserted once has its leaf index -/
theorem run_complete {calls : List (InsertionCall MessageId)}
    (h : ∀ before c, before ++ [c] <+: calls → ¬ (run before).Strands c) : (run calls).index.Complete := by
  induction calls using List.reverseRecOn with
  | nil => exact Index.empty_complete
  | append_singleton calls c ih =>
    have hcalls := ih fun before c' hc => h before c' (hc.trans (List.prefix_append ..))
    rw [run_concat]
    exact (step_complete_iff hcalls c).2 (h calls c List.prefix_rfl)

omit [DecidableEq MessageId] in
theorem index_table {t : MerkleTables MessageId} {i : UInt32} {id : MessageId} :
    t.index.table i = some id ↔ ∃ insertion, t.insertion i = some insertion ∧ insertion.messageId = id := Option.map_eq_some_iff

/-- every message that is inserted once has its leaf index -/
def Complete (t : MerkleTables MessageId) : Prop :=
  ∀ i insertion, t.insertion i = some insertion →
    (∀ j other, t.insertion j = some other → other.messageId = insertion.messageId → j = i) →
    t.leafIndex insertion.messageId = some i

omit [DecidableEq MessageId] in
theorem complete_iff {t : MerkleTables MessageId} : t.Complete ↔ t.index.Complete := by
  constructor
  · intro h i id hi honly
    obtain ⟨insertion, hinsertion, rfl⟩ := index_table.1 hi
    refine h i insertion hinsertion fun j other hj hid => honly j ?_
    rw [hi]
    exact index_table.2 ⟨other, hj, hid⟩
  · intro h i insertion hinsertion honly
    have hi := index_table.2 ⟨insertion, hinsertion, rfl⟩
    refine h i insertion.messageId hi fun j hj => ?_
    obtain ⟨other, hother, hid⟩ := index_table.1 (hj.trans hi)
    exact honly j other hother hid

/-- **Inverse tables.** A leaf index stored for a message is one at which it is inserted. The messages that are inserted
once have theirs at every moment of a run, just if no call of it strands a message. -/
theorem merkle_tables_inverse (calls : List (InsertionCall MessageId)) :
    (∀ id i, (run calls).leafIndex id = some i → ∃ insertion, (run calls).insertion i = some insertion ∧
      insertion.messageId = id) ∧
    ((∀ before, before <+: calls → (run before).Complete) ↔
      ∀ before c, before ++ [c] <+: calls → ¬ (run before).Strands c) := by
  refine ⟨fun id i h => index_table.1 (run_sound calls id i h), fun h before c hc => ?_, fun h before hbefore => ?_⟩
  · have hnow := complete_iff.1 (h before ((List.prefix_append ..).trans hc))
    have hnext := complete_iff.1 (h (before ++ [c]) hc)
    rw [run_concat] at hnext
    exact (step_complete_iff hnow c).1 hnext
  · exact complete_iff.2 (run_complete fun before' c hc => h before' c (hc.trans hbefore))

/-- a message is inserted at 0, after a reorg at 1, and then another one at 0 -/
theorem moved_message_stranded : ¬ ∀ calls : List (InsertionCall ℕ), (run calls).Complete := by
  intro h
  let t := run [.processTreeInsertion ⟨0, 7⟩ 100, .processTreeInsertion ⟨1, 7⟩ 101, .processTreeInsertion ⟨0, 8⟩ 101]
  have hone : t.insertion 1 = some ⟨1, 7⟩ := by decide
  have hzero : t.insertion 0 = some ⟨0, 8⟩ := by decide
  have hlost : t.leafIndex 7 = none := by decide
  have hrow := h _ 1 ⟨1, 7⟩ hone fun j other hj hid => by
    by_contra hj1
    by_cases hj0 : j = 0
    · rw [hj0, hzero] at hj
      obtain rfl := Option.some.inj hj
      cases hid
    · have habsent : t.insertion j = none :=
        (Function.update_of_ne hj0 ..).trans ((Function.update_of_ne hj1 ..).trans (Function.update_of_ne hj0 ..))
      rw [habsent] at hj
      cases hj
  rw [hlost] at hrow
  cases hrow

end MerkleTables

end Hyperlane.Db
