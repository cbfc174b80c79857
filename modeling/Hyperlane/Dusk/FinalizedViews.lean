/-
Finalized views of Dusk's record lists: the indexers' `latest_sequence_count_and_tip` and the hook's
`finalized_merkle_view` and `checkpoint_at_height` (hyperlane-dusk/src/mailbox_indexer.rs, interchain_gas.rs,
merkle_tree_hook.rs, mailbox.rs).

Each answer comes from a chain that has moved on since the one before: records are appended, records above the finalized
height are replaced by reorgs, and the finalized height advances. The contracts are not part of the repository; what
they answer for an index without a record is a parameter.

- `indexer_pairs_iff`: an indexer reads the count before the tip, and pairs them rightly if and only if the count it read
  is not below the number of records up to the tip.
- `view_pairs_iff`: the hook's views read the height first, and pair it rightly unless it is the last `u64` and a record
  has it.
- `finalized_views_pair_iff`: both, for every execution that returns.
-/
import Hyperlane.Core.RemoteReads

namespace Hyperlane.Dusk

open RemoteReads

/-! ## The chain -/

/-- the append-only lists of the contracts -/
inductive RecordList where
  | dispatches
  | deliveries
  | gasPayments
  | insertions
deriving DecidableEq

def u32Max : ℕ := 2 ^ 32 - 1

def u64Max : ℕ := 2 ^ 64 - 1

/-- the block heights of the records, and the finalized height -/
structure Chain where
  heights : RecordList → List ℕ
  finalizedHeight : ℕ
  /-- the root of the hook after an insertion -/
  rootAt : ℕ → ℕ
  sorted : ∀ l, (heights l).Pairwise (· ≤ ·)
  heights_u64 : ∀ l, ∀ h ∈ heights l, h ≤ u64Max
  finalized_u64 : finalizedHeight ≤ u64Max

/-- how many records are at or below a height -/
def Chain.countUpTo (c : Chain) (l : RecordList) (height : ℕ) : ℕ := (c.heights l).countP (· ≤ height)

/-- the finalized height advances, and the records at or below it never change -/
structure Chain.Evolves (c c' : Chain) : Prop where
  finalized : c.finalizedHeight ≤ c'.finalizedHeight
  records : ∀ l, (c'.heights l).filter (· ≤ c.finalizedHeight) = (c.heights l).filter (· ≤ c.finalizedHeight)

/-- the chain when a question is answered, if it is -/
structure Node where
  chain : Chain
  up : Bool

inductive DuskError where
  | request
  | finalizedHeightExceedsU32 (height : ℕ)
  | noInsertion (height : ℕ)
  | contract
deriving DecidableEq

/-- a query, unless the request fails -/
def query {α : Type} (q : Chain → Except DuskError α) : Reads Node DuskError α :=
  ask fun node => if node.up then q node.chain else .error .request

/-! ## Queries -/

section Queries

-- what a contract answers when it is asked for a record that it does not have
variable (beyond : RecordList → ℕ → Except DuskError ℕ)

def heightAt (l : RecordList) (index : ℕ) (c : Chain) : Except DuskError ℕ :=
  match (c.heights l)[index]? with
  | some height => .ok height
  | none => beyond l index

/-- `nonce`, `processed_count`, `gas_payment_count` and `count` of the contracts -/
def recordCount (l : RecordList) : Reads Node DuskError ℕ := query fun c => .ok (c.heights l).length

def finalizedBlockHeight : Reads Node DuskError ℕ := query fun c => .ok c.finalizedHeight

def finalizedBlockNumber : Reads Node DuskError ℕ := do
  let height ← finalizedBlockHeight
  if u32Max < height then throw (.finalizedHeightExceedsU32 height) else pure height

/-- the binary search that each of the lists has a copy of -/
def firstAtOrAfter (l : RecordList) (count blockHeight : ℕ) : Reads Node DuskError ℕ :=
  search (fun index node => if node.up then (heightAt beyond l index node.chain).map fun h => h < blockHeight
    else .error .request) count

def firstDispatchAtOrAfter : ℕ → ℕ → Reads Node DuskError ℕ := firstAtOrAfter beyond .dispatches

def firstProcessAtOrAfter : ℕ → ℕ → Reads Node DuskError ℕ := firstAtOrAfter beyond .deliveries

/-- the height is that of the payment record -/
def firstPaymentAtOrAfter : ℕ → ℕ → Reads Node DuskError ℕ := firstAtOrAfter beyond .gasPayments

def firstInsertionAtOrAfter : ℕ → ℕ → Reads Node DuskError ℕ := firstAtOrAfter beyond .insertions

def firstMerkleInsertionAtOrAfter : ℕ → ℕ → Reads Node DuskError ℕ := firstAtOrAfter beyond .insertions

/-- `first_.._at_or_after` of an indexer -/
def first : RecordList → ℕ → ℕ → Reads Node DuskError ℕ
  | .dispatches => firstDispatchAtOrAfter beyond
  | .deliveries => firstProcessAtOrAfter beyond
  | .gasPayments => firstPaymentAtOrAfter beyond
  | .insertions => firstInsertionAtOrAfter beyond

/-- `finalized_dispatch_count`, `finalized_process_count`, `finalized_payment_count`, `finalized_insertion_count` -/
def finalizedCount (l : RecordList) (currentCount : ℕ) : Reads Node DuskError (ℕ × ℕ) := do
  let finalizedTip ← finalizedBlockNumber
  let finalizedCount ← first beyond l currentCount (finalizedTip + 1)
  return (finalizedCount, finalizedTip)

/-- `latest_sequence_count_and_tip` of an indexer: the count is read before the tip -/
def latestSequenceCountAndTip (l : RecordList) : Reads Node DuskError (Option ℕ × ℕ) := do
  let count ← recordCount l
  let (finalizedCount, finalizedTip) ← finalizedCount beyond l count
  return (some finalizedCount, finalizedTip)

def saturatingAdd (a b : ℕ) : ℕ := min (a + b) u64Max

def merkleCountAtHeight (count blockHeight : ℕ) : Reads Node DuskError ℕ :=
  firstMerkleInsertionAtOrAfter beyond count (saturatingAdd blockHeight 1)

/-- the height is read before the count -/
def finalizedMerkleView : Reads Node DuskError (ℕ × ℕ) := do
  let finalizedHeight ← finalizedBlockHeight
  let count ← recordCount .insertions
  let finalizedCount ← merkleCountAtHeight beyond count finalizedHeight
  return (finalizedCount, finalizedHeight)

structure Checkpoint where
  merkleTreeHookAddress : ℕ
  mailboxDomain : ℕ
  root : ℕ
  index : ℕ
deriving DecidableEq

structure CheckpointAtBlock where
  checkpoint : Checkpoint
  blockHeight : Option ℕ
deriving DecidableEq

def checkpointAtHeight (hook domain blockHeight : ℕ) : Reads Node DuskError CheckpointAtBlock := do
  let finalizedHeight ← finalizedBlockHeight
  let effectiveHeight := min blockHeight finalizedHeight
  let currentCount ← recordCount .insertions
  let count ← merkleCountAtHeight beyond currentCount effectiveHeight
  if count = 0 then throw (.noInsertion effectiveHeight)
  else do
    let index := count - 1
    let root ← query fun c => .ok (c.rootAt index)
    return ⟨⟨hook, domain, root, index⟩, some effectiveHeight⟩

end Queries

/-! ## Records that do not change -/

/-- in a sorted list the entries below a bound are those with an index below their number -/
theorem lt_iff_index {l : List ℕ} (hl : l.Pairwise (· ≤ ·)) (T : ℕ) {i x : ℕ} (hx : l[i]? = some x) :
    x < T ↔ i < l.countP (· < T) := by
  induction l generalizing i with
  | nil => cases hx
  | cons y l ih =>
    obtain ⟨hy, hl⟩ := List.pairwise_cons.1 hl
    cases i with
    | zero =>
      obtain rfl := Option.some.inj hx
      by_cases hlt : y < T
      · simp [hlt]
      · have hzero : l.countP (· < T) = 0 := List.countP_eq_zero.2 fun z hz => by simpa using (not_lt.1 hlt).trans (hy z hz)
        simp [hlt, hzero]
    | succ i =>
      rw [List.getElem?_cons_succ] at hx
      rw [ih hl hx]
      by_cases hlt : y < T
      · simp [hlt]
      · have hzero : l.countP (· < T) = 0 := List.countP_eq_zero.2 fun z hz => by simpa using (not_lt.1 hlt).trans (hy z hz)
        simp [hlt, hzero]

theorem Chain.Evolves.refl (c : Chain) : c.Evolves c := ⟨le_rfl, fun _ => rfl⟩

/-- the records below a bound that is finalized are counted alike -/
theorem Chain.Evolves.countP {c c' : Chain} (h : c.Evolves c') (l : RecordList) {T : ℕ} (hT : T ≤ c.finalizedHeight + 1) :
    (c'.heights l).countP (· < T) = (c.heights l).countP (· < T) := by
  have hfinalized : ∀ hs : List ℕ, hs.countP (· < T) = (hs.filter (· ≤ c.finalizedHeight)).countP (· < T) := by
    intro hs
    rw [List.countP_filter]
    refine List.countP_congr fun x _ => ?_
    simp only [decide_eq_true_eq, Bool.and_eq_true]
    omega
  rw [hfinalized, hfinalized (c.heights l), h.records l]

theorem Chain.Evolves.trans {a b c : Chain} (h : a.Evolves b) (h' : b.Evolves c) : a.Evolves c := by
  refine ⟨h.finalized.trans h'.finalized, fun l => ?_⟩
  have hfinalized : ∀ hs : List ℕ, hs.filter (· ≤ a.finalizedHeight) =
      (hs.filter (· ≤ b.finalizedHeight)).filter (· ≤ a.finalizedHeight) := by
    intro hs
    rw [List.filter_filter]
    refine List.filter_congr fun x _ => ?_
    rw [Bool.eq_iff_iff]
    simp only [decide_eq_true_eq, Bool.and_eq_true]
    have := h.finalized
    omega
  rw [hfinalized, h'.records l, ← hfinalized, h.records l]

theorem countUpTo_eq (c : Chain) (l : RecordList) (height : ℕ) :
    c.countUpTo l height = (c.heights l).countP (· < height + 1) :=
  List.countP_congr fun x _ => by simp only [decide_eq_true_eq, Nat.lt_succ_iff]

/-! ## Executions -/

section Executions

variable {beyond : RecordList → ℕ → Except DuskError ℕ} {seen : ℕ → Node} {k k' : ℕ}

/-- the chain moves on from question to question -/
def Evolving (seen : ℕ → Node) : Prop := ∀ k, (seen k).chain.Evolves (seen (k + 1)).chain

/-- no contract answers for a record that it does not have -/
def Refuses (beyond : RecordList → ℕ → Except DuskError ℕ) : Prop := ∀ l index height, beyond l index ≠ .ok height

theorem Evolving.le (h : Evolving seen) {j : ℕ} (hj : k ≤ j) : (seen k).chain.Evolves (seen j).chain := by
  induction j, hj using Nat.le_induction with
  | base => exact .refl _
  | succ j _ ih => exact ih.trans (h j)

theorem yields_query {α : Type} {q : Chain → Except DuskError α} {a : α} (h : Yields seen k (query q) a k') :
    q (seen k).chain = .ok a ∧ k' = k + 1 := by
  obtain ⟨hq, hk⟩ := yields_ask.1 h
  split at hq
  · exact ⟨hq, hk⟩
  · cases hq

/-- the search counts the records below a finalized bound, as far as it looks -/
theorem firstAtOrAfter_yields (hseen : Evolving seen) (hbeyond : Refuses beyond) {l : RecordList} {count T r m : ℕ}
    (hm : m ≤ k) (hT : T ≤ (seen m).chain.finalizedHeight + 1)
    (h : Yields seen k (firstAtOrAfter beyond l count T) r k') :
    r = min (((seen m).chain.heights l).countP (· < T)) count := by
  refine search_yields ⟨fun j hj i hi b hb => ?_, fun j hj i hi b hb => ?_⟩ h
  · have hcount := (hseen.le (hm.trans hj)).countP l hT
    have hlt : i < ((seen j).chain.heights l).length := by
      have := List.countP_le_length (p := fun x => decide (x < T)) (l := (seen j).chain.heights l)
      omega
    split at hb
    · obtain ⟨x, hx⟩ := List.getElem?_eq_some_iff.1 (List.getElem?_eq_getElem hlt)
      rw [heightAt, List.getElem?_eq_getElem hlt] at hb
      have hbelow := (lt_iff_index ((seen j).chain.sorted l) T (List.getElem?_eq_getElem hlt)).2 (by omega)
      simpa [Except.map, hbelow] using hb.symm
    · cases hb
  · have hcount := (hseen.le (hm.trans hj)).countP l hT
    split at hb
    · rw [heightAt] at hb
      cases hget : ((seen j).chain.heights l)[i]? with
      | some x =>
        have habove : ¬ x < T := fun hlt => by
          have := (lt_iff_index ((seen j).chain.sorted l) T hget).1 hlt
          omega
        rw [hget] at hb
        simpa [Except.map, habove] using hb.symm
      | none =>
        rw [hget] at hb
        cases hanswer : beyond l i with
        | ok x => exact absurd hanswer (hbeyond l i x)
        | error e => simp [hanswer, Except.map] at hb
    · cases hb

theorem first_eq (l : RecordList) : first beyond l = firstAtOrAfter beyond l := by
  cases l <;> rfl

/-- an indexer returns the records up to the tip, as far as the count that it read first -/
theorem latestSequenceCountAndTip_yields (hseen : Evolving seen) (hbeyond : Refuses beyond) {l : RecordList}
    {result : Option ℕ × ℕ} (h : Yields seen k (latestSequenceCountAndTip beyond l) result k') :
    result = (some (min ((seen (k + 1)).chain.countUpTo l (seen (k + 1)).chain.finalizedHeight)
      ((seen k).chain.heights l).length), (seen (k + 1)).chain.finalizedHeight) := by
  obtain ⟨count, j₁, hcount, h⟩ := yields_bind.1 h
  obtain ⟨hlength, rfl⟩ := yields_query hcount
  obtain ⟨⟨c, t⟩, j₂, hfinalized, h⟩ := yields_bind.1 h
  obtain ⟨rfl, rfl⟩ := yields_pure.1 h
  obtain ⟨tip, j₃, htip, hfinalized⟩ := yields_bind.1 hfinalized
  obtain ⟨height, j₄, hheight, htip⟩ := yields_bind.1 htip
  obtain ⟨htip', rfl⟩ := yields_query hheight
  split at htip
  · exact absurd htip not_yields_throw
  obtain ⟨rfl, rfl⟩ := yields_pure.1 htip
  obtain ⟨r, j₅, hr, hfinalized⟩ := yields_bind.1 hfinalized
  obtain ⟨hpair, rfl⟩ := yields_pure.1 hfinalized
  cases hpair
  cases htip'
  cases hlength
  rw [first_eq] at hr
  rw [firstAtOrAfter_yields hseen hbeyond (Nat.le_succ (k + 1)) le_rfl hr, countUpTo_eq]

/-- the hook's search at a height that is finalized -/
theorem merkleCountAtHeight_yields (hseen : Evolving seen) (hbeyond : Refuses beyond) {count height r m : ℕ} (hm : m ≤ k)
    (hheight : height ≤ (seen m).chain.finalizedHeight)
    (hcount : ((seen m).chain.heights .insertions).countP (· < saturatingAdd height 1) ≤ count)
    (h : Yields seen k (merkleCountAtHeight beyond count height) r k') :
    r = ((seen m).chain.heights .insertions).countP (· < saturatingAdd height 1) := by
  have hT : saturatingAdd height 1 ≤ (seen m).chain.finalizedHeight + 1 := by
    unfold saturatingAdd
    omega
  rw [firstAtOrAfter_yields hseen hbeyond hm hT h]
  exact min_eq_left hcount

/-- a count that is read later covers the records that were finalized before -/
theorem count_le_length (hseen : Evolving seen) {l : RecordList} {T m j : ℕ} (hm : m ≤ j)
    (hT : T ≤ (seen m).chain.finalizedHeight + 1) :
    ((seen m).chain.heights l).countP (· < T) ≤ ((seen j).chain.heights l).length := by
  rw [← (hseen.le hm).countP l hT]
  exact List.countP_le_length

/-- the records below the next height are those up to a height, unless there is no next height and one has the last -/
theorem countP_saturatingAdd_iff (c : Chain) (l : RecordList) {height : ℕ} (hheight : height ≤ u64Max) :
    c.countUpTo l height = (c.heights l).countP (· < saturatingAdd height 1) ↔
      ¬ (height = u64Max ∧ u64Max ∈ c.heights l) := by
  rw [countUpTo_eq]
  rcases hheight.lt_or_eq with hlt | rfl
  · have hnext : saturatingAdd height 1 = height + 1 := min_eq_left hlt
    rw [hnext]
    exact ⟨fun _ hlast => absurd hlast.1 hlt.ne, fun _ => rfl⟩
  · have hnext : saturatingAdd u64Max 1 = u64Max := min_eq_right (Nat.le_succ _)
    have hall : (c.heights l).countP (· < u64Max + 1) = (c.heights l).length :=
      List.countP_eq_length.2 fun x hx => by simpa using c.heights_u64 l x hx
    rw [hnext, hall, eq_comm, List.countP_eq_length]
    constructor
    · rintro h ⟨-, hmem⟩
      simpa using h u64Max hmem
    · intro h x hx
      have hle := c.heights_u64 l x hx
      have hne : x ≠ u64Max := fun heq => h ⟨rfl, heq ▸ hx⟩
      simpa using lt_of_le_of_ne hle hne

theorem finalizedMerkleView_yields (hseen : Evolving seen) (hbeyond : Refuses beyond) {result : ℕ × ℕ}
    (h : Yields seen k (finalizedMerkleView beyond) result k') :
    result = (((seen k).chain.heights .insertions).countP (· < saturatingAdd (seen k).chain.finalizedHeight 1),
      (seen k).chain.finalizedHeight) := by
  obtain ⟨height, j₁, hheight, h⟩ := yields_bind.1 h
  obtain ⟨htip', rfl⟩ := yields_query hheight
  obtain ⟨count, j₂, hcount, h⟩ := yields_bind.1 h
  obtain ⟨hlength', rfl⟩ := yields_query hcount
  obtain ⟨r, j₃, hr, h⟩ := yields_bind.1 h
  obtain ⟨rfl, rfl⟩ := yields_pure.1 h
  cases htip'
  cases hlength'
  have hlength := count_le_length (l := .insertions) (T := saturatingAdd (seen k).chain.finalizedHeight 1) hseen
    (Nat.le_succ k) (by unfold saturatingAdd; omega)
  rw [merkleCountAtHeight_yields hseen hbeyond (by omega : k ≤ k + 1 + 1) le_rfl hlength hr]

theorem checkpointAtHeight_yields (hseen : Evolving seen) (hbeyond : Refuses beyond) {hook domain blockHeight : ℕ}
    {result : CheckpointAtBlock} (h : Yields seen k (checkpointAtHeight beyond hook domain blockHeight) result k') :
    result.blockHeight = some (min blockHeight (seen k).chain.finalizedHeight) ∧
      result.checkpoint.index + 1 = ((seen k).chain.heights .insertions).countP
        (· < saturatingAdd (min blockHeight (seen k).chain.finalizedHeight) 1) := by
  obtain ⟨height, j₁, hheight, h⟩ := yields_bind.1 h
  obtain ⟨htip', rfl⟩ := yields_query hheight
  obtain ⟨count, j₂, hcount, h⟩ := yields_bind.1 h
  obtain ⟨hlength', rfl⟩ := yields_query hcount
  obtain ⟨r, j₃, hr, hend⟩ := yields_bind.1 h
  cases htip'
  cases hlength'
  have hlength := count_le_length (l := .insertions)
    (T := saturatingAdd (min blockHeight (seen k).chain.finalizedHeight) 1) hseen (Nat.le_succ k)
    (by unfold saturatingAdd; omega)
  have hcount := merkleCountAtHeight_yields hseen hbeyond (by omega : k ≤ k + 1 + 1) (min_le_right _ _) hlength hr
  split at hend
  · exact absurd hend not_yields_throw
  rename_i hpos
  obtain ⟨root, j₄, -, hend⟩ := yields_bind.1 hend
  obtain ⟨rfl, rfl⟩ := yields_pure.1 hend
  refine ⟨rfl, ?_⟩
  rw [← hcount]
  exact Nat.succ_pred_eq_of_pos (Nat.pos_of_ne_zero hpos)

/-- at every moment from the k-th question on, so many records are at or below the height -/
def Pairs (seen : ℕ → Node) (k : ℕ) (l : RecordList) (count height : ℕ) : Prop :=
  ∀ j ≥ k, (seen j).chain.countUpTo l height = count

theorem Evolving.pairs_iff (hseen : Evolving seen) {l : RecordList} {count height : ℕ}
    (hheight : height ≤ (seen k).chain.finalizedHeight) :
    Pairs seen k l count height ↔ (seen k).chain.countUpTo l height = count := by
  constructor
  · intro h
    exact h k le_rfl
  · intro h j hj
    rw [countUpTo_eq, (hseen.le hj).countP l (Nat.succ_le_succ hheight), ← countUpTo_eq, h]

theorem indexer_pairs_iff (hseen : Evolving seen) (hbeyond : Refuses beyond) {l : RecordList} {count tip : ℕ}
    (h : Yields seen k (latestSequenceCountAndTip beyond l) (some count, tip) k') :
    Pairs seen (k + 1) l count tip ↔ (seen (k + 1)).chain.countUpTo l tip ≤ ((seen k).chain.heights l).length := by
  have hresult := latestSequenceCountAndTip_yields hseen hbeyond h
  simp only [Prod.mk.injEq, Option.some.injEq] at hresult
  obtain ⟨rfl, rfl⟩ := hresult
  rw [hseen.pairs_iff le_rfl]
  exact left_eq_inf

theorem view_pairs_iff (hseen : Evolving seen) (hbeyond : Refuses beyond) {count height : ℕ}
    (h : Yields seen k (finalizedMerkleView beyond) (count, height) k') :
    Pairs seen k .insertions count height ↔
      ¬ (height = u64Max ∧ u64Max ∈ (seen k).chain.heights .insertions) := by
  have hresult := finalizedMerkleView_yields hseen hbeyond h
  simp only [Prod.mk.injEq] at hresult
  obtain ⟨rfl, rfl⟩ := hresult
  rw [hseen.pairs_iff le_rfl]
  exact countP_saturatingAdd_iff _ _ (seen k).chain.finalized_u64

theorem checkpoint_pairs_iff (hseen : Evolving seen) (hbeyond : Refuses beyond) {hook domain blockHeight height : ℕ}
    {checkpoint : Checkpoint}
    (h : Yields seen k (checkpointAtHeight beyond hook domain blockHeight) ⟨checkpoint, some height⟩ k') :
    Pairs seen k .insertions (checkpoint.index + 1) height ↔
      ¬ (height = u64Max ∧ u64Max ∈ (seen k).chain.heights .insertions) := by
  obtain ⟨hheight, hindex⟩ := checkpointAtHeight_yields hseen hbeyond h
  obtain rfl := Option.some.inj hheight
  rw [hseen.pairs_iff (min_le_right _ _), hindex]
  exact countP_saturatingAdd_iff _ _ ((min_le_right _ _).trans (seen k).chain.finalized_u64)

/-- **When finalized views pair a count with its height**: the indexers when the count that they read first is not below
the number of records up to the tip, the hook's views unless their height is the last one and a record has it. -/
theorem finalized_views_pair_iff (hseen : Evolving seen) (hbeyond : Refuses beyond) :
    (∀ l count tip, Yields seen k (latestSequenceCountAndTip beyond l) (some count, tip) k' →
      (Pairs seen (k + 1) l count tip ↔ (seen (k + 1)).chain.countUpTo l tip ≤ ((seen k).chain.heights l).length)) ∧
    (∀ count height, Yields seen k (finalizedMerkleView beyond) (count, height) k' →
      (Pairs seen k .insertions count height ↔
        ¬ (height = u64Max ∧ u64Max ∈ (seen k).chain.heights .insertions))) ∧
    (∀ hook domain blockHeight checkpoint height,
      Yields seen k (checkpointAtHeight beyond hook domain blockHeight) ⟨checkpoint, some height⟩ k' →
        (Pairs seen k .insertions (checkpoint.index + 1) height ↔
          ¬ (height = u64Max ∧ u64Max ∈ (seen k).chain.heights .insertions))) :=
  ⟨fun _ _ _ h => indexer_pairs_iff hseen hbeyond h, fun _ _ h => view_pairs_iff hseen hbeyond h,
    fun _ _ _ _ _ h => checkpoint_pairs_iff hseen hbeyond h⟩

end Executions

/-! ## A record between the count and the tip -/

/-- each of the first two blocks has a record of each list, and is finalized at once -/
def growing (k : ℕ) : Node where
  chain :=
    { heights := fun _ => [1, 2].take k
      finalizedHeight := min k 2
      rootAt := fun index => index
      sorted := fun _ => List.Pairwise.sublist (List.take_sublist k _) (by decide)
      heights_u64 := fun _ height hheight => by
        have hmem := List.mem_of_mem_take hheight
        simp only [List.mem_cons, List.not_mem_nil, or_false] at hmem
        unfold u64Max
        omega
      finalized_u64 := by
        unfold u64Max
        omega }
  up := true

theorem growing_evolving : Evolving growing := by
  intro k
  rcases k with _ | _ | k
  · exact ⟨by decide, fun l => by rfl⟩
  · exact ⟨by decide, fun l => by rfl⟩
  · exact ⟨by simp [growing], fun l => by simp [growing]⟩

def refusing (_ : RecordList) (_ : ℕ) : Except DuskError ℕ := .error .contract

theorem refusing_refuses : Refuses refusing := fun _ _ _ => by simp [refusing]

theorem growing_pairs : Pairs growing 3 .dispatches 2 2 := by
  have hyields : Yields growing 2 (latestSequenceCountAndTip refusing .dispatches) (some 2, 2) 5 := by rfl
  exact ((finalized_views_pair_iff growing_evolving refusing_refuses).1 .dispatches 2 2 hyields).2 (by decide)

/-- The count is read before the first block, and the tip after it. -/
theorem record_after_count_missed :
    Evolving growing ∧ Refuses refusing ∧
      Yields growing 0 (latestSequenceCountAndTip refusing .dispatches) (some 0, 1) 2 ∧
      (growing 1).chain.countUpTo .dispatches 1 = 1 :=
  ⟨growing_evolving, refusing_refuses, by rfl, by decide⟩

end Hyperlane.Dusk
