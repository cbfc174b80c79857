/-
Gas payments in the database (hyperlane-base/src/db/rocks/hyperlane_db.rs): what was paid for each message and
destination, summed over the payments that are delivered.

A payment is delivered by any number of calls. The first one commits two batches: the payment is added to the total of its
key and its log is marked as processed; then it is stored by its sequence. Later calls find it by its sequence. The process
can crash between the batches, and then the mark alone keeps the payment from being added again. On Sealevel the mark is
of a transaction id that one call knows and another takes as zero (chains/hyperlane-sealevel/src/interchain_gas.rs).

- `Books`: the totals are those of a set of distinct payments.
- `deliver_books`: a call keeps it, unless it delivers under another transaction id what a crash left half done.
- `gas_counted_once`: over any run.
-/
import Mathlib.Tactic

namespace Hyperlane.Db

variable {MessageId TxId : Type}

/-! ## Payments -/

structure GasPaymentKey (MessageId : Type) where
  messageId : MessageId
  destination : UInt32
deriving DecidableEq

/-- amounts are `U256` -/
structure InterchainGasPayment (MessageId : Type) where
  messageId : MessageId
  destination : UInt32
  payment : ℕ
  gasAmount : ℕ
deriving DecidableEq

structure InterchainGasPaymentData where
  payment : ℕ
  gasAmount : ℕ
deriving DecidableEq

structure InterchainGasPaymentMeta (TxId : Type) where
  transactionId : TxId
  logIndex : UInt64
deriving DecidableEq

structure LogMeta (TxId : Type) where
  blockNumber : UInt64
  transactionId : TxId
  logIndex : UInt64

def LogMeta.paymentMeta (m : LogMeta TxId) : InterchainGasPaymentMeta TxId := ⟨m.transactionId, m.logIndex⟩

def MAX : ℕ := 2 ^ 256 - 1

/-- `U256::saturating_add` -/
def saturatingAdd (a b : ℕ) : ℕ := min (a + b) MAX

namespace InterchainGasPayment

def key (p : InterchainGasPayment MessageId) : GasPaymentKey MessageId := ⟨p.messageId, p.destination⟩

def fromGasPaymentKey (key : GasPaymentKey MessageId) : InterchainGasPayment MessageId :=
  ⟨key.messageId, key.destination, 0, 0⟩

/-- `Add`, for payments of one key -/
def add (p q : InterchainGasPayment MessageId) : InterchainGasPayment MessageId :=
  { p with payment := saturatingAdd p.payment q.payment, gasAmount := saturatingAdd p.gasAmount q.gasAmount }

def data (p : InterchainGasPayment MessageId) : InterchainGasPaymentData := ⟨p.payment, p.gasAmount⟩

end InterchainGasPayment

def InterchainGasPaymentData.complete (d : InterchainGasPaymentData) (key : GasPaymentKey MessageId) :
    InterchainGasPayment MessageId := ⟨key.messageId, key.destination, d.payment, d.gasAmount⟩

/-! ## Tables -/

/-- `GAS_PAYMENT_META_PROCESSED`, `GAS_PAYMENT_FOR_MESSAGE_ID`, `GAS_PAYMENT_BY_SEQUENCE`,
`GAS_PAYMENT_BLOCK_BY_SEQUENCE` -/
structure GasTables (MessageId TxId : Type) where
  metaProcessed : InterchainGasPaymentMeta TxId → Option Bool
  forMessageId : GasPaymentKey MessageId → Option InterchainGasPaymentData
  bySequence : UInt32 → Option (InterchainGasPayment MessageId)
  blockBySequence : UInt32 → Option UInt64

/-- `DbError::GasPaymentSequenceConflict` -/
structure GasPaymentSequenceConflict (MessageId : Type) where
  sequence : UInt32
  stored : Option (InterchainGasPayment MessageId)
  storedBlock : Option UInt64
  incoming : InterchainGasPayment MessageId
  incomingBlock : UInt64

namespace GasTables

def empty : GasTables MessageId TxId := ⟨fun _ => none, fun _ => none, fun _ => none, fun _ => none⟩

/-- `retrieve_gas_payment_by_gas_payment_key`, or the payment of nothing -/
def existingPayment (t : GasTables MessageId TxId) (key : GasPaymentKey MessageId) : InterchainGasPayment MessageId :=
  match t.forMessageId key with
  | some data => data.complete key
  | none => .fromGasPaymentKey key

variable [DecidableEq MessageId] [DecidableEq TxId]

/-- the batch of `process_gas_payment_inner` -/
def count (t : GasTables MessageId TxId) (payment : InterchainGasPayment MessageId)
    (m : InterchainGasPaymentMeta TxId) : GasTables MessageId TxId :=
  { t with
    metaProcessed := Function.update t.metaProcessed m (some true)
    forMessageId := Function.update t.forMessageId payment.key (some ((t.existingPayment payment.key).add payment).data) }

/-- the batch that stores a payment by its sequence -/
def storeSequence (t : GasTables MessageId TxId) (sequence : UInt32) (payment : InterchainGasPayment MessageId)
    (block : UInt64) : GasTables MessageId TxId :=
  { t with
    bySequence := Function.update t.bySequence sequence (some payment)
    blockBySequence := Function.update t.blockBySequence sequence (some block) }

/-- `process_gas_payment_inner`: the tables after each commit, and the result -/
def processGasPaymentInner (t : GasTables MessageId TxId) (payment : InterchainGasPayment MessageId)
    (logMeta : LogMeta TxId) : List (GasTables MessageId TxId) × Bool :=
  if (t.metaProcessed logMeta.paymentMeta).getD false then ([], false)
  else ([t.count payment logMeta.paymentMeta], true)

/-- `process_indexed_gas_payment`: the tables after each commit, and the result -/
def processIndexedGasPayment (t : GasTables MessageId TxId) (payment : InterchainGasPayment MessageId)
    (sequence : Option UInt32) (logMeta : LogMeta TxId) :
    List (GasTables MessageId TxId) × Except (GasPaymentSequenceConflict MessageId) Bool :=
  match sequence with
  | none => ((t.processGasPaymentInner payment logMeta).1, .ok (t.processGasPaymentInner payment logMeta).2)
  | some sequence =>
    let conflict := ⟨sequence, t.bySequence sequence, t.blockBySequence sequence, payment, logMeta.blockNumber⟩
    match t.bySequence sequence, t.blockBySequence sequence with
    | some stored, some storedBlock =>
      if stored = payment ∧ storedBlock = logMeta.blockNumber then ([], .ok false) else ([], .error conflict)
    | some stored, none =>
      -- repaired block metadata
      if stored = payment then ([t.storeSequence sequence payment logMeta.blockNumber], .ok false)
      else ([], .error conflict)
    | none, none =>
      let (commits, first) := t.processGasPaymentInner payment logMeta
      (commits ++ [(commits.getLastD t).storeSequence sequence payment logMeta.blockNumber], .ok first)
    | none, some _ => ([], .error conflict)

end GasTables

/-! ## Runs -/

/-- the payments on chain, with the block of each, by sequence -/
abbrev OnChain (MessageId : Type) := UInt32 → InterchainGasPayment MessageId × UInt64

/-- one call: what it delivers, and after how many commits the process crashes -/
structure Delivery (TxId : Type) where
  sequence : UInt32
  transactionId : TxId
  crash : Option ℕ

/-- `get_payment_with_sequence`: the log index is the sequence -/
def Delivery.logMeta (d : Delivery TxId) (onChain : OnChain MessageId) : LogMeta TxId :=
  ⟨(onChain d.sequence).2, d.transactionId, d.sequence.toUInt64⟩

/-- the tables, the sequences of the calls that returned `Ok`, and those of the calls that crashed -/
structure GasRun (MessageId TxId : Type) where
  tables : GasTables MessageId TxId
  returned : Finset UInt32
  crashed : Finset UInt32

variable [DecidableEq MessageId] [DecidableEq TxId]

namespace GasRun

def start : GasRun MessageId TxId := ⟨.empty, ∅, ∅⟩

def deliver (onChain : OnChain MessageId) (r : GasRun MessageId TxId) (d : Delivery TxId) : GasRun MessageId TxId :=
  let (commits, result) :=
    r.tables.processIndexedGasPayment (onChain d.sequence).1 (some d.sequence) (d.logMeta onChain)
  match d.crash with
  | some k => { r with tables := (commits.take k).getLastD r.tables, crashed := insert d.sequence r.crashed }
  | none => { r with tables := commits.getLastD r.tables
                     returned := if result.isOk then insert d.sequence r.returned else r.returned }

def run (onChain : OnChain MessageId) (deliveries : List (Delivery TxId)) : GasRun MessageId TxId :=
  deliveries.foldl (deliver onChain) start

end GasRun

theorem getLastD_take {α : Type} (l : List α) (k : ℕ) (t : α) :
    (l.take k).getLastD t = t ∨ (l.take k).getLastD t ∈ l := by
  cases hlast : (l.take k).getLast? with
  | none =>
    rw [List.getLastD_eq_getLast?, hlast]
    exact Or.inl rfl
  | some u =>
    rw [List.getLastD_eq_getLast?, hlast]
    exact Or.inr (List.mem_of_mem_take (List.mem_of_getLast? hlast))

/-! ## Every payment is counted once -/

/-- the payments of `key` among `sequences` -/
def ofKey (onChain : OnChain MessageId) (key : GasPaymentKey MessageId) (sequences : Finset UInt32) : Finset UInt32 :=
  sequences.filter fun s => (onChain s).1.key = key

/-- their sum, as far as a `U256` goes -/
def paid (onChain : OnChain MessageId) (key : GasPaymentKey MessageId) (sequences : Finset UInt32) :
    InterchainGasPaymentData :=
  ⟨min (∑ s ∈ ofKey onChain key sequences, (onChain s).1.payment) MAX,
    min (∑ s ∈ ofKey onChain key sequences, (onChain s).1.gasAmount) MAX⟩

/-- the log of the sequence is marked, under some transaction id -/
def GasTables.Marked (t : GasTables MessageId TxId) (sequence : UInt32) (transactionId : TxId) : Prop :=
  (t.metaProcessed ⟨transactionId, sequence.toUInt64⟩).getD false = true

/-- the totals are those of the payments `counted` -/
structure Books (onChain : OnChain MessageId) (t : GasTables MessageId TxId) (counted : Finset UInt32) : Prop where
  marked : ∀ s, s ∈ counted ↔ ∃ tx, t.Marked s tx
  total : ∀ key, (t.existingPayment key).data = paid onChain key counted
  stored : ∀ s, t.bySequence s = none ∧ t.blockBySequence s = none ∨
    t.bySequence s = some (onChain s).1 ∧ t.blockBySequence s = some (onChain s).2 ∧ s ∈ counted

theorem saturatingAdd_min (a b : ℕ) : saturatingAdd (min a MAX) b = min (b + a) MAX := by
  unfold saturatingAdd
  omega

theorem paid_insert (onChain : OnChain MessageId) {counted : Finset UInt32} {s : UInt32} (h : s ∉ counted)
    (key : GasPaymentKey MessageId) :
    paid onChain key (insert s counted) = if (onChain s).1.key = key then
      ⟨saturatingAdd (paid onChain key counted).payment (onChain s).1.payment,
        saturatingAdd (paid onChain key counted).gasAmount (onChain s).1.gasAmount⟩ else paid onChain key counted := by
  split
  next hkey =>
    have hs : s ∉ ofKey onChain key counted := fun hc => h (Finset.mem_filter.1 hc).1
    have hinsert : ofKey onChain key (insert s counted) = insert s (ofKey onChain key counted) := by
      rw [ofKey, Finset.filter_insert, if_pos hkey, ofKey]
    rw [paid, hinsert, Finset.sum_insert hs, Finset.sum_insert hs, paid, saturatingAdd_min, saturatingAdd_min]
  next hkey =>
    have hinsert : ofKey onChain key (insert s counted) = ofKey onChain key counted := by
      rw [ofKey, Finset.filter_insert, if_neg hkey, ofKey]
    rw [paid, hinsert, paid]

variable {onChain : OnChain MessageId} {t : GasTables MessageId TxId} {counted : Finset UInt32} {s : UInt32}

omit [DecidableEq TxId] in
theorem Books.empty (onChain : OnChain MessageId) : Books onChain (.empty : GasTables MessageId TxId) ∅ where
  marked s := by simp [GasTables.Marked, GasTables.empty]
  total key := rfl
  stored s := Or.inl ⟨rfl, rfl⟩

theorem marked_count (p : InterchainGasPayment MessageId) (s s' : UInt32) (tx tx' : TxId) :
    (t.count p ⟨tx, s.toUInt64⟩).Marked s' tx' ↔ s' = s ∧ tx' = tx ∨ t.Marked s' tx' := by
  change (Function.update t.metaProcessed ⟨tx, s.toUInt64⟩ (some true) ⟨tx', s'.toUInt64⟩).getD false = true ↔ _
  by_cases heq : (⟨tx', s'.toUInt64⟩ : InterchainGasPaymentMeta TxId) = ⟨tx, s.toUInt64⟩
  · rw [heq, Function.update_self]
    obtain ⟨htx, hs⟩ := InterchainGasPaymentMeta.mk.inj heq
    exact iff_of_true rfl (Or.inl ⟨UInt32.toUInt64_inj.1 hs, htx⟩)
  · rw [Function.update_of_ne heq]
    refine ⟨Or.inr, fun h => h.resolve_left ?_⟩
    rintro ⟨rfl, rfl⟩
    exact heq rfl

theorem data_count (p : InterchainGasPayment MessageId) (m : InterchainGasPaymentMeta TxId)
    (key : GasPaymentKey MessageId) :
    ((t.count p m).existingPayment key).data =
      if p.key = key then ((t.existingPayment key).add p).data else (t.existingPayment key).data := by
  split
  next hkey =>
    subst hkey
    simp only [GasTables.existingPayment, GasTables.count, Function.update_self]
    rfl
  next hkey =>
    simp only [GasTables.existingPayment, GasTables.count, Function.update_of_ne (Ne.symm hkey)]

/-- the first batch counts a payment that is not counted yet -/
theorem Books.count (h : Books onChain t counted) (hs : s ∉ counted) (tx : TxId) :
    Books onChain (t.count (onChain s).1 ⟨tx, s.toUInt64⟩) (insert s counted) where
  marked s' := by
    rw [Finset.mem_insert, h.marked]
    constructor
    · rintro (rfl | ⟨tx', hmarked⟩)
      · exact ⟨tx, (marked_count ..).2 (Or.inl ⟨rfl, rfl⟩)⟩
      · exact ⟨tx', (marked_count ..).2 (Or.inr hmarked)⟩
    · rintro ⟨tx', hmarked⟩
      rcases (marked_count ..).1 hmarked with ⟨rfl, -⟩ | hmarked
      · exact Or.inl rfl
      · exact Or.inr ⟨tx', hmarked⟩
  total key := by
    rw [data_count, paid_insert onChain hs]
    split
    · have htotal := h.total key
      rw [← htotal]
      rfl
    · exact h.total key
  stored s' := (h.stored s').imp_right fun ⟨hpayment, hblock, hc⟩ => ⟨hpayment, hblock, Finset.mem_insert_of_mem hc⟩

omit [DecidableEq TxId] in
/-- the second batch -/
theorem Books.storeSequence (h : Books onChain t counted) (hs : s ∈ counted) :
    Books onChain (t.storeSequence s (onChain s).1 (onChain s).2) counted where
  marked := h.marked
  total := h.total
  stored s' := by
    by_cases hs' : s' = s
    · subst hs'
      exact Or.inr ⟨Function.update_self .., Function.update_self .., hs⟩
    · have hpayment : (t.storeSequence s (onChain s).1 (onChain s).2).bySequence s' = t.bySequence s' :=
        Function.update_of_ne hs' ..
      have hblock : (t.storeSequence s (onChain s).1 (onChain s).2).blockBySequence s' = t.blockBySequence s' :=
        Function.update_of_ne hs' ..
      rw [hpayment, hblock]
      exact h.stored s'

/-- a payment that is not stored by its sequence is marked under the transaction id it is delivered with, if at all -/
def Steady (t : GasTables MessageId TxId) (d : Delivery TxId) : Prop :=
  t.bySequence d.sequence = none → ∀ tx, t.Marked d.sequence tx → tx = d.transactionId

/-- the commits of a call and its result -/
theorem process_cases (h : Books onChain t counted) {d : Delivery TxId} (hd : Steady t d) :
    d.sequence ∈ counted ∧
      t.processIndexedGasPayment (onChain d.sequence).1 (some d.sequence) (d.logMeta onChain) = ([], .ok false) ∨
    d.sequence ∈ counted ∧
      t.processIndexedGasPayment (onChain d.sequence).1 (some d.sequence) (d.logMeta onChain) =
        ([t.storeSequence d.sequence (onChain d.sequence).1 (onChain d.sequence).2], .ok false) ∨
    d.sequence ∉ counted ∧
      t.processIndexedGasPayment (onChain d.sequence).1 (some d.sequence) (d.logMeta onChain) =
        ([t.count (onChain d.sequence).1 ⟨d.transactionId, d.sequence.toUInt64⟩,
          (t.count (onChain d.sequence).1 ⟨d.transactionId, d.sequence.toUInt64⟩).storeSequence d.sequence
            (onChain d.sequence).1 (onChain d.sequence).2], .ok true) := by
  rcases h.stored d.sequence with ⟨hpayment, hblock⟩ | ⟨hpayment, hblock, hcounted⟩
  · by_cases hmarked : t.Marked d.sequence d.transactionId
    · have hcounted := (h.marked d.sequence).2 ⟨d.transactionId, hmarked⟩
      refine Or.inr (Or.inl ⟨hcounted, ?_⟩)
      have hinner : t.processGasPaymentInner (onChain d.sequence).1 (d.logMeta onChain) = ([], false) := if_pos hmarked
      simp only [GasTables.processIndexedGasPayment, hpayment, hblock, hinner]
      rfl
    · have hnew : d.sequence ∉ counted := fun hc => by
        obtain ⟨tx, htx⟩ := (h.marked d.sequence).1 hc
        exact hmarked (hd hpayment tx htx ▸ htx)
      refine Or.inr (Or.inr ⟨hnew, ?_⟩)
      have hinner : t.processGasPaymentInner (onChain d.sequence).1 (d.logMeta onChain) =
        ([t.count (onChain d.sequence).1 (d.logMeta onChain).paymentMeta], true) := if_neg hmarked
      simp only [GasTables.processIndexedGasPayment, hpayment, hblock, hinner]
      rfl
  · refine Or.inl ⟨hcounted, ?_⟩
    simp only [GasTables.processIndexedGasPayment, hpayment, hblock]
    exact if_pos ⟨trivial, rfl⟩

/-- the totals of a run are those of a set of payments: with every one that was returned, and without any that was neither
returned nor crashed on -/
def GasRun.Inv (onChain : OnChain MessageId) (r : GasRun MessageId TxId) : Prop :=
  ∃ counted, Books onChain r.tables counted ∧ r.returned ⊆ counted ∧ counted ⊆ r.returned ∪ r.crashed

/-- whatever a call has committed, nothing is counted but the payment it delivers -/
theorem process_books (h : Books onChain t counted) {d : Delivery TxId} (hd : Steady t d) {u : GasTables MessageId TxId}
    (hu : u ∈ (t.processIndexedGasPayment (onChain d.sequence).1 (some d.sequence) (d.logMeta onChain)).1) :
    Books onChain u (insert d.sequence counted) := by
  rcases process_cases h hd with ⟨-, hcall⟩ | ⟨hcounted, hcall⟩ | ⟨hnew, hcall⟩
  · rw [hcall] at hu
    cases hu
  · rw [hcall, List.mem_singleton] at hu
    rw [hu, Finset.insert_eq_of_mem hcounted]
    exact h.storeSequence hcounted
  · have hcount := h.count hnew d.transactionId
    rw [hcall, List.mem_cons, List.mem_singleton] at hu
    rcases hu with rfl | rfl
    · exact hcount
    · exact hcount.storeSequence (Finset.mem_insert_self ..)

/-- a call that is not cut off returns `Ok`, and its payment is counted -/
theorem process_complete (h : Books onChain t counted) {d : Delivery TxId} (hd : Steady t d) :
    (t.processIndexedGasPayment (onChain d.sequence).1 (some d.sequence) (d.logMeta onChain)).2.isOk = true ∧
      Books onChain ((t.processIndexedGasPayment (onChain d.sequence).1 (some d.sequence)
        (d.logMeta onChain)).1.getLastD t) (insert d.sequence counted) := by
  have hbooks := fun u => process_books h hd (u := u)
  rcases process_cases h hd with ⟨hcounted, hcall⟩ | ⟨-, hcall⟩ | ⟨-, hcall⟩
  · rw [hcall, Finset.insert_eq_of_mem hcounted]
    exact ⟨rfl, h⟩
  · rw [hcall] at hbooks ⊢
    exact ⟨rfl, hbooks _ (List.mem_singleton_self _)⟩
  · rw [hcall] at hbooks ⊢
    exact ⟨rfl, hbooks _ (List.mem_cons_of_mem _ (List.mem_singleton_self _))⟩

theorem deliver_inv {r : GasRun MessageId TxId} (h : r.Inv onChain) {d : Delivery TxId} (hd : Steady r.tables d) :
    (r.deliver onChain d).Inv onChain := by
  obtain ⟨counted, hbooks, hreturned, hcrashed⟩ := h
  obtain ⟨hok, hfull⟩ := process_complete hbooks hd
  unfold GasRun.deliver
  cases hcrash : d.crash with
  | none =>
    refine ⟨insert d.sequence counted, hfull, ?_, ?_⟩
    · simp only [hok, if_true]
      exact Finset.insert_subset_insert _ hreturned
    · simp only [hok, if_true]
      rw [Finset.insert_union]
      exact Finset.insert_subset_insert _ hcrashed
  | some k =>
    rcases getLastD_take (r.tables.processIndexedGasPayment (onChain d.sequence).1 (some d.sequence)
      (d.logMeta onChain)).1 k r.tables with hlast | hlast
    · refine ⟨counted, ?_, hreturned, hcrashed.trans (Finset.union_subset_union_right (Finset.subset_insert ..))⟩
      simp only [hlast]
      exact hbooks
    · refine ⟨insert d.sequence counted, process_books hbooks hd hlast, ?_, ?_⟩
      · exact hreturned.trans (Finset.subset_insert ..)
      · simp only [Finset.union_insert]
        exact Finset.insert_subset_insert _ hcrashed

/-- every call of the run delivers its payment under the transaction id it is marked with -/
def SteadyRun (onChain : OnChain MessageId) (deliveries : List (Delivery TxId)) : Prop :=
  ∀ before d, before ++ [d] <+: deliveries → Steady (GasRun.run onChain before).tables d

theorem run_inv {deliveries : List (Delivery TxId)} (h : SteadyRun onChain deliveries) :
    (GasRun.run onChain deliveries).Inv onChain := by
  induction deliveries using List.reverseRecOn with
  | nil => exact ⟨∅, Books.empty onChain, Finset.empty_subset _, Finset.empty_subset _⟩
  | append_singleton before d ih =>
    have hbefore := ih fun before' d' hpre => h before' d' (hpre.trans (List.prefix_append ..))
    rw [GasRun.run, List.foldl_concat]
    exact deliver_inv hbefore (h before d List.prefix_rfl)

/-- a stored sequence with another payment or another block -/
def Conflicts (t : GasTables MessageId TxId) (sequence : UInt32) (payment : InterchainGasPayment MessageId)
    (logMeta : LogMeta TxId) : Prop :=
  (∃ stored, t.bySequence sequence = some stored ∧ stored ≠ payment) ∨
    ∃ block, t.blockBySequence sequence = some block ∧ block ≠ logMeta.blockNumber

/-- a conflicting delivery commits nothing -/
theorem process_conflict {payment : InterchainGasPayment MessageId} {logMeta : LogMeta TxId}
    (h : Conflicts t s payment logMeta) :
    ∃ conflict, t.processIndexedGasPayment payment (some s) logMeta = ([], .error conflict) := by
  refine ⟨⟨s, t.bySequence s, t.blockBySequence s, payment, logMeta.blockNumber⟩, ?_⟩
  unfold GasTables.processIndexedGasPayment
  rcases h with ⟨stored, hstored, hne⟩ | ⟨block, hblock, hne⟩
  · cases hblock : t.blockBySequence s with
    | none => simp only [hstored, hblock, if_neg hne]
    | some block => simp only [hstored, hblock, if_neg fun hc : stored = payment ∧ _ => hne hc.1]
  · cases hstored : t.bySequence s with
    | none => simp only [hstored, hblock]
    | some stored => simp only [hstored, hblock, if_neg fun hc : _ ∧ block = logMeta.blockNumber => hne hc.2]

/-- **Counted once.** The totals are sums of distinct payments: of all that were returned, and of no other than those a
call crashed on. A conflicting delivery is refused and changes nothing. -/
theorem gas_counted_once (onChain : OnChain MessageId) (deliveries : List (Delivery TxId))
    (h : SteadyRun onChain deliveries) :
    (∃ counted, (GasRun.run onChain deliveries).returned ⊆ counted ∧
      counted ⊆ (GasRun.run onChain deliveries).returned ∪ (GasRun.run onChain deliveries).crashed ∧
      ∀ key, ((GasRun.run onChain deliveries).tables.existingPayment key).data = paid onChain key counted) ∧
    ((GasRun.run onChain deliveries).crashed ⊆ (GasRun.run onChain deliveries).returned →
      ∀ key, ((GasRun.run onChain deliveries).tables.existingPayment key).data =
        paid onChain key (GasRun.run onChain deliveries).returned) ∧
    ∀ s payment (logMeta : LogMeta TxId), Conflicts (GasRun.run onChain deliveries).tables s payment logMeta →
      ∃ conflict, (GasRun.run onChain deliveries).tables.processIndexedGasPayment payment (some s) logMeta =
        ([], .error conflict) := by
  obtain ⟨counted, hbooks, hreturned, hcrashed⟩ := run_inv h
  refine ⟨⟨counted, hreturned, hcrashed, hbooks.total⟩, fun hall key => ?_, fun s payment logMeta => process_conflict⟩
  have heq : counted = (GasRun.run onChain deliveries).returned :=
    Finset.Subset.antisymm (hcrashed.trans (Finset.union_subset Finset.Subset.rfl hall)) hreturned
  rw [← heq]
  exact hbooks.total key

/-- one payment, of 5 for the message 0; no other sequence pays for it -/
def onePayment : OnChain ℕ := fun s => (⟨s.toNat, 1, 5, 5⟩, 100)

/-- a crash between the commits, and the same transaction id again -/
theorem gas_counted_once_crash :
    SteadyRun onePayment [⟨0, 1, some 1⟩, ⟨0, 1, none⟩] ∧
      ∀ key, ((GasRun.run onePayment [⟨0, 1, some 1⟩, ⟨0, 1, none⟩]).tables.existingPayment key).data =
        paid onePayment key {0} := by
  have hsteady : SteadyRun onePayment [⟨0, 1, some 1⟩, ⟨0, 1, none⟩] := by
    rintro before d hpre - tx htx
    match before with
    | [] =>
      cases htx
    | [d'] =>
      obtain ⟨rfl, -⟩ := List.cons_prefix_cons.1 (List.cons_prefix_cons.1 hpre).2
      obtain rfl := (List.cons_prefix_cons.1 hpre).1
      rcases (marked_count (t := .empty) (onePayment 0).1 0 0 1 tx).1 htx with ⟨-, rfl⟩ | hmarked
      · rfl
      · cases hmarked
    | d' :: d'' :: before =>
      have hlen := hpre.length_le
      simp at hlen
  exact ⟨hsteady, (gas_counted_once onePayment _ hsteady).2.1 (by decide)⟩

/-- a crash between the commits of a call without the transaction id, and a call with it -/
theorem half_done_counted_twice :
    ¬ ∀ (onChain : OnChain ℕ) (deliveries : List (Delivery ℕ)) (key : GasPaymentKey ℕ), ∃ counted,
      ((GasRun.run onChain deliveries).tables.existingPayment key).data = paid onChain key counted := by
  intro h
  obtain ⟨counted, htotal⟩ := h onePayment [⟨0, 0, some 1⟩, ⟨0, 1, none⟩] ⟨0, 1⟩
  have hten : ((GasRun.run onePayment [⟨0, 0, some 1⟩, ⟨0, 1, none⟩]).tables.existingPayment ⟨0, 1⟩).data = ⟨10, 10⟩ := by
    decide
  have honly : ofKey onePayment ⟨0, 1⟩ counted ⊆ {0} := fun s hs => by
    have hkey := (Finset.mem_filter.1 hs).2
    have hzero : s.toNat = 0 := congrArg GasPaymentKey.messageId hkey
    exact Finset.mem_singleton.2 (UInt32.toNat_inj.1 hzero)
  have hle : ∑ s ∈ ofKey onePayment ⟨0, 1⟩ counted, (onePayment s).1.payment ≤ 5 :=
    Finset.sum_le_sum_of_subset honly
  have hpaid : min (∑ s ∈ ofKey onePayment ⟨0, 1⟩ counted, (onePayment s).1.payment) MAX = 10 :=
    congrArg InterchainGasPaymentData.payment (htotal.symm.trans hten)
  have hten := hpaid.symm.le.trans ((min_le_left _ _).trans hle)
  exact absurd hten (by decide)

end Hyperlane.Db
