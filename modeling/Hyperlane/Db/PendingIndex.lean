/-
The pending messages by destination (hyperlane-base/src/db/rocks/hyperlane_db.rs), an index derived from the messages
and the processed nonces of the database.

A writer of the current version changes the messages and the index in one batch. An older binary writes only the
messages or the processed nonces, and the index is also cleaned up on its own; either leaves a batch in which only one
of the two sides is touched (`Conspicuous`), and the write-ahead log shows it to a later reader.

- `Conspicuous.unmarked`: the detector of the log scan finds each such batch.
- `Allowed`: what the other batches leave of every nonce; `upsertBatch_allowed`, `processedBatch_allowed` and so on.
- `Reach.settled`: what holds unless the log shows a conspicuous batch goes on to hold.
-/
import Hyperlane.Core.Interleaving
import Hyperlane.Core.SequencedLog
import Hyperlane.Relayer.MultisigMetadata
import Std.Data.TreeMap

namespace Hyperlane.Db.PendingIndex

open Hyperlane.Bytes Hyperlane.SequencedLog
open Hyperlane.Relayer (Crypto H256 HyperlaneMessage)

/-! ## The tables -/

/-- the rows of one domain -/
structure Tables where
  message : H256 → Option HyperlaneMessage
  messageId : Std.TreeMap UInt32 H256
  highestSeenMessageNonce : Option UInt32
  messageDispatchedBlockNumber : UInt32 → Option UInt64
  nonceProcessed : UInt32 → Option Bool
  pendingMessageByDestination : UInt32 → Std.TreeMap UInt32 H256
  pendingMessageIndexMigrationComplete : Option ℕ
  terminallyDroppedMessageById : H256 → Option Bool

/-- a `put` or a `delete` of a batch -/
inductive Update where
  | putMessage (id : H256) (message : HyperlaneMessage)
  | putMessageId (nonce : UInt32) (id : H256)
  | putHighestSeenMessageNonce (nonce : UInt32)
  | putMessageDispatchedBlockNumber (nonce : UInt32) (blockNumber : UInt64)
  | putNonceProcessed (nonce : UInt32) (processed : Bool)
  | putPending (destination nonce : UInt32) (id : H256)
  | deletePending (destination nonce : UInt32)
  | putMigrationComplete (sequence : ℕ)
  | deleteMigrationComplete
  | deleteTerminallyDropped (id : H256)
  /-- a row of another table or another domain -/
  | other (key : List UInt8) (deletion : Bool)

abbrev Batch := List Update

def Tables.setPending (t : Tables) (destination : UInt32) (range : Std.TreeMap UInt32 H256) : Tables :=
  { t with pendingMessageByDestination := Function.update t.pendingMessageByDestination destination range }

def Tables.apply (t : Tables) : Update → Tables
  | .putMessage id message => { t with message := Function.update t.message id (some message) }
  | .putMessageId nonce id => { t with messageId := t.messageId.insert nonce id }
  | .putHighestSeenMessageNonce nonce => { t with highestSeenMessageNonce := some nonce }
  | .putMessageDispatchedBlockNumber nonce blockNumber =>
    { t with messageDispatchedBlockNumber := Function.update t.messageDispatchedBlockNumber nonce (some blockNumber) }
  | .putNonceProcessed nonce processed =>
    { t with nonceProcessed := Function.update t.nonceProcessed nonce (some processed) }
  | .putPending destination nonce id =>
    t.setPending destination ((t.pendingMessageByDestination destination).insert nonce id)
  | .deletePending destination nonce =>
    t.setPending destination ((t.pendingMessageByDestination destination).erase nonce)
  | .putMigrationComplete sequence => { t with pendingMessageIndexMigrationComplete := some sequence }
  | .deleteMigrationComplete => { t with pendingMessageIndexMigrationComplete := none }
  | .deleteTerminallyDropped id =>
    { t with terminallyDroppedMessageById := Function.update t.terminallyDroppedMessageById id none }
  | .other _ _ => t

def Tables.applyAll (t : Tables) (b : Batch) : Tables := b.foldl Tables.apply t

/-- the tables and the write-ahead log; a batch is committed to both at once -/
structure Rocks where
  tables : Tables
  log : Log Update

def Rocks.commit (d : Rocks) (b : Batch) : Rocks := ⟨d.tables.applyAll b, d.log.append b⟩

/-! ## The keys -/

def MESSAGE_ID : List UInt8 := "message_id_".toUTF8.toList
def MESSAGE_DISPATCHED_BLOCK_NUMBER : List UInt8 := "message_dispatched_block_number_".toUTF8.toList
def MESSAGE : List UInt8 := "message_".toUTF8.toList
def NONCE_PROCESSED : List UInt8 := "nonce_processed_".toUTF8.toList
def HIGHEST_SEEN_MESSAGE_NONCE : List UInt8 := "highest_seen_message_nonce_".toUTF8.toList
def PENDING_MESSAGE_BY_DESTINATION : List UInt8 := "pending_message_by_destination_v1_".toUTF8.toList
def PENDING_MESSAGE_INDEX_MIGRATION_COMPLETE : List UInt8 :=
  "pending_message_index_migration_complete_v1_".toUTF8.toList
def TERMINALLY_DROPPED_MESSAGE_BY_ID : List UInt8 := "terminally_dropped_message_by_id_v1_".toUTF8.toList

def pendingMessageDestinationPrefix (destination : UInt32) : List UInt8 :=
  PENDING_MESSAGE_BY_DESTINATION ++ be 4 destination.toNat

/-- `domain` is the prefix of the database's keys -/
def Update.key (domain : List UInt8) : Update → List UInt8
  | .putMessage id _ => domain ++ (MESSAGE ++ id.1)
  | .putMessageId nonce _ => domain ++ (MESSAGE_ID ++ be 4 nonce.toNat)
  | .putHighestSeenMessageNonce _ => domain ++ (HIGHEST_SEEN_MESSAGE_NONCE ++ [0])
  | .putMessageDispatchedBlockNumber nonce _ => domain ++ (MESSAGE_DISPATCHED_BLOCK_NUMBER ++ be 4 nonce.toNat)
  | .putNonceProcessed nonce _ => domain ++ (NONCE_PROCESSED ++ be 4 nonce.toNat)
  | .putPending destination nonce _ => domain ++ (pendingMessageDestinationPrefix destination ++ be 4 nonce.toNat)
  | .deletePending destination nonce => domain ++ (pendingMessageDestinationPrefix destination ++ be 4 nonce.toNat)
  | .putMigrationComplete _ => domain ++ (PENDING_MESSAGE_INDEX_MIGRATION_COMPLETE ++ [0])
  | .deleteMigrationComplete => domain ++ (PENDING_MESSAGE_INDEX_MIGRATION_COMPLETE ++ [0])
  | .deleteTerminallyDropped id => domain ++ (TERMINALLY_DROPPED_MESSAGE_BY_ID ++ id.1)
  | .other key _ => key

def Update.deletion : Update → Bool
  | .deletePending _ _ => true
  | .deleteMigrationComplete => true
  | .deleteTerminallyDropped _ => true
  | .other _ deletion => deletion
  | _ => false

structure PendingIndexWriteDetector where
  sourcePrefixes : List (List UInt8)
  markerPrefix : List UInt8
  sourceWritten : Bool
  markerWritten : Bool
  markerDeleted : Bool

def PendingIndexWriteDetector.record (w : PendingIndexWriteDetector) (key : List UInt8) (deletion : Bool) :
    PendingIndexWriteDetector :=
  let marked := w.markerPrefix.isPrefixOf key
  { w with
    sourceWritten := w.sourceWritten || w.sourcePrefixes.any fun p => p.isPrefixOf key
    markerWritten := w.markerWritten || marked
    markerDeleted := w.markerDeleted || (marked && deletion) }

/-- the condition of `has_unmarked_pending_index_updates_since` on a batch -/
def unmarked (domain : List UInt8) (b : Batch) : Bool :=
  let w := b.foldl (fun (w : PendingIndexWriteDetector) u => w.record (u.key domain) u.deletion)
    { sourcePrefixes := [domain ++ MESSAGE_ID, domain ++ NONCE_PROCESSED]
      markerPrefix := domain ++ PENDING_MESSAGE_BY_DESTINATION
      sourceWritten := false
      markerWritten := false
      markerDeleted := false }
  (w.sourceWritten && !w.markerWritten) || (w.markerDeleted && !w.sourceWritten)

/-! ## Batches that touch one side only -/

def Update.isSource : Update → Bool
  | .putMessageId _ _ => true
  | .putNonceProcessed _ _ => true
  | _ => false

def Update.isCleanup : Update → Bool
  | .deletePending _ _ => true
  | .deleteTerminallyDropped _ => true
  | _ => false

/-- a batch of an older binary -/
def LegacyWrite (b : Batch) : Prop := b ≠ [] ∧ ∀ u ∈ b, u.isSource = true

def StandaloneDeletion (b : Batch) : Prop :=
  (∃ destination nonce, .deletePending destination nonce ∈ b) ∧ ∀ u ∈ b, u.isCleanup = true

def Conspicuous (b : Batch) : Prop := LegacyWrite b ∨ StandaloneDeletion b

theorem Conspicuous.ne_nil {b : Batch} (h : Conspicuous b) : b ≠ [] := by
  rcases h with ⟨hne, -⟩ | ⟨⟨_, _, hmem⟩, -⟩
  · exact hne
  · exact List.ne_nil_of_mem hmem

section Detector

variable {domain : List UInt8} {b : Batch} {u : Update}

def Update.sourceKey (domain : List UInt8) (u : Update) : Bool :=
  [domain ++ MESSAGE_ID, domain ++ NONCE_PROCESSED].any fun p => p.isPrefixOf (u.key domain)

def Update.markerKey (domain : List UInt8) (u : Update) : Bool :=
  (domain ++ PENDING_MESSAGE_BY_DESTINATION).isPrefixOf (u.key domain)

theorem unmarked_eq (domain : List UInt8) (b : Batch) : unmarked domain b =
    ((b.any (Update.sourceKey domain) && !b.any (Update.markerKey domain)) ||
      ((b.any fun u => u.markerKey domain && u.deletion) && !b.any (Update.sourceKey domain))) := by
  have hfold : ∀ w : PendingIndexWriteDetector, w.sourcePrefixes = [domain ++ MESSAGE_ID, domain ++ NONCE_PROCESSED] →
      w.markerPrefix = domain ++ PENDING_MESSAGE_BY_DESTINATION →
      let w' := b.foldl (fun (w : PendingIndexWriteDetector) u => w.record (u.key domain) u.deletion) w
      w'.sourceWritten = (w.sourceWritten || b.any (Update.sourceKey domain)) ∧
        w'.markerWritten = (w.markerWritten || b.any (Update.markerKey domain)) ∧
        w'.markerDeleted = (w.markerDeleted || b.any fun u => u.markerKey domain && u.deletion) := by
    induction b with
    | nil => intro w _ _; simp
    | cons u b ih =>
      intro w hsource hmarker
      obtain ⟨hs, hm, hd⟩ := ih (w.record (u.key domain) u.deletion) hsource hmarker
      rw [List.foldl_cons, List.any_cons, List.any_cons, List.any_cons]
      refine ⟨hs.trans ?_, hm.trans ?_, hd.trans ?_⟩
      · rw [← Bool.or_assoc, PendingIndexWriteDetector.record, hsource]
        rfl
      · rw [← Bool.or_assoc, PendingIndexWriteDetector.record, hmarker]
        rfl
      · rw [← Bool.or_assoc, PendingIndexWriteDetector.record, hmarker]
        rfl
  obtain ⟨hs, hm, hd⟩ := hfold ⟨_, _, false, false, false⟩ rfl rfl
  simp only [unmarked, hs, hm, hd, Bool.false_or]

theorem isPrefixOf_of_append {p k : List UInt8} : (domain ++ p).isPrefixOf (domain ++ (p ++ k)) = true := by
  rw [List.isPrefixOf_iff_prefix, List.prefix_append_right_inj]
  exact List.prefix_append _ _

/-- a table whose name starts with another letter -/
theorem isPrefixOf_of_head {p q k : List UInt8} {x y : UInt8} (hp : p.head? = some x) (hq : q.head? = some y)
    (hxy : x ≠ y) : (domain ++ p).isPrefixOf (domain ++ (q ++ k)) = false := by
  rw [Bool.eq_false_iff, ne_eq, List.isPrefixOf_iff_prefix, List.prefix_append_right_inj]
  obtain ⟨p, rfl⟩ := List.head?_eq_some_iff.1 hp
  obtain ⟨q, rfl⟩ := List.head?_eq_some_iff.1 hq
  exact fun h => hxy (List.cons_prefix_cons.1 h).1

theorem head_messageId : MESSAGE_ID.head? = some 109 := by decide +kernel

theorem head_nonceProcessed : NONCE_PROCESSED.head? = some 110 := by decide +kernel

theorem head_pending : PENDING_MESSAGE_BY_DESTINATION.head? = some 112 := by decide +kernel

theorem head_terminallyDropped : TERMINALLY_DROPPED_MESSAGE_BY_ID.head? = some 116 := by decide +kernel

theorem sourceKey_of_isSource (h : u.isSource = true) : u.sourceKey domain = true ∧ u.markerKey domain = false := by
  cases u with
  | putMessageId nonce id =>
    refine ⟨?_, isPrefixOf_of_head head_pending head_messageId (by decide)⟩
    simp only [Update.sourceKey, Update.key, List.any_cons, isPrefixOf_of_append, Bool.true_or]
  | putNonceProcessed nonce processed =>
    refine ⟨?_, isPrefixOf_of_head head_pending head_nonceProcessed (by decide)⟩
    simp only [Update.sourceKey, Update.key, List.any_cons, isPrefixOf_of_append, Bool.true_or, Bool.or_true]
  | _ => exact nomatch h

theorem sourceKey_of_isCleanup (h : u.isCleanup = true) : u.sourceKey domain = false := by
  have hkey : ∃ q k y, u.key domain = domain ++ (q ++ k) ∧ q.head? = some y ∧ (109 : UInt8) ≠ y ∧ 110 ≠ y := by
    cases u with
    | deletePending destination nonce =>
      exact ⟨_, _, _, congrArg _ (List.append_assoc _ _ _), head_pending, by decide, by decide⟩
    | deleteTerminallyDropped id => exact ⟨_, _, _, rfl, head_terminallyDropped, by decide, by decide⟩
    | _ => exact nomatch h
  obtain ⟨q, k, y, hkey, hq, hm, hn⟩ := hkey
  simp only [Update.sourceKey, hkey, List.any_cons, List.any_nil, isPrefixOf_of_head head_messageId hq hm,
    isPrefixOf_of_head head_nonceProcessed hq hn, Bool.or_self]

theorem markerKey_deletePending (destination nonce : UInt32) :
    (Update.deletePending destination nonce).markerKey domain = true := by
  rw [Update.markerKey, Update.key, pendingMessageDestinationPrefix, List.append_assoc]
  exact isPrefixOf_of_append

/-- **The log scan finds a batch that touches one side only.** -/
theorem Conspicuous.unmarked (h : Conspicuous b) : unmarked domain b = true := by
  rw [unmarked_eq]
  rcases h with ⟨hne, hsource⟩ | ⟨⟨destination, nonce, hdelete⟩, hcleanup⟩
  · obtain ⟨u, hu⟩ := List.exists_mem_of_ne_nil b hne
    have hwritten : b.any (Update.sourceKey domain) = true :=
      List.any_eq_true.2 ⟨u, hu, (sourceKey_of_isSource (hsource u hu)).1⟩
    have hmarker : b.any (Update.markerKey domain) = false :=
      List.any_eq_false.2 fun u hu => Bool.eq_false_iff.1 (sourceKey_of_isSource (hsource u hu)).2
    rw [hwritten, hmarker]
    rfl
  · have hdeleted : (b.any fun u => u.markerKey domain && u.deletion) = true :=
      List.any_eq_true.2 ⟨_, hdelete, by rw [markerKey_deletePending]; rfl⟩
    have hwritten : b.any (Update.sourceKey domain) = false :=
      List.any_eq_false.2 fun u hu => Bool.eq_false_iff.1 (sourceKey_of_isCleanup (hcleanup u hu))
    rw [hdeleted, hwritten]
    simp

end Detector

/-! ## What the index promises -/

/-- `retrieve_message_by_nonce`, at one moment -/
def Tables.storedMessage (t : Tables) (n : UInt32) : Option HyperlaneMessage := t.messageId[n]?.bind t.message

def Tables.processed (t : Tables) (n : UInt32) : Bool := (t.nonceProcessed n).getD false

def Tables.pendingAt (t : Tables) (destination nonce : UInt32) : Option H256 :=
  (t.pendingMessageByDestination destination)[nonce]?

/-- a message that is stored at the nonce and not processed has an entry at its destination -/
def CompleteAt (t : Tables) (n : UInt32) : Prop :=
  ∀ m, t.storedMessage n = some m → t.processed n = false → (t.pendingAt m.destination n).isSome = true

def Complete (t : Tables) : Prop := ∀ n, CompleteAt t n

instance (t : Tables) (n : UInt32) : Decidable (CompleteAt t n) :=
  match h : t.storedMessage n with
  | none => isTrue fun _ hm _ => nomatch h.symm.trans hm
  | some m => decidable_of_iff (t.processed n = false → (t.pendingAt m.destination n).isSome = true)
      ⟨fun hp _ hm => Option.some.inj (h.symm.trans hm) ▸ hp, fun hc => hc m h⟩

/-- a message is stored under its id, and an id of a message under no other nonce -/
structure WellFormed (C : Crypto) (sent : Set HyperlaneMessage) (t : Tables) : Prop where
  message : ∀ i m, t.message i = some m → m ∈ sent ∧ m.id C = i
  messageId : ∀ n i, t.messageId[n]? = some i → ∀ m ∈ sent, m.id C = i → m.nonce = n

/-- a change that does not touch the message of a nonce, and does not take its entry away -/
structure Same (t t' : Tables) (n : UInt32) : Prop where
  messageId : t'.messageId[n]? = t.messageId[n]?
  storedMessage : t'.storedMessage n = t.storedMessage n
  completeAt : CompleteAt t n → CompleteAt t' n

/-- kept by every change that leaves each nonce complete or untouched -/
def Steady (X : Tables → Prop) : Prop := ∀ t t', X t → (∀ n, CompleteAt t' n ∨ Same t t' n) → X t'

/-- `X` holds, or the log after `c` shows why it need not -/
def Settled (c : ℕ) (X : Tables → Prop) (d : Rocks) : Prop :=
  c ≤ d.log.latest ∧
    ((∃ (i : ℕ) (b : Batch), d.log.batches[i]? = some b ∧ c < d.log.first i ∧ Conspicuous b) ∨ X d.tables)

/-- what every writer's batches have in common -/
structure Allowed (C : Crypto) (sent : Set HyperlaneMessage) (d : Rocks) (b : Batch) : Prop where
  wellFormed : WellFormed C sent (d.tables.applyAll b)
  kept : Conspicuous b ∨ ∀ n, CompleteAt (d.tables.applyAll b) n ∨ Same d.tables (d.tables.applyAll b) n
  certified : ∀ c, (d.tables.applyAll b).pendingMessageIndexMigrationComplete = some c →
    d.tables.pendingMessageIndexMigrationComplete = some c ∨ Settled c Complete d

/-- the batches committed between two moments -/
def Reach (C : Crypto) (sent : Set HyperlaneMessage) : Rocks → Rocks → Prop :=
  Relation.ReflTransGen fun d d' => ∃ b, Allowed C sent d b ∧ d' = d.commit b

section Settled

variable {C : Crypto} {sent : Set HyperlaneMessage} {X : Tables → Prop} {c : ℕ} {d d' : Rocks} {b : Batch} {n : UInt32}

theorem Settled.commit (h : Settled c X d) (hX : Steady X) (hb : Allowed C sent d b) : Settled c X (d.commit b) := by
  obtain ⟨hc, h⟩ := h
  have hlatest : (d.commit b).log.latest = d.log.latest + b.length := d.log.latest_append b
  refine ⟨hc.trans (hlatest ▸ Nat.le_add_right _ _), ?_⟩
  rcases h with ⟨i, a, ha, hci, hcons⟩ | hx
  · exact Or.inl ⟨i, a, Log.getElem?_append ha b, (Log.first_append ha b).symm ▸ hci, hcons⟩
  rcases hb.kept with hcons | hkept
  · refine Or.inl ⟨d.log.batches.length, b, List.getElem?_concat_length, ?_, hcons⟩
    calc c < d.log.latest + 1 := Nat.lt_succ_of_le hc
      _ = (d.commit b).log.first d.log.batches.length := by
        rw [Log.first, Rocks.commit, Log.latestAt_append d.log b le_rfl, Log.latest]
  · exact Or.inr (hX _ _ hx hkept)

/-- **What is settled stays settled.** -/
theorem Reach.settled (h : Reach C sent d d') (hX : Steady X) (hs : Settled c X d) : Settled c X d' := by
  induction h with
  | refl => exact hs
  | tail _ hstep ih =>
    obtain ⟨b, hb, rfl⟩ := hstep
    exact ih.commit hX hb

theorem Settled.of_holds (hc : c ≤ d.log.latest) (h : X d.tables) : Settled c X d := ⟨hc, Or.inr h⟩

theorem Settled.mono {Y : Tables → Prop} (h : Settled c X d) (hY : X d.tables → Y d.tables) : Settled c Y d :=
  ⟨h.1, h.2.imp_right hY⟩

theorem Settled.all {ι : Type} {X : ι → Tables → Prop} (hc : c ≤ d.log.latest) (h : ∀ i, Settled c (X i) d) :
    Settled c (fun t => ∀ i, X i t) d := by
  refine ⟨hc, ?_⟩
  by_cases hshown : ∃ (i : ℕ) (b : Batch), d.log.batches[i]? = some b ∧ c < d.log.first i ∧ Conspicuous b
  · exact Or.inl hshown
  · exact Or.inr fun i => (h i).2.resolve_left hshown

theorem steady_completeAt (n : UInt32) : Steady fun t => CompleteAt t n :=
  fun _ _ h hkept => (hkept n).elim id fun hsame => hsame.completeAt h

theorem steady_complete : Steady Complete := fun t t' h hkept n => steady_completeAt n t t' (h n) hkept

theorem steady_messageId (n : UInt32) (i : H256) : Steady fun t => CompleteAt t n ∨ t.messageId[n]? = some i := by
  intro t t' h hkept
  rcases hkept n with hcomplete | hsame
  · exact Or.inl hcomplete
  · exact h.imp hsame.completeAt hsame.messageId.trans

theorem steady_storedMessage (n : UInt32) (m : HyperlaneMessage) :
    Steady fun t => CompleteAt t n ∨ t.storedMessage n = some m := by
  intro t t' h hkept
  rcases hkept n with hcomplete | hsame
  · exact Or.inl hcomplete
  · exact h.imp hsame.completeAt hsame.storedMessage.trans

theorem Reach.wellFormed (h : Reach C sent d d') (hd : WellFormed C sent d.tables) : WellFormed C sent d'.tables := by
  induction h with
  | refl => exact hd
  | tail _ hstep =>
    obtain ⟨b, hb, rfl⟩ := hstep
    exact hb.wellFormed

/-- the seal vouches for the index -/
def Certified (d : Rocks) : Prop := ∀ c, d.tables.pendingMessageIndexMigrationComplete = some c → Settled c Complete d

theorem Reach.certified (h : Reach C sent d d') (hd : Certified d) : Certified d' := by
  induction h with
  | refl => exact hd
  | tail _ hstep ih =>
    obtain ⟨b, hb, rfl⟩ := hstep
    intro c hc
    exact ((hb.certified c hc).elim (ih c) id).commit steady_complete hb

theorem Reach.latest_le (h : Reach C sent d d') : d.log.latest ≤ d'.log.latest := by
  induction h with
  | refl => exact le_rfl
  | tail _ hstep ih =>
    obtain ⟨b, -, rfl⟩ := hstep
    exact ih.trans ((Log.latest_append _ b).symm ▸ Nat.le_add_right _ _)

theorem Reach.getElem? {i : ℕ} {a : Batch} (h : Reach C sent d d') (ha : d.log.batches[i]? = some a) :
    d'.log.batches[i]? = some a ∧ d'.log.first i = d.log.first i := by
  induction h with
  | refl => exact ⟨ha, rfl⟩
  | tail _ hstep ih =>
    obtain ⟨b, -, rfl⟩ := hstep
    exact ⟨Log.getElem?_append ih.1 b, (Log.first_append ih.1 b).trans ih.2⟩

theorem Reach.numbered {q : ℕ} {a : Batch} (h : Reach C sent d d') (ha : d.log.Numbered q a) :
    d'.log.Numbered q a := by
  obtain ⟨i, hi, hq⟩ := ha
  exact ⟨i, (h.getElem? hi).1, (h.getElem? hi).2.trans hq⟩

/-- the batches since an earlier moment; the index stays complete if none of them touches one side only -/
theorem Reach.since (h : Reach C sent d d') : ∃ bs, d'.log.batches = d.log.batches ++ bs ∧
    (Complete d.tables → (∀ b ∈ bs, ¬ Conspicuous b) → Complete d'.tables) := by
  induction h with
  | refl => exact ⟨[], (List.append_nil _).symm, fun h _ => h⟩
  | tail _ hstep ih =>
    obtain ⟨b, hb, rfl⟩ := hstep
    obtain ⟨bs, hbs, hcomplete⟩ := ih
    refine ⟨bs ++ [b], by rw [Rocks.commit, Log.append, hbs, List.append_assoc], fun hstart hnone => ?_⟩
    have hbefore := hcomplete hstart fun a ha => hnone a (List.mem_append_left _ ha)
    exact steady_complete _ _ hbefore (hb.kept.resolve_left (hnone b (List.mem_append_right _ List.mem_cons_self)))

end Settled

/-! ## The batches of the writers -/

section Batches

variable (C : Crypto)

/-- the `deletions` of `upsert_message` -/
def upsertDeletions (m : HyperlaneMessage) (previous : Option HyperlaneMessage) : Batch :=
  match previous.filter fun previous => previous.id C ≠ m.id C with
  | some previous => .deleteTerminallyDropped (previous.id C) ::
      if previous.destination ≠ m.destination then [.deletePending previous.destination previous.nonce] else []
  | none => []

/-- the `entries` of `upsert_message` -/
def upsertEntries (m : HyperlaneMessage) (dispatchedBlockNumber : UInt64) (maxNonce : UInt32) : Batch :=
  [.putMessage (m.id C) m, .putMessageId m.nonce (m.id C), .putHighestSeenMessageNonce maxNonce,
    .putMessageDispatchedBlockNumber m.nonce dispatchedBlockNumber, .putPending m.destination m.nonce (m.id C)]

/-- the batch of `upsert_message` -/
def upsertBatch (m : HyperlaneMessage) (dispatchedBlockNumber : UInt64) (previous : Option HyperlaneMessage)
    (maxNonce : UInt32) : Batch :=
  upsertEntries C m dispatchedBlockNumber maxNonce ++ upsertDeletions C m previous

/-- the batch of `store_message_processed` -/
def processedBatch (m : HyperlaneMessage) : Batch :=
  [.putNonceProcessed m.nonce true, .deletePending m.destination m.nonce, .deleteTerminallyDropped (m.id C)]

/-- the batch of `delete_pending_message_index` -/
def deletionBatch (m : HyperlaneMessage) : Batch :=
  [.deletePending m.destination m.nonce, .deleteTerminallyDropped (m.id C)]

/-- a write of an older binary -/
inductive LegacyRow where
  | messageId (nonce : UInt32) (id : H256)
  | nonceProcessed (nonce : UInt32) (processed : Bool)

def LegacyRow.update : LegacyRow → Update
  | .messageId nonce id => .putMessageId nonce id
  | .nonceProcessed nonce processed => .putNonceProcessed nonce processed

/-- the id of a message is written at the nonce of the message -/
def LegacyRow.WellFormed (sent : Set HyperlaneMessage) : LegacyRow → Prop
  | .messageId nonce id => ∀ m ∈ sent, m.id C = id → m.nonce = nonce
  | .nonceProcessed _ _ => True

end Batches

section Allowed

variable {C : Crypto} {sent : Set HyperlaneMessage} {t t' : Tables} {d : Rocks} {b : Batch} {n : UInt32}
  {m : HyperlaneMessage}

@[simp]
theorem applyAll_cons (t : Tables) (u : Update) (b : Batch) : t.applyAll (u :: b) = (t.apply u).applyAll b := rfl

@[simp]
theorem applyAll_nil (t : Tables) : t.applyAll [] = t := rfl

theorem pendingAt_setPending (t : Tables) (destination destination' nonce : UInt32) (range : Std.TreeMap UInt32 H256) :
    (t.setPending destination range).pendingAt destination' nonce =
      if destination' = destination then range[nonce]? else t.pendingAt destination' nonce := by
  change (Function.update t.pendingMessageByDestination destination range destination')[nonce]? = _
  by_cases h : destination' = destination
  · rw [if_pos h, h, Function.update_self]
  · rw [if_neg h, Function.update_of_ne h, Tables.pendingAt]

theorem pendingAt_putPending (t : Tables) (destination nonce destination' nonce' : UInt32) (id : H256) :
    (t.apply (.putPending destination nonce id)).pendingAt destination' nonce' =
      if destination' = destination ∧ nonce = nonce' then some id else t.pendingAt destination' nonce' := by
  rw [Tables.apply, pendingAt_setPending, Std.TreeMap.getElem?_insert]
  by_cases h : destination' = destination
  · subst h
    by_cases hn : nonce = nonce'
    · simp [hn]
    · simp [hn, Tables.pendingAt]
  · simp [h]

theorem pendingAt_deletePending (t : Tables) (destination nonce destination' nonce' : UInt32) :
    (t.apply (.deletePending destination nonce)).pendingAt destination' nonce' =
      if destination' = destination ∧ nonce = nonce' then none else t.pendingAt destination' nonce' := by
  rw [Tables.apply, pendingAt_setPending, Std.TreeMap.getElem?_erase]
  by_cases h : destination' = destination
  · subst h
    by_cases hn : nonce = nonce'
    · simp [hn]
    · simp [hn, Tables.pendingAt]
  · simp [h]

theorem messageId_putMessageId (t : Tables) (nonce n : UInt32) (id : H256) :
    (t.apply (.putMessageId nonce id)).messageId[n]? = if nonce = n then some id else t.messageId[n]? := by
  rw [Tables.apply, Std.TreeMap.getElem?_insert]
  simp

theorem completeAt_of_none (h : t.storedMessage n = none) : CompleteAt t n := fun _ hm _ => nomatch h.symm.trans hm

theorem completeAt_of_processed (h : t.processed n = true) : CompleteAt t n :=
  fun _ _ hm => absurd (h.symm.trans hm) (by decide)

theorem completeAt_of_pending (hm : t.storedMessage n = some m) (hp : (t.pendingAt m.destination n).isSome = true) :
    CompleteAt t n := by
  intro m' hm' _
  obtain rfl := Option.some.inj (hm.symm.trans hm')
  exact hp

theorem Same.of (hid : t'.messageId[n]? = t.messageId[n]?)
    (hmessage : ∀ i, t.messageId[n]? = some i → t'.message i = t.message i)
    (hprocessed : t'.processed n = t.processed n)
    (hpending : ∀ destination, (t.pendingAt destination n).isSome = true → (t'.pendingAt destination n).isSome = true) :
    Same t t' n := by
  have hstored : t'.storedMessage n = t.storedMessage n := by
    rw [Tables.storedMessage, Tables.storedMessage, hid]
    cases hi : t.messageId[n]? with
    | none => rfl
    | some i => exact hmessage i hi
  exact ⟨hid, hstored, fun h m hm hp => hpending _ (h m (hstored ▸ hm) (hprocessed ▸ hp))⟩

/-- a batch that writes no message and no processed nonce -/
theorem Allowed.of_unchanged (hwf : WellFormed C sent d.tables)
    (hmessage : (d.tables.applyAll b).message = d.tables.message)
    (hid : (d.tables.applyAll b).messageId = d.tables.messageId)
    (hprocessed : (d.tables.applyAll b).nonceProcessed = d.tables.nonceProcessed)
    (hpending : Conspicuous b ∨ ∀ destination n, (d.tables.pendingAt destination n).isSome = true →
      ((d.tables.applyAll b).pendingAt destination n).isSome = true)
    (hcertified : ∀ c, (d.tables.applyAll b).pendingMessageIndexMigrationComplete = some c →
      d.tables.pendingMessageIndexMigrationComplete = some c ∨ Settled c Complete d) : Allowed C sent d b where
  wellFormed := ⟨hmessage ▸ hwf.message, hid ▸ hwf.messageId⟩
  kept := hpending.imp_right fun hp n => Or.inr (Same.of (by rw [hid]) (fun _ _ => by rw [hmessage])
    (by rw [Tables.processed, hprocessed, Tables.processed]) fun _ => hp _ n)
  certified := hcertified

theorem processedBatch_allowed (hwf : WellFormed C sent d.tables) (m : HyperlaneMessage) :
    Allowed C sent d (processedBatch C m) where
  wellFormed := ⟨hwf.message, hwf.messageId⟩
  kept := by
    refine Or.inr fun n => ?_
    by_cases hn : n = m.nonce
    · refine Or.inl (completeAt_of_processed ?_)
      change (Function.update d.tables.nonceProcessed m.nonce (some true) n).getD false = true
      rw [hn, Function.update_self, Option.getD_some]
    · refine Or.inr (Same.of rfl (fun _ _ => rfl) ?_ fun destination hp => ?_)
      · change (Function.update d.tables.nonceProcessed m.nonce (some true) n).getD false = _
        rw [Function.update_of_ne hn, Tables.processed]
      · change (((d.tables.apply (.putNonceProcessed m.nonce true)).apply
          (.deletePending m.destination m.nonce)).pendingAt destination n).isSome = true
        rw [pendingAt_deletePending, if_neg fun h => hn h.2.symm]
        exact hp
  certified := fun _ h => Or.inl h

theorem putPending_allowed (hwf : WellFormed C sent d.tables) (destination nonce : UInt32) (id : H256) :
    Allowed C sent d [.putPending destination nonce id] := by
  refine Allowed.of_unchanged hwf rfl rfl rfl (Or.inr fun destination' n hp => ?_) fun _ h => Or.inl h
  rw [applyAll_cons, applyAll_nil, pendingAt_putPending]
  split
  · rfl
  · exact hp

theorem deletionBatch_allowed (hwf : WellFormed C sent d.tables) (m : HyperlaneMessage) :
    Allowed C sent d (deletionBatch C m) := by
  refine Allowed.of_unchanged hwf rfl rfl rfl (Or.inl (Or.inr ⟨⟨_, _, List.mem_cons_self⟩, ?_⟩)) fun _ h => Or.inl h
  simp [deletionBatch, Update.isCleanup]

theorem deletePending_allowed (hwf : WellFormed C sent d.tables) (destination nonce : UInt32) :
    Allowed C sent d [.deletePending destination nonce] := by
  refine Allowed.of_unchanged hwf rfl rfl rfl (Or.inl (Or.inr ⟨⟨_, _, List.mem_cons_self⟩, ?_⟩)) fun _ h => Or.inl h
  simp [Update.isCleanup]

theorem applyAll_append (t : Tables) (a b : Batch) : t.applyAll (a ++ b) = (t.applyAll a).applyAll b :=
  List.foldl_append

theorem applyAll_cleanup (hb : ∀ u ∈ b, u.isCleanup = true) : (t.applyAll b).message = t.message ∧
    (t.applyAll b).messageId = t.messageId ∧ (t.applyAll b).nonceProcessed = t.nonceProcessed ∧
    (t.applyAll b).pendingMessageIndexMigrationComplete = t.pendingMessageIndexMigrationComplete ∧
    ∀ destination n, .deletePending destination n ∉ b →
      (t.applyAll b).pendingAt destination n = t.pendingAt destination n := by
  induction b generalizing t with
  | nil => exact ⟨rfl, rfl, rfl, rfl, fun _ _ _ => rfl⟩
  | cons u b ih =>
    obtain ⟨hm, hi, hp, hc, hpending⟩ := ih (t := t.apply u) fun v hv => hb v (List.mem_cons_of_mem u hv)
    have hu := hb u List.mem_cons_self
    rw [applyAll_cons, hm, hi, hp, hc]
    cases u with
    | deletePending destination' n' =>
      refine ⟨rfl, rfl, rfl, rfl, fun destination n hnot => ?_⟩
      rw [hpending destination n fun h => hnot (List.mem_cons_of_mem _ h), pendingAt_deletePending, if_neg]
      rintro ⟨rfl, rfl⟩
      exact hnot List.mem_cons_self
    | deleteTerminallyDropped id =>
      refine ⟨rfl, rfl, rfl, rfl, fun destination n hnot => hpending destination n fun h => ?_⟩
      exact hnot (List.mem_cons_of_mem _ h)
    | _ => exact nomatch hu

theorem pendingAt_upsertEntries (block : UInt64) (maxNonce destination n : UInt32) :
    (t.applyAll (upsertEntries C m block maxNonce)).pendingAt destination n =
      if destination = m.destination ∧ m.nonce = n then some (m.id C) else t.pendingAt destination n := by
  simp only [upsertEntries, applyAll_cons, applyAll_nil, pendingAt_putPending]
  rfl

/-- the replaced message loses its entry if it is for another destination -/
theorem mem_upsertDeletions {u : Update} {previous : Option HyperlaneMessage} (h : u ∈ upsertDeletions C m previous) :
    u.isCleanup = true ∧ ∀ destination n, u = .deletePending destination n →
      ∃ p, previous = some p ∧ destination ≠ m.destination ∧ n = p.nonce := by
  rw [upsertDeletions] at h
  split at h
  next p hp =>
    have hprevious := Option.eq_some_of_filter_eq_some hp
    rcases List.mem_cons.1 h with rfl | h
    · exact ⟨rfl, fun _ _ => nofun⟩
    · split at h
      next hne =>
        obtain rfl := List.mem_singleton.1 h
        refine ⟨rfl, fun destination n heq => ?_⟩
        injection heq with hdestination hnonce
        exact ⟨p, hprevious, hdestination ▸ hne, hnonce.symm⟩
      next => exact nomatch h
  next => exact nomatch h

/-- **An upsert leaves its nonce complete and touches no other.** -/
theorem upsertBatch_allowed (hinj : Set.InjOn (HyperlaneMessage.id C) sent) (hwf : WellFormed C sent d.tables)
    (hm : m ∈ sent) {previous : Option HyperlaneMessage} (hprevious : ∀ p, previous = some p → p.nonce = m.nonce)
    (block : UInt64) (maxNonce : UInt32) : Allowed C sent d (upsertBatch C m block previous maxNonce) := by
  obtain ⟨hmessage, hid, hprocessed, hseal, hpending⟩ := applyAll_cleanup
    (t := d.tables.applyAll (upsertEntries C m block maxNonce)) (b := upsertDeletions C m previous)
    fun u hu => (mem_upsertDeletions hu).1
  rw [← applyAll_append] at hmessage hid hprocessed hseal hpending
  change (d.tables.applyAll (upsertBatch C m block previous maxNonce)).message =
    Function.update d.tables.message (m.id C) (some m) at hmessage
  change (d.tables.applyAll (upsertBatch C m block previous maxNonce)).messageId =
    d.tables.messageId.insert m.nonce (m.id C) at hid
  have hget : ∀ n, (d.tables.applyAll (upsertBatch C m block previous maxNonce)).messageId[n]? =
      if m.nonce = n then some (m.id C) else d.tables.messageId[n]? := by
    intro n
    rw [hid]
    exact messageId_putMessageId d.tables m.nonce n (m.id C)
  refine ⟨⟨fun i m' h => ?_, fun n i h m' hm' hi => ?_⟩, Or.inr fun n => ?_, fun c hc => Or.inl (hseal ▸ hc)⟩
  · rw [hmessage] at h
    by_cases hi : i = m.id C
    · rw [hi, Function.update_self] at h
      obtain rfl := Option.some.inj h
      exact ⟨hm, hi.symm⟩
    · rw [Function.update_of_ne hi] at h
      exact hwf.message i m' h
  · rw [hget] at h
    split at h
    next hn =>
      obtain rfl := Option.some.inj h
      rw [hinj hm' hm hi]
      exact hn
    next => exact hwf.messageId n i h m' hm' hi
  · by_cases hn : m.nonce = n
    · subst hn
      refine Or.inl (completeAt_of_pending (m := m) ?_ ?_)
      · rw [Tables.storedMessage, hget, if_pos rfl, Option.bind_some, hmessage, Function.update_self]
      · rw [upsertBatch, hpending _ _ fun hdelete => ?_]
        · rw [pendingAt_upsertEntries, if_pos ⟨rfl, rfl⟩]
          rfl
        · obtain ⟨p, -, hne, -⟩ := (mem_upsertDeletions hdelete).2 _ _ rfl
          exact hne rfl
    · refine Or.inr (Same.of (by rw [hget, if_neg hn]) (fun i hi => ?_) ?_ fun destination hp => ?_)
      · have hne : i ≠ m.id C := fun h => hn (hwf.messageId n i hi m hm h.symm)
        rw [hmessage, Function.update_of_ne hne]
      · rw [Tables.processed, upsertBatch, hprocessed]
        rfl
      · rw [upsertBatch, hpending _ _ fun hdelete => ?_]
        · rw [pendingAt_upsertEntries, if_neg fun h => hn h.2]
          exact hp
        · obtain ⟨p, hp, -, hpn⟩ := (mem_upsertDeletions hdelete).2 _ _ rfl
          exact hn (hpn.trans (hprevious p hp)).symm

theorem legacyWrite_update (rows : List LegacyRow) (hne : rows ≠ []) : LegacyWrite (rows.map LegacyRow.update) := by
  refine ⟨fun h => hne (List.map_eq_nil_iff.1 h), fun u hu => ?_⟩
  obtain ⟨row, -, rfl⟩ := List.mem_map.1 hu
  cases row <;> rfl

theorem wellFormed_legacy {rows : List LegacyRow} (hwf : WellFormed C sent t)
    (hrows : ∀ row ∈ rows, row.WellFormed C sent) : WellFormed C sent (t.applyAll (rows.map LegacyRow.update)) ∧
      (t.applyAll (rows.map LegacyRow.update)).pendingMessageIndexMigrationComplete =
        t.pendingMessageIndexMigrationComplete := by
  induction rows generalizing t with
  | nil => exact ⟨hwf, rfl⟩
  | cons row rows ih =>
    have hrow := hrows row List.mem_cons_self
    have hrest : ∀ row ∈ rows, row.WellFormed C sent := fun row h => hrows row (List.mem_cons_of_mem _ h)
    rw [List.map_cons, applyAll_cons]
    cases row with
    | nonceProcessed nonce processed => exact ih ⟨hwf.message, hwf.messageId⟩ hrest
    | messageId nonce id =>
      refine ih ⟨hwf.message, fun n i h m hm hi => ?_⟩ hrest
      rw [LegacyRow.update, messageId_putMessageId] at h
      split at h
      next hn =>
        obtain rfl := Option.some.inj h
        exact (hrow m hm hi).trans hn
      next => exact hwf.messageId n i h m hm hi

theorem legacy_allowed {rows : List LegacyRow} (hwf : WellFormed C sent d.tables)
    (hrows : ∀ row ∈ rows, row.WellFormed C sent) : Allowed C sent d (rows.map LegacyRow.update) := by
  obtain ⟨hwf', hseal⟩ := wellFormed_legacy hwf hrows
  refine ⟨hwf', ?_, fun c hc => Or.inl (hseal ▸ hc)⟩
  by_cases hne : rows = []
  · subst hne
    exact Or.inr fun n => Or.inr (Same.of rfl (fun _ _ => rfl) rfl fun _ => id)
  · exact Or.inl (Or.inl (legacyWrite_update rows hne))

/-- rows of other tables and domains -/
theorem other_allowed (hwf : WellFormed C sent d.tables) (rows : List (List UInt8 × Bool)) :
    Allowed C sent d (rows.map fun row => .other row.1 row.2) := by
  have hsame : ∀ t : Tables, t.applyAll (rows.map fun row => .other row.1 row.2) = t := by
    induction rows with
    | nil => exact fun _ => rfl
    | cons row rows ih => exact fun t => ih t
  refine Allowed.of_unchanged hwf ?_ ?_ ?_ ?_ ?_ <;> rw [hsame]
  · exact Or.inr fun _ _ => id
  · exact fun _ => Or.inl

/-- a row that the index is not derived from -/
theorem putHighestSeen_allowed (hwf : WellFormed C sent d.tables) (nonce : UInt32) :
    Allowed C sent d [.putHighestSeenMessageNonce nonce] :=
  Allowed.of_unchanged hwf rfl rfl rfl (Or.inr fun _ _ => id) fun _ => Or.inl

theorem putDispatchedBlockNumber_allowed (hwf : WellFormed C sent d.tables) (nonce : UInt32) (blockNumber : UInt64) :
    Allowed C sent d [.putMessageDispatchedBlockNumber nonce blockNumber] :=
  Allowed.of_unchanged hwf rfl rfl rfl (Or.inr fun _ _ => id) fun _ => Or.inl

theorem deleteMigrationComplete_allowed (hwf : WellFormed C sent d.tables) :
    Allowed C sent d [.deleteMigrationComplete] :=
  Allowed.of_unchanged hwf rfl rfl rfl (Or.inr fun _ _ => id) fun _ h => nomatch h

theorem putMigrationComplete_allowed {c : ℕ} (hwf : WellFormed C sent d.tables) (h : Settled c Complete d) :
    Allowed C sent d [.putMigrationComplete c] :=
  Allowed.of_unchanged hwf rfl rfl rfl (Or.inr fun _ _ => id) fun _ hc => Or.inr (Option.some.inj hc ▸ h)

end Allowed

end Hyperlane.Db.PendingIndex
