/-
What reads and writes the tables of `PendingIndex`, one access for each read and for each batch, and what all of it keeps.

- `Agrees`: a program that commits allowed batches only, whatever others commit between two of its accesses.
- `reconcilePendingMessageIndex_keeps`: a nonce that is reconciled is settled.
- `upsertMessage_keeps`, `storeMessage_keeps`: the writers.
-/
import Hyperlane.Db.PendingIndex

namespace Hyperlane.Db.PendingIndex

open Hyperlane.Interleaving Hyperlane.SequencedLog
open Hyperlane.Relayer (Crypto H256 HyperlaneMessage)

/-! ## Reads and writes -/

/-- what is seen of a check that answers `Ok(true)` -/
structure Answer where
  /-- when the check read the latest sequence number -/
  captured : Tables
  /-- the batches committed since -/
  since : List Batch
  returned : Tables

structure Store where
  rocks : Rocks
  answers : List Answer

variable {α : Type}

def query (f : Tables → α) : Prog Store α := .read fun s => f s.rocks.tables

def commit (b : Batch) : Prog Store Unit := .write fun s => { s with rocks := s.rocks.commit b }

def retrieveMessageByNonce (nonce : UInt32) : Prog Store (Option HyperlaneMessage) := do
  match ← query fun t => t.messageId[nonce]? with
  | none => pure none
  | some id => query fun t => t.message id

/-- `retrieve_pending_message_at_or_after` -/
def Tables.pendingMessageAtOrAfter (t : Tables) (destination nonce : UInt32) : Option (UInt32 × H256) :=
  let range := (t.pendingMessageByDestination destination).filter fun k _ => nonce ≤ k
  range.keys.head?.bind fun k => range[k]?.map fun id => (k, id)

def tryUpdateMaxSeenMessageNonce (nonce : UInt32) : Prog Store Unit := do
  let currentMax ← query fun t => t.highestSeenMessageNonce.getD 0
  if nonce ≥ currentMax then commit [.putHighestSeenMessageNonce nonce] else pure ()

section Writers

variable (C : Crypto)

def storePendingMessageIndex (m : HyperlaneMessage) : Prog Store Unit :=
  commit [.putPending m.destination m.nonce (m.id C)]

def deletePendingMessageIndex (m : HyperlaneMessage) : Prog Store Unit := commit (deletionBatch C m)

def deletePendingMessageIndexByNonce (destination nonce : UInt32) : Prog Store Unit :=
  commit [.deletePending destination nonce]

def reconcilePendingMessageIndex (m : HyperlaneMessage) : Prog Store Unit := do
  let existing ← query fun t => t.pendingMessageAtOrAfter m.destination m.nonce
  let existing := existing.filter fun entry => entry.1 = m.nonce
  let processed ← query fun t => t.processed m.nonce
  if processed then
    if existing.isSome then deletePendingMessageIndex C m else pure ()
  else if existing ≠ some (m.nonce, m.id C) then storePendingMessageIndex C m else pure ()

def upsertMessage (m : HyperlaneMessage) (dispatchedBlockNumber : UInt64) : Prog Store Unit := do
  let previous ← retrieveMessageByNonce m.nonce
  let highestSeen ← query fun t => t.highestSeenMessageNonce
  commit (upsertBatch C m dispatchedBlockNumber previous (max (highestSeen.getD 0) m.nonce))

def storeDispatchedBlockNumberIfAbsent (nonce : UInt32) (blockNumber : UInt64) : Prog Store Unit := do
  let stored ← query fun t => t.messageDispatchedBlockNumber nonce
  if stored.isNone then commit [.putMessageDispatchedBlockNumber nonce blockNumber] else pure ()

def storeMessage (m : HyperlaneMessage) (dispatchedBlockNumber : UInt64) : Prog Store Bool := do
  match ← retrieveMessageByNonce m.nonce with
  | some storedMessage =>
    tryUpdateMaxSeenMessageNonce m.nonce
    reconcilePendingMessageIndex C storedMessage
    storeDispatchedBlockNumberIfAbsent m.nonce dispatchedBlockNumber
    pure false
  | none =>
    upsertMessage C m dispatchedBlockNumber
    pure true

def storeMessageProcessed (m : HyperlaneMessage) : Prog Store Unit := commit (processedBatch C m)

end Writers

/-! ## What everybody keeps -/

section Agreement

variable {C : Crypto} {sent : Set HyperlaneMessage}

def Answered (a : Answer) : Prop :=
  Complete a.captured ∧ ((∀ b ∈ a.since, ¬ Conspicuous b) → Complete a.returned)

structure Sound (C : Crypto) (sent : Set HyperlaneMessage) (s : Store) : Prop where
  wellFormed : WellFormed C sent s.rocks.tables
  certified : Certified s.rocks
  answered : ∀ a ∈ s.answers, Answered a

/-- allowed batches are committed, and right answers given -/
structure Moves (C : Crypto) (sent : Set HyperlaneMessage) (s s' : Store) : Prop where
  reach : Reach C sent s.rocks s'.rocks
  answers : ∀ a ∈ s'.answers, a ∈ s.answers ∨ Answered a

abbrev Agrees (C : Crypto) (sent : Set HyperlaneMessage) (Q : α → Store → Prop) (p : Prog Store α) (s : Store) : Prop :=
  Keeps (Moves C sent) (Moves C sent) (Sound C sent) Q p s

/-- the database is sound, and `X` is settled since `c` -/
def During (C : Crypto) (sent : Set HyperlaneMessage) (c : ℕ) (X : Tables → Prop) (s : Store) : Prop :=
  Sound C sent s ∧ Settled c X s.rocks

theorem Moves.refl (s : Store) : Moves C sent s s := ⟨.refl, fun _ => Or.inl⟩

variable {s s' s'' : Store} {c : ℕ} {X Y : Tables → Prop} {n : UInt32} {m : HyperlaneMessage}

theorem Moves.trans (h : Moves C sent s s') (h' : Moves C sent s' s'') : Moves C sent s s'' :=
  ⟨h.reach.trans h'.reach, fun a ha => (h'.answers a ha).elim (h.answers a) Or.inr⟩

theorem Moves.commit {b : Batch} (hb : Allowed C sent s.rocks b) :
    Moves C sent s { s with rocks := s.rocks.commit b } := ⟨.single ⟨b, hb, rfl⟩, fun _ => Or.inl⟩

theorem Sound.moves (h : Sound C sent s) (hs : Moves C sent s s') : Sound C sent s' where
  wellFormed := hs.reach.wellFormed h.wellFormed
  certified := hs.reach.certified h.certified
  answered a ha := (hs.answers a ha).elim (h.answered a) id

theorem During.moves (h : During C sent c X s) (hX : Steady X) (hs : Moves C sent s s') : During C sent c X s' :=
  ⟨h.1.moves hs, hs.reach.settled hX h.2⟩

theorem During.mono (h : During C sent c X s) (hY : X s.rocks.tables → Y s.rocks.tables) : During C sent c Y s :=
  ⟨h.1, h.2.mono hY⟩

theorem During.and (hX : During C sent c X s) (hY : During C sent c Y s) :
    During C sent c (fun t => X t ∧ Y t) s := by
  refine ⟨hX.1, hX.2.1, ?_⟩
  rcases hX.2.2 with hshown | hx
  · exact Or.inl hshown
  · exact hY.2.2.imp id fun hy => ⟨hx, hy⟩

theorem asserts_during (hX : Steady X) : Asserts (Moves C sent) (During C sent c X) (Sound C sent) :=
  ⟨fun _ _ h hs => h.moves hX hs, fun _ h => h.1⟩

theorem steady_true : Steady fun _ => True := fun _ _ _ _ => trivial

theorem During.start (h : Sound C sent s) (hc : c ≤ s.rocks.log.latest) : During C sent c (fun _ => True) s :=
  ⟨h, hc, Or.inr trivial⟩

theorem keeps_query (hX : Steady X) (h : During C sent c X s) (f : Tables → α) :
    Agrees C sent (fun a s => During C sent c X s ∧ a = f s.rocks.tables) (query f) s :=
  (asserts_during hX).read Moves.refl (fun s => f s.rocks.tables) h

theorem keeps_commit {b : Batch} (hX : Steady X) (hb : ∀ s, During C sent c X s → Allowed C sent s.rocks b)
    (h : During C sent c X s) : Agrees C sent (fun _ s => During C sent c X s) (commit b) s :=
  (asserts_during hX).write (fun _ h => Moves.commit (hb _ h))
    (fun _ h => h.moves hX (Moves.commit (hb _ h))) h

/-! ## The writers -/

theorem steady_imp {p : Prop} (hX : Steady X) : Steady fun t => p → X t :=
  fun t t' h hkept hp => hX t t' (h hp) hkept

/-- what is known of a nonce after its message was read -/
def Found (C : Crypto) (sent : Set HyperlaneMessage) (c : ℕ) (n : UInt32) : Option HyperlaneMessage → Store → Prop
  | none, s => During C sent c (fun t => CompleteAt t n) s
  | some m, s => m.nonce = n ∧ During C sent c (fun t => CompleteAt t n ∨ t.storedMessage n = some m) s

theorem Found.during {r : Option HyperlaneMessage} (h : Found C sent c n r s) : During C sent c (fun _ => True) s := by
  cases r with
  | none => exact h.mono fun _ => trivial
  | some m => exact h.2.mono fun _ => trivial

theorem retrieveMessageByNonce_keeps (h : During C sent c (fun _ => True) s) (n : UInt32) :
    Agrees C sent (Found C sent c n) (retrieveMessageByNonce n) s := by
  refine (keeps_query steady_true h _).bind fun id s hread => ?_
  obtain ⟨h, hid⟩ := hread
  cases id with
  | none =>
    refine h.mono fun _ => completeAt_of_none ?_
    rw [Tables.storedMessage, ← hid, Option.bind_none]
  | some id =>
    have hnonce := h.1.wellFormed.messageId n id hid.symm
    refine (keeps_query (steady_messageId n id) (h.mono fun _ => Or.inr hid.symm) _).mono fun r s hread => ?_
    obtain ⟨h, hr⟩ := hread
    cases r with
    | none =>
      refine h.mono fun hx => hx.elim (·) fun hid => completeAt_of_none ?_
      rw [Tables.storedMessage, hid, Option.bind_some, ← hr]
    | some m =>
      obtain ⟨hsent, hm⟩ := h.1.wellFormed.message id m hr.symm
      refine ⟨hnonce m hsent hm, h.mono fun hx => hx.imp (·) fun hid => ?_⟩
      rw [Tables.storedMessage, hid, Option.bind_some, ← hr]

theorem pendingMessageAtOrAfter_filter (t : Tables) (destination nonce : UInt32) :
    ((t.pendingMessageAtOrAfter destination nonce).filter fun entry => entry.1 = nonce) =
      (t.pendingAt destination nonce).map fun id => (nonce, id) := by
  simp only [Tables.pendingMessageAtOrAfter, Tables.pendingAt, ← Std.TreeMap.minKey?_eq_head?_keys]
  set pending := t.pendingMessageByDestination destination
  have hget : ∀ k : UInt32, (pending.filter fun k _ => nonce ≤ k)[k]? = pending[k]?.filter fun _ => nonce ≤ k :=
    fun k => Std.TreeMap.getElem?_filter'
  have hself : (pending.filter fun k _ => nonce ≤ k)[nonce]? = pending[nonce]? := by
    rw [hget]
    cases pending[nonce]? <;> simp
  cases hmin : (pending.filter fun k _ => nonce ≤ k).minKey? with
  | none =>
    have hempty := Std.TreeMap.minKey?_eq_none_iff.1 hmin
    rw [← hself, Std.TreeMap.getElem?_of_isEmpty hempty]
    rfl
  | some k =>
    obtain ⟨hmem, hleast⟩ := Std.TreeMap.minKey?_eq_some_iff_mem_and_forall.1 hmin
    have hle : nonce ≤ k := by
      have hk := hget k
      rw [Std.TreeMap.getElem?_eq_some_getElem hmem] at hk
      exact of_decide_eq_true (Option.filter_eq_some_iff.1 hk.symm).2
    rw [Option.bind_some]
    by_cases hk : k = nonce
    · subst hk
      rw [hself]
      cases pending[k]? <;> simp
    · have hnone : pending[nonce]? = none := by
        by_contra hsome
        have hmem' : nonce ∈ pending.filter fun k _ => nonce ≤ k := by
          rw [← Std.TreeMap.isSome_getElem?_iff_mem, hself, Option.isSome_iff_ne_none]
          exact hsome
        exact hk (UInt32.le_antisymm (Std.isLE_compare.1 (hleast nonce hmem')) hle)
      rw [hnone]
      cases (pending.filter fun k _ => nonce ≤ k)[k]? <;> simp [hk]

/-- **A reconciled nonce is settled**, if the message was the one of its nonce -/
theorem reconcilePendingMessageIndex_keeps {p : Prop}
    (h : During C sent c (fun t => p → CompleteAt t m.nonce ∨ t.storedMessage m.nonce = some m) s) :
    Agrees C sent (fun _ s => During C sent c (fun t => p → CompleteAt t m.nonce) s)
      (reconcilePendingMessageIndex C m) s := by
  have hstored : Steady fun t => p → CompleteAt t m.nonce ∨ t.storedMessage m.nonce = some m :=
    steady_imp (steady_storedMessage _ _)
  have hcomplete : Steady fun t => p → CompleteAt t m.nonce := steady_imp (steady_completeAt _)
  have hput : ∀ X s, During C sent c X s → Allowed C sent s.rocks [.putPending m.destination m.nonce (m.id C)] :=
    fun _ _ h => putPending_allowed h.1.wellFormed _ _ _
  refine (keeps_query hstored h _).bind fun entry s hread => ?_
  obtain ⟨h, hentry⟩ := hread
  simp only [hentry, pendingMessageAtOrAfter_filter]
  cases hpending : s.rocks.tables.pendingAt m.destination m.nonce with
  | some id =>
    -- whatever is done to an entry keeps the nonce settled
    have h : During C sent c (fun t => p → CompleteAt t m.nonce) s :=
      h.mono fun hx hp => (hx hp).elim (·) fun hm => completeAt_of_pending hm (by rw [hpending]; rfl)
    refine (keeps_query hcomplete h _).bind fun processed s hread => ?_
    cases processed with
    | true => exact keeps_commit hcomplete (fun _ h => deletionBatch_allowed h.1.wellFormed m) hread.1
    | false =>
      simp only [Bool.false_eq_true, ↓reduceIte, ite_not]
      split
      · exact hread.1
      · exact keeps_commit hcomplete (hput _) hread.1
  | none =>
    refine (keeps_query hstored h _).bind fun processed s hread => ?_
    obtain ⟨h, hprocessed⟩ := hread
    cases processed with
    | true => exact h.mono fun _ _ => completeAt_of_processed hprocessed.symm
    | false =>
      refine (asserts_during hstored).write (fun s h => Moves.commit (hput _ s h)) (fun s h => ?_) h
      have hmoved := h.moves hstored (Moves.commit (hput _ s h))
      refine hmoved.mono fun hx hp => (hx hp).elim (·) fun hm => completeAt_of_pending hm ?_
      change ((s.rocks.tables.apply (.putPending m.destination m.nonce (m.id C))).pendingAt _ _).isSome = true
      rw [pendingAt_putPending, if_pos ⟨rfl, rfl⟩]
      rfl

theorem tryUpdateMaxSeenMessageNonce_keeps (hX : Steady X) (h : During C sent c X s) (nonce : UInt32) :
    Agrees C sent (fun _ s => During C sent c X s) (tryUpdateMaxSeenMessageNonce nonce) s := by
  refine (keeps_query hX h _).bind fun currentMax s hread => ?_
  split
  · exact keeps_commit hX (fun _ h => putHighestSeen_allowed h.1.wellFormed nonce) hread.1
  · exact hread.1

theorem storeDispatchedBlockNumberIfAbsent_keeps (hX : Steady X) (h : During C sent c X s) (nonce : UInt32)
    (block : UInt64) :
    Agrees C sent (fun _ s => During C sent c X s) (storeDispatchedBlockNumberIfAbsent nonce block) s := by
  refine (keeps_query hX h _).bind fun stored s hread => ?_
  split
  · exact keeps_commit hX (fun _ h => putDispatchedBlockNumber_allowed h.1.wellFormed nonce block) hread.1
  · exact hread.1

theorem upsertMessage_keeps (hinj : Set.InjOn (HyperlaneMessage.id C) sent) (hm : m ∈ sent)
    (h : During C sent c (fun _ => True) s) (block : UInt64) :
    Agrees C sent (fun _ s => During C sent c (fun _ => True) s) (upsertMessage C m block) s := by
  refine (retrieveMessageByNonce_keeps h m.nonce).bind fun previous s hfound => ?_
  have hprevious : ∀ p, previous = some p → p.nonce = m.nonce := by
    rintro p rfl
    exact hfound.1
  refine (keeps_query steady_true hfound.during _).bind fun highestSeen s hread => ?_
  exact keeps_commit steady_true (fun _ h => upsertBatch_allowed hinj h.1.wellFormed hm hprevious block _) hread.1

theorem storeMessage_keeps (hinj : Set.InjOn (HyperlaneMessage.id C) sent) (hm : m ∈ sent)
    (h : During C sent c (fun _ => True) s) (block : UInt64) :
    Agrees C sent (fun _ s => During C sent c (fun _ => True) s) (storeMessage C m block) s := by
  refine (retrieveMessageByNonce_keeps h m.nonce).bind fun stored s hfound => ?_
  cases stored with
  | none => exact (upsertMessage_keeps hinj hm hfound.during block).bind fun _ _ h => h
  | some stored =>
    refine (tryUpdateMaxSeenMessageNonce_keeps steady_true hfound.during m.nonce).bind fun _ s h => ?_
    refine (reconcilePendingMessageIndex_keeps (p := False) (h.mono fun _ => False.elim)).bind fun _ s h => ?_
    refine (storeDispatchedBlockNumberIfAbsent_keeps steady_true (h.mono fun _ => trivial) m.nonce block).bind
      fun _ s h => ?_
    exact h

end Agreement

end Hyperlane.Db.PendingIndex
