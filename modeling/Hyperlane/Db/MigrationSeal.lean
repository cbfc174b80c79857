/-
The seal on the pending messages by destination (`pending_message_index_migration_complete`,
hyperlane-base/src/db/rocks/hyperlane_db.rs; `has_matching_updates_since`, mod.rs) and the migration that sets it
(`MessageDbLoader`, agents/relayer/src/msg/db_loader.rs).

The seal is a sequence number. It vouches for the index as long as the log after it shows no batch that touches one side
only; the migration captures its number before it reads anything. A step that fails, and a restart, is a task that goes
no further.

- `scan_keeps`: a scan that ends without a match has gone over every batch up to the latest one.
- `migrateRows_keeps`: the rows that a migration has gone over are settled, whatever raced with it.
- `seal_sound`: when the check answers that the migration is complete, the index was complete when the check captured its
  sequence number, and is complete if since then nothing was committed that touches one side only.
- `seal_unsound`: a deletion after the capture, and an id at the nonce of another message.
-/
import Hyperlane.Db.PendingWriters

namespace Hyperlane.Db.PendingIndex

open Hyperlane.Interleaving Hyperlane.SequencedLog
open Hyperlane.Relayer (Crypto H256 HyperlaneMessage)

variable {α : Type}

/-! ## The check -/

inductive DbError where
  | RockError
  | Other (message : String)

/-- one `next` of the iterator over the log; the cancellation flag is read before it -/
structure WalItem where
  cancelled : Bool
  next : Log Update → Except DbError (ℕ × Batch)
  /-- what is returned is a batch of the log, under its number -/
  numbered : ∀ l q b, next l = .ok (q, b) → l.Numbered q b

/-- what `get_updates_since` returns, and the cancellation flag after the scan -/
structure WalPass where
  updates : Except DbError (List WalItem)
  cancelled : Bool

def checkedAdd (a b : ℕ) : Except DbError ℕ :=
  if a + b < 2 ^ 64 then .ok (a + b) else .error (.Other "RocksDB sequence number overflowed")

/-- the sequence number expected after a batch; `none` if the batch matches -/
def examine (domain : List UInt8) (expected : ℕ) (update : ℕ × Batch) : Except DbError (Option ℕ) :=
  if update.1 ≠ expected then
    .error (.Other s!"RocksDB WAL history is incomplete: expected sequence {expected}, found {update.1}")
  else do
    let next ← checkedAdd update.1 update.2.length
    if unmarked domain update.2 then pure none else pure (some next)

/-- the loop of `has_matching_updates_since` -/
def scan (domain : List UInt8) : ℕ → List WalItem → Prog Store (Except DbError (Option ℕ))
  | expected, [] => pure (.ok (some expected))
  | expected, item :: items =>
    if item.cancelled then pure (.error (.Other "RocksDB WAL validation cancelled"))
    else do
      let update ← Prog.read fun s : Store => item.next s.rocks.log
      match update.bind (examine domain expected) with
      | .error e => pure (.error e)
      | .ok none => pure (.ok none)
      | .ok (some next) => scan domain next items

/-- the end of `has_matching_updates_since` -/
def reachedLatest (latestSequence expected : ℕ) : Except DbError Bool := do
  let sequenceAfterLatest ← checkedAdd latestSequence 1
  if expected < sequenceAfterLatest then
    .error (.Other s!"RocksDB WAL history ended at sequence {expected - 1}, before latest sequence {latestSequence}")
  else pure false

def hasMatchingUpdatesSince (domain : List UInt8) (sequence : ℕ) (updates : Except DbError (List WalItem)) :
    Prog Store (Except DbError Bool) := do
  let latestSequence ← Prog.read fun s : Store => s.rocks.log.latest
  match checkedAdd sequence 1, updates with
  | .error e, _ => pure (.error e)
  | .ok _, .error e => pure (.error e)
  | .ok expected, .ok items =>
    match ← scan domain expected items with
    | .error e => pure (.error e)
    | .ok none => pure (.ok true)
    | .ok (some expected) => pure (reachedLatest latestSequence expected)

/-- the `validation` of the check -/
def validation (domain : List UInt8) (checkpoint sequence : ℕ) (updates : Except DbError (List WalItem)) :
    Prog Store (Except DbError Bool) :=
  if checkpoint > sequence then pure (.ok true) else hasMatchingUpdatesSince domain checkpoint updates

def markPendingMessageIndexMigrationComplete (sequence : ℕ) : Prog Store Unit := commit [.putMigrationComplete sequence]

/-- the check returns `Ok(true)` -/
def answered (captured : Rocks) : Prog Store Unit := .write fun s => { s with
  answers := s.answers ++ [⟨captured.tables, s.rocks.log.batches.drop captured.log.batches.length, s.rocks.tables⟩] }

def pendingMessageIndexMigrationComplete (domain : List UInt8) (pass : WalPass) :
    Prog Store (Except DbError Bool) := do
  match ← query fun t => t.pendingMessageIndexMigrationComplete with
  | none => pure (.ok false)
  | some checkpoint =>
    let captured ← Prog.read fun s : Store => s.rocks
    let sequence := captured.log.latest
    let validation ← validation domain checkpoint sequence pass.updates
    if pass.cancelled then pure (.error (.Other "Pending message index migration validation cancelled"))
    else match validation with
      | .ok false =>
        markPendingMessageIndexMigrationComplete sequence
        answered captured
        pure (.ok true)
      | _ =>
        commit [.deleteMigrationComplete]
        pure (.ok false)

/-! ## The migration -/

/-- the nonces of `high_nonce_iter` and `low_nonce_iter` -/
structure LegacyMessageIterator where
  highNonce : Option UInt32
  lowNonce : Option UInt32

/-- `iterate` in the low direction -/
def iterateLow (nonce : Option UInt32) : Option UInt32 := nonce.bind fun n => if n = 0 then none else some (n - 1)

inductive MessageStatus where
  | Unindexed
  | Processable (m : HyperlaneMessage)
  | Processed

def tryGetNextNonce (nonce : UInt32) : Prog Store MessageStatus := do
  match ← retrieveMessageByNonce nonce with
  | some m =>
    let processed ← query fun t => t.processed nonce
    pure (if processed then .Processed else .Processable m)
  | none => pure .Unindexed

namespace LegacyMessageIterator

def new : Prog Store LegacyMessageIterator := do
  let highNonce ← query fun t => t.messageId.keys.getLast?
  pure ⟨some (highNonce.getD 0), iterateLow highNonce⟩

def nonce (it : LegacyMessageIterator) : Option UInt32 := it.highNonce.or it.lowNonce

def tryGetNextMessage (it : LegacyMessageIterator) : Prog Store (Option HyperlaneMessage) :=
  match it.nonce with
  | some nonce => do
    match ← tryGetNextNonce nonce with
    | .Processable m => pure (some m)
    | .Unindexed => pure none
    | .Processed => pure none
  | none => pure none

def advance (it : LegacyMessageIterator) : LegacyMessageIterator :=
  if it.highNonce.isSome then { it with highNonce := none } else { it with lowNonce := iterateLow it.lowNonce }

def migrationComplete (it : LegacyMessageIterator) : Bool := it.highNonce.isNone && it.lowNonce.isNone

end LegacyMessageIterator

def LEGACY_MIGRATION_BATCH_SIZE : ℕ := 256

section Migration

variable (C : Crypto) (domain : List UInt8)

/-- the loop of `migrate_legacy_batch` -/
def migrateRows : ℕ → LegacyMessageIterator → Prog Store LegacyMessageIterator
  | 0, it => pure it
  | rows + 1, it => do
    match ← it.tryGetNextMessage with
    | some m =>
      reconcilePendingMessageIndex C m
      pure it.advance
    | none => if it.advance.migrationComplete then pure it.advance else migrateRows rows it.advance

def migrateLegacyBatch (migrationStartSequence : ℕ) (it : LegacyMessageIterator) :
    Prog Store (Option LegacyMessageIterator) := do
  let it ← migrateRows C LEGACY_MIGRATION_BATCH_SIZE it
  if it.migrationComplete then do
    markPendingMessageIndexMigrationComplete migrationStartSequence
    pure none
  else pure (some it)

/-- the ticks of a loader -/
def migrate (migrationStartSequence : ℕ) : ℕ → LegacyMessageIterator → Prog Store Unit
  | 0, _ => pure ()
  | ticks + 1, it => do
    match ← migrateLegacyBatch C migrationStartSequence it with
    | some it => migrate migrationStartSequence ticks it
    | none => pure ()

/-- `new_with_cancellation`, and ticks after it -/
def messageDbLoader (pass : WalPass) (ticks : ℕ) : Prog Store Unit := do
  let migrationStartSequence ← Prog.read fun s : Store => s.rocks.log.latest
  match ← pendingMessageIndexMigrationComplete domain pass with
  | .ok false =>
    let it ← LegacyMessageIterator.new
    migrate C migrationStartSequence ticks it
  | .ok true => pure ()
  | .error _ => pure ()

/-! ## The machine -/

inductive DbOp where
  | upsertMessage (m : HyperlaneMessage) (dispatchedBlockNumber : UInt64)
  | storeMessage (m : HyperlaneMessage) (dispatchedBlockNumber : UInt64)
  | storeMessageProcessed (m : HyperlaneMessage)
  | storePendingMessageIndex (m : HyperlaneMessage)
  | deletePendingMessageIndex (m : HyperlaneMessage)
  | deletePendingMessageIndexByNonce (destination nonce : UInt32)
  | reconcilePendingMessageIndex (m : HyperlaneMessage)
  | pendingMessageIndexMigrationComplete (pass : WalPass)
  | messageDbLoader (pass : WalPass) (ticks : ℕ)

/-- an older binary, or another table or domain -/
inductive Outside where
  | legacy (rows : List LegacyRow)
  | other (rows : List (List UInt8 × Bool))

def Outside.batch : Outside → Batch
  | .legacy rows => rows.map LegacyRow.update
  | .other rows => rows.map fun row => .other row.1 row.2

def DbOp.program : DbOp → Prog Store Unit
  | .upsertMessage m block => PendingIndex.upsertMessage C m block
  | .storeMessage m block => do
    let _ ← PendingIndex.storeMessage C m block
    pure ()
  | .storeMessageProcessed m => PendingIndex.storeMessageProcessed C m
  | .storePendingMessageIndex m => PendingIndex.storePendingMessageIndex C m
  | .deletePendingMessageIndex m => PendingIndex.deletePendingMessageIndex C m
  | .deletePendingMessageIndexByNonce destination nonce =>
    PendingIndex.deletePendingMessageIndexByNonce destination nonce
  | .reconcilePendingMessageIndex m => PendingIndex.reconcilePendingMessageIndex C m
  | .pendingMessageIndexMigrationComplete pass => do
    let _ ← PendingIndex.pendingMessageIndexMigrationComplete domain pass
    pure ()
  | .messageDbLoader pass ticks => PendingIndex.messageDbLoader C domain pass ticks

def dbMachine : Machine DbOp Outside Store where
  program := DbOp.program C domain
  ready _ _ := true
  bare _ := false
  interfere e s := { s with rocks := s.rocks.commit e.batch }

end Migration

section Agreement

variable {C : Crypto} {sent : Set HyperlaneMessage} {s : Store} {c : ℕ} {X : Tables → Prop}

/-! ## The scan -/

theorem asserts_from (s₀ : Store) :
    Asserts (Moves C sent) (fun s => Sound C sent s ∧ Moves C sent s₀ s) (Sound C sent) :=
  ⟨fun _ _ h hs => ⟨h.1.moves hs, h.2.trans hs⟩, fun _ h => h.1⟩

/-- what a scan has gone over: batches in a row, none of which matches -/
def Scanned (domain : List UInt8) (expected expected' : ℕ) (l : Log Update) : Prop :=
  ∃ seen, Follows expected seen expected' ∧ ∀ item ∈ seen, l.Numbered item.1 item.2 ∧ unmarked domain item.2 = false

theorem examine_some {domain : List UInt8} {expected next : ℕ} {update : ℕ × Batch}
    (h : examine domain expected update = .ok (some next)) :
    update.1 = expected ∧ next = update.1 + update.2.length ∧ unmarked domain update.2 = false := by
  rw [examine] at h
  split at h
  · exact nomatch h
  next hexpected =>
    rw [checkedAdd] at h
    split at h
    · cases hunmarked : unmarked domain update.2 with
      | true =>
        rw [hunmarked] at h
        exact nomatch h
      | false =>
        rw [hunmarked] at h
        injection h with h
        injection h with h
        exact ⟨not_not.1 hexpected, h.symm, rfl⟩
    · exact nomatch h

/-- a scan without a match has gone over the log from where it started -/
theorem scan_keeps (domain : List UInt8) (items : List WalItem) (expected : ℕ) (h : Sound C sent s) :
    Agrees C sent (fun r s => ∀ expected', r = .ok (some expected') → Scanned domain expected expected' s.rocks.log)
      (scan domain expected items) s := by
  induction items generalizing expected s with
  | nil =>
    rintro expected' hr
    injection hr with hr
    injection hr with hr
    exact ⟨[], hr, fun _ hitem => nomatch hitem⟩
  | cons item items ih =>
    rw [scan]
    split
    · exact fun _ => nofun
    refine ((asserts_from s).read Moves.refl _ ⟨h, Moves.refl s⟩).bind fun update s' hread => ?_
    obtain ⟨⟨h', -⟩, hupdate⟩ := hread
    split
    · exact fun _ => nofun
    · exact fun _ => nofun
    next next hnext =>
      obtain ⟨⟨q, b⟩, hok, hexamine⟩ : ∃ item, update = .ok item ∧ examine domain expected item = .ok (some next) := by
        cases update with
        | error e => exact nomatch hnext
        | ok item => exact ⟨item, rfl, hnext⟩
      obtain ⟨rfl, rfl, hunmarked⟩ := examine_some hexamine
      have hnumbered : s'.rocks.log.Numbered q b := item.numbered _ q b (hupdate.symm.trans hok)
      have hkept : ∀ a b' : Store, Moves C sent a b' → a.rocks.log.Numbered q b → b'.rocks.log.Numbered q b :=
        fun _ _ hs => hs.reach.numbered
      refine ((ih _ h').frame hkept hkept hnumbered).mono fun r s'' hrest expected' hr => ?_
      obtain ⟨seen, hfollows, hseen⟩ := hrest.1 expected' hr
      refine ⟨(q, b) :: seen, ⟨rfl, hfollows⟩, fun item hitem => ?_⟩
      rcases List.mem_cons.1 hitem with rfl | hitem
      · exact ⟨hrest.2, hunmarked⟩
      · exact hseen item hitem

theorem reachedLatest_false {latestSequence expected : ℕ} (h : reachedLatest latestSequence expected = .ok false) :
    latestSequence < expected := by
  rw [reachedLatest, checkedAdd] at h
  split at h
  · change (if expected < latestSequence + 1 then _ else _) = _ at h
    split at h
    · exact nomatch h
    next hlt => exact not_lt.1 hlt
  · exact nomatch h

theorem hasMatchingUpdatesSince_keeps (domain : List UInt8) (sequence : ℕ) (updates : Except DbError (List WalItem))
    (h : Sound C sent s) : Agrees C sent (fun r s' => r = .ok false → ∃ expected,
      Scanned domain (sequence + 1) expected s'.rocks.log ∧ s.rocks.log.latest < expected)
      (hasMatchingUpdatesSince domain sequence updates) s := by
  refine ((asserts_from s).read Moves.refl _ ⟨h, Moves.refl s⟩).bind fun latest s' hread => ?_
  obtain ⟨⟨h', hmoves⟩, hlatest⟩ := hread
  split
  · exact nofun
  · exact nofun
  next expected items hexpected =>
    have hnext : expected = sequence + 1 := by
      rw [checkedAdd] at hexpected
      split at hexpected
      · injection hexpected with hexpected
        exact hexpected.symm
      · exact nomatch hexpected
    subst hnext
    refine (scan_keeps domain items (sequence + 1) h').bind fun r s'' hscan => ?_
    split
    · exact nofun
    · exact nofun
    next expected => exact fun hr =>
      ⟨expected, hscan expected rfl, (hmoves.reach.latest_le.trans_eq hlatest.symm).trans_lt (reachedLatest_false hr)⟩

/-- **A scan up to the latest batch shows that the index is complete**, if it is settled since where the scan started -/
theorem complete_of_scanned {domain : List UInt8} {expected : ℕ} {d d' : Rocks} (hsettled : Settled c Complete d)
    (hreach : Reach C sent d d') (hscanned : Scanned domain (c + 1) expected d'.log) (hlatest : d.log.latest < expected) :
    Complete d.tables := by
  rcases hsettled.2 with ⟨i, b, hb, hc, hcons⟩ | hcomplete
  · obtain ⟨seen, hfollows, hseen⟩ := hscanned
    obtain ⟨hb', hfirst⟩ := hreach.getElem? hb
    have hlow : c + 1 ≤ d'.log.first i := hfirst ▸ hc
    have hhigh : d'.log.first i < expected := by
      calc d'.log.first i = d.log.first i := hfirst
        _ ≤ d.log.latest := Log.first_le_latest hb hcons.ne_nil
        _ < expected := hlatest
    have hmem := hfollows.covers (fun item hitem => (hseen item hitem).1) hb' hcons.ne_nil hlow hhigh
    exact nomatch hcons.unmarked.symm.trans (hseen _ hmem).2
  · exact hcomplete

/-! ## The check and the migration -/

theorem steady_moves (s₀ : Store) (hX : Steady X) :
    Asserts (Moves C sent) (fun s => During C sent c X s ∧ Moves C sent s₀ s) (Sound C sent) :=
  ⟨fun _ _ h hs => ⟨h.1.moves hX hs, h.2.trans hs⟩, fun _ h => h.1.1⟩

/-- an answer that is given when the index was complete at the capture -/
theorem answered_moves {d : Rocks} (hd : Complete d.tables) (hreach : Reach C sent d s.rocks) :
    Moves C sent s { s with answers :=
      s.answers ++ [⟨d.tables, s.rocks.log.batches.drop d.log.batches.length, s.rocks.tables⟩] } := by
  refine ⟨.refl, fun a ha => (List.mem_append.1 ha).imp_right fun ha => ?_⟩
  obtain rfl := List.mem_singleton.1 ha
  obtain ⟨bs, hbs, hsince⟩ := hreach.since
  refine ⟨hd, fun hnone => hsince hd fun b hb => hnone b ?_⟩
  change b ∈ s.rocks.log.batches.drop d.log.batches.length
  rw [hbs, List.drop_left]
  exact hb

/-- what the validation finds out about the moment of the capture -/
theorem validation_keeps (domain : List UInt8) (updates : Except DbError (List WalItem))
    (h : During C sent c Complete s) :
    Agrees C sent (fun r s' => (r = .ok false → Complete s.rocks.tables) ∧ Sound C sent s' ∧ Moves C sent s s')
      (validation domain c s.rocks.log.latest updates) s := by
  rw [validation]
  split
  · exact ⟨nofun, h.1, Moves.refl s⟩
  · have hkept : ∀ a b : Store, Moves C sent a b → Sound C sent a ∧ Moves C sent s a →
        Sound C sent b ∧ Moves C sent s b := fun _ _ hs h => ⟨h.1.moves hs, h.2.trans hs⟩
    refine ((hasMatchingUpdatesSince_keeps domain c updates h.1).frame hkept hkept ⟨h.1, Moves.refl s⟩).mono
      fun r s' hr => ⟨fun hfalse => ?_, hr.2⟩
    obtain ⟨expected, hscanned, hlatest⟩ := hr.1 hfalse
    exact complete_of_scanned h.2 hr.2.2.reach hscanned hlatest

theorem pendingMessageIndexMigrationComplete_keeps (domain : List UInt8) (pass : WalPass) (h : Sound C sent s) :
    Agrees C sent (fun _ _ => True) (pendingMessageIndexMigrationComplete domain pass) s := by
  refine (keeps_query steady_true (During.start h (Nat.zero_le _)) _).bind fun checkpoint s hread => ?_
  obtain ⟨⟨h, -⟩, hcheckpoint⟩ := hread
  cases checkpoint with
  | none => trivial
  | some checkpoint =>
    have hsealed : During C sent checkpoint Complete s := ⟨h, h.certified checkpoint hcheckpoint.symm⟩
    refine ((asserts_during steady_complete).read Moves.refl _ hsealed).bind fun captured s hread => ?_
    obtain ⟨hsealed, rfl⟩ := hread
    refine (validation_keeps domain pass.updates hsealed).bind fun validation s' hr => ?_
    obtain ⟨hcomplete, h', hmoves⟩ := hr
    split
    · trivial
    split
    · have hcomplete := hcomplete rfl
      have hcertified : During C sent s.rocks.log.latest Complete s :=
        ⟨hsealed.1, Settled.of_holds le_rfl hcomplete⟩
      have hA : Asserts (Moves C sent) (fun s' => During C sent s.rocks.log.latest Complete s' ∧ Moves C sent s s')
          (Sound C sent) := steady_moves s steady_complete
      refine (hA.write (B := fun s' => During C sent s.rocks.log.latest Complete s' ∧ Moves C sent s s')
        (fun _ h => Moves.commit (putMigrationComplete_allowed h.1.1.wellFormed h.1.2)) (fun s' h =>
          hA.stable s' _ h (Moves.commit (putMigrationComplete_allowed h.1.1.wellFormed h.1.2)))
        ⟨hcertified.moves steady_complete hmoves, hmoves⟩).bind fun _ s'' h => ?_
      refine (hA.write (B := fun _ => True) (fun _ h => answered_moves hcomplete h.2.reach) (fun _ _ => trivial) h).bind
        fun _ _ _ => trivial
    · exact (keeps_commit steady_true (fun _ h => deleteMigrationComplete_allowed h.1.wellFormed)
        (During.start h' (Nat.zero_le _))).bind fun _ _ _ => trivial

namespace LegacyMessageIterator

/-- the nonces that are still to be visited -/
def Remaining (it : LegacyMessageIterator) (n : UInt32) : Prop :=
  match it.highNonce with
  | some high => n ≤ high
  | none => ∃ low ∈ it.lowNonce, n ≤ low

/-- the low direction goes on below the high nonce -/
def Joined (it : LegacyMessageIterator) : Prop := ∀ high ∈ it.highNonce, it.lowNonce = iterateLow (some high)

variable {it : LegacyMessageIterator}

theorem not_le_iterateLow {high n : UInt32} (h : ∀ low ∈ iterateLow (some high), ¬ n ≤ low) : n = high ∨ ¬ n ≤ high := by
  by_cases hle : n ≤ high
  · refine Or.inl ?_
    by_cases hzero : high = 0
    · subst hzero
      exact UInt32.le_antisymm hle (UInt32.zero_le)
    · have hnot := h (high - 1) (by rw [iterateLow, Option.bind_some, if_neg hzero]; rfl)
      have hpos : high.toNat ≠ 0 := fun h0 => hzero (UInt32.toNat_inj.1 h0)
      have hpred : (high - 1).toNat = high.toNat - 1 :=
        UInt32.toNat_sub_of_le _ _ (UInt32.le_iff_toNat_le.2 (Nat.one_le_iff_ne_zero.2 hpos))
      rw [UInt32.le_iff_toNat_le] at hle hnot
      exact UInt32.toNat_inj.1 (by omega)
  · exact Or.inr hle

theorem remaining_of_advance (hit : it.Joined) {n : UInt32} (h : ¬ it.advance.Remaining n) :
    ¬ it.Remaining n ∨ it.nonce = some n := by
  obtain ⟨high, low⟩ := it
  cases high with
  | some high =>
    have hlow : low = iterateLow (some high) := hit high rfl
    subst hlow
    rcases not_le_iterateLow (n := n) fun low hl hn => h ⟨low, hl, hn⟩ with rfl | hn
    · exact Or.inr rfl
    · exact Or.inl hn
  | none =>
    cases low with
    | none => exact Or.inl fun ⟨_, hl, _⟩ => nomatch hl
    | some low =>
      rcases not_le_iterateLow (n := n) fun low hl hn => h ⟨low, hl, hn⟩ with rfl | hn
      · exact Or.inr rfl
      · refine Or.inl ?_
        rintro ⟨_, hl, hle⟩
        obtain rfl := Option.some.inj hl
        exact hn hle

theorem joined_advance (hit : it.Joined) : it.advance.Joined := by
  obtain ⟨high, low⟩ := it
  cases high with
  | some high => exact fun _ h => nomatch h
  | none => exact fun _ h => nomatch h

theorem not_remaining_of_migrationComplete (h : it.migrationComplete = true) (n : UInt32) : ¬ it.Remaining n := by
  obtain ⟨high, low⟩ := it
  cases high with
  | some high => exact nomatch h
  | none => cases low with
    | some low => exact nomatch h
    | none => exact fun ⟨_, hl, _⟩ => nomatch hl

end LegacyMessageIterator

open LegacyMessageIterator

/-- the rows that were gone over are settled since the start of the migration -/
def Migrated (it : LegacyMessageIterator) (t : Tables) : Prop := ∀ n, ¬ it.Remaining n → CompleteAt t n

theorem steady_migrated (it : LegacyMessageIterator) : Steady (Migrated it) :=
  fun t t' h hkept n hn => steady_completeAt n t t' (h n hn) hkept

theorem Migrated.advance {it : LegacyMessageIterator} (hit : it.Joined) (h : During C sent c (Migrated it) s)
    (hnonce : ∀ n ∈ it.nonce, During C sent c (fun t => CompleteAt t n) s) :
    During C sent c (Migrated it.advance) s := by
  cases hn : it.nonce with
  | none =>
    refine h.mono fun hm n hrem => hm n ?_
    exact (remaining_of_advance hit hrem).resolve_right fun h => nomatch hn.symm.trans h
  | some n =>
    refine (h.and (hnonce n hn)).mono fun hm n' hrem => ?_
    rcases remaining_of_advance hit hrem with hrem | hn'
    · exact hm.1 n' hrem
    · obtain rfl := Option.some.inj (hn.symm.trans hn')
      exact hm.2

/-- above the greatest nonce that has an id, nothing is stored -/
theorem new_keeps (h : During C sent c (fun _ => True) s) :
    Agrees C sent (fun it s => it.Joined ∧ During C sent c (Migrated it) s) LegacyMessageIterator.new s := by
  refine (keeps_query steady_true h _).bind fun highNonce s hread => ?_
  obtain ⟨h, hhigh⟩ := hread
  rw [← Std.TreeMap.maxKey?_eq_getLast?_keys] at hhigh
  refine ⟨?_, h.mono fun _ n hrem => completeAt_of_none ?_⟩
  · intro high hmem
    obtain rfl := Option.some.inj hmem
    cases highNonce with
    | none => rfl
    | some high => rfl
  · have hnone : s.rocks.tables.messageId[n]? = none := by
      cases highNonce with
      | none => exact Std.TreeMap.getElem?_of_isEmpty (Std.TreeMap.maxKey?_eq_none_iff.1 hhigh.symm)
      | some high =>
        by_contra hsome
        have hmem : n ∈ s.rocks.tables.messageId := by
          rw [← Std.TreeMap.isSome_getElem?_iff_mem, Option.isSome_iff_ne_none]
          exact hsome
        exact hrem (Std.isLE_compare.1 ((Std.TreeMap.maxKey?_eq_some_iff_mem_and_forall.1 hhigh.symm).2 n hmem))
    rw [Tables.storedMessage, hnone, Option.bind_none]

theorem tryGetNextNonce_keeps (h : During C sent c (fun _ => True) s) (n : UInt32) :
    Agrees C sent (fun status s => match status with
      | .Processable m => Found C sent c n (some m) s
      | .Unindexed => Found C sent c n none s
      | .Processed => Found C sent c n none s) (tryGetNextNonce n) s := by
  refine (retrieveMessageByNonce_keeps h n).bind fun m s hfound => ?_
  cases m with
  | none => exact hfound
  | some m =>
    refine (keeps_query (steady_storedMessage n m) hfound.2 _).bind fun processed s hread => ?_
    obtain ⟨h, hprocessed⟩ := hread
    cases processed with
    | true => exact h.mono fun _ => completeAt_of_processed hprocessed.symm
    | false => exact ⟨hfound.1, h⟩

/-- `X` goes on to hold beside what a program does -/
theorem Keeps.during {Q : α → Store → Prop} {p : Prog Store α} (h : Agrees C sent Q p s) (hX : Steady X)
    (hd : During C sent c X s) : Agrees C sent (fun a s => Q a s ∧ During C sent c X s) p s :=
  h.frame (fun _ _ hs h => h.moves hX hs) (fun _ _ hs h => h.moves hX hs) hd

theorem tryGetNextMessage_keeps {it : LegacyMessageIterator} (h : During C sent c (Migrated it) s) :
    Agrees C sent (fun r s => (∀ m, r = some m → ∃ n ∈ it.nonce, Found C sent c n (some m) s) ∧
      (r = none → ∀ n ∈ it.nonce, Found C sent c n none s) ∧ During C sent c (Migrated it) s)
      it.tryGetNextMessage s := by
  rw [tryGetNextMessage]
  split
  next n hn =>
    refine (Keeps.during (tryGetNextNonce_keeps (h.mono fun _ => trivial) n) (steady_migrated it) h).bind
      fun status s hs => ?_
    obtain ⟨hfound, h⟩ := hs
    have hnone : Found C sent c n none s → ∀ n' ∈ it.nonce, Found C sent c n' none s := by
      intro hf n' hn'
      obtain rfl := Option.some.inj (hn.symm.trans hn')
      exact hf
    cases status with
    | Processable m =>
      refine ⟨fun m' hm => ?_, fun hnone => (by cases hnone), h⟩
      obtain rfl := Option.some.inj hm
      exact ⟨n, hn, hfound⟩
    | Unindexed => exact ⟨fun _ hm => (by cases hm), fun _ => hnone hfound, h⟩
    | Processed => exact ⟨fun _ hm => (by cases hm), fun _ => hnone hfound, h⟩
  next hn => exact ⟨fun _ hm => (by cases hm), fun _ n hn' => (by cases hn.symm.trans hn'), h⟩

theorem migrateRows_keeps (rows : ℕ) {it : LegacyMessageIterator} (hit : it.Joined)
    (h : During C sent c (Migrated it) s) :
    Agrees C sent (fun it s => it.Joined ∧ During C sent c (Migrated it) s) (migrateRows C rows it) s := by
  induction rows generalizing it s with
  | zero => exact ⟨hit, h⟩
  | succ rows ih =>
    refine (tryGetNextMessage_keeps h).bind fun r s hr => ?_
    obtain ⟨hsome, hnone, h⟩ := hr
    cases r with
    | some m =>
      obtain ⟨n, hn, hnonce, hfound⟩ := hsome m rfl
      subst hnonce
      refine (Keeps.during (reconcilePendingMessageIndex_keeps (p := True) (hfound.mono fun hx _ => hx))
        (steady_migrated it) h).bind fun _ s hs => ⟨joined_advance hit, Migrated.advance hit hs.2 fun n' hn' => ?_⟩
      obtain rfl := Option.some.inj (hn.symm.trans hn')
      exact hs.1.mono fun hx => hx trivial
    | none =>
      have h := Migrated.advance hit h (hnone rfl)
      dsimp only
      split
      · exact ⟨joined_advance hit, h⟩
      · exact ih (joined_advance hit) h

theorem migrate_keeps (ticks : ℕ) {it : LegacyMessageIterator} (hit : it.Joined)
    (h : During C sent c (Migrated it) s) : Agrees C sent (fun _ _ => True) (migrate C c ticks it) s := by
  induction ticks generalizing it s with
  | zero => trivial
  | succ ticks ih =>
    refine Keeps.bind (Q := fun it s => ∀ it' ∈ it, it'.Joined ∧ During C sent c (Migrated it') s) ?_ fun it s h => ?_
    · refine (migrateRows_keeps LEGACY_MIGRATION_BATCH_SIZE hit h).bind fun it s h => ?_
      obtain ⟨hit, h⟩ := h
      split
      next hcomplete =>
        have hc : During C sent c Complete s := h.mono fun hm n => hm n (not_remaining_of_migrationComplete hcomplete n)
        exact (keeps_commit steady_complete (fun _ h => putMigrationComplete_allowed h.1.wellFormed h.2) hc).bind
          fun _ _ _ _ => nofun
      next =>
        intro it' hmem
        obtain rfl := Option.some.inj hmem
        exact ⟨hit, h⟩
    · cases it with
      | none => trivial
      | some it => exact ih (h it rfl).1 (h it rfl).2

theorem messageDbLoader_keeps (domain : List UInt8) (pass : WalPass) (ticks : ℕ) (h : Sound C sent s) :
    Agrees C sent (fun _ _ => True) (messageDbLoader C domain pass ticks) s := by
  refine ((asserts_from s).read Moves.refl _ ⟨h, Moves.refl s⟩).bind fun start s hread => ?_
  obtain ⟨⟨h, -⟩, rfl⟩ := hread
  refine (Keeps.during (pendingMessageIndexMigrationComplete_keeps domain pass h) steady_true
    (During.start h le_rfl)).bind fun r s hr => ?_
  split
  · exact (new_keeps hr.2).bind fun it s h => migrate_keeps ticks h.1 h.2
  · trivial
  · trivial

end Agreement

/-! ## Runs -/

/-- messages of the history are written, and an older binary writes ids at the nonces of their messages -/
def Takes (C : Crypto) (sent : Set HyperlaneMessage) : Event DbOp Outside → Prop
  | .start (.upsertMessage m _) => m ∈ sent
  | .start (.storeMessage m _) => m ∈ sent
  | .interfere (.legacy rows) => ∀ row ∈ rows, row.WellFormed C sent
  | _ => True

/-- the tables that an older binary left, without a seal; `base` is the latest sequence number -/
def initial (t : Tables) (base : ℕ) : System DbOp Store := ⟨⟨⟨t, base, []⟩, []⟩, none, []⟩

section Runs

variable (C : Crypto) (domain : List UInt8) {sent : Set HyperlaneMessage}

theorem program_keeps (hinj : Set.InjOn (HyperlaneMessage.id C) sent) {op : DbOp} {s : Store}
    (hop : Takes C sent (.start op)) (h : Sound C sent s) : Agrees C sent (fun _ _ => True) (op.program C domain) s := by
  have hstart : During C sent 0 (fun _ => True) s := During.start h (Nat.zero_le _)
  cases op with
  | upsertMessage m block => exact (upsertMessage_keeps hinj hop hstart block).mono fun _ _ _ => trivial
  | storeMessage m block => exact (storeMessage_keeps hinj hop hstart block).bind fun _ _ _ => trivial
  | storeMessageProcessed m =>
    exact (keeps_commit steady_true (fun _ h => processedBatch_allowed h.1.wellFormed m) hstart).mono fun _ _ _ => trivial
  | storePendingMessageIndex m =>
    exact (keeps_commit steady_true (fun _ h => putPending_allowed h.1.wellFormed _ _ _) hstart).mono
      fun _ _ _ => trivial
  | deletePendingMessageIndex m =>
    exact (keeps_commit steady_true (fun _ h => deletionBatch_allowed h.1.wellFormed m) hstart).mono fun _ _ _ => trivial
  | deletePendingMessageIndexByNonce destination nonce =>
    exact (keeps_commit steady_true (fun _ h => deletePending_allowed h.1.wellFormed _ _) hstart).mono
      fun _ _ _ => trivial
  | reconcilePendingMessageIndex m =>
    exact (reconcilePendingMessageIndex_keeps (p := False) (hstart.mono fun _ => False.elim)).mono fun _ _ _ => trivial
  | pendingMessageIndexMigrationComplete pass =>
    exact (pendingMessageIndexMigrationComplete_keeps domain pass h).bind fun _ _ _ => trivial
  | messageDbLoader pass ticks => exact messageDbLoader_keeps domain pass ticks h

def agreement (hinj : Set.InjOn (HyperlaneMessage.id C) sent) : Agreement (dbMachine C domain) where
  Takes := Takes C sent
  P := Sound C sent
  R := Moves C sent
  R_refl := Moves.refl
  R_trans := Moves.trans
  P_R := Sound.moves
  interfere_R e _ he h := Moves.commit <| match e with
    | .legacy _ => legacy_allowed h.wellFormed he
    | .other rows => other_allowed h.wellFormed rows
  keeps _ _ hop h := program_keeps C domain hinj hop h

/-- **A check that answers `Ok(true)` has found the index complete**, and it still is if nothing was committed since that
touches one side only -/
theorem seal_sound (hinj : Set.InjOn (HyperlaneMessage.id C) sent) {t : Tables} (hwf : WellFormed C sent t)
    (hseal : t.pendingMessageIndexMigrationComplete = none) (base : ℕ) {es : List (Event DbOp Outside)}
    (hes : ∀ e ∈ es, Takes C sent e) : ∀ a ∈ ((dbMachine C domain).run (initial t base) es).store.answers,
      Complete a.captured ∧ ((∀ b ∈ a.since, ¬ Conspicuous b) → Complete a.returned) := by
  have hstart : Sound C sent ⟨⟨t, base, []⟩, []⟩ :=
    ⟨hwf, fun c hc => (nomatch hseal.symm.trans hc), fun _ ha => nomatch ha⟩
  have hrun : (agreement C domain hinj).Inv ((dbMachine C domain).run (initial t base) es) :=
    Agreement.run_inv (Agreement.Inv.initial hstart) hes
  exact hrun.1.answered

end Runs

/-! ## Where more is asked than what holds -/

namespace Sample

def crypto : Crypto := ⟨fun _ => Bytes.Word.filled 32 7, fun _ _ => none⟩

def zero : H256 := Bytes.Word.filled 32 0

def message : HyperlaneMessage := ⟨3, 3, 1, zero, 10, zero, []⟩

def empty : Tables := ⟨fun _ => none, ∅, none, fun _ => none, fun _ => none, fun _ => ∅, none, fun _ => none⟩

/-- the batch at a place of the log -/
def item (i : ℕ) : WalItem where
  cancelled := false
  next l := match l.batches[i]? with
    | some b => .ok (l.first i, b)
    | none => .error .RockError
  numbered l q b h := by
    split at h
    next hb =>
      injection h with h
      injection h with hq hb'
      exact ⟨i, hb' ▸ hb, hq⟩
    next => exact nomatch h

def pass (is : List ℕ) : WalPass := ⟨.ok (is.map item), false⟩

/-- an operation is started and makes `k` accesses -/
def started (op : DbOp) (i k : ℕ) : List (Event DbOp Outside) := .start op :: List.replicate k (.advance i)

/-- a loader migrates, the message is stored, and a check is run; the index entry is deleted before the check returns -/
def race : List (Event DbOp Outside) := List.flatten [
  started (.messageDbLoader (pass []) 1) 0 8,
  started (.upsertMessage message 1) 1 4,
  started (.pendingMessageIndexMigrationComplete (pass [0, 1])) 2 6,
  started (.deletePendingMessageIndex message) 3 1,
  [.advance 2]]

/-- an older binary writes the id of the message at nonce 5, then a loader migrates and a check is run -/
def foreignId : List (Event DbOp Outside) := List.flatten [
  started (.upsertMessage message 1) 0 4,
  [.interfere (.legacy [.messageId 5 (message.id crypto)])],
  started (.messageDbLoader (pass []) 3) 1 40,
  started (.pendingMessageIndexMigrationComplete (pass [2])) 2 8]

theorem race_takes : ∀ e ∈ race, Takes crypto {message} e := by
  simp [race, started, Takes, or_imp, forall_and]

theorem empty_wellFormed : WellFormed crypto {message} empty :=
  ⟨fun _ _ h => (nomatch h), fun _ _ h => (nomatch Std.TreeMap.getElem?_emptyc.symm.trans h)⟩

end Sample

open Sample in
/-- a run that meets the conditions of `seal_sound` and has an answer -/
theorem seal_sound_sample :
    ((dbMachine crypto []).run (initial empty 0) race).store.answers.length = 1 ∧
      ∀ a ∈ ((dbMachine crypto []).run (initial empty 0) race).store.answers,
        Complete a.captured ∧ ((∀ b ∈ a.since, ¬ Conspicuous b) → Complete a.returned) :=
  ⟨by decide +kernel, seal_sound crypto [] (Set.injOn_singleton _ _) empty_wellFormed rfl 0 race_takes⟩

open Sample in
/-- **The index can be incomplete when the check answers `Ok(true)`**: because of a deletion after the capture, or
because of an id at the nonce of another message -/
theorem seal_unsound :
    (∃ a ∈ ((dbMachine crypto []).run (initial empty 0) race).store.answers, ¬ Complete a.returned) ∧
      ∃ a ∈ ((dbMachine crypto []).run (initial empty 0) foreignId).store.answers,
        ¬ Complete a.captured ∧ ¬ Complete a.returned := by
  have hrace : ∃ a ∈ ((dbMachine crypto []).run (initial empty 0) race).store.answers, ¬ CompleteAt a.returned 3 := by
    decide +kernel
  have hforeign : ∃ a ∈ ((dbMachine crypto []).run (initial empty 0) foreignId).store.answers,
      ¬ CompleteAt a.captured 5 ∧ ¬ CompleteAt a.returned 5 := by decide +kernel
  refine ⟨?_, ?_⟩
  · obtain ⟨a, ha, hnot⟩ := hrace
    exact ⟨a, ha, fun h => hnot (h 3)⟩
  · obtain ⟨a, ha, hcaptured, hreturned⟩ := hforeign
    exact ⟨a, ha, fun h => hcaptured (h 5), fun h => hreturned (h 5)⟩

end Hyperlane.Db.PendingIndex
