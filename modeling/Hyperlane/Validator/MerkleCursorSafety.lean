/-
What the cursor of the Merkle tree sync promises.

- `cursor_lawful`: the startup, `store_logs` and the WebSocket keep the contract (module `CursorContract`).
- `covers_always`: in every run, from the count of the last snapshot up to the cursor, persisted or cached, every leaf is
  stored.
- `cursor_sound`: in the runs in which no section fails half way, the persisted cursor is not lowered between two
  snapshots, and an error of `process_event` leaves the sequence of its caller and the leaves that are stored.
- `cursor_unsound`: a section that fails half way.
-/
import Hyperlane.Validator.CursorContract

namespace Hyperlane.Validator.MerkleCursor

open Interleaving Contract

variable {α : Type} {strict : Prop} {sync : Sync} {a b s : Store} {n : UInt32}

/-! ## The startup -/

theorem resetCursor_alone (f : UInt32) :
    (contract strict sync).Alone (Visited (fun s => Safe strict s ∧ Covers s f ∧ (strict → Behind s)) fun _ => True)
      (resetCursor f).run s := by
  refine Alone.locked (Alone.of_keeps (dbAccess_keeps (fun s' hs' _ => ⟨⟨(Moves.refl s').proceeds, hs'.2⟩, trivial⟩)
    fun s' hs' => ?_))
  have hcovers : ∀ t : Store, t.snapshots.head? = some f → Covers t f := by
    intro t ht f' hf'
    obtain rfl := Option.some.inj (ht.symm.trans hf')
    exact ⟨UInt32.le_refl f, fun i hi hin => absurd (UInt32.lt_of_le_of_lt hi hin) (UInt32.lt_irrefl f)⟩
  have hkept : Safe strict { s' with persisted := some f, cached := some f, snapshots := f :: s'.snapshots } := by
    refine ⟨fun c hc => ?_, fun c hc => ?_, hs'.2.recorded⟩
    · obtain rfl := Option.some.inj hc
      exact hcovers _ rfl
    · obtain rfl := Option.some.inj hc
      exact hcovers _ rfl
  refine ⟨⟨⟨List.suffix_cons _ _, fun _ heq => absurd heq (List.cons_ne_self _ _)⟩, hkept⟩, hkept, hcovers _ rfl,
    fun _ => ⟨f, rfl, fun p hp => ?_⟩⟩
  obtain rfl := Option.some.inj hp
  exact UInt32.le_refl _

theorem startup_lawful (f : UInt32) :
    (contract strict sync).Alone (contract strict sync).Started (startup f) s := by
  have hscan : ∀ {s}, Safe strict s → Covers s f → (strict → Behind s) → (contract strict sync).Alone
      (Scanned (fun n s => Safe strict s ∧ Covers s n ∧ (strict → Behind s)) fun _ => True)
      (scanLeaves (fun _ => pure ()) (turns f) f).run s := by
    intro s hs hf hbehind
    refine Alone.of_keeps (scanLeaves_keeps ?_ (fun _ _ _ _ _ _ => trivial) (fun _ _ _ _ _ _ _ => trivial) ?_ _
      ⟨hs, hf, hbehind⟩)
    · rintro n s s' ⟨-, hn, hb⟩ ⟨hq, hs'⟩
      exact ⟨⟨hs', hn.quiet hq, fun h => (hb h).quiet hq⟩, (Moves.refl s').proceeds, hs'⟩
    · rintro n s s' ⟨-, hn, hb⟩ ⟨hq, hs'⟩ hleaf hlt
      exact ⟨hs', (hn.quiet hq).succ hleaf hlt, fun h => (hb h).quiet hq⟩
  have hfrom : (contract strict sync).Alone
      (Scanned (fun n s => Safe strict s ∧ Covers s n ∧ (strict → Behind s)) fun _ => True)
      (nextSequenceAfterSnapshot f).run s := by
    refine Alone.except_bind (resetCursor_alone f) ?_ fun _ _ he => he
    rintro ⟨⟩ s ⟨hs, hf, hbehind⟩
    refine Alone.except_bind (hscan hs hf hbehind) ?_ fun _ _ he => he
    rintro n s ⟨hs, hn, hbehind⟩
    have hpersist : Keeps (contract strict sync).NobodyActs (contract strict sync).Starts (fun _ => True)
        (Visited (fun s => Safe strict s ∧ Covers s n ∧ (strict → Behind s)) fun _ => True) (improveCursor n).run s :=
      improveCursor_keeps startup_section (fun _ _ _ _ _ => trivial) hn fun h => (hbehind h).or n
    exact Alone.except_bind (Alone.locked (Alone.of_keeps hpersist)) (fun _ _ h => h) fun _ _ he => he
  refine Alone.bind hfrom fun r s hr => ?_
  cases r with
  | error e => exact fun h => nomatch h
  | ok n =>
    obtain ⟨hs, hn, hbehind⟩ := hr
    -- the sequence is handed to the WebSocket
    rintro s' hq hs'
    have hkept : Safe strict { s' with nextSequence := n } := ⟨hs'.persisted, hs'.cached, hs'.recorded⟩
    have hcovers : Covers s' n := hn.quiet hq
    have hstill : strict → Behind s' := fun h => (hbehind h).quiet hq
    exact ⟨⟨List.suffix_refl _, fun _ _ => NotLowered.refl _⟩, hkept, fun _ => ⟨⟨hkept, hcovers⟩, hstill⟩⟩

/-! ## The RPC fallback -/

section StoreLogs

variable {leaves : List (MerkleTreeInsertion × UInt64)}

theorem le_max (c p : UInt32) : c ≤ max c p := by
  change c ≤ if c ≤ p then p else c
  split
  next h => exact h
  next => exact UInt32.le_refl c

theorem max_eq_or (c p : UInt32) : max c p = c ∨ max c p = p := by
  change (if c ≤ p then p else c) = c ∨ (if c ≤ p then p else c) = p
  split
  · exact .inr rfl
  · exact .inl rfl

/-- a sequence that was read before the lock was taken still covers -/
theorem refreshCursor_free (op : Operation) :
    (contract strict sync).Free op (fun _ _ => True) refreshCursor.run s := by
  have hread : (contract strict sync).Free op (fun r s => ∀ p, r = .ok (some p) → Covers s p)
      retrieveNextSequence.run s := by
    refine Free.of_keeps (dbAccess_keeps (fun s' _ _ => ⟨Quiet.refl s', fun p hp => nomatch hp⟩)
      fun s' hs' => ⟨Quiet.refl s', fun p hp => ?_⟩)
    exact hs'.2.safe.persisted p (Except.ok.inj hp)
  refine Free.except_bind hread (fun persisted s hcovers => ?_) fun _ _ _ => trivial
  refine Free.locked fun s' (hmoves : Moves strict s s') (hsettled : Settled strict s') => ?_
  cases persisted with
  | none => exact ⟨hsettled, trivial⟩
  | some p =>
    have hp : Covers s' p := (hcovers p rfl).moves hmoves
    rintro s₁ ⟨hq₁, hserving₁, -⟩
    refine ⟨trivial, ⟨Moves.refl s₁, hserving₁⟩, ?_⟩
    rintro s₂ ⟨hq₂, hserving₂, -⟩
    have hq : Quiet strict s' s₂ := Quiet.trans hq₁ hq₂
    have hcached : s₁.cached = s₂.cached := (Quiet.cached hq₂).symm
    have hp₂ : Covers s₂ p := hp.quiet hq
    have hraised : Covers s₂ (s₁.cached.elim p (max · p)) := by
      cases hc : s₁.cached with
      | none => exact hp₂
      | some c =>
        have hc₂ := hserving₂.safe.cached c (hcached.symm.trans hc)
        rcases max_eq_or c p with heq | heq
        · simpa only [Option.elim, heq] using hc₂
        · simpa only [Option.elim, heq] using hp₂
    have hkept := Serving.cache hserving₂ hraised
    refine ⟨trivial, ⟨⟨fun _ h => h, rfl, rfl, fun _ => NotLowered.refl _⟩, hkept⟩,
      ⟨hkept, fun hs => ⟨_, rfl, fun x hx => ?_⟩⟩, trivial⟩
    obtain ⟨c, hc, hle⟩ := (hsettled.behind hs).quiet hq
    rw [hcached, hc]
    exact UInt32.le_trans (hle x hx) (le_max c p)

/-- where the scan of `advance_cursor` from `c` is when it comes to `n` -/
structure Scanning (strict : Prop) (c n : UInt32) (s : Store) : Prop where
  serving : Serving strict s
  cached : s.cached = some c
  covers : Covers s n
  scanned : ∀ i, c ≤ i → i < n → (s.tables.insertion i).isSome
  bound : strict → ∀ p, s.persisted = some p → p ≤ n

variable {c : UInt32}

theorem Scanning.quiet (h : Scanning strict c n a) (hq : Quiet strict a b) : Scanning strict c n b where
  serving := h.serving.quiet hq
  cached := hq.cached.trans h.cached
  covers := h.covers.quiet hq
  scanned i hi hin := hq.leaves i (h.scanned i hi hin)
  bound hs p hp := h.bound hs p (hq.persisted ▸ hp)

/-- a scan that ends early where nothing has been written yet -/
theorem Scanning.settled (h : Scanning strict c n s)
    (hnot : strict → ∀ p, s.persisted = some p → c < p → False) : Settled strict s :=
  ⟨h.serving, fun hs => ⟨c, h.cached, fun p hp => UInt32.not_lt.1 fun hlt => hnot hs p hp hlt⟩⟩

/-- a failure finds the persisted copy not above the cached one -/
theorem Scanning.failed (h : Scanning strict c n s) (hspared : strict → Spared (.storeLogs leaves) s)
    (hfailing : s.failing = true) : Settled strict s :=
  h.settled fun hs p hp hlt => Bool.false_ne_true ((hspared hs p hp c h.cached hlt).1.symm.trans hfailing)

/-- and so does a scan that has seen the last leaf -/
theorem Scanning.exhausted (h : Scanning strict c n s) (hspared : strict → Spared (.storeLogs leaves) s)
    (hleaf : (s.tables.insertion n).isSome) (hn : n.toNat + 1 = UInt32.size) : Settled strict s := by
  refine h.settled fun hs p hp hlt => ?_
  obtain ⟨-, i, hi, hnone⟩ := hspared hs p hp c h.cached hlt
  have hin : i ≤ n := by
    have := i.toNat_lt_size
    rw [UInt32.le_iff_toNat_le]
    omega
  by_cases heq : i = n
  · rw [← heq, hnone] at hleaf
    cases hleaf
  · have hci : c ≤ i := UInt32.le_trans (UInt32.le_of_lt hlt) hi
    have hstored := h.scanned i hci (UInt32.lt_of_le_of_ne hin heq)
    rw [hnone] at hstored
    cases hstored

theorem Scanning.succ (h : Scanning strict c n s) (hleaf : (s.tables.insertion n).isSome)
    (hn : n.toNat + 1 < UInt32.size) : Scanning strict c (n + 1) s := by
  have hsucc : (n + 1).toNat = n.toNat + 1 := by
    rw [UInt32.toNat_add]
    exact Nat.mod_eq_of_lt hn
  refine ⟨h.serving, h.cached, h.covers.succ hleaf hn, fun i hi hin => ?_, fun hs p hp => ?_⟩
  · rw [UInt32.lt_iff_toNat_lt] at hin
    by_cases heq : i = n
    · exact heq ▸ hleaf
    · have hne : i.toNat ≠ n.toNat := fun h => heq (UInt32.toNat_inj.1 h)
      refine h.scanned i hi ?_
      rw [UInt32.lt_iff_toNat_lt]
      omega
  · have hp := UInt32.le_iff_toNat_le.1 (h.bound hs p hp)
    rw [UInt32.le_iff_toNat_le]
    omega

theorem Scanning.persist (h : Scanning strict c n s) : Scanning strict c n { s with persisted := some n } where
  serving := h.serving.persist h.covers
  cached := h.cached
  covers := h.covers
  scanned := h.scanned
  bound _ p hp := by
    obtain rfl := Option.some.inj hp
    exact UInt32.le_refl _

theorem scanCursor_keeps (hsettled : Settled strict s) :
    Keeps ((contract strict sync).OthersWait (.storeLogs leaves)) (contract strict sync).Acts (fun _ => True)
      (fun _ s => Settled strict s ∧ True) scanCursor.run s := by
  rintro s₁ ⟨hq₁, hserving₁, -⟩
  have hsettled₁ : Settled strict s₁ := hsettled.quiet hq₁
  refine ⟨trivial, ⟨Moves.refl s₁, hserving₁⟩, ?_⟩
  cases hc : s₁.cached with
  | none =>
    simp only [hc]
    exact ⟨hsettled₁, trivial⟩
  | some c =>
    simp only [hc]
    have hstart : Scanning strict c c s₁ := by
      refine ⟨hserving₁, hc, hserving₁.safe.cached c hc,
        fun i hi hin => absurd (UInt32.lt_of_le_of_lt hi hin) (UInt32.lt_irrefl c), fun hs p hp => ?_⟩
      obtain ⟨c', hc', hle⟩ := hsettled₁.behind hs
      obtain rfl := Option.some.inj (hc.symm.trans hc')
      exact hle p hp
    have hscan : Keeps ((contract strict sync).OthersWait (.storeLogs leaves)) (contract strict sync).Acts
        (fun _ => True) (Scanned (Scanning strict c) (Settled strict))
        (scanLeaves persistAtInterval (turns c) c).run s₁ := by
      refine scanLeaves_keeps ?_ ?_ ?_ ?_ _ hstart
      · rintro n s s' h ⟨hq, hserving, -⟩
        exact ⟨h.quiet hq, Moves.refl s', hserving⟩
      · rintro n s s' h ⟨hq, -, hspared⟩ hfailing
        exact (h.quiet hq).failed hspared hfailing
      · rintro n s s' h ⟨hq, -, hspared⟩ hleaf hn
        exact (h.quiet hq).exhausted hspared hleaf hn
      · rintro n s s' h ⟨hq, -, -⟩ hleaf hn
        have hnext : Scanning strict c (n + 1) s' := (h.quiet hq).succ hleaf hn
        unfold persistAtInterval
        split
        · -- every 256 leaves the key is written
          refine dbAccess_keeps (fun s₂ ⟨hq₂, hserving₂, hspared₂⟩ hfailing => ?_) fun s₂ ⟨hq₂, hserving₂, _⟩ => ?_
          · exact ⟨⟨Moves.refl s₂, hserving₂⟩, (hnext.quiet hq₂).failed hspared₂ hfailing⟩
          · have hnext₂ : Scanning strict c (n + 1) s₂ := hnext.quiet hq₂
            exact ⟨⟨⟨fun _ h => h, rfl, rfl, fun hs p hp => ⟨n + 1, rfl, hnext₂.bound hs p hp⟩⟩,
              hnext₂.persist.serving⟩, hnext₂.persist⟩
        · exact hnext
    refine Contract.Keeps.except_bind hscan (fun n s₂ h => ?_) fun _ _ h => ⟨h, trivial⟩
    rintro s₃ ⟨hq₃, -, -⟩
    have h₃ : Scanning strict c n s₃ := Scanning.quiet h hq₃
    have hkept := h₃.serving.cache h₃.covers
    exact ⟨trivial, ⟨⟨fun _ h => h, rfl, rfl, fun _ => NotLowered.refl _⟩, hkept⟩,
      ⟨hkept, fun hs => ⟨n, rfl, h₃.bound hs⟩⟩, trivial⟩

theorem storeLeaf_free (insertions : UInt32) (leaf : MerkleTreeInsertion × UInt64) :
    (contract strict sync).Free (.storeLogs leaves) (fun _ _ => True) (storeLeaf insertions leaf).run s := by
  have hstore : (contract strict sync).Free (.storeLogs leaves) (fun _ _ => True)
      (processTreeInsertion leaf.1 leaf.2).run s :=
    Free.of_keeps (dbAccess_keeps (fun s' _ _ => ⟨Quiet.refl s', trivial⟩)
      fun s' _ => ⟨quiet_tables fun _ h => processTreeInsertion_leaves _ _ _ h, trivial⟩)
  refine Free.except_bind hstore (fun stored s _ => ?_) fun _ _ h => h
  exact Free.except_bind (Free.locked fun s' _ hsettled => scanCursor_keeps hsettled) (fun _ _ _ => trivial)
    fun _ _ h => h

theorem foldlM_storeLeaf_free (rest : List (MerkleTreeInsertion × UInt64)) (insertions : UInt32) :
    (contract strict sync).Free (.storeLogs leaves) (fun _ _ => True) (rest.foldlM storeLeaf insertions).run s := by
  induction rest generalizing insertions s with
  | nil => trivial
  | cons leaf rest ih =>
    rw [List.foldlM_cons]
    exact Free.except_bind (storeLeaf_free insertions leaf) (fun insertions s _ => ih insertions) fun _ _ h => h

end StoreLogs

/-! ## The WebSocket -/

section WebSocket

variable {events : List EventMessage}

/-- the outcome of a `process_event` that began with `n` -/
def Ends (strict : Prop) (n : UInt32) (r : Except SyncError Bool × UInt32) (s : Store) : Prop :=
  Covers s r.2 ∧ (strict → (∃ e, r.1 = .error e) → r.2 = n)

theorem persistEvent_free (m : UInt32) (hn : Covers s n) :
    (contract strict sync).Free (.webSocket events) (Ends strict m) (persistEvent n) s := by
  -- when the write must not fail, the holder of the lock finds that it does not
  have hpersist : (contract strict sync).Free (.webSocket events)
      (Visited (fun s => Covers s n) fun s => Covers s n ∧ ¬ strict)
      (if n % NEXT_SEQUENCE_PERSIST_INTERVAL = 0 then persistNextSequence n else pure ()).run s := by
    split
    · refine Free.locked fun s' (hmoves : Moves strict s s') (hsettled : Settled strict s') => ?_
      have himprove : Keeps ((contract strict sync).OthersWait (.webSocket events)) (contract strict sync).Acts
          (fun _ => True) (Visited (fun s => Serving strict s ∧ Covers s n ∧ (strict → Behind s))
            fun s => Serving strict s ∧ Covers s n ∧ ¬ strict) (improveCursor n).run s' :=
        improveCursor_keeps (holder_section _)
          (fun _ s₂ h₂ hcovers hfailing =>
            ⟨h₂.2.1, hcovers, fun hs => Bool.false_ne_true ((h₂.2.2 hs).symm.trans hfailing)⟩)
          (hn.moves hmoves) fun hs => (hsettled.behind hs).or n
      refine himprove.mono fun r s₂ hr => ?_
      cases r with
      | ok u => exact ⟨⟨hr.1, hr.2.2⟩, hr.2.1⟩
      | error e => exact ⟨⟨hr.1, fun hs => absurd hs hr.2.2⟩, hr.2⟩
    · exact hn
  refine (Free.bind fun r s' hr => ?_).1 hpersist
  cases r with
  | error e => exact ⟨hr.1, fun hs _ => absurd hs hr.2⟩
  | ok u => exact ⟨hr, fun _ ⟨e, he⟩ => nomatch he⟩

theorem advanceEvent_free (hn : Covers s n) (hleaf : (s.tables.insertion n).isSome) :
    (contract strict sync).Free (.webSocket events) (Ends strict n) (advanceEvent n) s := by
  unfold advanceEvent
  rcases checkedAdd_eq n with ⟨heq, hlt⟩ | ⟨heq, -⟩
  · simp only [heq]
    exact persistEvent_free n (hn.succ hleaf hlt)
  · simp only [heq]
    exact ⟨hn, fun _ _ => rfl⟩

/-- an event whose leaf is at the cursor moves it on only after the leaf is stored -/
theorem processEvent_free (event : EventMessage) (hn : Covers s n) :
    (contract strict sync).Free (.webSocket events) (Ends strict n) (processEvent sync event n) s := by
  unfold processEvent
  split
  · exact ⟨hn, fun _ _ => rfl⟩
  next insertion block _ =>
    split
    · exact ⟨hn, fun _ _ => rfl⟩
    · have hstore : (contract strict sync).Free (.webSocket events)
          (fun r s => Covers s n ∧ ∀ existing, r = .ok existing → (s.tables.insertion insertion.index).isSome)
          (storeTreeInsertionIfAbsent insertion block).run s := by
        refine Free.of_keeps (dbAccess_keeps (fun s' hs' _ => ?_) fun s' hs' => ?_)
        · have hcovers : Covers s' n := hn.moves hs'.1
          exact ⟨Quiet.refl s', hcovers, fun _ h => nomatch h⟩
        · have hquiet : Quiet strict s' { s' with tables := (s'.tables.storeTreeInsertionIfAbsent insertion block).1 } :=
            quiet_tables fun i hi => by
              obtain ⟨x, hx⟩ := Option.isSome_iff_exists.1 hi
              exact Option.isSome_iff_exists.2 ⟨x, storeTreeInsertionIfAbsent_keeps _ _ _ hx⟩
          have hcovers : Covers s' n := hn.moves hs'.1
          exact ⟨hquiet, hcovers.quiet hquiet, fun _ _ => storeTreeInsertionIfAbsent_stored _ _ _⟩
      refine (Free.bind fun r s' hr => ?_).1 hstore
      cases r with
      | error e => exact ⟨hr.1, fun _ _ => rfl⟩
      | ok existing =>
        simp only
        split
        · exact ⟨hr.1, fun _ _ => rfl⟩
        · split
          next heq => exact advanceEvent_free hr.1 (heq ▸ hr.2 existing rfl)
          next => exact ⟨hr.1, fun _ ⟨e, he⟩ => nomatch he⟩

theorem takeEvent_free (event : EventMessage) (hn : Covers s n) :
    (contract strict sync).Free (.webSocket events) (fun n s => Covers s n) (takeEvent sync n event) s := by
  refine (Free.bind fun r s' hr => ?_).1 (processEvent_free event hn)
  obtain ⟨result, next⟩ := r
  obtain ⟨hcovers, hends⟩ := hr
  intro s₂ hmoves _
  have hkept : Covers s₂ next := hcovers.moves hmoves
  refine ⟨⟨fun _ h => h, rfl, rfl, rfl, rfl, fun hs hrecorded p hp => ?_⟩, hkept⟩
  rcases List.mem_append.1 hp with hp | hp
  · exact hrecorded p hp
  · obtain rfl := List.mem_singleton.1 hp
    exact hends hs

theorem foldlM_takeEvent_free (rest : List EventMessage) (hn : Covers s n) :
    (contract strict sync).Free (.webSocket events) (fun _ _ => True) (rest.foldlM (takeEvent sync) n) s := by
  induction rest generalizing n s with
  | nil => trivial
  | cons event rest ih =>
    rw [List.foldlM_cons]
    exact (Free.bind fun next s' hnext => ih hnext).1 (takeEvent_free event hn)

end WebSocket

/-! ## Runs -/

/-- **The operations of the validator keep the contract.** -/
theorem cursor_lawful : (contract strict sync).Lawful where
  startup f s _ := startup_lawful f
  program op s _ := by
    cases op with
    | storeLogs leaves =>
      have hlogs : (contract strict sync).Free (.storeLogs leaves) (fun _ _ => True) (storeLogs leaves).run s :=
        Free.except_bind (refreshCursor_free _) (fun _ _ _ => foldlM_storeLeaf_free leaves 0) fun _ _ _ => trivial
      refine (Free.bind ?_).1 hlogs
      exact fun _ _ _ => trivial
    | webSocket events =>
      have hread : (contract strict sync).Free (.webSocket events) (fun n s => Covers s n)
          (Prog.read Store.nextSequence) s :=
        Free.of_keeps fun s' hs' => ⟨trivial, Quiet.refl s', hs'.2.next⟩
      refine (Free.bind fun n s hn => ?_).1 hread
      refine (Free.bind ?_).1 (foldlM_takeEvent_free events hn)
      exact fun _ _ _ => trivial

/-- what the accesses of an operation do to the leaves -/
def LeavesStay : Operation → Store → Store → Prop
  | .storeLogs _, _, _ => True
  | .webSocket _, a, b => ∀ i x, a.tables.insertion i = some x → b.tables.insertion i = some x

theorem leavesStay_refl (op : Operation) (s : Store) : LeavesStay op s s := by
  cases op with
  | storeLogs leaves => trivial
  | webSocket events => exact fun _ _ h => h

section LeavesStay

variable {events : List EventMessage}

theorem dbAccess_does {f : Store → Store} {q : Store → α} (h : ∀ s, LeavesStay (.webSocket events) s (f s)) :
    (dbAccess f q).run.Does (LeavesStay (.webSocket events)) := by
  refine ⟨fun s => ?_, fun s => trivial⟩
  unfold Store.apply
  split
  · exact leavesStay_refl _ s
  · exact h s

theorem persistEvent_does : (persistEvent n).Does (LeavesStay (.webSocket events)) := by
  have himprove : (improveCursor n).run.Does (LeavesStay (.webSocket events)) := by
    refine Prog.Does.except_bind ⟨fun s => leavesStay_refl _ s, fun _ => trivial⟩ fun persisted => ?_
    split
    · exact Prog.Does.except_bind (dbAccess_does fun s _ _ h => h)
        fun _ => ⟨fun s _ _ h => h, fun _ => trivial⟩
    · trivial
  refine Prog.Does.bind ?_ fun r => ?_
  · split
    · exact himprove.locked
    · trivial
  · cases r <;> trivial

theorem processEvent_does (event : EventMessage) :
    (processEvent sync event n).Does (LeavesStay (.webSocket events)) := by
  unfold processEvent
  split
  · trivial
  next insertion block _ =>
    split
    · trivial
    · refine Prog.Does.bind (dbAccess_does fun s i x h => storeTreeInsertionIfAbsent_keeps _ _ _ h) fun r => ?_
      cases r with
      | error e => trivial
      | ok existing =>
        simp only
        split
        · trivial
        · split
          · unfold advanceEvent
            rcases checkedAdd_eq n with ⟨heq, -⟩ | ⟨heq, -⟩
            · simp only [heq]
              exact persistEvent_does
            · simp only [heq]
              trivial
          · trivial

theorem foldlM_takeEvent_does (rest : List EventMessage) (n : UInt32) :
    (rest.foldlM (takeEvent sync) n).Does (LeavesStay (.webSocket events)) := by
  induction rest generalizing n with
  | nil => trivial
  | cons event rest ih =>
    rw [List.foldlM_cons]
    refine Prog.Does.bind (Prog.Does.bind (processEvent_does event) fun r => ?_) ih
    exact ⟨fun s _ _ h => h, fun _ => trivial⟩

end LeavesStay

theorem program_does (op : Operation) : ((validator sync).program op).Does (LeavesStay op) := by
  cases op with
  | storeLogs leaves => exact Prog.does_true _
  | webSocket events =>
    refine Prog.Does.bind ⟨fun s => leavesStay_refl _ s, fun _ => trivial⟩ fun n => ?_
    exact Prog.Does.bind (foldlM_takeEvent_does events n) fun _ => trivial

/-- what the cursor promises at the end of a run -/
structure CursorSound (sync : Sync) (start : Process Operation Store)
    (es : List (Happening UInt32 Operation Other)) : Prop where
  /-- from the count of the last snapshot up to the persisted and the cached cursor every leaf is stored -/
  covers : ∀ c, ((validator sync).run start es).store.persisted = some c ∨
    ((validator sync).run start es).store.cached = some c → Covers ((validator sync).run start es).store c
  /-- a `process_event` that ended with an error has left the sequence of its caller -/
  recorded : Recorded ((validator sync).run start es).store
  /-- whatever a `process_event` does next, the leaves that are stored stay as they are -/
  leaves : ∀ i t events, ((validator sync).run start es).tasks[i]? = some t → t.op = .webSocket events →
    ∀ k x, ((validator sync).run start es).store.tables.insertion k = some x →
      (((validator sync).run start es).advance i).store.tables.insertion k = some x
  /-- since the last snapshot the persisted cursor has not been lowered -/
  notLowered : ∀ es', es' <+: es →
    ((validator sync).run start es).store.snapshots = ((validator sync).run start es').store.snapshots →
    NotLowered ((validator sync).run start es').store.persisted ((validator sync).run start es).store.persisted

theorem fresh_inv (tables : Db.MerkleTables H256) (persisted : Option UInt32) :
    (contract strict sync).Inv (fresh tables persisted) :=
  ⟨(fun _ _ _ hf => nomatch hf), (fun _ _ _ hf => nomatch hf), fun _ _ hp => nomatch hp⟩

/-- in every run, whatever fails, the cursor covers -/
theorem covers_always (tables : Db.MerkleTables H256) (persisted : Option UInt32)
    (es : List (Happening UInt32 Operation Other)) {c : UInt32}
    (hc : ((validator sync).run (fresh tables persisted) es).store.persisted = some c ∨
      ((validator sync).run (fresh tables persisted) es).store.cached = some c) :
    Covers ((validator sync).run (fresh tables persisted) es).store c := by
  have hinv : (contract False sync).Inv ((validator sync).run (fresh tables persisted) es) :=
    (run_inv cursor_lawful (fresh_inv tables persisted)
      (Service.findsRun_of_forall _ (fun _ _ hfalse => False.elim hfalse) _ _)).1
  have hsafe : Safe False ((validator sync).run (fresh tables persisted) es).store := hinv.safe
  rcases hc with hc | hc
  · exact hsafe.persisted c hc
  · exact hsafe.cached c hc

/-- **The cursor is sound in every run in which no section fails half way.** -/
theorem cursor_sound (sync : Sync) (tables : Db.MerkleTables H256) (persisted : Option UInt32)
    {es : List (Happening UInt32 Operation Other)}
    (hspared : (validator sync).FindsRun Spared (fresh tables persisted) es) :
    CursorSound sync (fresh tables persisted) es := by
  have hfinds : (validator sync).FindsRun (contract True sync).Assumes (fresh tables persisted) es :=
    hspared.mono fun _ _ h _ => h
  have hinv := (run_inv cursor_lawful (fresh_inv tables persisted) hfinds).1
  have hsafe : Safe True ((validator sync).run (fresh tables persisted) es).store := hinv.safe
  refine ⟨fun c hc => covers_always tables persisted es hc, hsafe.recorded trivial, fun i t events ht hop => ?_,
    fun es' hes heq => ?_⟩
  · have hdoes : Service.TasksDo LeavesStay ((validator sync).run (fresh tables persisted) es) :=
      Service.run_does program_does (fun t ht => by cases ht) es
    have hstep := hdoes.advance ht (leavesStay_refl t.op)
    rw [hop] at hstep
    exact hstep
  · have hproceeds : Proceeds True _ _ := run_between cursor_lawful (fresh_inv tables persisted) hfinds hes
    exact hproceeds.notLowered trivial heq

instance : (op : Operation) → (s : Store) → Decidable (Spared op s)
  | .webSocket _, s => inferInstanceAs (Decidable (s.failing = false))
  | .storeLogs _, s =>
    -- the instances by name: `UInt32` also has a `Fintype` one, which would list all of its values
    have (p : UInt32) : Decidable (∃ i, p ≤ i ∧ s.tables.insertion i = none) :=
      @decidable_of_iff _ (∃ k : Fin UInt32.size, p ≤ UInt32.ofFin k ∧ s.tables.insertion (UInt32.ofFin k) = none)
        ⟨fun ⟨k, h⟩ => ⟨UInt32.ofFin k, h⟩, fun ⟨i, h⟩ => ⟨i.toFin, h⟩⟩ (Nat.decidableExistsFin _)
    have (p : UInt32) : Decidable (∀ c ∈ s.cached, c < p → s.failing = false ∧
        ∃ i, p ≤ i ∧ s.tables.insertion i = none) := Option.decidableForallMem s.cached
    show Decidable (∀ p ∈ s.persisted, ∀ c ∈ s.cached, c < p → s.failing = false ∧
      ∃ i, p ≤ i ∧ s.tables.insertion i = none) from Option.decidableForallMem s.persisted

/-! ## Runs that fail half way -/

def someHook : Sync := ⟨1, List.replicate 32 1⟩

def messageOne : H256 := List.replicate 32 7

/-- the event of a leaf of `messageOne` -/
def leafEvent (sequence : String) (leafIndex : UInt64) : EventMessage :=
  ⟨⟨.number 5, 1, .number leafIndex, "0x0101010101010101010101010101010101010101010101010101010101010101",
    "0x0707070707070707070707070707070707070707070707070707070707070707"⟩, 1, "merkle_tree_insertion", none, none,
    some sequence⟩

/-- a database with every leaf above one index and up to another -/
def leavesBetween (low high : UInt32) : Db.MerkleTables H256 :=
  ⟨fun i => if low < i ∧ i ≤ high then some ⟨i, messageOne⟩ else none, fun _ => none, fun _ => none⟩

/-- started at the leaf that is missing, the RPC fallback stores it and scans on -/
def scanFrom (leafIndex : UInt32) (steps : ℕ) : List (Happening UInt32 Operation Other) :=
  .boot leafIndex :: List.replicate 10 (.advance 0) ++
    .call (.storeLogs [(⟨leafIndex, messageOne⟩, 5)]) :: List.replicate steps (.advance 0)

/-- then the WebSocket sends the event of that leaf -/
def thenEvent (event : EventMessage) : List (Happening UInt32 Operation Other) :=
  .call (.webSocket [event]) :: List.replicate 10 (.advance 1)

/-- the scan comes to the last index there is -/
def scanToTheEnd : List (Happening UInt32 Operation Other) := scanFrom 4294966783 540

/-- the database fails when the scan reads leaf 512 -/
def scanInterrupted : List (Happening UInt32 Operation Other) :=
  scanFrom 255 267 ++ [.interfere (.failing true), .advance 0, .interfere (.failing false), .advance 0]

/-- the database fails when `process_event` persists its cursor -/
def eventInterrupted : List (Happening UInt32 Operation Other) :=
  .boot 255 :: List.replicate 10 (.advance 0) ++ .call (.webSocket [leafEvent "255" 255]) ::
    List.replicate 4 (.advance 0) ++ .interfere (.failing true) :: List.replicate 4 (.advance 0)

/-- a persisted cursor that is lower at the end of a run than it was, with no snapshot in between -/
theorem lowered_unsound {sync : Sync} {start : Process Operation Store} {es rest : List (Happening UInt32 Operation Other)}
    {c c' : UInt32} (hbefore : ((validator sync).run start es).store.persisted = some c)
    (hafter : ((validator sync).run start (es ++ rest)).store.persisted = some c') (hlt : c' < c)
    (hsame : ((validator sync).run start (es ++ rest)).store.snapshots = ((validator sync).run start es).store.snapshots) :
    ¬ CursorSound sync start (es ++ rest) := by
  intro h
  obtain ⟨x, hx, hle⟩ := h.notLowered es (List.prefix_append es rest) hsame c hbefore
  obtain rfl := Option.some.inj (hx.symm.trans hafter)
  exact UInt32.lt_irrefl _ (UInt32.lt_of_le_of_lt hle hlt)

/-- a scan that fails half way leaves the cached cursor behind, and the next event lowers the persisted one; a
`process_event` that fails to persist its cursor has moved it on -/
theorem cursor_unsound :
    ¬ CursorSound someHook (fresh (leavesBetween 4294966783 4294967295) none)
      (scanToTheEnd ++ thenEvent (leafEvent "4294966783" 4294966783)) ∧
    ¬ CursorSound someHook (fresh (leavesBetween 255 511) none) (scanInterrupted ++ thenEvent (leafEvent "255" 255)) ∧
    ¬ CursorSound someHook (fresh Db.MerkleTables.empty none) eventInterrupted := by
  refine ⟨?_, ?_, fun h => ?_⟩
  · have hbefore : ((validator someHook).run (fresh (leavesBetween 4294966783 4294967295) none)
        scanToTheEnd).store.persisted = some 4294967040 := by decide +kernel
    have hafter : ((validator someHook).run (fresh (leavesBetween 4294966783 4294967295) none)
        (scanToTheEnd ++ thenEvent (leafEvent "4294966783" 4294966783))).store.persisted = some 4294966784 := by
      decide +kernel
    exact lowered_unsound hbefore hafter (by decide) (by decide +kernel)
  · have hbefore : ((validator someHook).run (fresh (leavesBetween 255 511) none)
        scanInterrupted).store.persisted = some 512 := by decide +kernel
    have hafter : ((validator someHook).run (fresh (leavesBetween 255 511) none)
        (scanInterrupted ++ thenEvent (leafEvent "255" 255))).store.persisted = some 256 := by decide +kernel
    exact lowered_unsound hbefore hafter (by decide) (by decide +kernel)
  · have hprocessed : ((validator someHook).run (fresh Db.MerkleTables.empty none) eventInterrupted).store.processed =
        [⟨255, .error .database, 256⟩] := rfl
    have hkept := h.recorded ⟨255, .error .database, 256⟩ (hprocessed ▸ List.mem_singleton.2 rfl) ⟨.database, rfl⟩
    exact absurd hkept (by decide)

/-- both writers at work on the first two leaves -/
def quietStart : List (Happening UInt32 Operation Other) :=
  .boot 0 :: List.replicate 10 (.advance 0) ++
    [.call (.storeLogs [(⟨0, messageOne⟩, 5)]), .call (.webSocket [leafEvent "0" 0, leafEvent "1" 1])] ++
    List.replicate 20 (.advance 0) ++ List.replicate 10 (.advance 1)

theorem quietStart_sound : CursorSound someHook (fresh Db.MerkleTables.empty none) quietStart :=
  cursor_sound someHook Db.MerkleTables.empty none (by decide +kernel)

end Hyperlane.Validator.MerkleCursor
