/-
What the writers of the Merkle tree sync's cursor agree on (module `MerkleCursor`).

A sequence covers when it is at or above the count of the last snapshot, with every leaf in between stored. The values
under the key and in the shared state cover, and so does the `next_sequence` of a WebSocket; a value that was read before
the lock was taken still covers when it is used, because leaves are only added, and the count changes only while nothing
else of the sync runs.

The persisted copy must not go back either, and an error of `process_event` must leave the caller's `next_sequence`. Both
need more than that: `advance_cursor` writes the persisted copy on its way, and when it then fails, the cached copy stays
below it, so that a later write of the WebSocket lowers it; and `process_event` moves the sequence of its caller on before
it writes the persisted copy. The contract is therefore stated with a parameter: `strict` adds these two promises, and what
the holders of the lock must then find (`Spared`).

- `scanLeaves_keeps`: the loop over the leaves, for whoever runs it.
- `improveCursor_keeps`: the write on improvement, at the startup or under the lock.
-/
import Hyperlane.Validator.MerkleCursor

namespace Hyperlane.Validator.MerkleCursor

open Interleaving Contract

/-! ## What a cursor promises -/

/-- from the count of the last snapshot up to the sequence every leaf is stored -/
def Covers (s : Store) (n : UInt32) : Prop :=
  ∀ f, s.snapshots.head? = some f → f ≤ n ∧ ∀ i, f ≤ i → i < n → (s.tables.insertion i).isSome

/-- an error of `process_event` leaves the sequence of its caller -/
def Recorded (s : Store) : Prop := ∀ p ∈ s.processed, (∃ e, p.result = .error e) → p.after = p.before

/-- the persisted copy is not above the cached one -/
def Behind (s : Store) : Prop := ∃ c, s.cached = some c ∧ ∀ p, s.persisted = some p → p ≤ c

/-- a value under the key stays, or gives way to one that is not below it -/
def NotLowered (a b : Option UInt32) : Prop := ∀ c, a = some c → ∃ c', b = some c' ∧ c ≤ c'

theorem NotLowered.refl (a : Option UInt32) : NotLowered a a := fun c hc => ⟨c, hc, UInt32.le_refl c⟩

theorem NotLowered.trans {a b c : Option UInt32} (h : NotLowered a b) (h' : NotLowered b c) : NotLowered a c := by
  intro x hx
  obtain ⟨y, hy, hxy⟩ := h x hx
  obtain ⟨z, hz, hyz⟩ := h' y hy
  exact ⟨z, hz, UInt32.le_trans hxy hyz⟩

variable (strict : Prop)

structure Safe (s : Store) : Prop where
  persisted : ∀ c, s.persisted = some c → Covers s c
  cached : ∀ c, s.cached = some c → Covers s c
  recorded : strict → Recorded s

structure Serving (s : Store) : Prop where
  safe : Safe strict s
  next : Covers s s.nextSequence

structure Settled (s : Store) : Prop where
  serving : Serving strict s
  behind : strict → Behind s

/-- what the sync and the others do without the lock -/
structure Quiet (a b : Store) : Prop where
  leaves : ∀ i, (a.tables.insertion i).isSome → (b.tables.insertion i).isSome
  persisted : b.persisted = a.persisted
  cached : b.cached = a.cached
  nextSequence : b.nextSequence = a.nextSequence
  snapshots : b.snapshots = a.snapshots
  recorded : strict → Recorded a → Recorded b

/-- what they do while the validator serves -/
structure Moves (a b : Store) : Prop where
  leaves : ∀ i, (a.tables.insertion i).isSome → (b.tables.insertion i).isSome
  nextSequence : b.nextSequence = a.nextSequence
  snapshots : b.snapshots = a.snapshots
  notLowered : strict → NotLowered a.persisted b.persisted

/-- between two snapshots the persisted copy is not lowered -/
structure Proceeds (a b : Store) : Prop where
  snapshots : a.snapshots <:+ b.snapshots
  notLowered : strict → b.snapshots = a.snapshots → NotLowered a.persisted b.persisted

/-- what an operation that holds the lock must find before an access: `store_logs` no failure, and no full database, that
would end its section while the persisted copy is above the cached one; the WebSocket no failure -/
def Spared : Operation → Store → Prop
  | .storeLogs _, s => ∀ p, s.persisted = some p → ∀ c, s.cached = some c → c < p →
      s.failing = false ∧ ∃ i, p ≤ i ∧ s.tables.insertion i = none
  | .webSocket _, s => s.failing = false

variable {strict} {a b s : Store} {n : UInt32}

theorem Covers.mono (h : Covers a n) (hleaves : ∀ i, (a.tables.insertion i).isSome → (b.tables.insertion i).isSome)
    (hsnapshots : b.snapshots = a.snapshots) : Covers b n := by
  intro f hf
  obtain ⟨hle, hall⟩ := h f (hsnapshots ▸ hf)
  exact ⟨hle, fun i hi hin => hleaves i (hall i hi hin)⟩

theorem Quiet.refl (s : Store) : Quiet strict s s := ⟨fun _ h => h, rfl, rfl, rfl, rfl, fun _ h => h⟩

theorem Quiet.trans {c : Store} (h : Quiet strict a b) (h' : Quiet strict b c) : Quiet strict a c where
  leaves i hi := h'.leaves i (h.leaves i hi)
  persisted := h'.persisted.trans h.persisted
  cached := h'.cached.trans h.cached
  nextSequence := h'.nextSequence.trans h.nextSequence
  snapshots := h'.snapshots.trans h.snapshots
  recorded hs ha := h'.recorded hs (h.recorded hs ha)

theorem Quiet.moves (h : Quiet strict a b) : Moves strict a b :=
  ⟨h.leaves, h.nextSequence, h.snapshots, fun _ => h.persisted ▸ NotLowered.refl a.persisted⟩

theorem Moves.trans {c : Store} (h : Moves strict a b) (h' : Moves strict b c) : Moves strict a c where
  leaves i hi := h'.leaves i (h.leaves i hi)
  nextSequence := h'.nextSequence.trans h.nextSequence
  snapshots := h'.snapshots.trans h.snapshots
  notLowered hs := (h.notLowered hs).trans (h'.notLowered hs)

theorem Moves.refl (s : Store) : Moves strict s s := (Quiet.refl s).moves

theorem Moves.proceeds (h : Moves strict a b) : Proceeds strict a b :=
  ⟨h.snapshots ▸ List.suffix_refl _, fun hs _ => h.notLowered hs⟩

theorem Proceeds.trans {c : Store} (h : Proceeds strict a b) (h' : Proceeds strict b c) : Proceeds strict a c := by
  refine ⟨h.snapshots.trans h'.snapshots, fun hs heq => ?_⟩
  -- with the same snapshots at both ends there are no others in between
  have hb : b.snapshots = a.snapshots :=
    (h.snapshots.eq_of_length (Nat.le_antisymm h.snapshots.length_le (heq ▸ h'.snapshots.length_le))).symm
  exact (h.notLowered hs hb).trans (h'.notLowered hs (heq.trans hb.symm))

theorem Covers.quiet (h : Covers a n) (hq : Quiet strict a b) : Covers b n := h.mono hq.leaves hq.snapshots

theorem Covers.moves (h : Covers a n) (hm : Moves strict a b) : Covers b n := h.mono hm.leaves hm.snapshots

theorem Safe.quiet (h : Safe strict a) (hq : Quiet strict a b) : Safe strict b where
  persisted c hc := (h.persisted c (hq.persisted ▸ hc)).quiet hq
  cached c hc := (h.cached c (hq.cached ▸ hc)).quiet hq
  recorded hs := hq.recorded hs (h.recorded hs)

theorem Serving.quiet (h : Serving strict a) (hq : Quiet strict a b) : Serving strict b :=
  ⟨h.safe.quiet hq, hq.nextSequence ▸ h.next.quiet hq⟩

theorem Behind.quiet (h : Behind a) (hq : Quiet strict a b) : Behind b := by
  obtain ⟨c, hc, hle⟩ := h
  exact ⟨c, hq.cached.trans hc, fun p hp => hle p (hq.persisted ▸ hp)⟩

theorem Settled.quiet (h : Settled strict a) (hq : Quiet strict a b) : Settled strict b :=
  ⟨h.serving.quiet hq, fun hs => (h.behind hs).quiet hq⟩

/-! ## The writes -/

/-- the key holds a sequence that covers -/
theorem Safe.persist (h : Safe strict s) (hn : Covers s n) : Safe strict { s with persisted := some n } where
  persisted c hc := by
    obtain rfl := Option.some.inj hc
    exact hn
  cached := h.cached
  recorded := h.recorded

theorem Safe.cache (h : Safe strict s) (hn : Covers s n) : Safe strict { s with cached := some n } where
  persisted := h.persisted
  cached c hc := by
    obtain rfl := Option.some.inj hc
    exact hn
  recorded := h.recorded

theorem Serving.persist (h : Serving strict s) (hn : Covers s n) : Serving strict { s with persisted := some n } :=
  ⟨h.safe.persist hn, h.next⟩

theorem Serving.cache (h : Serving strict s) (hn : Covers s n) : Serving strict { s with cached := some n } :=
  ⟨h.safe.cache hn, h.next⟩

theorem storeTreeInsertionInner_leaves (t : Db.MerkleTables H256) (insertion : MerkleTreeInsertion) (block : UInt64)
    {i : UInt32} (h : (t.insertion i).isSome) : ((t.storeTreeInsertionInner insertion block).1.insertion i).isSome := by
  by_cases hi : i = insertion.index
  · subst hi
    simp [Db.MerkleTables.storeTreeInsertionInner]
  · simpa [Db.MerkleTables.storeTreeInsertionInner, Function.update_of_ne hi] using h

theorem processTreeInsertion_leaves (t : Db.MerkleTables H256) (insertion : MerkleTreeInsertion) (block : UInt64)
    {i : UInt32} (h : (t.insertion i).isSome) : ((t.processTreeInsertion insertion block).1.insertion i).isSome := by
  unfold Db.MerkleTables.processTreeInsertion
  split
  · split
    · exact h
    · exact storeTreeInsertionInner_leaves t insertion block h
  · exact storeTreeInsertionInner_leaves t insertion block h

/-- a leaf that is stored stays as it is -/
theorem storeTreeInsertionIfAbsent_keeps (t : Db.MerkleTables H256) (insertion : MerkleTreeInsertion) (block : UInt64)
    {i : UInt32} {x : MerkleTreeInsertion} (h : t.insertion i = some x) :
    (t.storeTreeInsertionIfAbsent insertion block).1.insertion i = some x := by
  unfold Db.MerkleTables.storeTreeInsertionIfAbsent
  split
  · exact h
  next habsent =>
    have hi : i ≠ insertion.index := by
      rintro rfl
      cases habsent.symm.trans h
    simpa [Db.MerkleTables.storeTreeInsertionInner, Function.update_of_ne hi] using h

/-- the leaf of the event is stored afterwards -/
theorem storeTreeInsertionIfAbsent_stored (t : Db.MerkleTables H256) (insertion : MerkleTreeInsertion)
    (block : UInt64) : ((t.storeTreeInsertionIfAbsent insertion block).1.insertion insertion.index).isSome := by
  unfold Db.MerkleTables.storeTreeInsertionIfAbsent
  split
  next existing h => exact Option.isSome_iff_exists.2 ⟨existing, h⟩
  · simp [Db.MerkleTables.storeTreeInsertionInner]

/-- a write to the tables that keeps the leaves is quiet -/
theorem quiet_tables {t : Db.MerkleTables H256}
    (h : ∀ i, (s.tables.insertion i).isSome → (t.insertion i).isSome) : Quiet strict s { s with tables := t } :=
  ⟨h, rfl, rfl, rfl, rfl, fun _ hr => hr⟩

/-! ## The contract -/

variable (strict) (sync : Sync)

def contract : Contract (validator sync) where
  Safe := Safe strict
  Serving := Serving strict
  Settled := Settled strict
  Assumes op s := strict → Spared op s
  U := Quiet strict
  T := Moves strict
  K := Proceeds strict
  U_refl := Quiet.refl
  U_trans := Quiet.trans
  T_trans := Moves.trans
  U_T := Quiet.moves
  T_K := Moves.proceeds
  K_trans := Proceeds.trans
  serving_safe := Serving.safe
  settled_serving := Settled.serving
  safe_U := Safe.quiet
  serving_U := Serving.quiet
  settled_U := Settled.quiet
  interfere_U e s := by
    cases e with
    | failing failing => exact ⟨fun _ h => h, rfl, rfl, rfl, rfl, fun _ h => h⟩
    | storeTreeInsertion insertion block => exact quiet_tables fun _ h => storeTreeInsertionInner_leaves _ _ _ h
  safe_crash h := ⟨h.persisted, (fun _ hc => nomatch hc), h.recorded⟩
  crash_K s := ⟨List.suffix_refl _, fun _ _ => NotLowered.refl _⟩

variable {strict} {sync} {α : Type} {R G : Store → Store → Prop}

/-! ## Accesses to the database -/

theorem dbAccess_keeps {f : Store → Store} {q : Store → α} {Q : Except SyncError α → Store → Prop}
    (hfail : ∀ s', R s s' → s'.failing = true → G s' s' ∧ Q (.error .database) s')
    (hok : ∀ s', R s s' → G s' (f s') ∧ Q (.ok (q s')) (f s')) :
    Keeps R G (fun _ => True) Q (dbAccess f q).run s := by
  intro s' hs'
  cases hfailing : s'.failing with
  | true =>
    obtain ⟨hg, hq⟩ := hfail s' hs' hfailing
    simp only [Store.apply, Store.query, hfailing, if_true]
    exact ⟨trivial, hg, hq⟩
  | false =>
    obtain ⟨hg, hq⟩ := hok s' hs'
    simp only [Store.apply, Store.query, hfailing, Bool.false_eq_true, if_false]
    exact ⟨trivial, hg, hq⟩

/-- the outcome of a scan: `A` at the sequence it ends at, or `Failed` -/
def Scanned (A : UInt32 → Store → Prop) (Failed : Store → Prop) : Except SyncError UInt32 → Store → Prop
  | .ok n, s => A n s
  | .error _, s => Failed s

/-- the outcome of a visit -/
def Visited (A : Store → Prop) (Failed : Store → Prop) : Except SyncError Unit → Store → Prop
  | .ok (), s => A s
  | .error _, s => Failed s

theorem checkedAdd_eq (n : UInt32) :
    (checkedAdd n = pure (n + 1) ∧ n.toNat + 1 < UInt32.size) ∨ (checkedAdd n = throw .sequenceExhausted ∧
      n.toNat + 1 = UInt32.size) := by
  unfold checkedAdd
  split
  next h => exact .inl ⟨rfl, h⟩
  next h =>
    have := n.toNat_lt_size
    exact .inr ⟨rfl, by omega⟩

/-- a loop over the leaves keeps what its visits keep: `A` at each sequence it comes to -/
theorem scanLeaves_keeps {visit : UInt32 → Fallible Unit} {A : UInt32 → Store → Prop} {Failed : Store → Prop}
    (hstable : ∀ n s s', A n s → R s s' → A n s' ∧ G s' s')
    (hfail : ∀ n s s', A n s → R s s' → s'.failing = true → Failed s')
    (hfull : ∀ n s s', A n s → R s s' → (s'.tables.insertion n).isSome → n.toNat + 1 = UInt32.size → Failed s')
    (hvisit : ∀ n s s', A n s → R s s' → (s'.tables.insertion n).isSome → n.toNat + 1 < UInt32.size →
      Keeps R G (fun _ => True) (Visited (A (n + 1)) Failed) (visit (n + 1)).run s')
    (fuel : ℕ) (h : A n s) :
    Keeps R G (fun _ => True) (Scanned A Failed) (scanLeaves visit fuel n).run s := by
  induction fuel generalizing n s with
  | zero => exact h
  | succ fuel ih =>
    rw [scanLeaves]
    have hread : Keeps R G (fun _ => True) (fun r s' => (∀ e, r = .error e → Failed s') ∧
        ∀ x, r = .ok x → ∃ s, A n s ∧ R s s' ∧ x = s'.tables.insertion n)
        (retrieveMerkleTreeInsertionByLeafIndex n).run s := by
      refine dbAccess_keeps (fun s' hs' hfailing => ⟨(hstable n s s' h hs').2, fun _ _ => hfail n s s' h hs' hfailing, ?_⟩)
        fun s' hs' => ⟨(hstable n s s' h hs').2, ?_, fun x hx => ⟨s, h, hs', (Except.ok.inj hx).symm⟩⟩
      · intro x hx
        cases hx
      · intro e he
        cases he
    refine Contract.Keeps.except_bind hread (fun x s' hx => ?_) fun e _ he => he.1 e rfl
    obtain ⟨s, hA, hR, rfl⟩ := hx.2 x rfl
    cases hleaf : s'.tables.insertion n with
    | none => exact (hstable n s s' hA hR).1
    | some x =>
      have hstored : (s'.tables.insertion n).isSome := Option.isSome_iff_exists.2 ⟨x, hleaf⟩
      rcases checkedAdd_eq n with ⟨heq, hlt⟩ | ⟨heq, hsize⟩
      · simp only [heq]
        change Keeps R G _ _ (visit (n + 1) >>= fun _ => scanLeaves visit fuel (n + 1)).run s'
        exact Contract.Keeps.except_bind (hvisit n s s' hA hR hstored hlt) (fun _ s'' hnext => ih hnext)
          fun _ _ he => he
      · simp only [heq]
        exact hfull n s s' hA hR hstored hsize

/-- the next sequence covers when its leaf is stored -/
theorem Covers.succ (h : Covers s n) (hleaf : (s.tables.insertion n).isSome) (hn : n.toNat + 1 < UInt32.size) :
    Covers s (n + 1) := by
  have hsucc : (n + 1).toNat = n.toNat + 1 := by
    rw [UInt32.toNat_add]
    exact Nat.mod_eq_of_lt hn
  intro f hf
  obtain ⟨hle, hall⟩ := h f hf
  rw [UInt32.le_iff_toNat_le] at hle
  refine ⟨by rw [UInt32.le_iff_toNat_le]; omega, fun i hi hin => ?_⟩
  rw [UInt32.lt_iff_toNat_lt] at hin
  by_cases heq : i = n
  · exact heq ▸ hleaf
  · refine hall i hi ?_
    have hne : i.toNat ≠ n.toNat := fun h => heq (UInt32.toNat_inj.1 h)
    rw [UInt32.lt_iff_toNat_lt]
    omega

/-! ## The write on improvement -/

/-- the persisted copy is not above the cached one, or not above `n` -/
def BehindOr (n : UInt32) (s : Store) : Prop := ∃ c, s.cached = some c ∧ ∀ p, s.persisted = some p → p ≤ c ∨ p ≤ n

theorem Behind.or (h : Behind s) (n : UInt32) : BehindOr n s := by
  obtain ⟨c, hc, hle⟩ := h
  exact ⟨c, hc, fun p hp => .inl (hle p hp)⟩

theorem BehindOr.quiet (h : BehindOr n a) (hq : Quiet strict a b) : BehindOr n b := by
  obtain ⟨c, hc, hle⟩ := h
  exact ⟨c, hq.cached.trans hc, fun p hp => hle p (hq.persisted ▸ hp)⟩

/-- a section that runs beside quiet steps, keeps `X` and makes moves -/
structure Section (strict : Prop) (R G : Store → Store → Prop) (X : Store → Prop) : Prop where
  kept : ∀ s s', R s s' → X s'
  quiet : ∀ s s', R s s' → Quiet strict s s'
  moves : ∀ s s', X s' → Moves strict s s' → G s s'
  persist : ∀ s n, X s → Covers s n → X { s with persisted := some n }
  cache : ∀ s n, X s → Covers s n → X { s with cached := some n }

theorem improveCursor_keeps {X : Store → Prop} (hsection : Section strict R G X) {Failed : Store → Prop}
    (hfail : ∀ s s', R s s' → Covers s' n → s'.failing = true → Failed s') (hn : Covers s n)
    (hbehind : strict → BehindOr n s) :
    Keeps R G (fun _ => True) (Visited (fun s => X s ∧ Covers s n ∧ (strict → Behind s)) Failed)
      (improveCursor n).run s := by
  intro s₁ h₁
  have hq₁ := hsection.quiet s s₁ h₁
  have hX₁ := hsection.kept s s₁ h₁
  refine ⟨trivial, hsection.moves _ _ hX₁ (Moves.refl s₁), ?_⟩
  change Keeps R G _ _ (if s₁.cached.all (· < n) then do
    storeNextSequence n
    setCursor n else pure () : Fallible Unit).run s₁
  split
  next hall =>
    -- the key first: the cached copy is below `n`, and so is what the key held
    have hstore : Keeps R G (fun _ => True) (Visited (fun s => X s ∧ Covers s n ∧ s.persisted = some n) Failed)
        (storeNextSequence n).run s₁ := by
      refine dbAccess_keeps (fun s₂ h₂ hfailing => ⟨hsection.moves _ _ (hsection.kept _ _ h₂) (Moves.refl s₂),
        hfail s₁ s₂ h₂ ((hn.quiet hq₁).quiet (hsection.quiet s₁ s₂ h₂)) hfailing⟩) fun s₂ h₂ => ?_
      have hq₂ := hsection.quiet s₁ s₂ h₂
      have hcovers := (hn.quiet hq₁).quiet hq₂
      have hkept := hsection.persist s₂ n (hsection.kept s₁ s₂ h₂) hcovers
      refine ⟨hsection.moves _ _ hkept ⟨fun _ h => h, rfl, rfl, fun hs p hp => ?_⟩, hkept, hcovers, rfl⟩
      obtain ⟨c, hc, hle⟩ := ((hbehind hs).quiet hq₁).quiet hq₂
      have hcn : c < n := by
        rw [← hq₂.cached, hc] at hall
        simpa using hall
      refine ⟨n, rfl, (hle p hp).elim (fun h => ?_) id⟩
      exact UInt32.le_trans h (UInt32.le_of_lt hcn)
    refine Contract.Keeps.except_bind hstore ?_ fun _ _ he => he
    rintro ⟨⟩ s₂ ⟨hX₂, hcovers, hpersisted⟩
    intro s₃ h₃
    have hq₃ := hsection.quiet s₂ s₃ h₃
    have hcovers₃ := hcovers.quiet hq₃
    have hkept := hsection.cache s₃ n (hsection.kept s₂ s₃ h₃) hcovers₃
    refine ⟨trivial, hsection.moves _ _ hkept ⟨fun _ h => h, rfl, rfl, fun _ => NotLowered.refl _⟩, hkept, hcovers₃,
      fun _ => ⟨n, rfl, fun p hp => ?_⟩⟩
    obtain rfl := Option.some.inj (hp.symm.trans (hq₃.persisted.trans hpersisted))
    exact UInt32.le_refl p
  next hall =>
    -- the cached copy is at `n` or above
    refine ⟨hX₁, hn.quiet hq₁, fun hs => ?_⟩
    obtain ⟨c, hc, hle⟩ := (hbehind hs).quiet hq₁
    have hnc : n ≤ c := by
      rw [hc] at hall
      simpa using hall
    exact ⟨c, hc, fun p hp => (hle p hp).elim id fun h => UInt32.le_trans h hnc⟩

theorem startup_section : Section strict (contract strict sync).NobodyActs (contract strict sync).Starts
    (Safe strict) where
  kept _ _ h := h.2
  quiet _ _ h := h.1
  moves _ _ hX h := ⟨h.proceeds, hX⟩
  persist _ _ hX hn := hX.persist hn
  cache _ _ hX hn := hX.cache hn

theorem holder_section (op : Operation) : Section strict ((contract strict sync).OthersWait op)
    (contract strict sync).Acts (Serving strict) where
  kept _ _ h := h.2.1
  quiet _ _ h := h.1
  moves _ _ hX h := ⟨h, hX⟩
  persist _ _ hX hn := hX.persist hn
  cache _ _ hX hn := hX.cache hn

end Hyperlane.Validator.MerkleCursor
