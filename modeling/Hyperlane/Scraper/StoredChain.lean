/-
What the near-head scraper stores, as one chain.

The rows are the events above the start of a chain that was canonical at some moment, the head row names its last block,
and the checkpoints lie on it (`StoredChain`). A transaction is proved against what the call has found out about the chain
before it, never against the chain of its own moment.

- `StoredChain.same`: one hash at the tip, one chain.
- `StoredChain.observe`, `StoredChain.append`, `StoredChain.confirm`: what each transaction makes of it.
- `Kept`: what stays of a store for good. `Forward`: what else stays while no observation drops anything.
-/
import Hyperlane.Scraper.NearHead

namespace Hyperlane.Scraper

open Interleaving ChainHistory Relayer

/-- the events of the blocks above a height -/
def eventsAbove (height : ℕ) (p : List Block) : List Event := (p.drop (height + 1)).flatMap Block.events

/-- the store holds the chain `p` -/
structure StoredChain (s : Store) (p : List Block) : Prop where
  canonical : ∃ n, Goes s.history n p
  length : p.length = s.head.indexedHeight + 1
  tip : HashAt links p s.head.indexedHeight s.head.indexedHash
  rows : s.rows = eventsAbove s.head.startHeight p
  start : s.head.startHeight ≤ s.head.confirmedHeight
  confirmed : s.head.confirmedHeight ≤ s.head.indexedHeight
  checkpoints : ∀ c ∈ s.checkpoints, HashAt links p c.1 c.2
  confirmedKept : ∃ c ∈ s.checkpoints, c.1 = s.head.confirmedHeight
  indexedKept : (s.head.indexedHeight, s.head.indexedHash) ∈ s.checkpoints

structure InOrder (s : Store) : Prop where
  coherent : Coherent links s.history
  stored : ∃ p, StoredChain s p

/-- what stays for good -/
structure Kept (a b : Store) : Prop where
  history : a.history <+: b.history
  start : b.head.startHeight = a.head.startHeight
  confirmed : a.head.confirmedHeight ≤ b.head.confirmedHeight
  rows : b.rows.filter (·.blockNumber ≤ a.head.confirmedHeight) = a.rows.filter (·.blockNumber ≤ a.head.confirmedHeight)

/-- what stays while no observation drops anything -/
structure Forward (a b : Store) : Prop extends Kept a b where
  indexed : a.head.indexedHeight ≤ b.head.indexedHeight
  hash : b.head.indexedHeight = a.head.indexedHeight → b.head.indexedHash = a.head.indexedHash
  checkpoints : ∀ c ∈ a.checkpoints, b.head.confirmedHeight ≤ c.1 → c ∈ b.checkpoints

theorem Kept.refl (s : Store) : Kept s s := ⟨List.prefix_refl _, rfl, le_rfl, rfl⟩

/-- rows up to a height are among those up to a higher one -/
theorem filter_rows {rows rows' : List Event} {m n : ℕ} (hmn : m ≤ n)
    (h : rows.filter (·.blockNumber ≤ n) = rows'.filter (·.blockNumber ≤ n)) :
    rows.filter (·.blockNumber ≤ m) = rows'.filter (·.blockNumber ≤ m) := by
  have hlow : ∀ rows : List Event,
      rows.filter (·.blockNumber ≤ m) = (rows.filter (·.blockNumber ≤ n)).filter (·.blockNumber ≤ m) := by
    intro rows
    rw [List.filter_filter]
    refine List.filter_congr fun e _ => ?_
    rw [← Bool.decide_and, decide_eq_decide]
    exact ⟨fun h => ⟨h, h.trans hmn⟩, And.left⟩
  calc rows.filter (·.blockNumber ≤ m)
      = (rows.filter (·.blockNumber ≤ n)).filter (·.blockNumber ≤ m) := hlow rows
    _ = (rows'.filter (·.blockNumber ≤ n)).filter (·.blockNumber ≤ m) := by rw [h]
    _ = rows'.filter (·.blockNumber ≤ m) := (hlow rows').symm

theorem Kept.trans {a b c : Store} (h : Kept a b) (h' : Kept b c) : Kept a c where
  history := h.history.trans h'.history
  start := h'.start.trans h.start
  confirmed := h.confirmed.trans h'.confirmed
  rows := (filter_rows h.confirmed h'.rows).trans h.rows

theorem Forward.refl (s : Store) : Forward s s := ⟨Kept.refl s, le_rfl, fun _ => rfl, fun _ h _ => h⟩

theorem Forward.trans {a b c : Store} (h : Forward a b) (h' : Forward b c) : Forward a c where
  toKept := h.toKept.trans h'.toKept
  indexed := h.indexed.trans h'.indexed
  hash hheight := by
    have hle := h.indexed
    have hle' := h'.indexed
    rw [h'.hash (by omega), h.hash (by omega)]
  checkpoints x hx hheight := h'.checkpoints x (h.checkpoints x hx (h'.confirmed.trans hheight)) hheight

/-! ## The events of a chain -/

section Events

variable {p q : List Block} {below : Option H256} {i k n : ℕ}

theorem event_number {b : Block} {e : Event} (h : e ∈ b.events) : e.blockNumber = b.header.height := by
  obtain ⟨log, -, rfl⟩ := List.mem_map.1 h
  rfl

theorem events_number (h : ChainFrom links n below p) : ∀ e ∈ p.flatMap Block.events,
    n ≤ e.blockNumber ∧ e.blockNumber < n + p.length := by
  intro e he
  obtain ⟨b, hb, he⟩ := List.mem_flatMap.1 he
  obtain ⟨i, hi⟩ := List.mem_iff_getElem?.1 hb
  have hlt := (List.getElem?_eq_some_iff.1 hi).1
  have hheight : b.header.height = n + i := h.height hi
  rw [event_number he]
  omega

/-- the events come in the order of their blocks -/
theorem events_sorted (h : ChainFrom links n below p) :
    (p.flatMap Block.events).Pairwise fun e e' => e.blockNumber ≤ e'.blockNumber := by
  induction p generalizing n below with
  | nil => exact List.Pairwise.nil
  | cons b p ih =>
    obtain ⟨hheight, -, hrest⟩ := h
    have hheight : b.header.height = n := hheight
    rw [List.flatMap_cons, List.pairwise_append]
    refine ⟨List.pairwise_map.2 (List.pairwise_of_forall fun _ _ => le_rfl), ih hrest, fun e he e' he' => ?_⟩
    have hlow := (events_number hrest e' he').1
    rw [event_number he]
    omega

theorem filter_events (h : ChainFrom links n below p) (k : ℕ) :
    (p.flatMap Block.events).filter (·.blockNumber ≤ k) = (p.take (k + 1 - n)).flatMap Block.events := by
  induction p generalizing n below with
  | nil => rw [List.take_nil, List.flatMap_nil, List.filter_nil]
  | cons b p ih =>
    obtain ⟨hheight, -, hrest⟩ := h
    have hheight : b.header.height = n := hheight
    rw [List.flatMap_cons, List.filter_append, ih hrest]
    by_cases hk : n ≤ k
    · have hall : ∀ e ∈ b.events, decide (e.blockNumber ≤ k) = true := fun e he =>
        decide_eq_true (by rw [event_number he]; omega)
      rw [List.filter_eq_self.2 hall, show k + 1 - n = (k + 1 - (n + 1)) + 1 by omega, List.take_succ_cons,
        List.flatMap_cons]
    · have hnone : ∀ e ∈ b.events, ¬ decide (e.blockNumber ≤ k) = true := fun e he => by
        rw [decide_eq_true_iff, event_number he]
        omega
      rw [List.filter_eq_nil_iff.2 hnone, show k + 1 - n = 0 by omega, show k + 1 - (n + 1) = 0 by omega,
        List.take_zero, List.take_zero, List.nil_append]

theorem eventsAbove_number (h : ChainFrom links 0 none p) : ∀ e ∈ eventsAbove i p,
    i < e.blockNumber ∧ e.blockNumber < p.length := by
  obtain ⟨below, hdrop⟩ := h.drop (i + 1)
  intro e he
  have hnumber := events_number hdrop e he
  rw [List.length_drop] at hnumber
  omega

/-- without the events above a height the chain ends there -/
theorem eventsAbove_filter (h : ChainFrom links 0 none p) :
    (eventsAbove i p).filter (·.blockNumber ≤ k) = eventsAbove i (p.take (k + 1)) := by
  obtain ⟨below, hdrop⟩ := h.drop (i + 1)
  rw [eventsAbove, eventsAbove, filter_events hdrop, List.drop_take, Nat.zero_add]

/-- the events of a chain and of its extension -/
theorem eventsAbove_append (hi : i ≤ n) (hn : n < q.length) :
    eventsAbove i (q.take (n + 1)) ++ eventsAbove n q = eventsAbove i q := by
  rw [eventsAbove, eventsAbove, eventsAbove, ← List.flatMap_append]
  have hsplit : q.drop (i + 1) = (q.take (n + 1)).drop (i + 1) ++ q.drop (n + 1) := by
    conv_lhs => rw [← List.take_append_drop (n + 1) q]
    exact List.drop_append_of_le_length (by rw [List.length_take]; omega)
  rw [hsplit]

end Events

/-! ## Transactions, when they go through -/

section Transactions

variable {s after : Store} {p q : List Block} {expected : State}

theorem transact_ok {change : Store → Except String Store} (h : s.transact change = .ok after) :
    change s = .ok after := by
  unfold Store.transact at h
  by_cases hfailing : s.dbFailing
  · rw [if_pos hfailing] at h
    cases h
  rw [if_neg hfailing] at h
  cases hchange : change s with
  | error e =>
    rw [hchange] at h
    cases h
  | ok t =>
    rw [hchange] at h
    change (if ¬ t.head.Valid then _ else _) = _ at h
    by_cases hvalid : t.head.Valid
    · rw [if_neg (not_not.2 hvalid)] at h
      exact h
    · rw [if_pos hvalid] at h
      cases h

theorem observe_cases {ancestor head : Header} (h : s.observe expected ancestor head = .ok after) :
    s.head.indexedHash = expected.hash ∧ s.head.confirmedHeight ≤ ancestor.height ∧
      after = { if ancestor.hash ≠ expected.hash then s.deleteAbove ancestor.height else s with head := { s.head with
        indexedHeight := ancestor.height, indexedHash := ancestor.hash, headHeight := head.height, healthy := true } } := by
  by_cases hstate : s.head.halted ∨ s.head.indexedHash ≠ expected.hash
  · simp only [Store.observe, if_pos hstate] at h
    cases h
  by_cases hconf : ancestor.height < s.head.confirmedHeight
  · simp only [Store.observe, if_neg hstate, if_pos hconf] at h
    cases h
  rw [not_or, not_not] at hstate
  refine ⟨hstate.2, not_lt.1 hconf, ?_⟩
  simp only [Store.observe] at h
  rw [if_neg (not_or.2 ⟨hstate.1, not_not.2 hstate.2⟩), if_neg hconf] at h
  exact (Except.ok.inj h).symm

theorem append_cases {blocks : List (Header × List Event)} {height : ℕ} {hash : H256}
    (h : s.append expected blocks height hash = .ok after) :
    s.head.indexedHash = expected.hash ∧ after = { s with
      checkpoints := s.checkpoints ++ (blocks.map Prod.fst).map fun h => (h.height, h.hash)
      rows := s.rows ++ blocks.flatMap Prod.snd
      head := { s.head with indexedHeight := height, indexedHash := hash } } := by
  by_cases hstate : ¬ s.head.healthy ∨ s.head.halted ∨ s.head.indexedHash ≠ expected.hash
  · simp only [Store.append, if_pos hstate] at h
    cases h
  simp only [Store.append, if_neg hstate] at h
  refine ⟨not_not.1 fun hne => hstate (.inr (.inr hne)), ?_⟩
  by_cases hdup : ((blocks.map Prod.fst).any fun h => (s.hash h.height).isSome) = true
  · rw [Store.insertCheckpoints, if_pos hdup] at h
    cases h
  · rw [Store.insertCheckpoints, if_neg hdup] at h
    exact (Except.ok.inj h).symm

theorem confirm_cases {boundary : Header} (h : s.confirm expected boundary = .ok after) :
    s.head.confirmedHeight = expected.confirmed ∧ s.head.indexedHash = expected.hash ∧ after = { s with
      checkpoints := s.prune boundary, head := { s.head with confirmedHeight := boundary.height } } := by
  by_cases hstate : s.head.healthy ∧ ¬ s.head.halted ∧ s.leaseFresh ∧ expected.head ≤ s.head.headHeight ∧
      s.head.confirmedHeight = expected.confirmed ∧ s.head.indexedHash = expected.hash
  · simp only [Store.confirm, if_neg (not_not.2 hstate)] at h
    exact ⟨hstate.2.2.2.2.1, hstate.2.2.2.2.2, (Except.ok.inj h).symm⟩
  · simp only [Store.confirm, if_pos hstate] at h
    cases h

theorem hash_isSome {height : ℕ} (h : (s.hash height).isSome) : ∃ c ∈ s.checkpoints, c.1 = height := by
  obtain ⟨x, hx⟩ := Option.isSome_iff_exists.1 h
  obtain ⟨c, hc, -⟩ := Option.map_eq_some_iff.1 hx
  exact ⟨c, List.mem_of_find?_eq_some hc, by simpa using List.find?_some hc⟩

theorem mem_of_hash {height : ℕ} {x : H256} (h : s.hash height = some x) : (height, x) ∈ s.checkpoints := by
  obtain ⟨⟨n, y⟩, hc, hx⟩ := Option.map_eq_some_iff.1 h
  have hheight : n = height := by simpa using List.find?_some hc
  have hmem := List.mem_of_find?_eq_some hc
  rw [hheight] at hmem
  exact hx ▸ hmem

theorem mem_prune {boundary : Header} {c : ℕ × H256} (h : c ∈ s.prune boundary) :
    boundary.height ≤ c.1 ∧ (c ∈ s.checkpoints ∨ c = (boundary.height, boundary.hash)) := by
  obtain ⟨hmem, hle⟩ := List.mem_filter.1 h
  refine ⟨of_decide_eq_true hle, ?_⟩
  split at hmem
  · exact .inl hmem
  · rcases List.mem_append.1 hmem with hmem | hmem
    · exact .inl hmem
    · exact .inr (List.mem_singleton.1 hmem)

theorem prune_mem {boundary : Header} {c : ℕ × H256} (h : c ∈ s.checkpoints) (hle : boundary.height ≤ c.1) :
    c ∈ s.prune boundary := by
  refine List.mem_filter.2 ⟨?_, decide_eq_true hle⟩
  split
  · exact h
  · exact List.mem_append_left _ h

/-- the boundary has a checkpoint afterwards -/
theorem prune_boundary (boundary : Header) : ∃ c ∈ s.prune boundary, c.1 = boundary.height := by
  by_cases hsome : (s.hash boundary.height).isSome
  · obtain ⟨c, hc, hheight⟩ := hash_isSome hsome
    exact ⟨c, prune_mem hc hheight.ge, hheight⟩
  · refine ⟨(boundary.height, boundary.hash), List.mem_filter.2 ⟨?_, decide_eq_true le_rfl⟩, rfl⟩
    rw [if_neg hsome]
    exact List.mem_append_right _ (List.mem_singleton.2 rfl)

namespace StoredChain

theorem chain (h : StoredChain s p) (hcoh : Coherent links s.history) : ChainFrom links 0 none p := by
  obtain ⟨n, hn⟩ := h.canonical
  exact hn.chain hcoh

/-- what a hash at the end of a list that was canonical tells -/
theorem eq_of_hash (h : StoredChain s p) (hcoh : Coherent links s.history) {n : ℕ} (hq : ∃ k, Goes s.history k q)
    (hlength : q.length = n + 1) (hhash : HashAt links q n s.head.indexedHash) : p = q ∧ s.head.indexedHeight = n := by
  obtain ⟨i, hi⟩ := h.canonical
  obtain ⟨k, hk⟩ := hq
  exact hcoh.eq_of_hash hi h.length h.tip hk hlength hhash

/-- one hash at the tip, one chain -/
theorem same {s' : Store} {p' : List Block} (h : StoredChain s p) (hcoh : Coherent links s'.history)
    (hhistory : s.history <+: s'.history) (h' : StoredChain s' p') (hhash : s'.head.indexedHash = s.head.indexedHash) :
    p' = p ∧ s'.head.indexedHeight = s.head.indexedHeight := by
  obtain ⟨n, hn⟩ := h.canonical
  exact h'.eq_of_hash hcoh ⟨n, hn.grow hhistory⟩ h.length (hhash ▸ h.tip)

/-- a start finds its checkpoints in order -/
theorem validateCheckpoints (h : StoredChain s p) : s.validateCheckpoints = true := by
  obtain ⟨c, hc, hheight⟩ := h.confirmedKept
  have hconfirmed : (s.checkpoints.any fun c => c.1 = s.head.confirmedHeight) = true :=
    List.any_eq_true.2 ⟨c, hc, decide_eq_true hheight⟩
  have hindexed : (s.checkpoints.any fun c => c.1 = s.head.indexedHeight ∧ c.2 = s.head.indexedHash) = true :=
    List.any_eq_true.2 ⟨_, h.indexedKept, decide_eq_true ⟨rfl, rfl⟩⟩
  have habove : (s.checkpoints.any fun c => s.head.indexedHeight < c.1) = false := by
    rw [List.any_eq_false]
    intro c hc
    have hlt := (h.checkpoints c hc).lt
    have hlength := h.length
    rw [decide_eq_true_iff]
    omega
  rw [Store.validateCheckpoints, hconfirmed, hindexed, habove]
  rfl

/-- what no call has changed but what the RPC and the database are up to -/
theorem congr {s' : Store} (h : StoredChain s p) (hhistory : s.history <+: s'.history)
    (hrows : s'.rows = s.rows) (hcheckpoints : s'.checkpoints = s.checkpoints)
    (hhead : s'.head.state.indexed = s.head.indexedHeight ∧ s'.head.indexedHash = s.head.indexedHash ∧
      s'.head.startHeight = s.head.startHeight ∧ s'.head.confirmedHeight = s.head.confirmedHeight) :
    StoredChain s' p := by
  obtain ⟨hindexed, hhash, hstart, hconfirmed⟩ := hhead
  have hindexed : s'.head.indexedHeight = s.head.indexedHeight := hindexed
  obtain ⟨⟨n, hn⟩, hlength, htip, hevents, hlow, hhigh, hon, hc, hi⟩ := h
  refine ⟨⟨n, hn.grow hhistory⟩, ?_, ?_, ?_, ?_, ?_, ?_, ?_, ?_⟩
  · rw [hindexed, hlength]
  · rw [hindexed, hhash]
    exact htip
  · rw [hrows, hstart, hevents]
  · rwa [hstart, hconfirmed]
  · rwa [hconfirmed, hindexed]
  · rwa [hcheckpoints]
  · rwa [hcheckpoints, hconfirmed]
  · rwa [hcheckpoints, hindexed, hhash]

/-- nothing is stored above the last block -/
theorem deleteAbove (h : StoredChain s p) (hcoh : Coherent links s.history) :
    s.deleteAbove s.head.indexedHeight = s := by
  have hlength := h.length
  have hrows : s.rows.filter (·.blockNumber ≤ s.head.indexedHeight) = s.rows := by
    refine List.filter_eq_self.2 fun e he => decide_eq_true ?_
    rw [h.rows] at he
    have hlt := (eventsAbove_number (h.chain hcoh) e he).2
    omega
  have hcheckpoints : s.checkpoints.filter (·.1 ≤ s.head.indexedHeight) = s.checkpoints := by
    refine List.filter_eq_self.2 fun c hc => decide_eq_true ?_
    have hlt := (h.checkpoints c hc).lt
    omega
  rw [Store.deleteAbove, hrows, hcheckpoints]

/-- an ancestor on the chain, with its checkpoint, becomes the tip -/
theorem observe (h : StoredChain s p) (hcoh : Coherent links s.history) {ancestor head : Header}
    (hon : HashAt links p ancestor.height ancestor.hash)
    (hkept : s.head.confirmedHeight ≤ ancestor.height → (ancestor.height, ancestor.hash) ∈ s.checkpoints)
    (hafter : s.observe expected ancestor head = .ok after) :
    StoredChain after (p.take (ancestor.height + 1)) ∧ Kept s after := by
  obtain ⟨hhash, hconf, rfl⟩ := observe_cases hafter
  -- when the tip stays there is nothing to delete
  have hdelete : (if ancestor.hash ≠ expected.hash then s.deleteAbove ancestor.height else s) =
      s.deleteAbove ancestor.height := by
    by_cases hsame : ancestor.hash = expected.hash
    · have hchain := h.chain hcoh
      obtain ⟨n, hn⟩ := h.canonical
      have htip : HashAt links p s.head.indexedHeight ancestor.hash := (hsame.trans hhash.symm) ▸ h.tip
      rw [if_neg (not_not.2 hsame), hon.height_inj hchain (hn.apart hcoh) htip, h.deleteAbove hcoh]
    · rw [if_pos hsame]
  rw [hdelete]
  obtain ⟨n, hn⟩ := h.canonical
  refine ⟨⟨⟨n, hn.shorter (List.take_prefix _ _)⟩, ?_, hon.take (Nat.lt_succ_self _), ?_, h.start, hconf, ?_, ?_, ?_⟩,
    ⟨List.prefix_refl _, rfl, le_rfl, ?_⟩⟩
  · have hlt := hon.lt
    rw [List.length_take]
    exact min_eq_left hlt
  · calc s.rows.filter (·.blockNumber ≤ ancestor.height)
        = (eventsAbove s.head.startHeight p).filter (·.blockNumber ≤ ancestor.height) := by rw [h.rows]
      _ = eventsAbove s.head.startHeight (p.take (ancestor.height + 1)) := eventsAbove_filter (h.chain hcoh)
  · intro c hc
    obtain ⟨hmem, hle⟩ := List.mem_filter.1 hc
    exact (h.checkpoints c hmem).take (Nat.lt_succ_of_le (of_decide_eq_true hle))
  · obtain ⟨c, hc, hheight⟩ := h.confirmedKept
    exact ⟨c, List.mem_filter.2 ⟨hc, decide_eq_true (hheight.le.trans hconf)⟩, hheight⟩
  · exact List.mem_filter.2 ⟨hkept hconf, decide_eq_true le_rfl⟩
  · change (s.rows.filter _).filter _ = _
    rw [List.filter_filter]
    refine List.filter_congr fun e _ => ?_
    rw [← Bool.decide_and, decide_eq_decide]
    exact ⟨And.left, fun hle => ⟨hle, hle.trans hconf⟩⟩

/-- blocks of a chain that goes on from the tip are added -/
theorem append (h : StoredChain s p) (hcoh : Coherent links s.history) {blocks : List (Header × List Event)}
    {height : ℕ} {hash : H256} (hq : ∃ k, Goes s.history k q) (hlength : q.length = height + 1)
    (hbelow : HashAt links q expected.indexed expected.hash) (hlt : expected.indexed < height)
    (hrows : blocks.flatMap Prod.snd = eventsAbove expected.indexed q)
    (hheaders : ∀ b ∈ blocks, HashAt links q b.1.height b.1.hash)
    (hlast : ∃ b ∈ blocks, b.1.height = height ∧ b.1.hash = hash)
    (hafter : s.append expected blocks height hash = .ok after) : StoredChain after q ∧ Forward s after := by
  obtain ⟨hhash, rfl⟩ := append_cases hafter
  -- the stored chain is the one that goes on
  obtain ⟨k, hk⟩ := hq
  have htake : (q.take (expected.indexed + 1)).length = expected.indexed + 1 := by
    rw [List.length_take]
    exact min_eq_left hbelow.lt
  obtain ⟨rfl, hindexed⟩ := h.eq_of_hash hcoh ⟨k, hk.shorter (List.take_prefix _ _)⟩ htake
    (hhash ▸ hbelow.take (Nat.lt_succ_self _))
  have hprefix : q.take (expected.indexed + 1) <+: q := List.take_prefix _ _
  have hchain := hk.chain hcoh
  have hstart := h.start
  have hconfirmed := h.confirmed
  obtain ⟨last, hmem, hheight, rfl⟩ := hlast
  have htip : HashAt links q height last.1.hash := hheight ▸ hheaders last hmem
  refine ⟨⟨⟨k, hk⟩, hlength, htip, ?_, h.start, ?_, ?_, ?_, ?_⟩, ⟨⟨List.prefix_refl _, rfl, le_rfl, ?_⟩, ?_, ?_, ?_⟩⟩
  · calc s.rows ++ blocks.flatMap Prod.snd
        = eventsAbove s.head.startHeight (q.take (expected.indexed + 1)) ++ eventsAbove expected.indexed q := by
          rw [hrows, ← h.rows]
      _ = eventsAbove s.head.startHeight q := eventsAbove_append (by omega) hbelow.lt
  · change s.head.confirmedHeight ≤ height
    omega
  · intro c hc
    rcases List.mem_append.1 hc with hc | hc
    · exact (h.checkpoints c hc).longer hprefix
    · obtain ⟨header, hheader, rfl⟩ := List.mem_map.1 hc
      obtain ⟨b, hb, rfl⟩ := List.mem_map.1 hheader
      exact hheaders b hb
  · obtain ⟨c, hc, hheight⟩ := h.confirmedKept
    exact ⟨c, List.mem_append_left _ hc, hheight⟩
  · refine List.mem_append_right _ (List.mem_map.2 ⟨last.1, List.mem_map.2 ⟨last, hmem, rfl⟩, ?_⟩)
    rw [hheight]
  · change (s.rows ++ blocks.flatMap Prod.snd).filter _ = _
    rw [List.filter_append, hrows]
    have hnone : ∀ e ∈ eventsAbove expected.indexed q, ¬ decide (e.blockNumber ≤ s.head.confirmedHeight) = true := by
      intro e he
      have hlow := (eventsAbove_number hchain e he).1
      rw [decide_eq_true_iff]
      omega
    rw [List.filter_eq_nil_iff.2 hnone, List.append_nil]
  · change s.head.indexedHeight ≤ height
    omega
  · intro heq
    have heq : height = s.head.indexedHeight := heq
    omega
  · exact fun c hc _ => List.mem_append_left _ hc

/-- a boundary on the chain is confirmed -/
theorem confirm (h : StoredChain s p) {boundary : Header} (hon : HashAt links p boundary.height boundary.hash)
    (hlt : expected.confirmed < boundary.height) (hafter : s.confirm expected boundary = .ok after) :
    StoredChain after p ∧ Forward s after := by
  obtain ⟨hconf, -, rfl⟩ := confirm_cases hafter
  have hstart := h.start
  have hlength := h.length
  have hbound := hon.lt
  refine ⟨⟨h.canonical, h.length, h.tip, h.rows, ?_, ?_, ?_, prune_boundary boundary, ?_⟩,
    ⟨⟨List.prefix_refl _, rfl, ?_, rfl⟩, le_rfl, fun _ => rfl, ?_⟩⟩
  · change s.head.startHeight ≤ boundary.height
    omega
  · change boundary.height ≤ s.head.indexedHeight
    omega
  · intro c hc
    rcases (mem_prune hc).2 with hc | rfl
    · exact h.checkpoints c hc
    · exact hon
  · have hle : boundary.height ≤ s.head.indexedHeight := by omega
    exact prune_mem h.indexedKept hle
  · change s.head.confirmedHeight ≤ boundary.height
    omega
  · exact fun c hc hle => prune_mem hc hle

end StoredChain

end Transactions

end Hyperlane.Scraper
