/-
The near-head scraper stores one chain.

A call of `observe` waits for its turn, as the worker awaits each one before the next. Any number of the other calls run
beside it and beside each other, with snapshots of any age; the chain moves between any two reads, and a crash drops all
calls. Then the store holds one chain at every moment (`stored_chain`), and nothing that is confirmed is taken back.

- `ingestCached_triple`: a range goes on from the tip, since its end was on the chain before and after its events were read.
- `confirmLeased_triple`: a boundary is below the tip, since the tip was on the chain before and after it was read.
- `observe_triple`: an ancestor keeps its checkpoint, since no other observation drops it meanwhile.
- `overlapping_unsound`: beside a second observation and an append of before, it may be dropped and replaced.
-/
import Hyperlane.Scraper.ChainCalls

namespace Hyperlane.Scraper

open Interleaving ChainHistory Relayer

variable {expected : State} {p q : List Block} {m : ℕ}

theorem InOrder.after {s after : Store} (h : InOrder s) (hhistory : after.history = s.history)
    (hstored : StoredChain after q) : InOrder after := ⟨hhistory.symm ▸ h.coherent, q, hstored⟩

/-- a pause is neither here nor there -/
theorem pause_forward {s : Store} (h : InOrder s) (halt : Bool) :
    InOrder { s with head := { s.head with healthy := false, halted := s.head.halted || halt } } ∧
      Forward s { s with head := { s.head with healthy := false, halted := s.head.halted || halt } } := by
  obtain ⟨p, hp⟩ := h.stored
  have hkept : Kept s { s with head := { s.head with healthy := false, halted := s.head.halted || halt } } :=
    ⟨List.prefix_refl _, rfl, le_rfl, rfl⟩
  exact ⟨⟨h.coherent, p, hp.congr (List.prefix_refl _) rfl rfl ⟨rfl, rfl, rfl, rfl⟩⟩, hkept, le_rfl, fun _ => rfl,
    fun _ hc _ => hc⟩

/-! ## Ingestion -/

/-- what is read of a range after its boundary, if the chain went through the boundary all the time -/
structure Fetched (expected : State) (q : List Block) (m : ℕ) (events : List Event) (found : List (ℕ × Header))
    (s : Store) : Prop where
  goes : Goes s.history m q
  events : Since s.history m q (events = eventsAbove expected.indexed q)
  headers : ∀ x ∈ found, x.2.height = x.1 ∧ Since s.history m q (x.1 < q.length → HashAt links q x.1 x.2.hash)

theorem Fetched.grows {events : List Event} {found : List (ℕ × Header)} : Grows (Fetched expected q m events found) :=
  fun _ _ hs h => ⟨h.goes.grow hs, h.events.grow hs, fun x hx => ⟨(h.headers x hx).1, (h.headers x hx).2.grow hs⟩⟩

/-- the blocks of a range, as they were read of one chain -/
theorem range_read {events : List Event} {found : List (ℕ × Header)} {blocks : List (Header × List Event)} {stop : ℕ}
    (hchain : ChainFrom links 0 none q) (hlength : q.length = stop + 1) (hevents : events = eventsAbove expected.indexed q)
    (hfound : ∀ x ∈ found, x.2.height = x.1 ∧ (x.1 < q.length → HashAt links q x.1 x.2.hash))
    (hblocks : blocksWith found (byBlock events stop) = .ok blocks) :
    blocks.flatMap Prod.snd = eventsAbove expected.indexed q ∧ (∀ b ∈ blocks, HashAt links q b.1.height b.1.hash) ∧
      ∃ b, blocks.getLast? = some b ∧ b.1.height = stop := by
  obtain ⟨below, hdrop⟩ := hchain.drop (expected.indexed + 1)
  have hstop : ∀ e ∈ events, e.blockNumber ≤ stop := by
    intro e he
    rw [hevents] at he
    have hlt := (eventsAbove_number hchain e he).2
    omega
  obtain ⟨⟨-, hbound, hall⟩, es, hlast⟩ := byBlock_groups (hevents ▸ events_sorted hdrop) hstop
  have hpairs := blocksWith_ok hblocks
  refine ⟨?_, fun b hb => ?_, ?_⟩
  · rw [flatMap_of_pairs hpairs, hall, hevents]
  · obtain ⟨g, hg, hlookup⟩ := mem_of_pairs hpairs hb
    obtain ⟨hheight, hon⟩ := hfound _ (mem_of_lookup hlookup)
    have hlow := hbound g hg
    dsimp only at hheight hon
    rw [hheight]
    exact hon (by omega)
  · obtain ⟨b, hb, hlookup⟩ := last_of_pairs hpairs hlast
    exact ⟨b, hb, (hfound _ (mem_of_lookup hlookup)).1⟩

/-- a range that was read of a chain with the tip of the snapshot on it -/
theorem append_triple {blocks : List (Header × List Event)} {stop : ℕ} (hlength : q.length = stop + 1)
    (hbelow : HashAt links q expected.indexed expected.hash) (hlt : expected.indexed < stop)
    (hrows : blocks.flatMap Prod.snd = eventsAbove expected.indexed q)
    (hheaders : ∀ b ∈ blocks, HashAt links q b.1.height b.1.hash)
    (hlast : ∃ b, blocks.getLast? = some b ∧ b.1.height = stop) :
    Triple Does Advances InOrder (fun s => Goes s.history m q) (append expected blocks) fun _ _ => True := by
  rw [append]
  split
  · exact triple_throw
  rename_i height hash hrange
  obtain ⟨b, hb, hheight⟩ := hlast
  obtain ⟨rfl, rfl⟩ := Prod.mk.inj ((checkRange_ok hrange).2 b hb)
  refine transaction_triple beside_does (grows_goes.stable beside_does) fun s after hs hgoes hafter => ?_
  obtain ⟨p, hp⟩ := hs.stored
  obtain ⟨hstored, hforward⟩ := hp.append hs.coherent ⟨m, hgoes⟩ (hheight ▸ hlength) hbelow (hheight ▸ hlt) hrows hheaders
    ⟨b, List.mem_of_getLast? hb, rfl, rfl⟩ hafter
  have hin := hs.after (by rw [(append_cases hafter).2]) hstored
  exact ⟨fun _ => ⟨hin, hforward⟩, hin, trivial⟩

theorem ingestCached_triple {chunkSize : ℕ} {countCache : Option (H256 × (UInt32 × UInt32))} {order : List ℕ → List ℕ} :
    Triple Does Advances InOrder (fun _ => True) (ingestCached expected chunkSize countCache order) fun _ _ => True := by
  unfold ingestCached
  refine ensure_triple.bind fun _ => Triple.of_fact fun _ => ?_
  split
  · exact triple_pure fun _ _ _ => trivial
  extract_lets stop
  refine (header_first beside_does grows_true).bind fun boundary => ?_
  -- the chain up to the boundary, and the moment it was read
  refine Triple.of_exists fun m => Triple.of_exists fun q => Triple.of_fact fun ⟨hheight, hlength, htip⟩ => ?_
  have hboundary : HashAt links q boundary.height boundary.hash := hheight ▸ htip
  refine (events_triple beside_does (grows_goes.and grows_true) (fun s h => h.1) hlength).bind fun events => ?_
  refine Triple.of_fact fun hlt => ?_
  extract_lets fetch
  have hfetch : ∀ startCounts, Triple Does Advances InOrder (fun s => Since s.history m q
      (events = eventsAbove expected.indexed q) ∧ Goes s.history m q ∧ True) (fetch startCounts) fun _ _ => True := by
    intro startCounts
    refine Triple.bind (counts_triple beside_does (grows_since.and (grows_goes.and grows_true))) fun endCounts => ?_
    extract_lets store check
    -- the headers of the blocks are known by now
    have hstore : ∀ found blocks, blocksWith found (byBlock events stop) = .ok blocks →
        Triple Does Advances InOrder (Fetched expected q m events found) (store blocks) fun _ _ => True := by
      intro found blocks hblocks
      refine Triple.bind (header_triple beside_does Fetched.grows fun s h => h.goes) fun indexed => ?_
      refine Triple.of_fact fun hindexed => ?_
      refine Triple.bind ensure_triple fun _ => Triple.of_fact fun hsame => ?_
      have hgrows : Grows fun s => Since s.history m q (indexed.height < q.length →
          HashAt links q indexed.height indexed.hash) ∧ Fetched expected q m events found s :=
        grows_since.and Fetched.grows
      have hverify := verify_triple beside_does hgrows (fun s h => h.2.goes) (hheight ▸ hlength) hboundary
      refine Triple.bind (Ψ := fun _ s => (ChainFrom links 0 none q ∧ HashAt links q expected.indexed expected.hash ∧
        events = eventsAbove expected.indexed q ∧ ∀ x ∈ found, x.2.height = x.1 ∧
          (x.1 < q.length → HashAt links q x.1 x.2.hash)) ∧ Goes s.history m q) (hverify.weaken (fun _ _ h => h) ?_) ?_
      · -- all of it is so, since the boundary is still there
        rintro - s hs ⟨hsettle, htipped, hfetched⟩
        have htipped := hsettle _ htipped
        rw [hindexed _ rfl, hsame] at htipped
        exact ⟨⟨hfetched.goes.chain hs.coherent, htipped (by omega), hsettle _ hfetched.events,
          fun x hx => ⟨(hfetched.headers x hx).1, hsettle _ (hfetched.headers x hx).2⟩⟩, hfetched.goes⟩
      refine fun _ => Triple.of_fact fun ⟨hchain, hbelow, hevents, hfound⟩ => ?_
      obtain ⟨hrows, hheaders, hlast⟩ := range_read hchain hlength hevents hfound hblocks
      exact Triple.bind (append_triple hlength hbelow hlt hrows hheaders hlast) fun _ => triple_pure fun _ _ _ => trivial
    cases hsequences : validateSequences events startCounts endCounts with
    | error e => exact triple_throw_bind
    | ok u =>
      refine Triple.bind ensure_triple fun _ => Triple.of_fact fun _ => ?_
      refine Triple.bind (headers_triple beside_does (grows_since.and (grows_goes.and grows_true)) (fun s h => h.2.1)
        hboundary) fun found => ?_
      cases hblocks : blocksWith found (byBlock events stop) with
      | error e => exact triple_throw_bind
      | ok blocks =>
        refine Triple.weaken (hstore found blocks hblocks) ?_ fun _ _ _ h => h
        exact fun s _ ⟨hheaders, hevents, hgoes, _⟩ => ⟨hgoes, hevents, hheaders⟩
  cases countCache.filter (·.1 = expected.hash) with
  | some cached => exact hfetch cached.2
  | none => exact Triple.bind (counts_triple beside_does (grows_since.and (grows_goes.and grows_true))) hfetch

/-! ## Confirmation -/

/-- the head row is read, and with it the chain that is stored -/
theorem state_triple {X G : Store → Store → Prop} (hX : Beside X G) : Triple X G InOrder (fun _ => True) state
    fun expected s => ∃ p, expected = s.head.state ∧ StoredChain s p := by
  refine query_triple hX (grows_true.stable hX) fun s expected hs _ ha => ?_
  obtain ⟨p, hp⟩ := hs.stored
  exact ⟨p, (Except.ok.inj ha).symm, hp⟩

theorem taggedHeader_triple {period : ReorgPeriod} : Triple Does Advances InOrder (fun s => Goes s.history m p)
    (taggedHeader period) fun tagged s => (∀ answer ∈ tagged, Since s.history m p (answer.height < p.length →
      HashAt links p answer.height answer.hash)) ∧ Goes s.history m p := by
  have hheader : ∀ block, Triple Does Advances InOrder (fun s => Goes s.history m p) (some <$> header block)
      fun tagged s => (∀ answer ∈ tagged, Since s.history m p (answer.height < p.length →
        HashAt links p answer.height answer.hash)) ∧ Goes s.history m p := by
    intro block
    refine Triple.map (Triple.weaken (header_triple beside_does grows_goes fun _ h => h) (fun _ _ h => h) ?_)
    rintro answer s - ⟨-, hsince, hgoes⟩
    refine ⟨fun answer' h => ?_, hgoes⟩
    obtain rfl := Option.some.inj h
    exact hsince
  have hnone : Triple Does Advances InOrder (fun s => Goes s.history m p) (pure none : NearHead (Option Header))
      fun tagged s => (∀ answer ∈ tagged, Since s.history m p (answer.height < p.length →
        HashAt links p answer.height answer.hash)) ∧ Goes s.history m p :=
    triple_pure fun _ _ h => ⟨(fun _ h => nomatch h), h⟩
  cases period with
  | none => exact hnone
  | blocks depth => exact hnone
  | tag tag => cases tag with
    | latest => exact hnone
    | safe => exact hheader .safe
    | finalized => exact hheader .finalized

/-- a boundary below the tip of the snapshot -/
theorem confirm_triple {boundary : Header} (hlength : p.length = expected.indexed + 1)
    (htip : HashAt links p expected.indexed expected.hash)
    (hon : boundary.height ≤ expected.indexed → HashAt links p boundary.height boundary.hash) :
    Triple Does Advances InOrder (fun s => Goes s.history m p) (confirm expected boundary) fun _ _ => True := by
  unfold confirm
  refine Triple.bind ensure_triple fun _ => Triple.of_fact fun hle => ?_
  split
  · exact triple_pure fun _ _ _ => trivial
  rename_i hlt
  refine Triple.bind (query_triple beside_does (grows_goes.stable beside_does) fun s _ _ h _ => h) fun counts => ?_
  refine Triple.bind (Ψ := fun _ _ => True) ?_ fun _ => triple_pure fun _ _ _ => trivial
  refine transaction_triple beside_does (grows_goes.stable beside_does) fun s after hs hgoes hafter => ?_
  obtain ⟨-, hhash, heq⟩ := confirm_cases hafter
  obtain ⟨p', hp'⟩ := hs.stored
  obtain ⟨rfl, -⟩ := hp'.eq_of_hash hs.coherent ⟨m, hgoes⟩ hlength (hhash ▸ htip)
  obtain ⟨hstored, hforward⟩ := hp'.confirm (hon hle) (not_le.1 hlt) hafter
  have hin := hs.after (by rw [heq]) hstored
  exact ⟨fun _ => ⟨hin, hforward⟩, hin, trivial⟩

/-- the tip of the snapshot ends a list that was on the chain -/
theorem state_tip : Triple Does Advances InOrder (fun _ => True) state fun expected s => ∃ m p,
    (p.length = expected.indexed + 1 ∧ HashAt links p expected.indexed expected.hash) ∧ Goes s.history m p := by
  refine Triple.weaken (state_triple beside_does) (fun _ _ h => h) ?_
  rintro expected s - ⟨p, rfl, hp⟩
  obtain ⟨m, hm⟩ := hp.canonical
  exact ⟨m, p, ⟨hp.length, hp.tip⟩, hm⟩

theorem confirmationBoundary_triple {Φ : Store → Prop} {after through : ℕ} (hΦ : Grows Φ) :
    Triple Does Advances InOrder Φ (confirmationBoundary after through) fun _ s => Φ s :=
  Triple.bind ensure_triple fun _ => Triple.of_fact fun _ =>
    query_triple beside_does (hΦ.stable beside_does) fun _ _ _ h _ => h

theorem confirmLeased_triple {period : ReorgPeriod} :
    Triple Does Advances InOrder (fun _ => True) (confirmLeased period) fun _ _ => True := by
  unfold confirmLeased
  refine Triple.bind state_tip fun expected => ?_
  refine Triple.of_exists fun m => Triple.of_exists fun p => Triple.of_fact fun ⟨hlength, htip⟩ => ?_
  refine Triple.bind ensure_triple fun _ => Triple.of_fact fun _ => ?_
  split
  · exact triple_pure fun _ _ _ => trivial
  refine Triple.bind taggedHeader_triple fun tagged => ?_
  have hgrows : Grows fun s => (∀ answer ∈ tagged, Since s.history m p (answer.height < p.length →
      HashAt links p answer.height answer.hash)) ∧ Goes s.history m p :=
    Grows.and (fun s s' hs h answer ha => (h answer ha).grow hs) grows_goes
  extract_lets through target
  split
  · exact triple_pure fun _ _ _ => trivial
  refine Triple.bind (confirmationBoundary_triple hgrows) fun through => ?_
  split
  · exact triple_pure fun _ _ _ => trivial
  extract_lets finish
  have hfinish : ∀ boundary, Triple Does Advances InOrder (fun s => boundary.height = through ∧
      Since s.history m p (boundary.height < p.length → HashAt links p boundary.height boundary.hash) ∧
      Goes s.history m p) (finish boundary) fun _ _ => True := by
    intro boundary
    refine Triple.of_fact fun hheight => ?_
    have hsince : Grows fun s => Since s.history m p (boundary.height < p.length →
        HashAt links p boundary.height boundary.hash) ∧ Goes s.history m p := grows_since.and grows_goes
    refine Triple.bind (query_triple beside_does (hsince.stable beside_does) fun _ _ _ h _ => h) fun checkpoint => ?_
    extract_lets store check
    have hstore : ∀ indexedHash, Triple Does Advances InOrder (fun s => (indexedHash = expected.hash →
        boundary.height ≤ expected.indexed → HashAt links p boundary.height boundary.hash) ∧ Goes s.history m p)
        (store indexedHash) fun _ _ => True := by
      intro indexedHash
      refine Triple.of_fact fun hon => ?_
      refine Triple.bind ensure_triple fun _ => Triple.of_fact fun hsame => ?_
      exact Triple.bind (confirm_triple hlength htip (hon hsame)) fun _ => triple_pure fun _ _ _ => trivial
    have hcheck : Triple Does Advances InOrder (fun s => Since s.history m p (boundary.height < p.length →
        HashAt links p boundary.height boundary.hash) ∧ Goes s.history m p) (check ()) fun _ _ => True := by
      dsimp only [check]
      split
      · -- the boundary is the tip
        rename_i heq
        refine Triple.weaken (hstore boundary.hash) ?_ fun _ _ _ h => h
        exact fun s _ ⟨_, hgoes⟩ => ⟨fun hsame _ => by rw [hheight, heq, hsame]; exact htip, hgoes⟩
      · -- the tip is still on the chain
        refine Triple.bind (Triple.map (Triple.weaken (header_settles beside_does hsince (fun _ h => h.2) hlength)
          (fun _ _ h => h) ?_)) hstore
        rintro answer s - ⟨hsettle, hon, hgoes⟩
        exact ⟨fun hsame hle => hsettle (hsame ▸ htip) _ hon (by omega), hgoes⟩
    cases checkpoint with
    | none => exact hcheck
    | some hash => exact Triple.bind ensure_triple fun _ => Triple.of_fact fun _ => hcheck
  cases hfilter : tagged.filter (·.height = through) with
  | some answer =>
    obtain ⟨htagged, hheight⟩ := Option.filter_eq_some_iff.1 hfilter
    refine Triple.weaken (hfinish answer) ?_ fun _ _ _ h => h
    exact fun s _ ⟨hsince, hgoes⟩ => ⟨of_decide_eq_true hheight, hsince answer htagged, hgoes⟩
  | none =>
    refine Triple.bind (Triple.weaken (header_triple beside_does hgrows fun _ h => h.2) (fun _ _ h => h) ?_) hfinish
    exact fun answer s _ ⟨hnumber, hsince, _, hgoes⟩ => ⟨hnumber through rfl, hsince, hgoes⟩

/-! ## Observation -/

/-- the chain of the snapshot, while the others go on from it -/
structure Followed (expected : State) (p : List Block) (s : Store) : Prop where
  goes : ∃ n, Goes s.history n p
  length : p.length = expected.indexed + 1
  tip : HashAt links p expected.indexed expected.hash
  indexed : expected.indexed ≤ s.head.indexedHeight
  hash : s.head.indexedHeight = expected.indexed → s.head.indexedHash = expected.hash

/-- as long as the tip is that of the snapshot, an ancestor is on the chain and has its checkpoint -/
def Ancestor (expected : State) (p : List Block) (ancestor : Header) (s : Store) : Prop :=
  s.head.indexedHash = expected.hash → HashAt links p ancestor.height ancestor.hash ∧
    (s.head.confirmedHeight ≤ ancestor.height → (ancestor.height, ancestor.hash) ∈ s.checkpoints)

theorem Followed.stored {s : Store} (h : Followed expected p s) (hs : InOrder s) (hhash : s.head.indexedHash = expected.hash) :
    StoredChain s p ∧ s.head.indexedHeight = expected.indexed := by
  obtain ⟨p', hp'⟩ := hs.stored
  obtain ⟨rfl, hindexed⟩ := hp'.eq_of_hash hs.coherent h.goes h.length (hhash ▸ h.tip)
  exact ⟨hp', hindexed⟩

theorem Followed.forward {s s' : Store} (h : Followed expected p s) (hs : Forward s s') : Followed expected p s' where
  goes := by
    obtain ⟨n, hn⟩ := h.goes
    exact ⟨n, hn.grow hs.history⟩
  length := h.length
  tip := h.tip
  indexed := h.indexed.trans hs.indexed
  hash heq := by
    have hlow := h.indexed
    have hhigh := hs.indexed
    rw [hs.hash (by omega), h.hash (by omega)]

theorem Ancestor.forward {ancestor : Header} {s s' : Store} (h : Ancestor expected p ancestor s)
    (hfollowed : Followed expected p s) (hs' : InOrder s') (hs : Forward s s') : Ancestor expected p ancestor s' := by
  intro hhash
  -- the tip has not moved in between
  have hindexed := ((hfollowed.forward hs).stored hs' hhash).2
  have hlow := hfollowed.indexed
  have hhigh := hs.indexed
  obtain ⟨hon, hkept⟩ := h (hfollowed.hash (by omega))
  exact ⟨hon, fun hle => hs.checkpoints _ (hkept (hs.confirmed.trans hle)) hle⟩

theorem followed_stable : Stable Advances InOrder (Followed expected p) where
  safe _ _ hs h := (h hs).1
  fact _ _ hs h hx := h.forward (hx hs).2

theorem ancestor_stable {ancestor : Header} :
    Stable Advances InOrder fun s => Followed expected p s ∧ Ancestor expected p ancestor s where
  safe _ _ hs h := (h hs).1
  fact _ _ hs h hx := ⟨h.1.forward (hx hs).2, h.2.forward h.1 (hx hs).1 (hx hs).2⟩

theorem pause_triple {halt : Bool} :
    Triple Advances Does InOrder (Followed expected p) (pause halt) fun _ s => Followed expected p s := by
  refine transaction_triple beside_advances followed_stable fun s after hs h hafter => ?_
  obtain rfl := Except.ok.inj hafter
  obtain ⟨hin, hforward⟩ := pause_forward hs halt
  exact ⟨fun _ => ⟨hin, hforward.toKept⟩, hin, h.forward hforward⟩

/-- the loop ends at a checkpoint whose hash the RPC confirms -/
theorem commonAncestor_triple {head : Header} {turns height : ℕ} : Triple Advances Does InOrder (Followed expected p)
    (commonAncestor expected head turns height) fun ancestor s =>
      Followed expected p s ∧ Ancestor expected p ancestor s := by
  induction turns generalizing height with
  | zero => exact triple_throw
  | succ turns ih =>
    unfold commonAncestor
    extract_lets compare
    have hcompare : ∀ header : Header, header.height = height → Triple Advances Does InOrder (Followed expected p)
        (compare header) fun ancestor s => Followed expected p s ∧ Ancestor expected p ancestor s := by
      intro header hheight
      have hquery : Triple Advances Does InOrder (Followed expected p) (checkpointHash height) fun hash s =>
          (hash = some header.hash → Ancestor expected p header s) ∧ Followed expected p s := by
        refine query_triple beside_advances followed_stable fun s hash hs h ha => ⟨fun hsome hhash => ?_, h⟩
        obtain rfl := Except.ok.inj ha
        have hmem : (header.height, header.hash) ∈ s.checkpoints := hheight ▸ mem_of_hash hsome
        exact ⟨(h.stored hs hhash).1.checkpoints _ hmem, fun _ => hmem⟩
      refine Triple.bind hquery fun hash => ?_
      split
      · rename_i hsame
        exact triple_pure fun s _ ⟨hancestor, h⟩ => ⟨h, hancestor hsame⟩
      refine Triple.bind (Triple.weaken pause_triple (fun _ _ h => h.2) fun _ _ _ h => h) fun _ => ?_
      refine Triple.bind ensure_triple fun _ => Triple.of_fact fun _ => ?_
      refine Triple.bind ensure_triple fun _ => Triple.of_fact fun _ => ?_
      exact Triple.bind (query_triple beside_advances followed_stable fun _ _ _ h _ => h) fun _ => ih
    split
    · rename_i heq
      exact hcompare head heq.symm
    · refine Triple.bind (Ψ := fun header s => header.height = height ∧ Followed expected p s) ?_ fun header =>
        Triple.of_fact (hcompare header)
      refine fromRpc_triple beside_advances followed_stable fun s answer hs h ha => ?_
      exact ⟨(header_on_chain hs ha).2.2 height rfl, h⟩

theorem observe_triple : Triple Advances Does InOrder (fun _ => True) observe fun _ _ => True := by
  unfold observe
  have hstate : Triple Advances Does InOrder (fun _ => True) state fun expected s => ∃ p, Followed expected p s := by
    refine Triple.weaken (state_triple beside_advances) (fun _ _ h => h) ?_
    rintro expected s - ⟨p, rfl, hp⟩
    exact ⟨p, hp.canonical, hp.length, hp.tip, le_rfl, fun _ => rfl⟩
  have hread : ∀ {expected : State} {p : List Block} {block : BlockNumber}, Triple Advances Does InOrder
      (Followed expected p) (header block) fun _ s => Followed expected p s :=
    fromRpc_triple beside_advances followed_stable fun _ _ _ h _ => h
  refine Triple.bind hstate fun expected => Triple.of_exists fun p => ?_
  refine Triple.bind ensure_triple fun _ => Triple.of_fact fun _ => ?_
  refine Triple.bind hread fun head => ?_
  extract_lets search
  have hsearch : Triple Advances Does InOrder (Followed expected p) (search ()) fun _ _ => True := by
    refine Triple.bind (query_triple beside_advances followed_stable fun _ _ _ h _ => h) fun height => ?_
    refine Triple.bind commonAncestor_triple fun ancestor => ?_
    extract_lets commit
    have hcommit : Triple Advances Does InOrder (fun s => Followed expected p s ∧ Ancestor expected p ancestor s)
        (commit ()) fun _ _ => True := by
      refine Triple.bind (transaction_triple (Θ := fun _ => True) beside_advances ancestor_stable ?_) fun _ =>
        Triple.weaken (state_triple beside_advances) (fun _ _ h => h) fun _ _ _ _ => trivial
      intro s after hs ⟨hfollowed, hancestor⟩ hafter
      obtain ⟨hhash, -, heq⟩ := observe_cases hafter
      obtain ⟨hon, hkept⟩ := hancestor hhash
      obtain ⟨hstored, hstays⟩ := (hfollowed.stored hs hhash).1.observe hs.coherent hon hkept hafter
      have hhistory : after.history = s.history := by
        rw [heq]
        dsimp only
        split <;> rfl
      exact ⟨fun _ => ⟨hs.after hhistory hstored, hstays⟩, hs.after hhistory hstored, trivial⟩
    split
    · refine Triple.bind (Ψ := fun _ s => Followed expected p s ∧ Ancestor expected p ancestor s) ?_ fun _ => hcommit
      refine Triple.bind (fromRpc_triple beside_advances ancestor_stable fun _ _ _ h _ => h) fun _ => ?_
      exact Triple.weaken ensure_triple (fun _ _ h => h) fun _ _ _ h => h.2
    · exact hcommit
  split
  · exact Triple.bind pause_triple fun _ => triple_throw_bind
  · exact hsearch

/-! ## Runs -/

theorem run_keeps {X G : Store → Store → Prop} {α : Type} {program : NearHead α}
    (h : Triple X G InOrder (fun _ => True) program fun _ _ => True) {s : Store} (hs : InOrder s) :
    Keeps X G InOrder (fun _ _ => True) (run program) s :=
  Keeps.bind (h s hs trivial) fun _ _ _ => trivial

/-- what the RPC, the database and the chain are up to -/
theorem interfere_advances (e : Other) (s : Store) : Advances s (scraper.interfere e s) := by
  intro hs
  obtain ⟨p, hp⟩ := hs.stored
  have hforward : ∀ {s' : Store}, s.history <+: s'.history → Coherent links s'.history → s'.head = s.head →
      s'.rows = s.rows → s'.checkpoints = s.checkpoints → InOrder s' ∧ Forward s s' := by
    intro s' hhistory hcoh hhead hrows hcheckpoints
    refine ⟨⟨hcoh, p, hp.congr hhistory hrows hcheckpoints ?_⟩, ⟨hhistory, ?_, ?_, ?_⟩, ?_, ?_, ?_⟩
    · rw [hhead]
      exact ⟨rfl, rfl, rfl, rfl⟩
    · rw [hhead]
    · rw [hhead]
    · rw [hrows]
    · rw [hhead]
    · rw [hhead]
      exact fun _ => rfl
    · rw [hcheckpoints]
      exact fun c hc _ => hc
  cases e with
  | dbFailing failing => exact hforward (List.prefix_refl _) hs.coherent rfl rfl rfl
  | leaseFresh fresh => exact hforward (List.prefix_refl _) hs.coherent rfl rfl rfl
  | rpcFailing failing => exact hforward (List.prefix_refl _) hs.coherent rfl rfl rfl
  | counts counts => exact hforward (List.prefix_refl _) hs.coherent rfl rfl rfl
  | tags safe finalized => exact hforward (List.prefix_refl _) hs.coherent rfl rfl rfl
  | chain chain =>
    simp only [scraper]
    split
    · rename_i hadmits
      exact hforward (List.prefix_append _ _) (hs.coherent.grow hadmits) rfl rfl rfl
    · exact ⟨hs, Forward.refl s⟩

/-- what the calls agree on -/
def pact : Pact scraper where
  P := InOrder
  R := Does
  F := Advances
  R_refl := Does.refl
  F_refl := Advances.refl
  R_trans h h' hs := ⟨(h' (h hs).1).1, (h hs).2.trans (h' (h hs).1).2⟩
  F_trans h h' hs := ⟨(h' (h hs).1).1, (h hs).2.trans (h' (h hs).1).2⟩
  F_R h hs := ⟨(h hs).1, (h hs).2.toKept⟩
  P_R hs h := (h hs).1
  interfere_F e s _ := interfere_advances e s
  others op s hbare hs := by
    cases op with
    | observe => cases hbare
    | pause =>
      refine run_keeps (transaction_triple beside_does (grows_true.stable beside_does) fun s after hs _ hafter => ?_) hs
      obtain rfl := Except.ok.inj hafter
      exact ⟨fun _ => pause_forward hs false, (pause_forward hs false).1, trivial⟩
    | ingestCached expected chunkSize countCache order => exact run_keeps ingestCached_triple hs
    | confirmLeased period => exact run_keeps confirmLeased_triple hs
  bare op s hbare hs := by
    cases op with
    | observe => exact run_keeps observe_triple hs
    | pause => cases hbare
    | ingestCached expected chunkSize countCache order => cases hbare
    | confirmLeased period => cases hbare

theorem Initialized.inOrder (d : Initialized) : InOrder d.store := by
  obtain ⟨n, hn⟩ := d.read
  have hget : (d.below ++ [d.anchor])[d.below.length]? = some d.anchor := by simp
  have hheight : d.anchor.header.height = d.below.length := by
    have := (hn.chain d.coherent).height hget
    rw [Nat.zero_add] at this
    exact this
  have hlength : (d.below ++ [d.anchor]).length = d.anchor.header.height + 1 := by
    rw [List.length_append, hheight]
    rfl
  have htip : HashAt links (d.below ++ [d.anchor]) d.anchor.header.height d.anchor.header.hash := by
    rw [hheight]
    exact Option.map_eq_some_iff.2 ⟨d.anchor, hget, rfl⟩
  refine ⟨d.coherent, _, ⟨⟨n, hn⟩, hlength, htip, ?_, le_rfl, le_rfl, fun c hc => ?_, ⟨_, List.mem_singleton.2 rfl, rfl⟩,
    List.mem_singleton.2 rfl⟩⟩
  · change [] = eventsAbove d.anchor.header.height _
    rw [eventsAbove, ← hlength, List.drop_length, List.flatMap_nil]
  · obtain rfl := List.mem_singleton.1 hc
    exact htip

/-- a run stores one chain, a start finds its checkpoints in order, and what was confirmed at an earlier moment stays -/
structure StoresOneChain (d : Initialized) (es : List (Option (Interleaving.Event Call Other))) : Prop where
  chain : ∃! p, StoredChain (scraper.crashRun d.start es).store p
  checkpoints : (scraper.crashRun d.start es).store.validateCheckpoints = true
  kept : ∀ es', es' <+: es → Kept (scraper.crashRun d.start es').store (scraper.crashRun d.start es).store

/-- **Near-head scraping stores one chain**, in every run in which observations wait for each other. -/
theorem stored_chain (d : Initialized) {es : List (Option (Interleaving.Event Call Other))}
    (hturn : scraper.InTurnRun d.start es) : StoresOneChain d es := by
  have hstart : pact.Inv d.start := Pact.Inv.initial d.inOrder
  have hin : InOrder (scraper.crashRun d.start es).store := (Pact.run_inv hstart hturn).1.safe
  obtain ⟨p, hp⟩ := hin.stored
  refine ⟨⟨p, hp, fun p' hp' => (hp.same hin.coherent (List.prefix_refl _) hp' rfl).1⟩, hp.validateCheckpoints, ?_⟩
  intro es' hes
  obtain ⟨hbefore, hdoes⟩ := Pact.run_between hstart hturn hes
  exact (hdoes hbefore).2

/-! ## Observations that overlap -/

def hashOf (n : UInt8) : H256 := ⟨List.replicate 32 n, rfl⟩

def genesis : Block := ⟨⟨0, hashOf 1, hashOf 0⟩, []⟩

/-- a block over the first one, with the delivery of one message -/
def blockOne (hash : UInt8) : Block :=
  ⟨⟨1, hashOf hash, hashOf 1⟩, [⟨⟨List.replicate 20 1, rfl⟩, hashOf hash, 0, 0, .delivery (hashOf hash)⟩]⟩

/-- the chain is at its first block -/
def fromGenesis : Initialized where
  history := [[genesis]]
  coherent := ⟨by decide, by decide, fun i j k a b p q _ _ ha hb _ hqa _ => by
    have hsame : ∀ {i : ℕ} {a : List Block}, [[genesis]][i]? = some a → a = [genesis] := fun h =>
      List.mem_singleton.1 (List.mem_of_getElem? h)
    rw [hsame hb, ← hsame ha]
    exact hqa⟩
  anchor := genesis
  below := []
  read := ⟨0, [genesis], rfl, List.prefix_rfl⟩

/-- block 1 has this hash from now on -/
def reorganised (hash : UInt8) : Option (Interleaving.Event Call Other) :=
  some (.interfere (.chain [genesis, blockOne hash]))

def advances (task n : ℕ) : List (Option (Interleaving.Event Call Other)) := List.replicate n (some (.advance task))

/-- block 1 is ingested on top of the first one -/
def ingestOne : Option (Interleaving.Event Call Other) :=
  some (.start (.ingestCached ⟨0, hashOf 1, 0, 1, false⟩ 10 none id))

/-- the chain comes to block 1, is observed, and the block is ingested -/
def firstBlock : List (Option (Interleaving.Event Call Other)) :=
  [some (.interfere (.counts fun _ => some (0, 0))), reorganised 2, some (.start .observe)] ++ advances 0 20 ++
    ingestOne :: advances 1 20

/-- Task 1 has all of block 2 but has not stored it, task 2 stores it. Task 3 observes: it has read the head row when
tasks 4 and 5 replace block 2 by block 3, of which it reads the checkpoint; task 6 drops block 3, and task 1 stores block
2 again. Task 3 then makes block 3 the tip, over the events and the checkpoint of block 2. -/
def overlapping : List (Option (Interleaving.Event Call Other)) :=
  [some (.interfere (.counts fun _ => some (0, 0))), reorganised 2, some (.start .observe)] ++ advances 0 20 ++
    ingestOne :: advances 1 6 ++ ingestOne :: advances 2 20 ++ some (.start .observe) :: advances 3 1 ++
    [reorganised 3, some (.start .observe)] ++ advances 4 20 ++ ingestOne :: advances 5 20 ++ advances 3 3 ++
    [reorganised 4, some (.start .observe)] ++ advances 6 20 ++ advances 1 1 ++ advances 3 20

/-- beside other observations, one may end with a tip that has no checkpoint and no events -/
theorem overlapping_unsound : ¬ ∀ d es, StoresOneChain d es := by
  intro h
  have hcheckpoints := (h fromGenesis overlapping).checkpoints
  revert hcheckpoints
  decide +kernel

theorem stored_chain_firstBlock : StoresOneChain fromGenesis firstBlock ∧
    (scraper.crashRun fromGenesis.start firstBlock).store.rows = (blockOne 2).events := by
  exact ⟨stored_chain fromGenesis (by decide +kernel), by decide +kernel⟩

end Hyperlane.Scraper
