/-
What the calls of the near-head scraper find out before their transactions.

A call reads the chain of many moments. What it reads it knows under the condition that the chain went through some list
of blocks then (`Since`), and a hash that it finds again at the end shows that it did. While it reads, the others keep the
store in order (`InOrder`) and grow the history.

- `byBlock_groups`, `blocksWith_ok`, `checkRange_ok`: a range in the order of its blocks, and its last block.
- `ensure_triple`, `query_triple`, `transaction_triple`: the rules for single accesses.
- `header_triple`, `events_triple`, `headers_triple`: what an answer says of a list that the chain went through.
- `header_settles`, `verify_triple`: the hash of its last block is found again.
-/
import Hyperlane.Core.Outcome
import Hyperlane.Scraper.StoredChain

namespace Hyperlane.Scraper

open Interleaving ChainHistory Relayer

/-! ## The blocks of a range -/

section Ranges

/-- events in groups by height, up to a height -/
structure Groups (groups : List (ℕ × List Event)) (top : ℕ) (events : List Event) : Prop where
  sorted : groups.Pairwise fun g g' => g.1 < g'.1
  bound : ∀ g ∈ groups, g.1 ≤ top
  events : groups.flatMap Prod.snd = events

variable {groups : List (ℕ × List Event)} {blocks : List (Header × List Event)} {found : List (ℕ × Header)}
  {events done new : List Event} {top stop height : ℕ}

theorem entry_key {f : List Event → List Event} {g : ℕ × List Event} (h : g ∈ entry height f groups) :
    g.1 = height ∨ ∃ g' ∈ groups, g'.1 = g.1 := by
  induction groups with
  | nil =>
    obtain rfl := List.mem_singleton.1 h
    exact .inl rfl
  | cons g' rest ih =>
    rw [entry] at h
    split at h
    · rcases List.mem_cons.1 h with rfl | h
      · exact .inl rfl
      · exact .inr ⟨g, h, rfl⟩
    split at h
    · rcases List.mem_cons.1 h with rfl | h
      · exact .inr ⟨_, List.mem_cons_self, rfl⟩
      · exact .inr ⟨g, List.mem_cons_of_mem _ h, rfl⟩
    · rcases List.mem_cons.1 h with rfl | h
      · exact .inr ⟨_, List.mem_cons_self, rfl⟩
      · exact (ih h).imp_right fun ⟨g', hg', hkey⟩ => ⟨g', List.mem_cons_of_mem _ hg', hkey⟩

/-- an entry at the top adds to the last group or is a new last one -/
theorem Groups.entry (h : Groups groups top done) (htop : top ≤ height) {f : List Event → List Event}
    (hf : ∀ es, f es = es ++ new) : Groups (entry height f groups) height (done ++ new) ∧
      ∃ es, (Scraper.entry height f groups).getLast? = some (height, es) := by
  obtain ⟨hsorted, hbound, rfl⟩ := h
  induction groups with
  | nil =>
    refine ⟨⟨List.pairwise_singleton _ _, fun g hg => ?_, ?_⟩, f [], rfl⟩
    · obtain rfl := List.mem_singleton.1 hg
      exact le_rfl
    · simp [Scraper.entry, hf]
  | cons g rest ih =>
    obtain ⟨key, es⟩ := g
    obtain ⟨hbelow, hrest⟩ := List.pairwise_cons.1 hsorted
    have hkey : key ≤ top := hbound _ List.mem_cons_self
    have hboundRest : ∀ g ∈ rest, g.1 ≤ top := fun g hg => hbound g (List.mem_cons_of_mem _ hg)
    rw [Scraper.entry, if_neg (by omega)]
    by_cases heq : height = key
    · -- it is the last group
      have hnil : rest = [] := by
        refine List.eq_nil_iff_forall_not_mem.2 fun g hg => ?_
        have hlow := hbelow g hg
        have hhigh := hboundRest g hg
        dsimp only at hlow
        omega
      subst hnil
      rw [if_pos heq]
      refine ⟨⟨List.pairwise_singleton _ _, fun g hg => ?_, ?_⟩, f es, by rw [heq]; rfl⟩
      · obtain rfl := List.mem_singleton.1 hg
        exact heq.ge
      · simp [hf]
    · rw [if_neg heq]
      obtain ⟨⟨hsorted', hbound', hevents'⟩, es', hlast⟩ := ih hrest hboundRest
      refine ⟨⟨List.pairwise_cons.2 ⟨fun g hg => ?_, hsorted'⟩, fun g hg => ?_, ?_⟩, es', ?_⟩
      · dsimp only
        rcases entry_key hg with hkey | ⟨g', hg', hkey⟩
        · omega
        · exact hkey ▸ hbelow g' hg'
      · rcases List.mem_cons.1 hg with rfl | hg
        · dsimp only
          omega
        · exact hbound' g hg
      · rw [List.flatMap_cons, hevents', List.flatMap_cons, List.append_assoc]
      · rw [List.getLast?_cons, hlast]
        rfl

theorem foldl_groups (hsorted : events.Pairwise fun e e' => e.blockNumber ≤ e'.blockNumber)
    (hstop : ∀ e ∈ events, e.blockNumber ≤ stop) (h : Groups groups top done)
    (htop : top ≤ stop ∧ ∀ e ∈ events, top ≤ e.blockNumber) :
    Groups (events.foldl (fun blocks event => entry event.blockNumber (· ++ [event]) blocks) groups) stop
      (done ++ events) := by
  induction events generalizing groups top done with
  | nil => exact ⟨h.sorted, fun g hg => (h.bound g hg).trans htop.1, by rw [List.append_nil]; exact h.events⟩
  | cons e events ih =>
    obtain ⟨hlater, hsorted⟩ := List.pairwise_cons.1 hsorted
    have hentry := (h.entry (htop.2 e List.mem_cons_self) fun _ => rfl : Groups _ _ (done ++ [e]) ∧ _).1
    have hrest := ih hsorted (fun e' he' => hstop e' (List.mem_cons_of_mem _ he')) hentry
      ⟨hstop e List.mem_cons_self, hlater⟩
    rwa [List.append_assoc, List.singleton_append] at hrest

/-- the groups of a range, of which the last is at its end -/
theorem byBlock_groups (hsorted : events.Pairwise fun e e' => e.blockNumber ≤ e'.blockNumber)
    (hstop : ∀ e ∈ events, e.blockNumber ≤ stop) :
    Groups (byBlock events stop) stop events ∧ ∃ es, (byBlock events stop).getLast? = some (stop, es) := by
  have hempty : Groups [] 0 [] := ⟨List.Pairwise.nil, (fun _ hg => nomatch hg), rfl⟩
  have hfold := foldl_groups hsorted hstop hempty ⟨Nat.zero_le _, fun _ _ => Nat.zero_le _⟩
  rw [List.nil_append] at hfold
  have hentry : Groups (byBlock events stop) stop (events ++ []) ∧ _ :=
    hfold.entry le_rfl fun es => (List.append_nil es).symm
  rwa [List.append_nil] at hentry

theorem mem_of_lookup {header : Header} (h : found.lookup height = some header) : (height, header) ∈ found := by
  induction found with
  | nil => cases h
  | cons x found ih =>
    obtain ⟨key, y⟩ := x
    rw [List.lookup_cons] at h
    split at h
    · obtain rfl := Option.some.inj h
      rename_i hkey
      rw [beq_iff_eq.1 hkey]
      exact List.mem_cons_self
    · exact List.mem_cons_of_mem _ (ih h)

/-- each group with the header that was found for it -/
theorem blocksWith_ok (h : blocksWith found groups = .ok blocks) :
    List.Forall₂ (fun g b => found.lookup g.1 = some b.1 ∧ b.2 = g.2) groups blocks := by
  induction groups generalizing blocks with
  | nil =>
    obtain rfl := Except.ok.inj h
    exact List.Forall₂.nil
  | cons g rest ih =>
    obtain ⟨key, es⟩ := g
    obtain ⟨header, hfound, h⟩ := Outcome.bind_eq_ok.1 h
    have hlookup : found.lookup key = some header := by
      cases hkey : found.lookup key with
      | none =>
        rw [hkey] at hfound
        cases hfound
      | some header' =>
        rw [hkey] at hfound
        obtain rfl := Except.ok.inj hfound
        rfl
    by_cases hfork : ∀ event ∈ es, event.blockHash = header.hash
    · simp only [if_neg (not_not.2 hfork)] at h
      obtain ⟨others, hothers, h⟩ := Outcome.bind_eq_ok.1 h
      obtain rfl := Except.ok.inj h
      exact .cons ⟨hlookup, rfl⟩ (ih hothers)
    · simp only [if_pos hfork] at h
      cases h

theorem flatMap_of_pairs (h : List.Forall₂ (fun g b => found.lookup g.1 = some b.1 ∧ b.2 = g.2) groups blocks) :
    blocks.flatMap Prod.snd = groups.flatMap Prod.snd := by
  induction h with
  | nil => rfl
  | cons hpair _ ih => rw [List.flatMap_cons, List.flatMap_cons, ih, hpair.2]

theorem mem_of_pairs (h : List.Forall₂ (fun g b => found.lookup g.1 = some b.1 ∧ b.2 = g.2) groups blocks)
    {b : Header × List Event} (hb : b ∈ blocks) : ∃ g ∈ groups, found.lookup g.1 = some b.1 := by
  induction h with
  | nil => cases hb
  | cons hpair _ ih =>
    rcases List.mem_cons.1 hb with rfl | hb
    · exact ⟨_, List.mem_cons_self, hpair.1⟩
    · obtain ⟨g, hg, hlookup⟩ := ih hb
      exact ⟨g, List.mem_cons_of_mem _ hg, hlookup⟩

theorem last_of_pairs (h : List.Forall₂ (fun g b => found.lookup g.1 = some b.1 ∧ b.2 = g.2) groups blocks)
    {g : ℕ × List Event} (hg : groups.getLast? = some g) :
    ∃ b, blocks.getLast? = some b ∧ found.lookup g.1 = some b.1 := by
  induction h with
  | nil => cases hg
  | cons hpair hrest ih =>
    cases hrest with
    | nil =>
      obtain rfl := Option.some.inj hg
      exact ⟨_, rfl, hpair.1⟩
    | cons hpair' hrest' =>
      rw [List.getLast?_cons_cons] at hg ⊢
      exact ih hg

/-- the blocks of a range are above its start, and the last one is returned -/
theorem checkRange_ok {expected : State} {previous : H256} {r : ℕ × H256}
    (h : checkRange expected height previous blocks = .ok r) :
    (∀ b ∈ blocks, height < b.1.height) ∧
      (∀ b, blocks.getLast? = some b → r = (b.1.height, b.1.hash)) := by
  induction blocks generalizing height previous with
  | nil => exact ⟨(fun _ hb => nomatch hb), fun _ hb => nomatch hb⟩
  | cons b blocks ih =>
    obtain ⟨header, es⟩ := b
    by_cases horder : height < header.height ∧ header.height ≤ expected.head ∧
        (header.height = height + 1 → header.parent = previous)
    · by_cases hes : ∀ event ∈ es, event.blockNumber = header.height ∧ event.blockHash = header.hash
      · simp only [checkRange, if_neg (not_not.2 horder), if_neg (not_not.2 hes)] at h
        obtain ⟨habove, hlast⟩ := ih h
        refine ⟨fun b hb => ?_, fun b hb => ?_⟩
        · rcases List.mem_cons.1 hb with rfl | hb
          · exact horder.1
          · exact horder.1.trans (habove b hb)
        · cases blocks with
          | nil =>
            obtain rfl := Option.some.inj hb
            exact (Except.ok.inj h).symm
          | cons b' blocks =>
            rw [List.getLast?_cons_cons] at hb
            exact hlast b hb
      · simp only [checkRange, if_neg (not_not.2 horder), if_pos hes] at h
        cases h
    · simp only [checkRange, if_pos horder] at h
      cases h

end Ranges

/-! ## Accesses -/

/-- what a call does -/
def Does (a b : Store) : Prop := InOrder a → InOrder b ∧ Kept a b

/-- what a call other than an observation does -/
def Advances (a b : Store) : Prop := InOrder a → InOrder b ∧ Forward a b

/-- a fact that a longer history leaves -/
def Grows (Φ : Store → Prop) : Prop := ∀ s s', s.history <+: s'.history → Φ s → Φ s'

/-- a call that does `G` steps, beside others that do `X` steps -/
structure Beside (X G : Store → Store → Prop) : Prop where
  keeps : ∀ s s', InOrder s → X s s' → InOrder s' ∧ Kept s s'
  refl : ∀ s, G s s

theorem Does.refl (s : Store) : Does s s := fun h => ⟨h, Kept.refl s⟩

theorem Advances.refl (s : Store) : Advances s s := fun h => ⟨h, Forward.refl s⟩

theorem beside_does : Beside Does Advances := ⟨fun _ _ hs h => h hs, Advances.refl⟩

theorem beside_advances : Beside Advances Does := ⟨fun _ _ hs h => ⟨(h hs).1, (h hs).2.toKept⟩, Does.refl⟩

section Accesses

variable {α : Type} {X G : Store → Store → Prop} {Φ : Store → Prop} {Ψ : α → Store → Prop} {q : List Block} {m n : ℕ}

theorem Grows.and {Φ' : Store → Prop} (h : Grows Φ) (h' : Grows Φ') : Grows fun s => Φ s ∧ Φ' s :=
  fun s s' hs hΦ => ⟨h s s' hs hΦ.1, h' s s' hs hΦ.2⟩

theorem grows_true : Grows fun _ => True := fun _ _ _ _ => trivial

theorem grows_goes : Grows fun s => Goes s.history m q := fun _ _ hs h => h.grow hs

theorem grows_since {φ : Prop} : Grows fun s => Since s.history m q φ := fun _ _ hs h => h.grow hs

theorem Grows.stable (hΦ : Grows Φ) (hX : Beside X G) : Stable X InOrder Φ where
  safe s s' hs h := (hX.keeps s s' hs h).1
  fact s s' hs h hx := hΦ s s' (hX.keeps s s' hs hx).2.history h

theorem ensure_triple {condition : Prop} [Decidable condition] {text : String} :
    Triple X G InOrder Φ (ensure condition text) fun _ s => condition ∧ Φ s := by
  by_cases h : condition
  · rw [ensure, if_pos h]
    exact triple_pure fun s _ hs => ⟨h, hs⟩
  · rw [ensure, if_neg h]
    exact triple_throw

theorem fromRpc_triple {answer : Store → Except String α} (hX : Beside X G) (hstable : Stable X InOrder Φ)
    (h : ∀ s a, InOrder s → Φ s → answer s = .ok a → Ψ a s) : Triple X G InOrder Φ (fromRpc answer) Ψ := by
  refine triple_read hstable hX.refl fun s a hs hΦ ha => ?_
  split at ha
  · cases ha
  · exact h s a hs hΦ ha

theorem query_triple {answer : Store → Except String α} (hX : Beside X G) (hstable : Stable X InOrder Φ)
    (h : ∀ s a, InOrder s → Φ s → answer s = .ok a → Ψ a s) : Triple X G InOrder Φ (query answer) Ψ := by
  refine triple_read hstable hX.refl fun s a hs hΦ ha => ?_
  split at ha
  · cases ha
  · exact h s a hs hΦ ha

/-- what the call knows afterwards is what the change tells when it goes through -/
theorem transaction_triple {change : Store → Except String Store} {Θ : Store → Prop} (hX : Beside X G)
    (hstable : Stable X InOrder Φ)
    (h : ∀ s after, InOrder s → Φ s → change s = .ok after → G s after ∧ InOrder after ∧ Θ after) :
    Triple X G InOrder Φ (transaction change) fun _ s => Θ s := by
  have hcases : ∀ s, InOrder s → Φ s → (∃ e, s.transact change = .error e) ∨
      ∃ after, s.transact change = .ok after ∧ G s after ∧ InOrder after ∧ Θ after := by
    intro s hs hΦ
    cases hdone : s.transact change with
    | error e => exact .inl ⟨e, rfl⟩
    | ok after => exact .inr ⟨after, rfl, h s after hs hΦ (transact_ok hdone)⟩
  refine triple_access hstable (fun s hs hΦ => ?_) fun s a hs hΦ ha => ?_
  · rcases hcases s hs hΦ with ⟨e, he⟩ | ⟨after, hafter, hG, hin, -⟩
    · rw [he]
      exact ⟨hX.refl s, hs⟩
    · rw [hafter]
      exact ⟨hG, hin⟩
  · rcases hcases s hs hΦ with ⟨e, he⟩ | ⟨after, hafter, -, -, hΘ⟩
    · rw [he] at ha
      cases ha
    · rw [hafter]
      exact hΘ

/-! ## Answers of the RPC -/

theorem block_at {s : Store} {block : BlockNumber} {b : Block} (h : s.block block = some b) :
    ∃ i, s.chain[i]? = some b ∧ ∀ n, block = .number n → i = n := by
  cases block with
  | number height => exact ⟨height, h, fun n hn => BlockNumber.number.inj hn⟩
  | latest => exact ⟨s.chain.length - 1, by rw [← List.getLast?_eq_getElem?]; exact h, nofun⟩
  | safe => exact ⟨s.safe, h, nofun⟩
  | finalized => exact ⟨s.finalized, h, nofun⟩

theorem chain_last {s : Store} (h : s.chain ≠ []) : s.history[s.history.length - 1]? = some s.chain := by
  rw [← List.getLast?_eq_getElem?]
  rw [Store.chain] at h ⊢
  cases hlast : s.history.getLast? with
  | none =>
    rw [hlast] at h
    exact absurd rfl h
  | some p => rfl

/-- a header that is answered is on the chain of the moment -/
theorem header_on_chain {s : Store} (hs : InOrder s) {block : BlockNumber} {answer : Header}
    (h : (s.block block).elim (.error "Missing stream block") (fun b => .ok b.header) = Except.ok answer) :
    s.history[s.history.length - 1]? = some s.chain ∧ HashAt links s.chain answer.height answer.hash ∧
      ∀ n, block = .number n → answer.height = n := by
  cases hblock : s.block block with
  | none =>
    rw [hblock] at h
    cases h
  | some b =>
    rw [hblock] at h
    obtain rfl := Except.ok.inj h
    obtain ⟨i, hi, hnumber⟩ := block_at hblock
    have hlast := chain_last (List.ne_nil_of_mem (List.mem_of_getElem? hi))
    have hheight := (hs.coherent.chains _ (List.mem_of_getElem? hlast)).height hi
    have hheight : b.header.height = i := by
      rw [Nat.zero_add] at hheight
      exact hheight
    refine ⟨hlast, ?_, fun n hn => hheight.trans (hnumber n hn)⟩
    rw [hheight]
    exact Option.map_eq_some_iff.2 ⟨b, hi, rfl⟩

/-- what is read of the chain is known of a list that the chain may go through -/
theorem since_now {s : Store} {φ : Prop} (hgoes : Goes s.history m q) (h : q <+: s.chain → φ) :
    Since s.history m q φ := by
  obtain ⟨p, hp, -⟩ := hgoes
  have hlt := (List.getElem?_eq_some_iff.1 hp).1
  refine ⟨s.history.length - 1, by omega, by omega, fun ⟨p', hp', hq⟩ => h ?_⟩
  rw [← List.getLast?_eq_getElem?] at hp'
  rw [Store.chain, hp']
  exact hq

theorem header_triple {block : BlockNumber} (hX : Beside X G) (hΦ : Grows Φ) (hgoes : ∀ s, Φ s → Goes s.history m q) :
    Triple X G InOrder Φ (header block) fun answer s => (∀ n, block = .number n → answer.height = n) ∧
      Since s.history m q (answer.height < q.length → HashAt links q answer.height answer.hash) ∧ Φ s := by
  refine fromRpc_triple hX (hΦ.stable hX) fun s answer hs h ha => ?_
  obtain ⟨-, hon, hnumber⟩ := header_on_chain hs ha
  exact ⟨hnumber, since_now (hgoes s h) fun hq hlt => hon.shorter hq hlt, h⟩

/-- the chain up to a header -/
theorem header_first (hX : Beside X G) (hΦ : Grows Φ) : Triple X G InOrder Φ (header (.number n)) fun answer s =>
    ∃ m q, (answer.height = n ∧ q.length = n + 1 ∧ HashAt links q n answer.hash) ∧ Goes s.history m q ∧ Φ s := by
  refine fromRpc_triple hX (hΦ.stable hX) fun s answer hs h ha => ?_
  obtain ⟨hlast, hon, hnumber⟩ := header_on_chain hs ha
  obtain rfl := hnumber n rfl
  refine ⟨_, s.chain.take (answer.height + 1), ⟨rfl, ?_, hon.take (Nat.lt_succ_self _)⟩, ⟨_, hlast, List.take_prefix _ _⟩, h⟩
  rw [List.length_take]
  exact min_eq_left hon.lt

/-- a hash that is found again settles what was read on the way -/
theorem header_settles (hX : Beside X G) (hΦ : Grows Φ) (hgoes : ∀ s, Φ s → Goes s.history m q)
    (hlength : q.length = n + 1) : Triple X G InOrder Φ (header (.number n)) fun answer s =>
      (HashAt links q n answer.hash → ∀ φ, Since s.history m q φ → φ) ∧ Φ s := by
  refine fromRpc_triple hX (hΦ.stable hX) fun s answer hs h ha => ⟨fun hhash φ hφ => ?_, h⟩
  obtain ⟨hlast, hon, hnumber⟩ := header_on_chain hs ha
  rw [hnumber n rfl] at hon
  have hprefix := hs.coherent.goes_of_hash (hgoes s h) hlength hhash hlast hon
  exact hφ.settle hs.coherent (hgoes s h) ⟨_, hlast, hprefix⟩ (by omega)

theorem verify_triple {checked : Header} (hX : Beside X G) (hΦ : Grows Φ) (hgoes : ∀ s, Φ s → Goes s.history m q)
    (hlength : q.length = checked.height + 1) (hhash : HashAt links q checked.height checked.hash) :
    Triple X G InOrder Φ (verify checked) fun _ s => (∀ φ, Since s.history m q φ → φ) ∧ Φ s := by
  refine (header_settles hX hΦ hgoes hlength).bind fun answer => ensure_triple.weaken (fun _ _ h => h) ?_
  rintro - s - ⟨hsame, hsettle, h⟩
  exact ⟨hsettle (hsame ▸ hhash), h⟩

theorem events_triple {first stop : ℕ} (hX : Beside X G) (hΦ : Grows Φ) (hgoes : ∀ s, Φ s → Goes s.history m q)
    (hlength : q.length = stop + 1) : Triple X G InOrder Φ (events (first + 1) stop) fun answer s =>
      (first < stop) ∧ Since s.history m q (answer = eventsAbove first q) ∧ Φ s := by
  refine ensure_triple.bind fun _ => Triple.of_fact fun hle => ?_
  refine fromRpc_triple hX (hΦ.stable hX) fun s answer hs h ha => ⟨hle, since_now (hgoes s h) fun hq => ?_, h⟩
  obtain rfl := Except.ok.inj ha
  rw [eventsAbove, ← hlength, ← List.prefix_iff_eq_take.1 hq]

theorem counts_triple {hash : H256} (hX : Beside X G) (hΦ : Grows Φ) :
    Triple X G InOrder Φ (counts hash) fun _ s => Φ s :=
  fromRpc_triple hX (hΦ.stable hX) fun _ _ _ h _ => h

/-- headers in any order -/
theorem headers_triple {boundary : Header} {heights : List ℕ} (hX : Beside X G) (hΦ : Grows Φ)
    (hgoes : ∀ s, Φ s → Goes s.history m q) (hboundary : HashAt links q boundary.height boundary.hash) :
    Triple X G InOrder Φ (headers boundary heights) fun found s => (∀ x ∈ found, x.2.height = x.1 ∧
      Since s.history m q (x.1 < q.length → HashAt links q x.1 x.2.hash)) ∧ Φ s := by
  induction heights generalizing Φ with
  | nil => exact triple_pure fun s _ h => ⟨(fun _ hx => nomatch hx), h⟩
  | cons height heights ih =>
    -- the first answer is known while the others are asked for
    have hrest : ∀ first : Header, Triple X G InOrder (fun s => first.height = height ∧
        Since s.history m q (height < q.length → HashAt links q height first.hash) ∧ Φ s)
        (do return (height, first) :: (← headers boundary heights))
        fun found s => (∀ x ∈ found, x.2.height = x.1 ∧
          Since s.history m q (x.1 < q.length → HashAt links q x.1 x.2.hash)) ∧ Φ s := by
      intro first
      refine Triple.of_fact fun hheight => ?_
      refine (ih (grows_since.and hΦ) fun s h => hgoes s h.2).bind fun found => triple_pure ?_
      rintro s - ⟨hfound, hfirst, h⟩
      refine ⟨fun x hx => ?_, h⟩
      rcases List.mem_cons.1 hx with rfl | hx
      · exact ⟨hheight, hfirst⟩
      · exact hfound x hx
    rw [headers]
    split
    · rename_i heq
      refine (triple_pure fun s _ h => ?_).bind hrest
      exact ⟨heq.symm, since_now (hgoes s h) fun _ _ => heq ▸ hboundary, h⟩
    · refine Triple.bind ((header_triple hX hΦ hgoes).weaken (fun _ _ h => h) ?_) hrest
      rintro first s - ⟨hnumber, hsince, h⟩
      have hheight := hnumber height rfl
      exact ⟨hheight, hheight ▸ hsince, h⟩

end Accesses

end Hyperlane.Scraper
