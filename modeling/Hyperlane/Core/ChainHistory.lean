/-
The history of a chain of linked blocks that is extended and reorganised.

A history lists the chain of each moment, from block 0 up. Blocks are numbered, each names the hash of the one below it,
and hashes tell blocks apart; so a block tells all that is below it (`take_eq`). What was dropped from the chain does not
come back.

- `Goes`, `HashAt`: the chain of a moment goes through the blocks of a list; the hash of a block of a list.
- `Coherent.goes_between`: what the chain goes through at two moments, it goes through at every moment between them.
- `Coherent.goes_of_hash`: a hash that is found on the chain shows that it goes through everything below.
- `Since.settle`: what was read under the condition that the chain went through some blocks, once they are seen again.
- `Coherent.grow`: a chain that a history admits keeps it coherent.
-/
import Mathlib.Tactic

namespace Hyperlane.ChainHistory

variable {B H : Type}

/-- how blocks are numbered and linked -/
structure Links (B H : Type) where
  height : B → ℕ
  hash : B → H
  parent : B → H

variable (L : Links B H)

/-- blocks numbered from a height on, each over the one before it -/
def ChainFrom : ℕ → Option H → List B → Prop
  | _, _, [] => True
  | n, below, b :: bs => L.height b = n ∧ (∀ h ∈ below, L.parent b = h) ∧ ChainFrom (n + 1) (some (L.hash b)) bs

/-- different blocks of the two chains have different hashes -/
def Apart (p p' : List B) : Prop := ∀ b ∈ p, ∀ b' ∈ p', L.hash b = L.hash b' → b = b'

structure Coherent (history : List (List B)) : Prop where
  chains : ∀ p ∈ history, ChainFrom L 0 none p
  apart : ∀ p ∈ history, ∀ p' ∈ history, Apart L p p'
  /-- what is on the chain at two moments is on it between them -/
  steady : ∀ (i j k : ℕ) (a b p q : List B), i ≤ j → j ≤ k → history[i]? = some a → history[j]? = some b →
    history[k]? = some p → q <+: a → q <+: p → q <+: b

/-- a chain that may come next: what is on it of an earlier one is on the last one -/
structure Admits (history : List (List B)) (p : List B) : Prop where
  chain : ChainFrom L 0 none p
  apart : ∀ p' ∈ history ++ [p], Apart L p p'
  steady : ∀ a ∈ history, ∀ n ≤ p.length, p.take n <+: a → ∀ last ∈ history.getLast?, p.take n <+: last

/-- the hash of the block at a height -/
def HashAt (p : List B) (n : ℕ) (h : H) : Prop := p[n]?.map L.hash = some h

/-- the chain of a moment goes through the blocks of a list -/
def Goes (history : List (List B)) (n : ℕ) (q : List B) : Prop := ∃ p, history[n]? = some p ∧ q <+: p

section Decidable

variable [DecidableEq H] [DecidableEq B]

instance decidableChainFrom : (n : ℕ) → (below : Option H) → (bs : List B) → Decidable (ChainFrom L n below bs)
  | _, _, [] => inferInstanceAs (Decidable True)
  | n, _, b :: bs => @instDecidableAnd _ _ _ (@instDecidableAnd _ _ _ (decidableChainFrom (n + 1) (some (L.hash b)) bs))

instance (p p' : List B) : Decidable (Apart L p p') :=
  inferInstanceAs (Decidable (∀ b ∈ p, ∀ b' ∈ p', L.hash b = L.hash b' → b = b'))

instance (history : List (List B)) (p : List B) : Decidable (Admits L history p) :=
  decidable_of_iff (ChainFrom L 0 none p ∧ (∀ p' ∈ history ++ [p], Apart L p p') ∧
      ∀ a ∈ history, ∀ n < p.length + 1, p.take n <+: a → ∀ last ∈ history.getLast?, p.take n <+: last)
    ⟨fun h => ⟨h.1, h.2.1, fun a ha n hn => h.2.2 a ha n (Nat.lt_succ_of_le hn)⟩,
      fun h => ⟨h.chain, h.apart, fun a ha n hn => h.steady a ha n (Nat.le_of_lt_succ hn)⟩⟩

end Decidable

variable {L} {history : List (List B)} {p p' q q' : List B} {b b' : B} {x : H} {i j k m n : ℕ}

/-! ## Blocks of one chain -/

theorem ChainFrom.height {below : Option H} (h : ChainFrom L n below p) (hb : p[i]? = some b) : L.height b = n + i := by
  induction p generalizing n below i with
  | nil => simp at hb
  | cons b' p ih =>
    obtain ⟨hheight, -, hrest⟩ := h
    cases i with
    | zero =>
      obtain rfl := Option.some.inj hb
      exact hheight
    | succ i =>
      rw [List.getElem?_cons_succ] at hb
      have := ih hrest hb
      omega

theorem ChainFrom.parent {below : Option H} (h : ChainFrom L n below p) (hb : p[i]? = some b)
    (hb' : p[i + 1]? = some b') : L.parent b' = L.hash b := by
  induction p generalizing n below i with
  | nil => simp at hb
  | cons d p ih =>
    obtain ⟨-, -, hrest⟩ := h
    rw [List.getElem?_cons_succ] at hb'
    cases i with
    | zero =>
      obtain rfl := Option.some.inj hb
      cases p with
      | nil => simp at hb'
      | cons e p =>
        obtain rfl := Option.some.inj hb'
        exact hrest.2.1 _ rfl
    | succ i =>
      rw [List.getElem?_cons_succ] at hb
      exact ih hrest hb hb'

theorem ChainFrom.of_append {below : Option H} (h : ChainFrom L n below (p ++ q)) : ChainFrom L n below p := by
  induction p generalizing n below with
  | nil => trivial
  | cons b p ih => exact ⟨h.1, h.2.1, ih h.2.2⟩

theorem ChainFrom.drop {below : Option H} (h : ChainFrom L n below p) (i : ℕ) :
    ∃ below', ChainFrom L (n + i) below' (p.drop i) := by
  induction i generalizing n below p with
  | zero => exact ⟨below, h⟩
  | succ i ih =>
    cases p with
    | nil => exact ⟨none, trivial⟩
    | cons b p =>
      obtain ⟨below', hrest⟩ := ih h.2.2
      exact ⟨below', by rwa [← Nat.add_right_comm] at hrest⟩

/-- a block tells the blocks below it -/
theorem take_eq (hc : ChainFrom L 0 none p) (hc' : ChainFrom L 0 none p') (hapart : Apart L p p')
    (hb : p[i]? = some b) (hb' : p'[i]? = some b') (hhash : L.hash b = L.hash b') :
    p.take (i + 1) = p'.take (i + 1) := by
  induction i generalizing b b' with
  | zero =>
    obtain rfl := hapart b (List.mem_of_getElem? hb) b' (List.mem_of_getElem? hb') hhash
    rw [List.take_add_one, List.take_add_one, hb, hb', List.take_zero, List.take_zero]
  | succ i ih =>
    obtain rfl := hapart b (List.mem_of_getElem? hb) b' (List.mem_of_getElem? hb') hhash
    -- the blocks below have the hash that this one names
    have hlt : i < p.length := by
      have := (List.getElem?_eq_some_iff.1 hb).1
      omega
    have hlt' : i < p'.length := by
      have := (List.getElem?_eq_some_iff.1 hb').1
      omega
    have hbelow : L.hash p[i] = L.hash p'[i] := by
      rw [← hc.parent (List.getElem?_eq_getElem hlt) hb, ← hc'.parent (List.getElem?_eq_getElem hlt') hb']
    have htake := ih (List.getElem?_eq_getElem hlt) (List.getElem?_eq_getElem hlt') hbelow
    rw [List.take_add_one (i := i + 1), List.take_add_one (i := i + 1), htake, hb, hb']

/-! ## Hashes -/

theorem HashAt.longer (h : HashAt L q n x) (hq : q <+: p) : HashAt L p n x := by
  obtain ⟨b, hb, hx⟩ := Option.map_eq_some_iff.1 h
  obtain ⟨rest, rfl⟩ := hq
  exact Option.map_eq_some_iff.2 ⟨b, (List.getElem?_append_left (List.getElem?_eq_some_iff.1 hb).1).trans hb, hx⟩

theorem HashAt.shorter (h : HashAt L p n x) (hq : q <+: p) (hn : n < q.length) : HashAt L q n x := by
  obtain ⟨rest, rfl⟩ := hq
  exact (congrArg (Option.map L.hash) (List.getElem?_append_left hn)).symm.trans h

theorem HashAt.lt (h : HashAt L p n x) : n < p.length := by
  obtain ⟨b, hb, -⟩ := Option.map_eq_some_iff.1 h
  exact (List.getElem?_eq_some_iff.1 hb).1

theorem HashAt.inj {y : H} (h : HashAt L p n x) (h' : HashAt L p n y) : x = y := Option.some.inj (h.symm.trans h')

theorem HashAt.take (h : HashAt L p n x) (hn : n < m) : HashAt L (p.take m) n x :=
  h.shorter (List.take_prefix m p) (by rw [List.length_take]; exact lt_min hn h.lt)

/-- a hash is found at one height -/
theorem HashAt.height_inj {below : Option H} (hc : ChainFrom L j below p) (hapart : Apart L p p) (h : HashAt L p n x)
    (h' : HashAt L p m x) : n = m := by
  obtain ⟨b, hb, hx⟩ := Option.map_eq_some_iff.1 h
  obtain ⟨b', hb', hx'⟩ := Option.map_eq_some_iff.1 h'
  have hsame := hapart b (List.mem_of_getElem? hb) b' (List.mem_of_getElem? hb') (hx.trans hx'.symm)
  have hheight := hc.height hb
  have hheight' := hc.height hb'
  rw [hsame] at hheight
  omega

/-! ## Moments -/

theorem Goes.grow {more : List (List B)} (h : Goes history n q) (hmore : history <+: more) : Goes more n q := by
  obtain ⟨p, hc, hq⟩ := h
  obtain ⟨rest, rfl⟩ := hmore
  exact ⟨p, (List.getElem?_append_left (List.getElem?_eq_some_iff.1 hc).1).trans hc, hq⟩

theorem Goes.chain (h : Goes history n q) (hc : Coherent L history) : ChainFrom L 0 none q := by
  obtain ⟨p, hp, rest, rfl⟩ := h
  exact (hc.chains _ (List.mem_of_getElem? hp)).of_append

theorem Goes.apart (h : Goes history n q) (hc : Coherent L history) : Apart L q q := by
  obtain ⟨p, hp, hq⟩ := h
  have hmem := List.mem_of_getElem? hp
  exact fun b hb b' hb' => hc.apart p hmem p hmem b (hq.subset hb) b' (hq.subset hb')

theorem Goes.shorter (h : Goes history n q) (hq : q' <+: q) : Goes history n q' := by
  obtain ⟨p, hc, hqc⟩ := h
  exact ⟨p, hc, hq.trans hqc⟩

theorem Coherent.goes_between (h : Coherent L history) (hi : Goes history i q) (hk : Goes history k q)
    (hij : i ≤ j) (hjk : j ≤ k) : ∀ p ∈ history[j]?, q <+: p := by
  intro b hb
  obtain ⟨a, ha, hqa⟩ := hi
  obtain ⟨p, hc, hqc⟩ := hk
  exact h.steady i j k a b p q hij hjk ha hb hc hqa hqc

/-- a hash that is found on the chain of a moment -/
theorem Coherent.goes_of_hash (h : Coherent L history) (hq : Goes history i q) (hlength : q.length = n + 1)
    (hhash : HashAt L q n x) (hk : history[k]? = some p) (hc : HashAt L p n x) : q <+: p := by
  obtain ⟨a, ha, hqa⟩ := hq
  obtain ⟨b, hb, hx⟩ := Option.map_eq_some_iff.1 (hhash.longer hqa)
  obtain ⟨b', hb', hx'⟩ := Option.map_eq_some_iff.1 hc
  have hmem := List.mem_of_getElem? ha
  have hmem' := List.mem_of_getElem? hk
  have htake : a.take (n + 1) = p.take (n + 1) :=
    take_eq (h.chains a hmem) (h.chains p hmem') (h.apart a hmem p hmem') hb hb' (hx.trans hx'.symm)
  rw [List.prefix_iff_eq_take.1 hqa, hlength, htake]
  exact List.take_prefix _ _

/-- one hash at the end, one list of blocks -/
theorem Coherent.eq_of_hash (h : Coherent L history) (hq : Goes history i q) (hlength : q.length = n + 1)
    (hhash : HashAt L q n x) (hq' : Goes history k q') (hlength' : q'.length = m + 1) (hhash' : HashAt L q' m x) :
    q = q' ∧ n = m := by
  obtain ⟨p, hc, hqc⟩ := hq
  obtain ⟨p', hc', hqc'⟩ := hq'
  obtain ⟨b, hb, hx⟩ := Option.map_eq_some_iff.1 (hhash.longer hqc)
  obtain ⟨b', hb', hx'⟩ := Option.map_eq_some_iff.1 (hhash'.longer hqc')
  have hmem := List.mem_of_getElem? hc
  have hmem' := List.mem_of_getElem? hc'
  -- the block of that hash has one height
  have hnm : n = m := by
    have hsame := h.apart p hmem p' hmem' b (List.mem_of_getElem? hb) b' (List.mem_of_getElem? hb') (hx.trans hx'.symm)
    have hheight := (h.chains p hmem).height hb
    have hheight' := (h.chains p' hmem').height hb'
    rw [hsame] at hheight
    omega
  subst hnm
  have hinto : q <+: p' := h.goes_of_hash ⟨p, hc, hqc⟩ hlength hhash hc' (hhash'.longer hqc')
  have hle : q.length = q'.length := hlength.trans hlength'.symm
  exact ⟨(List.prefix_of_prefix_length_le hinto hqc' hle.le).eq_of_length hle, rfl⟩

/-! ## What is so if the chain went through a list -/

/-- at a moment from the `m`th on, `φ` holds if the chain went through `q` -/
def Since (history : List (List B)) (m : ℕ) (q : List B) (φ : Prop) : Prop :=
  ∃ n, m ≤ n ∧ n < history.length ∧ (Goes history n q → φ)

theorem Since.grow {more : List (List B)} {φ : Prop} (h : Since history m q φ) (hmore : history <+: more) :
    Since more m q φ := by
  obtain ⟨n, hm, hn, hφ⟩ := h
  obtain ⟨rest, rfl⟩ := hmore
  refine ⟨n, hm, by rw [List.length_append]; omega, fun ⟨p, hp, hq⟩ => hφ ⟨p, ?_, hq⟩⟩
  rwa [List.getElem?_append_left hn] at hp

/-- the chain goes through the list at a moment after all of these -/
theorem Since.settle {φ : Prop} (h : Since history m q φ) (hcoh : Coherent L history) (hm : Goes history m q)
    (hk : Goes history k q) (hlast : history.length ≤ k + 1) : φ := by
  obtain ⟨n, hmn, hn, hφ⟩ := h
  have hget : history[n]? = some history[n] := List.getElem?_eq_getElem hn
  exact hφ ⟨_, hget, hcoh.goes_between hm hk hmn (by omega) _ hget⟩

/-! ## A history grows -/

theorem Coherent.grow (h : Coherent L history) (hc : Admits L history p) : Coherent L (history ++ [p]) where
  chains p' hc' := by
    rcases List.mem_append.1 hc' with hc' | hc'
    · exact h.chains p' hc'
    · obtain rfl := List.mem_singleton.1 hc'
      exact hc.chain
  apart a ha a' ha' := by
    rcases List.mem_append.1 ha with hold | hnew
    · rcases List.mem_append.1 ha' with hold' | hnew'
      · exact h.apart a hold a' hold'
      · obtain rfl := List.mem_singleton.1 hnew'
        exact fun b hb b' hb' hhash => (hc.apart a ha b' hb' b hb hhash.symm).symm
    · obtain rfl := List.mem_singleton.1 hnew
      exact hc.apart a' ha'
  steady i j k a b d q hij hjk ha hb hd hqa hqd := by
    by_cases hk : k < history.length
    · rw [List.getElem?_append_left (by omega)] at ha hb hd
      exact h.steady i j k a b d q hij hjk ha hb hd hqa hqd
    · have hlast : d = p ∧ k = history.length := by
        rw [List.getElem?_append_right (not_lt.1 hk)] at hd
        have hzero := (List.getElem?_eq_some_iff.1 hd).1
        simp only [List.length_singleton] at hzero
        exact ⟨List.mem_singleton.1 (List.mem_of_getElem? hd), by omega⟩
      obtain ⟨rfl, rfl⟩ := hlast
      by_cases hj : j < history.length
      · rw [List.getElem?_append_left (by omega)] at ha hb
        -- it is on the last chain of the history, and the moment lies before that
        have hpos : history.length - 1 < history.length := by omega
        have hend : history.getLast? = some history[history.length - 1] := by
          rw [List.getLast?_eq_getElem?]
          exact List.getElem?_eq_getElem hpos
        have htake : d.take q.length = q := (List.prefix_iff_eq_take.1 hqd).symm
        have hqlast : q <+: history[history.length - 1] :=
          htake ▸ hc.steady a (List.mem_of_getElem? ha) q.length hqd.length_le (htake.symm ▸ hqa) _ hend
        exact h.steady i j (history.length - 1) a b _ q hij (by omega) ha hb (List.getElem?_eq_getElem hpos) hqa hqlast
      · obtain rfl : j = history.length := by omega
        obtain rfl := Option.some.inj (hb.symm.trans hd)
        exact hqd

end Hyperlane.ChainHistory
