/-
The relayer's scan of a destination's pending messages: `DestinationIndexIterator` (agents/relayer/src/msg/db_loader.rs).

The iterator walks the index upwards from the highest nonce seen at startup and downwards below it. Nonces that appear
behind either frontier are notified one by one (`reconsider`), moved under the low frontier by the migration
(`reconsider_migrated`), or, when a notification is unclear, picked up by scanning the low range once more
(`request_low_range_reopen`).

The loader owns its iterators, so nothing else touches the iterator between a `peek` and its `advance`. The index is
written by other tasks all the time: a call comes with the writes that happen before each of its reads, and with those
between `peek` and `advance`. The run remembers which entries have been notified since they were written, and which have
been returned and advanced past.

- `Loader.peek_spec`: a call restarts itself at most once, keeps everything covered, and nothing waits before what it returns.
- `loader_coverage`: every notified entry has been returned or is still covered, and every call returns.
-/
import Mathlib.Tactic
import Mathlib.Data.List.MinMax

namespace Hyperlane.Relayer

/-! ## Model -/

abbrev Nonce := Fin (2 ^ 32)

def Nonce.MAX : Nonce := Fin.last (2 ^ 32 - 1)

/-- `checked_add(1)` -/
def Nonce.next (n : Nonce) : Option Nonce := if h : n.val + 1 < 2 ^ 32 then some ⟨n.val + 1, h⟩ else none

/-- `checked_sub(1)` -/
def Nonce.prev (n : Nonce) : Option Nonce := if n.val = 0 then none else some ⟨n.val - 1, by omega⟩

inductive IndexDirection where
  | High
  | Low
  | Reconsider
deriving DecidableEq

structure DestinationIndexIterator where
  highNonce : Option Nonce
  lowNonce : Option Nonce
  nextDirection : IndexDirection
  reconsiderNonces : Finset Nonce
  lowRangeReopenPending : Bool

namespace DestinationIndexIterator

def new (highestSeenNonce : Option Nonce) : DestinationIndexIterator where
  highNonce := some (highestSeenNonce.getD 0)
  lowNonce := highestSeenNonce.bind Nonce.prev
  nextDirection := .High
  reconsiderNonces := ∅
  lowRangeReopenPending := false

def advance (it : DestinationIndexIterator) (direction : IndexDirection) (nonce : Nonce) : DestinationIndexIterator :=
  match direction with
  | .High => { it with highNonce := nonce.next, nextDirection := .Low }
  | .Low => { it with lowNonce := nonce.prev, nextDirection := .High }
  | .Reconsider => { it with reconsiderNonces := it.reconsiderNonces.erase nonce }

def coveredByHigh (it : DestinationIndexIterator) (nonce : Nonce) : Bool := it.highNonce.any fun high => high ≤ nonce

def coveredByLow (it : DestinationIndexIterator) (nonce : Nonce) : Bool := it.lowNonce.any fun low => nonce ≤ low

def reconsider (it : DestinationIndexIterator) (nonce : Nonce) : DestinationIndexIterator :=
  if !it.coveredByHigh nonce && !it.coveredByLow nonce then
    { it with reconsiderNonces := insert nonce it.reconsiderNonces }
  else it

def reconsiderMigrated (it : DestinationIndexIterator) (nonce : Nonce) : DestinationIndexIterator :=
  if it.highNonce.all fun high => nonce < high then
    { it with lowNonce := some (it.lowNonce.elim nonce fun low => max low nonce) }
  else it

def reopenLowRange (it : DestinationIndexIterator) : DestinationIndexIterator :=
  { it with lowNonce := match it.highNonce with
    | some nonce => nonce.prev
    -- the high scan advanced past the largest nonce
    | none => some Nonce.MAX }

def requestLowRangeReopen (it : DestinationIndexIterator) : DestinationIndexIterator :=
  if it.lowNonce.isNone then it.reopenLowRange else { it with lowRangeReopenPending := true }

/-- `reconsider_nonces.first()` -/
def first (it : DestinationIndexIterator) : Option Nonce :=
  if h : it.reconsiderNonces.Nonempty then some (it.reconsiderNonces.min' h) else none

end DestinationIndexIterator

section Loader

variable {Id : Type}

/-- the index of the destination, a key once -/
abbrev PendingIndex (Id : Type) := List (Nonce × Id)

/-- `retrieve_pending_message_at_or_after` -/
def PendingIndex.atOrAfter (index : PendingIndex Id) (nonce : Nonce) : Option (Nonce × Id) :=
  (index.filter fun e => nonce ≤ e.1).argmin fun e => e.1

/-- `retrieve_pending_message_at_or_before` -/
def PendingIndex.atOrBefore (index : PendingIndex Id) (nonce : Nonce) : Option (Nonce × Id) :=
  (index.filter fun e => e.1 ≤ nonce).argmax fun e => e.1

/-- a write to the index by another task -/
inductive IndexWrite (Id : Type) where
  | insert (nonce : Nonce) (id : Id)
  | delete (nonce : Nonce)

/-- the iterator and the index. `notified` are the entries notified since they were written, `served` those returned by
`peek` and advanced past since they were written -/
structure Loader (Id : Type) where
  iterator : DestinationIndexIterator
  index : PendingIndex Id
  notified : Nonce → Bool
  served : Nonce → Bool

namespace Loader

def write (s : Loader Id) : IndexWrite Id → Loader Id
  | .insert nonce id =>
    { s with
      index := (nonce, id) :: s.index.filter fun e => e.1 ≠ nonce
      notified := Function.update s.notified nonce false
      served := Function.update s.served nonce false }
  | .delete nonce => { s with index := s.index.filter fun e => e.1 ≠ nonce }

def writes (s : Loader Id) (ws : List (IndexWrite Id)) : Loader Id := ws.foldl write s

/-- what happens around the reads of a call: the writes before each one, and whether it fails -/
abbrev Reads (Id : Type) := ℕ → List (IndexWrite Id) × Bool

/-- one read of the index -/
def read (s : Loader Id) (e : List (IndexWrite Id) × Bool) (query : PendingIndex Id → Option (Nonce × Id)) :
    Loader Id × Except Unit (Option (Nonce × Id)) :=
  (s.writes e.1, if e.2 then .error () else .ok (query (s.writes e.1).index))

/-- what `peek` returns -/
abbrev Peeked (Id : Type) := Except Unit (Option (IndexDirection × Nonce × Id))

/-- a reopening that waited for the end of the low scan -/
def reopenPending (s : Loader Id) : Loader Id :=
  { s with iterator := { s.iterator with lowRangeReopenPending := false }.reopenLowRange }

/-- the loop of `peek` over the directions: the state, the number of reads so far, whether the low range was reopened,
and an early return -/
def scan (reads : Reads Id) : List IndexDirection → Loader Id → ℕ → Bool → Loader Id × ℕ × Bool × Option (Peeked Id)
  | [], s, k, reopened => (s, k, reopened, none)
  | .Reconsider :: rest, s, k, reopened => scan reads rest s k reopened
  | .High :: rest, s, k, reopened =>
    match s.iterator.highNonce with
    | none => scan reads rest s k reopened
    | some nonce =>
      match s.read (reads k) fun index => index.atOrAfter nonce with
      | (s, .error e) => (s, k + 1, reopened, some (.error e))
      | (s, .ok (some (nonce, id))) => (s, k + 1, reopened, some (.ok (some (.High, nonce, id))))
      | (s, .ok none) => scan reads rest s (k + 1) reopened
  | .Low :: rest, s, k, reopened =>
    match s.iterator.lowNonce with
    | none => scan reads rest s k reopened
    | some nonce =>
      match s.read (reads k) fun index => index.atOrBefore nonce with
      | (s, .error e) => (s, k + 1, reopened, some (.error e))
      | (s, .ok (some (nonce, id))) => (s, k + 1, reopened, some (.ok (some (.Low, nonce, id))))
      | (s, .ok none) =>
        let s := { s with iterator := { s.iterator with lowNonce := none } }
        if s.iterator.lowRangeReopenPending then scan reads rest s.reopenPending (k + 1) true
        else scan reads rest s (k + 1) reopened

/-- `peek` from the directions on; `again` is the call of itself -/
def peekDirections (reads : Reads Id) (again : Loader Id → ℕ → Option (Loader Id × Peeked Id)) (s : Loader Id) (k : ℕ) :
    Option (Loader Id × Peeked Id) :=
  let directions := match s.iterator.nextDirection with
    | .Low => [IndexDirection.Low, .High]
    | _ => [IndexDirection.High, .Low]
  match scan reads directions s k false with
  | (s, _, _, some result) => some (s, result)
  | (s, k, true, none) => again s k
  | (s, _, false, none) => some (s, .ok none)

/-- a notified nonce that is not in the index any more -/
def forget (s : Loader Id) (nonce : Nonce) : Loader Id :=
  { s with iterator := { s.iterator with reconsiderNonces := s.iterator.reconsiderNonces.erase nonce } }

/-- `peek`; `none` is a call that has not returned within `fuel` restarts -/
def peek (reads : Reads Id) : ℕ → Loader Id → ℕ → Option (Loader Id × Peeked Id)
  | 0, _, _ => none
  | fuel + 1, s, k =>
    let s := if s.iterator.lowNonce.isNone && s.iterator.lowRangeReopenPending then s.reopenPending else s
    match s.iterator.first with
    | none => peekDirections reads (peek reads fuel) s k
    | some nonce =>
      match s.read (reads k) fun index => index.atOrAfter nonce with
      | (s, .error e) => some (s, .error e)
      | (s, .ok (some (indexedNonce, id))) =>
        if indexedNonce = nonce then some (s, .ok (some (.Reconsider, nonce, id)))
        else peekDirections reads (peek reads fuel) (s.forget nonce) (k + 1)
      | (s, .ok none) => peekDirections reads (peek reads fuel) (s.forget nonce) (k + 1)

/-- the restarts a call is given -/
def FUEL : ℕ := 2

end Loader

inductive LoaderOp (Id : Type) where
  | write (w : IndexWrite Id)
  /-- a notification, after its entry is visible -/
  | reconsider (nonce : Nonce)
  | reconsiderMigrated (nonce : Nonce)
  | requestLowRangeReopen
  /-- `peek` and, when the entry is dealt with, `advance`; `after` are the writes in between -/
  | load (reads : Loader.Reads Id) (after : List (IndexWrite Id)) (dealtWith : Bool)

namespace Loader

/-- the entry of `nonce` has been notified -/
def notify (s : Loader Id) (nonce : Nonce) : Loader Id := { s with notified := Function.update s.notified nonce true }

def step (s : Loader Id) : LoaderOp Id → Loader Id
  | .write w => s.write w
  | .reconsider nonce => { s with iterator := s.iterator.reconsider nonce }.notify nonce
  | .reconsiderMigrated nonce => { s with iterator := s.iterator.reconsiderMigrated nonce }.notify nonce
  -- asked for when notifications were lost: it stands for one of every entry written so far
  | .requestLowRangeReopen => { s with iterator := s.iterator.requestLowRangeReopen, notified := fun _ => true }
  | .load reads after dealtWith =>
    match peek reads FUEL s 0 with
    | some (s, .ok (some (direction, nonce, _))) =>
      if dealtWith then
        let s := { s with served := Function.update s.served nonce true }.writes after
        { s with iterator := s.iterator.advance direction nonce }
      else s.writes after
    | some (s, _) => s.writes after
    | none => s

def run (s : Loader Id) (ops : List (LoaderOp Id)) : Loader Id := ops.foldl step s

/-- at startup, the entries that exist count as notified -/
def start (highestSeenNonce : Option Nonce) (index : PendingIndex Id) : Loader Id :=
  ⟨.new highestSeenNonce, index, fun _ => true, fun _ => false⟩

end Loader

/-! ## Coverage -/

/-- the nonce is in one of the regions that are still to be scanned -/
def Covered (it : DestinationIndexIterator) (n : Nonce) : Prop :=
  n ∈ it.reconsiderNonces ∨ (∃ high, it.highNonce = some high ∧ high ≤ n) ∨ (∃ low, it.lowNonce = some low ∧ n ≤ low) ∨
    it.lowRangeReopenPending = true

namespace Loader

/-- a notified entry of the index that has not been returned and advanced past -/
def Waiting (s : Loader Id) (n : Nonce) : Prop := (∃ id, (n, id) ∈ s.index) ∧ s.notified n = true ∧ s.served n = false

/-- every waiting entry is covered -/
def Inv (s : Loader Id) : Prop := ∀ n, s.Waiting n → Covered s.iterator n

/-- nothing waits between the frontier and the returned nonce -/
def Gap (s : Loader Id) : IndexDirection → Nonce → Prop
  | .High, n => ∃ high, s.iterator.highNonce = some high ∧ ∀ m, high ≤ m → m < n → ¬ s.Waiting m
  | .Low, n => ∃ low, s.iterator.lowNonce = some low ∧ ∀ m, m ≤ low → n < m → ¬ s.Waiting m
  | .Reconsider, _ => True

theorem Waiting.of_write {s : Loader Id} {w : IndexWrite Id} {n : Nonce} (h : (s.write w).Waiting n) : s.Waiting n := by
  obtain ⟨⟨id, hid⟩, hnotified, hserved⟩ := h
  cases w with
  | insert nonce id' =>
    by_cases hn : n = nonce
    · subst hn
      simp [write] at hnotified
    · simp only [write, Function.update_of_ne hn] at hid hnotified hserved
      refine ⟨⟨id, ?_⟩, hnotified, hserved⟩
      rcases List.mem_cons.1 hid with he | hmem
      · exact absurd (congrArg Prod.fst he) hn
      · exact (List.mem_filter.1 hmem).1
  | delete nonce => exact ⟨⟨id, (List.mem_filter.1 hid).1⟩, hnotified, hserved⟩

/-- writes leave the iterator alone and add nothing that waits -/
theorem writes_frame (s : Loader Id) (ws : List (IndexWrite Id)) :
    (s.writes ws).iterator = s.iterator ∧ ∀ n, (s.writes ws).Waiting n → s.Waiting n := by
  induction ws generalizing s with
  | nil => exact ⟨rfl, fun _ h => h⟩
  | cons w ws ih =>
    obtain ⟨hit, hwait⟩ := ih (s.write w)
    refine ⟨?_, fun n h => (hwait n h).of_write⟩
    rw [writes, List.foldl_cons]
    exact hit.trans (by cases w <;> rfl)

theorem Inv.writes {s : Loader Id} (h : s.Inv) (ws : List (IndexWrite Id)) : (s.writes ws).Inv := by
  obtain ⟨hit, hwait⟩ := s.writes_frame ws
  intro n hn
  rw [hit]
  exact h n (hwait n hn)

theorem Gap.writes {s : Loader Id} {direction : IndexDirection} {n : Nonce} (h : s.Gap direction n)
    (ws : List (IndexWrite Id)) : (s.writes ws).Gap direction n := by
  obtain ⟨hit, hwait⟩ := s.writes_frame ws
  cases direction with
  | High =>
    obtain ⟨high, hh, hgap⟩ := h
    exact ⟨high, hit ▸ hh, fun m h1 h2 hm => hgap m h1 h2 (hwait m hm)⟩
  | Low =>
    obtain ⟨low, hl, hgap⟩ := h
    exact ⟨low, hit ▸ hl, fun m h1 h2 hm => hgap m h1 h2 (hwait m hm)⟩
  | Reconsider => trivial

end Loader

theorem Nonce.next_le {n m : Nonce} (h : n < m) : ∃ k, n.next = some k ∧ k ≤ m := by
  have hlt : n.val + 1 < 2 ^ 32 := (Nat.succ_le_of_lt h).trans_lt m.2
  exact ⟨⟨n.val + 1, hlt⟩, dif_pos hlt, Nat.succ_le_of_lt h⟩

theorem Nonce.le_prev {n m : Nonce} (h : m < n) : ∃ k, n.prev = some k ∧ m ≤ k := by
  have hne : n.val ≠ 0 := Nat.ne_of_gt ((Nat.zero_le _).trans_lt h)
  exact ⟨⟨n.val - 1, _⟩, if_neg hne, Nat.le_sub_one_of_lt h⟩

/-- a reopened low range and the high range cover every nonce -/
theorem reopenLowRange_covered (it : DestinationIndexIterator) (n : Nonce) : Covered it.reopenLowRange n := by
  right
  cases hhigh : it.highNonce with
  | none =>
    refine Or.inr (Or.inl ⟨Nonce.MAX, ?_, Fin.le_last n⟩)
    simp [DestinationIndexIterator.reopenLowRange, hhigh]
  | some high =>
    rcases le_or_gt high n with hle | hlt
    · exact Or.inl ⟨high, hhigh, hle⟩
    · obtain ⟨k, hk, hn⟩ := Nonce.le_prev hlt
      refine Or.inr (Or.inl ⟨k, ?_, hn⟩)
      simp [DestinationIndexIterator.reopenLowRange, hhigh, hk]

theorem new_covered (highestSeenNonce : Option Nonce) (n : Nonce) : Covered (.new highestSeenNonce) n := by
  cases highestSeenNonce with
  | none => exact Or.inr (Or.inl ⟨0, rfl, Fin.zero_le n⟩)
  | some highest =>
    rcases le_or_gt highest n with hle | hlt
    · exact Or.inr (Or.inl ⟨highest, rfl, hle⟩)
    · obtain ⟨k, hk, hn⟩ := Nonce.le_prev hlt
      exact Or.inr (Or.inr (Or.inl ⟨k, hk, hn⟩))

/-! ## What a call of `peek` returns -/

/-- the first entry at or after a nonce, and nothing of the index before it -/
theorem PendingIndex.atOrAfter_some {index : PendingIndex Id} {nonce n : Nonce} {id : Id}
    (h : index.atOrAfter nonce = some (n, id)) {m : Nonce} {id' : Id} (hm : (m, id') ∈ index) (hle : nonce ≤ m) :
    n ≤ m :=
  List.le_of_mem_argmin (List.mem_filter.2 ⟨hm, by simpa using hle⟩) h

theorem PendingIndex.atOrBefore_some {index : PendingIndex Id} {nonce n : Nonce} {id : Id}
    (h : index.atOrBefore nonce = some (n, id)) {m : Nonce} {id' : Id} (hm : (m, id') ∈ index) (hle : m ≤ nonce) :
    m ≤ n :=
  List.le_of_mem_argmax (List.mem_filter.2 ⟨hm, by simpa using hle⟩) h

theorem PendingIndex.atOrBefore_none {index : PendingIndex Id} {nonce : Nonce} (h : index.atOrBefore nonce = none)
    {m : Nonce} {id' : Id} (hm : (m, id') ∈ index) : nonce < m := by
  by_contra hle
  have hnil := List.argmax_eq_none.1 h
  have hmem : (m, id') ∈ index.filter fun e => e.1 ≤ nonce := List.mem_filter.2 ⟨hm, by simpa using hle⟩
  rw [hnil] at hmem
  exact List.not_mem_nil hmem

/-- a nonce the reconsidered set gives first and the index does not have exactly is not in the index -/
theorem PendingIndex.atOrAfter_absent {index : PendingIndex Id} {nonce : Nonce}
    (h : ∀ id, index.atOrAfter nonce ≠ some (nonce, id)) (id : Id) : (nonce, id) ∉ index := by
  intro hmem
  cases hq : index.atOrAfter nonce with
  | none =>
    have hnil := List.argmin_eq_none.1 hq
    have hin : (nonce, id) ∈ index.filter fun e => nonce ≤ e.1 := List.mem_filter.2 ⟨hmem, by simp⟩
    rw [hnil] at hin
    exact List.not_mem_nil hin
  | some e =>
    obtain ⟨n, id'⟩ := e
    have hge : nonce ≤ n := by simpa using (List.mem_filter.1 (List.argmin_mem hq)).2
    have hle : n ≤ nonce := atOrAfter_some hq hmem le_rfl
    exact h id' (le_antisymm hle hge ▸ hq)

namespace Loader

/-- what a call may leave and return: everything covered, and nothing waiting before a returned nonce -/
def Sound (s : Loader Id) (result : Peeked Id) : Prop :=
  s.Inv ∧ ∀ direction n id, result = .ok (some (direction, n, id)) → s.Gap direction n

theorem Inv.sound_error {s : Loader Id} (h : s.Inv) (e : Unit) : s.Sound (.error e) := ⟨h, fun _ _ _ he => nomatch he⟩

theorem Inv.sound_none {s : Loader Id} (h : s.Inv) : s.Sound (.ok none) := ⟨h, fun _ _ _ he => nomatch he⟩

theorem Inv.sound_some {s : Loader Id} (h : s.Inv) {direction : IndexDirection} {n : Nonce} {id : Id}
    (hgap : s.Gap direction n) : s.Sound (.ok (some (direction, n, id))) := by
  refine ⟨h, fun _ _ _ he => ?_⟩
  cases he
  exact hgap

theorem reopenPending_inv (s : Loader Id) : s.reopenPending.Inv := fun n _ => reopenLowRange_covered _ n

/-- a read that finds an entry above: nothing waits between the bound and it -/
theorem gap_high {s : Loader Id} {nonce n : Nonce} {id : Id} (hhigh : s.iterator.highNonce = some nonce)
    (h : s.index.atOrAfter nonce = some (n, id)) : s.Gap .High n := by
  refine ⟨nonce, hhigh, fun m hle hlt hm => ?_⟩
  obtain ⟨⟨_, hmem⟩, -, -⟩ := hm
  exact absurd (PendingIndex.atOrAfter_some h hmem hle) (not_le.2 hlt)

theorem gap_low {s : Loader Id} {nonce n : Nonce} {id : Id} (hlow : s.iterator.lowNonce = some nonce)
    (h : s.index.atOrBefore nonce = some (n, id)) : s.Gap .Low n := by
  refine ⟨nonce, hlow, fun m hle hlt hm => ?_⟩
  obtain ⟨⟨_, hmem⟩, -, -⟩ := hm
  exact absurd (PendingIndex.atOrBefore_some h hmem hle) (not_le.2 hlt)

/-- a low scan that finds nothing can be closed -/
theorem Inv.closeLow {s : Loader Id} {nonce : Nonce} (h : s.Inv) (hlow : s.iterator.lowNonce = some nonce)
    (hnone : s.index.atOrBefore nonce = none) :
    Inv { s with iterator := { s.iterator with lowNonce := none } } := by
  intro n hn
  obtain ⟨⟨id, hmem⟩, -, -⟩ := id hn
  rcases h n hn with hr | hh | ⟨low, hl, hle⟩ | hp
  · exact Or.inl hr
  · exact Or.inr (Or.inl hh)
  · obtain rfl : low = nonce := Option.some.inj (hl.symm.trans hlow)
    exact absurd (PendingIndex.atOrBefore_none hnone hmem) (not_lt.2 hle)
  · exact Or.inr (Or.inr (Or.inr hp))

/-- forgetting a nonce that is not in the index -/
theorem Inv.forget {s : Loader Id} {nonce : Nonce} (h : s.Inv) (habsent : ∀ id, (nonce, id) ∉ s.index) :
    (s.forget nonce).Inv := by
  intro n hn
  obtain ⟨⟨id, hmem⟩, -, -⟩ := id hn
  rcases h n hn with hr | hrest
  · have hne : n ≠ nonce := fun he => habsent id (he ▸ hmem)
    exact Or.inl (Finset.mem_erase.2 ⟨hne, hr⟩)
  · exact Or.inr hrest

/-- what the loop does with one direction: return, go on, or reopen the low range and go on -/
theorem scan_cons (reads : Reads Id) (direction : IndexDirection) (rest : List IndexDirection) (s : Loader Id) (k : ℕ)
    (reopened : Bool) :
    (∃ s' result, (s.Inv → s'.Sound result) ∧ s'.iterator.lowRangeReopenPending = s.iterator.lowRangeReopenPending ∧
      scan reads (direction :: rest) s k reopened = (s', k + 1, reopened, some result)) ∨
    (∃ s' k', (s.Inv → s'.Inv) ∧ s'.iterator.lowRangeReopenPending = s.iterator.lowRangeReopenPending ∧
      scan reads (direction :: rest) s k reopened = scan reads rest s' k' reopened) ∨
    (∃ s' k', s'.Inv ∧ s.iterator.lowRangeReopenPending = true ∧ s'.iterator.lowRangeReopenPending = false ∧
      scan reads (direction :: rest) s k reopened = scan reads rest s' k' true) := by
  have hit := (s.writes_frame (reads k).1).1
  have hpending := congrArg DestinationIndexIterator.lowRangeReopenPending hit
  have hw := fun h : s.Inv => h.writes (reads k).1
  cases direction with
  | Reconsider => exact Or.inr (Or.inl ⟨s, k, id, rfl, rfl⟩)
  | High =>
    rw [scan]
    cases hhigh : s.iterator.highNonce with
    | none => exact Or.inr (Or.inl ⟨s, k, id, rfl, rfl⟩)
    | some nonce =>
      rw [← hit] at hhigh
      cases hfail : (reads k).2 with
      | true =>
        simp only [read, hfail, ↓reduceIte]
        exact Or.inl ⟨_, _, fun h => (hw h).sound_error (), hpending, rfl⟩
      | false =>
        cases hq : (s.writes (reads k).1).index.atOrAfter nonce with
        | none =>
          simp only [read, hfail, hq, Bool.false_eq_true, ↓reduceIte]
          exact Or.inr (Or.inl ⟨_, _, hw, hpending, rfl⟩)
        | some e =>
          simp only [read, hfail, hq, Bool.false_eq_true, ↓reduceIte]
          exact Or.inl ⟨_, _, fun h => (hw h).sound_some (gap_high hhigh hq), hpending, rfl⟩
  | Low =>
    rw [scan]
    cases hlow : s.iterator.lowNonce with
    | none => exact Or.inr (Or.inl ⟨s, k, id, rfl, rfl⟩)
    | some nonce =>
      rw [← hit] at hlow
      cases hfail : (reads k).2 with
      | true =>
        simp only [read, hfail, ↓reduceIte]
        exact Or.inl ⟨_, _, fun h => (hw h).sound_error (), hpending, rfl⟩
      | false =>
        cases hq : (s.writes (reads k).1).index.atOrBefore nonce with
        | none =>
          simp only [read, hfail, hq, Bool.false_eq_true, ↓reduceIte]
          split
          next hp => exact Or.inr (Or.inr ⟨_, _, reopenPending_inv _, hpending ▸ hp, rfl, rfl⟩)
          next => exact Or.inr (Or.inl ⟨_, _, fun h => (hw h).closeLow hlow hq, hpending, rfl⟩)
        | some e =>
          simp only [read, hfail, hq, Bool.false_eq_true, ↓reduceIte]
          exact Or.inl ⟨_, _, fun h => (hw h).sound_some (gap_low hlow hq), hpending, rfl⟩

theorem scan_sound (reads : Reads Id) (directions : List IndexDirection) (s : Loader Id) (k : ℕ) (reopened : Bool)
    (h : s.Inv) :
    (scan reads directions s k reopened).1.Inv ∧
      ∀ result, (scan reads directions s k reopened).2.2.2 = some result →
        (scan reads directions s k reopened).1.Sound result := by
  induction directions generalizing s k reopened with
  | nil => exact ⟨h, fun _ he => nomatch he⟩
  | cons direction rest ih =>
    rcases scan_cons reads direction rest s k reopened with
      ⟨s', result, hsound, -, heq⟩ | ⟨s', k', hinv, -, heq⟩ | ⟨s', k', hinv, -, -, heq⟩ <;> rw [heq]
    · refine ⟨(hsound h).1, fun _ he => ?_⟩
      cases he
      exact hsound h
    · exact ih s' k' reopened (hinv h)
    · exact ih s' k' true hinv

/-- with no reopening pending, the loop reopens nothing -/
theorem scan_settled (reads : Reads Id) (directions : List IndexDirection) (s : Loader Id) (k : ℕ) (reopened : Bool)
    (h : s.iterator.lowRangeReopenPending = false) :
    (scan reads directions s k reopened).2.2.1 = reopened ∧
      (scan reads directions s k reopened).1.iterator.lowRangeReopenPending = false := by
  induction directions generalizing s k reopened with
  | nil => exact ⟨rfl, h⟩
  | cons direction rest ih =>
    rcases scan_cons reads direction rest s k reopened with
      ⟨s', result, -, hp, heq⟩ | ⟨s', k', -, hp, heq⟩ | ⟨s', k', -, hs, -, -⟩
    · rw [heq]
      exact ⟨rfl, hp.trans h⟩
    · rw [heq]
      exact ih s' k' reopened (hp.trans h)
    · exact absurd (h.symm.trans hs) Bool.false_ne_true

/-- the loop reopens the low range only when that was pending, and then it is not pending any more -/
theorem scan_reopened (reads : Reads Id) (directions : List IndexDirection) (s : Loader Id) (k : ℕ) (reopened : Bool) :
    (scan reads directions s k reopened).2.2.1 = reopened ∨
      s.iterator.lowRangeReopenPending = true ∧
        (scan reads directions s k reopened).1.iterator.lowRangeReopenPending = false := by
  induction directions generalizing s k reopened with
  | nil => exact Or.inl rfl
  | cons direction rest ih =>
    rcases scan_cons reads direction rest s k reopened with
      ⟨s', result, -, -, heq⟩ | ⟨s', k', -, hp, heq⟩ | ⟨s', k', -, hs, hs', heq⟩ <;> rw [heq]
    · exact Or.inl rfl
    · exact hp ▸ ih s' k' reopened
    · exact Or.inr ⟨hs, (scan_settled reads rest s' k' true hs').2⟩

/-- after the directions the call returns, or it calls itself with nothing pending any more -/
theorem peekDirections_cases (reads : Reads Id) (s : Loader Id) (k : ℕ) :
    (∃ r : Loader Id × Peeked Id, (s.Inv → r.1.Sound r.2) ∧ ∀ again, peekDirections reads again s k = some r) ∨
    (∃ s' k', (s.Inv → s'.Inv) ∧ s.iterator.lowRangeReopenPending = true ∧
      s'.iterator.lowRangeReopenPending = false ∧ ∀ again, peekDirections reads again s k = again s' k') := by
  simp only [peekDirections]
  generalize (match s.iterator.nextDirection with
    | .Low => [IndexDirection.Low, .High]
    | _ => [IndexDirection.High, .Low]) = directions
  have hsound := scan_sound reads directions s k false
  have hreopened := scan_reopened reads directions s k false
  rcases hscan : scan reads directions s k false with ⟨s', k', reopened, result⟩
  rw [hscan] at hsound hreopened
  cases result with
  | some result => exact Or.inl ⟨(s', result), fun h => (hsound h).2 result rfl, fun _ => rfl⟩
  | none =>
    cases reopened with
    | true =>
      rcases hreopened with hfalse | ⟨hs, hs'⟩
      · exact absurd hfalse.symm Bool.false_ne_true
      · exact Or.inr ⟨s', k', fun h => (hsound h).1, hs, hs', fun _ => rfl⟩
    | false => exact Or.inl ⟨(s', .ok none), fun h => (hsound h).1.sound_none, fun _ => rfl⟩

/-- before the directions: a reopening that waits, and the first reconsidered nonce -/
theorem peek_cases (reads : Reads Id) (s : Loader Id) (k : ℕ) :
    (∃ r : Loader Id × Peeked Id, (s.Inv → r.1.Sound r.2) ∧ ∀ fuel, peek reads (fuel + 1) s k = some r) ∨
    (∃ s' k', (s.Inv → s'.Inv) ∧
      (s.iterator.lowRangeReopenPending = false → s'.iterator.lowRangeReopenPending = false) ∧
      ∀ fuel, peek reads (fuel + 1) s k = peekDirections reads (peek reads fuel) s' k') := by
  simp only [peek]
  have hopen : ∃ t, (if s.iterator.lowNonce.isNone && s.iterator.lowRangeReopenPending then s.reopenPending else s) = t ∧
      (s.Inv → t.Inv) ∧ (s.iterator.lowRangeReopenPending = false → t.iterator.lowRangeReopenPending = false) := by
    refine ⟨_, rfl, ?_⟩
    split
    · exact ⟨fun _ => reopenPending_inv s, fun _ => rfl⟩
    · exact ⟨id, id⟩
  obtain ⟨t, heq, hinv, hpending⟩ := hopen
  rw [heq]
  have hit := (t.writes_frame (reads k).1).1
  have hw := fun h : s.Inv => (hinv h).writes (reads k).1
  have hp := congrArg DestinationIndexIterator.lowRangeReopenPending hit
  cases hfirst : t.iterator.first with
  | none => exact Or.inr ⟨t, k, hinv, hpending, fun _ => rfl⟩
  | some nonce =>
    cases hfail : (reads k).2 with
    | true =>
      simp only [read, hfail, ↓reduceIte]
      exact Or.inl ⟨_, fun h => (hw h).sound_error (), fun _ => rfl⟩
    | false =>
      cases hq : (t.writes (reads k).1).index.atOrAfter nonce with
      | none =>
        simp only [read, hfail, hq, Bool.false_eq_true, ↓reduceIte]
        have habsent := PendingIndex.atOrAfter_absent fun id he => nomatch hq.symm.trans he
        exact Or.inr ⟨_, _, fun h => (hw h).forget habsent, fun h => hp.trans (hpending h), fun _ => rfl⟩
      | some e =>
        obtain ⟨indexedNonce, id⟩ := e
        simp only [read, hfail, hq, Bool.false_eq_true, ↓reduceIte]
        by_cases hn : indexedNonce = nonce
        · simp only [hn, ↓reduceIte]
          exact Or.inl ⟨(_, .ok (some (.Reconsider, nonce, id))), fun h => (hw h).sound_some (by trivial), fun _ => rfl⟩
        · simp only [hn, ↓reduceIte]
          have habsent : ∀ id, (nonce, id) ∉ (t.writes (reads k).1).index := PendingIndex.atOrAfter_absent
            fun id he => hn (congrArg Prod.fst (Option.some.inj (hq.symm.trans he)))
          exact Or.inr ⟨_, _, fun h => (hw h).forget habsent, fun h => hp.trans (hpending h), fun _ => rfl⟩

/-- with nothing pending the call does not call itself -/
theorem peek_settled (reads : Reads Id) (s : Loader Id) (k : ℕ) (hs : s.iterator.lowRangeReopenPending = false) :
    ∃ r : Loader Id × Peeked Id, (s.Inv → r.1.Sound r.2) ∧ ∀ fuel, peek reads (fuel + 1) s k = some r := by
  rcases peek_cases reads s k with hr | ⟨s', k', hinv, hpending, heq⟩
  · exact hr
  rcases peekDirections_cases reads s' k' with ⟨r, hr, hret⟩ | ⟨_, _, -, hs', -, -⟩
  · exact ⟨r, fun h => hr (hinv h), fun fuel => (heq fuel).trans (hret _)⟩
  · exact absurd ((hpending hs).symm.trans hs') Bool.false_ne_true

/-- **A call is sound.** It returns after at most one call of itself, keeps everything covered, and between the frontier
and a returned nonce nothing waits. -/
theorem peek_spec (reads : Reads Id) (s : Loader Id) (k : ℕ) :
    ∃ r : Loader Id × Peeked Id, (s.Inv → r.1.Sound r.2) ∧ ∀ fuel, peek reads (fuel + FUEL) s k = some r := by
  rcases peek_cases reads s k with ⟨r, hr, hret⟩ | ⟨s', k', hinv, -, heq⟩
  · exact ⟨r, hr, fun fuel => hret (fuel + 1)⟩
  rcases peekDirections_cases reads s' k' with ⟨r, hr, hret⟩ | ⟨s'', k'', hinv', -, hs'', hagain⟩
  · exact ⟨r, fun h => hr (hinv h), fun fuel => (heq (fuel + 1)).trans (hret _)⟩
  obtain ⟨r, hr, hret⟩ := peek_settled reads s'' k'' hs''
  refine ⟨r, fun h => hr (hinv' (hinv h)), fun fuel => ?_⟩
  calc peek reads (fuel + FUEL) s k = peekDirections reads (peek reads (fuel + 1)) s' k' := heq (fuel + 1)
    _ = peek reads (fuel + 1) s'' k'' := hagain _
    _ = some r := hret fuel

/-! ## Every operation keeps the entries covered -/

/-- the entry that is dealt with does not wait any more, and its frontier moves just past it -/
theorem Inv.advance {s : Loader Id} {direction : IndexDirection} {n : Nonce} (h : s.Inv) (hgap : s.Gap direction n)
    (hn : ¬ s.Waiting n) : Inv { s with iterator := s.iterator.advance direction n } := by
  intro m hm
  have hne : m ≠ n := fun he => hn (he ▸ hm)
  cases direction with
  | High =>
    obtain ⟨high, hhigh, hnone⟩ := hgap
    rcases h m hm with hr | ⟨high', hh, hle⟩ | hrest
    · exact Or.inl hr
    · obtain rfl : high = high' := Option.some.inj (hhigh.symm.trans hh)
      have hlt : n < m := lt_of_le_of_ne (not_lt.1 fun hlt => hnone m hle hlt hm) hne.symm
      exact Or.inr (Or.inl (Nonce.next_le hlt))
    · exact Or.inr (Or.inr hrest)
  | Low =>
    obtain ⟨low, hlow, hnone⟩ := hgap
    rcases h m hm with hr | hh | ⟨low', hl, hle⟩ | hp
    · exact Or.inl hr
    · exact Or.inr (Or.inl hh)
    · obtain rfl : low = low' := Option.some.inj (hlow.symm.trans hl)
      have hlt : m < n := lt_of_le_of_ne (not_lt.1 fun hlt => hnone m hle hlt hm) hne
      exact Or.inr (Or.inr (Or.inl (Nonce.le_prev hlt)))
    · exact Or.inr (Or.inr (Or.inr hp))
  | Reconsider =>
    rcases h m hm with hr | hrest
    · exact Or.inl (Finset.mem_erase.2 ⟨hne, hr⟩)
    · exact Or.inr hrest

theorem Waiting.of_serve {s : Loader Id} {n m : Nonce}
    (h : Waiting { s with served := Function.update s.served n true } m) : m ≠ n ∧ s.Waiting m := by
  obtain ⟨hmem, hnotified, hserved⟩ := h
  have hne : m ≠ n := by
    rintro rfl
    simp at hserved
  simp only [Function.update_of_ne hne] at hserved
  exact ⟨hne, hmem, hnotified, hserved⟩

/-- the end of a call whose entry is dealt with: it is served, other tasks write, and the iterator moves on -/
theorem Inv.serve {s : Loader Id} {direction : IndexDirection} {n : Nonce} (h : s.Inv) (hgap : s.Gap direction n)
    (after : List (IndexWrite Id)) :
    Inv { ({ s with served := Function.update s.served n true }.writes after) with
      iterator := ({ s with served := Function.update s.served n true }.writes after).iterator.advance direction n } := by
  have hinv : Inv { s with served := Function.update s.served n true } := fun m hm => h m hm.of_serve.2
  have hgap' : Gap { s with served := Function.update s.served n true } direction n := by
    cases direction with
    | High =>
      obtain ⟨high, hhigh, hnone⟩ := hgap
      exact ⟨high, hhigh, fun m h1 h2 hm => hnone m h1 h2 hm.of_serve.2⟩
    | Low =>
      obtain ⟨low, hlow, hnone⟩ := hgap
      exact ⟨low, hlow, fun m h1 h2 hm => hnone m h1 h2 hm.of_serve.2⟩
    | Reconsider => trivial
  refine (hinv.writes after).advance (hgap'.writes after) fun hn => ?_
  exact ((writes_frame _ after).2 n hn).of_serve.1 rfl

/-- a change of the iterator that keeps what was covered and covers the nonce keeps the invariant when it is notified -/
theorem Inv.notify {s : Loader Id} {it : DestinationIndexIterator} {nonce : Nonce} (h : s.Inv)
    (hkeep : ∀ n, Covered s.iterator n → Covered it n) (hnonce : Covered it nonce) :
    ({ s with iterator := it }.notify nonce).Inv := by
  intro n hn
  by_cases he : n = nonce
  · exact he ▸ hnonce
  · obtain ⟨hmem, hnotified, hserved⟩ := hn
    simp only [Loader.notify, Function.update_of_ne he] at hnotified
    exact hkeep n (h n ⟨hmem, hnotified, hserved⟩)

end Loader

theorem coveredByHigh_iff (it : DestinationIndexIterator) (n : Nonce) :
    it.coveredByHigh n = true ↔ ∃ high, it.highNonce = some high ∧ high ≤ n := by
  simp [DestinationIndexIterator.coveredByHigh, Option.any_eq_true]

theorem coveredByLow_iff (it : DestinationIndexIterator) (n : Nonce) :
    it.coveredByLow n = true ↔ ∃ low, it.lowNonce = some low ∧ n ≤ low := by
  simp [DestinationIndexIterator.coveredByLow, Option.any_eq_true]

theorem reconsider_covered (it : DestinationIndexIterator) (nonce : Nonce) :
    (∀ n, Covered it n → Covered (it.reconsider nonce) n) ∧ Covered (it.reconsider nonce) nonce := by
  rw [DestinationIndexIterator.reconsider]
  split
  · refine ⟨fun n hn => ?_, Or.inl (Finset.mem_insert_self nonce _)⟩
    rcases hn with hr | hrest
    · exact Or.inl (Finset.mem_insert_of_mem hr)
    · exact Or.inr hrest
  next hcovered =>
    refine ⟨fun _ hn => hn, ?_⟩
    by_cases hhigh : it.coveredByHigh nonce
    · exact Or.inr (Or.inl ((coveredByHigh_iff it nonce).1 hhigh))
    · have hlow : it.coveredByLow nonce = true := by simpa [hhigh] using hcovered
      exact Or.inr (Or.inr (Or.inl ((coveredByLow_iff it nonce).1 hlow)))

theorem reconsiderMigrated_covered (it : DestinationIndexIterator) (nonce : Nonce) :
    (∀ n, Covered it n → Covered (it.reconsiderMigrated nonce) n) ∧ Covered (it.reconsiderMigrated nonce) nonce := by
  rw [DestinationIndexIterator.reconsiderMigrated]
  split
  · cases hlow : it.lowNonce with
    | none =>
      refine ⟨fun n hn => ?_, Or.inr (Or.inr (Or.inl ⟨nonce, rfl, le_rfl⟩))⟩
      rcases hn with hr | hh | ⟨low, hl, -⟩ | hp
      · exact Or.inl hr
      · exact Or.inr (Or.inl hh)
      · exact nomatch hlow.symm.trans hl
      · exact Or.inr (Or.inr (Or.inr hp))
    | some low =>
      refine ⟨fun n hn => ?_, Or.inr (Or.inr (Or.inl ⟨max low nonce, rfl, le_max_right low nonce⟩))⟩
      rcases hn with hr | hh | ⟨low', hl, hle⟩ | hp
      · exact Or.inl hr
      · exact Or.inr (Or.inl hh)
      · obtain rfl : low = low' := Option.some.inj (hlow.symm.trans hl)
        exact Or.inr (Or.inr (Or.inl ⟨max low nonce, rfl, hle.trans (le_max_left low nonce)⟩))
      · exact Or.inr (Or.inr (Or.inr hp))
  next hhigh =>
    refine ⟨fun _ hn => hn, Or.inr (Or.inl ((coveredByHigh_iff it nonce).1 ?_))⟩
    cases hn : it.highNonce with
    | none => simp [hn] at hhigh
    | some high => simpa [DestinationIndexIterator.coveredByHigh, hn] using hhigh

theorem requestLowRangeReopen_covered (it : DestinationIndexIterator) (n : Nonce) :
    Covered it.requestLowRangeReopen n := by
  rw [DestinationIndexIterator.requestLowRangeReopen]
  split
  · exact reopenLowRange_covered it n
  · exact Or.inr (Or.inr (Or.inr rfl))

namespace Loader

theorem step_inv {s : Loader Id} (op : LoaderOp Id) (h : s.Inv) : (s.step op).Inv := by
  cases op with
  | write w => exact h.writes [w]
  | reconsider nonce =>
    obtain ⟨hkeep, hnonce⟩ := reconsider_covered s.iterator nonce
    exact h.notify hkeep hnonce
  | reconsiderMigrated nonce =>
    obtain ⟨hkeep, hnonce⟩ := reconsiderMigrated_covered s.iterator nonce
    exact h.notify hkeep hnonce
  | requestLowRangeReopen => exact fun n _ => requestLowRangeReopen_covered s.iterator n
  | load reads after dealtWith =>
    obtain ⟨⟨s', result⟩, hsound, hret⟩ := peek_spec reads s 0
    obtain ⟨hinv, hgap⟩ := hsound h
    have hpeek : peek reads FUEL s 0 = some (s', result) := hret 0
    cases result with
    | error e =>
      simp only [step, hpeek]
      exact hinv.writes after
    | ok found =>
      cases found with
      | none =>
        simp only [step, hpeek]
        exact hinv.writes after
      | some e =>
        obtain ⟨direction, n, id⟩ := e
        simp only [step, hpeek]
        split
        · exact hinv.serve (hgap direction n id rfl) after
        · exact hinv.writes after

theorem run_inv {s : Loader Id} (ops : List (LoaderOp Id)) (h : s.Inv) : (s.run ops).Inv := by
  induction ops generalizing s with
  | nil => exact h
  | cons op ops ih => exact ih (step_inv op h)

theorem start_inv (highestSeenNonce : Option Nonce) (index : PendingIndex Id) : (start highestSeenNonce index).Inv :=
  fun n _ => new_covered highestSeenNonce n

end Loader

/-- **The loader loses nothing.** After every run every notified entry of the index has been returned and advanced past
since it was written, or is still covered, and every call of `peek` returns. -/
theorem loader_coverage (highestSeenNonce : Option Nonce) (index : PendingIndex Id) (ops : List (LoaderOp Id)) :
    let s := (Loader.start highestSeenNonce index).run ops
    (∀ n id, (n, id) ∈ s.index → s.notified n = true → s.served n = true ∨ Covered s.iterator n) ∧
      ∀ reads k, ∃ r, ∀ fuel ≥ Loader.FUEL, Loader.peek reads fuel s k = some r := by
  refine ⟨fun n id hmem hnotified => ?_, fun reads k => ?_⟩
  · have hinv := Loader.run_inv ops (Loader.start_inv highestSeenNonce index)
    cases hserved : ((Loader.start highestSeenNonce index).run ops).served n with
    | true => exact Or.inl rfl
    | false => exact Or.inr (hinv n ⟨⟨id, hmem⟩, hnotified, hserved⟩)
  · obtain ⟨r, -, hret⟩ := Loader.peek_spec reads ((Loader.start highestSeenNonce index).run ops) k
    refine ⟨r, fun fuel hfuel => ?_⟩
    obtain ⟨extra, rfl⟩ := Nat.exists_eq_add_of_le' hfuel
    exact hret extra

end Loader

end Hyperlane.Relayer
