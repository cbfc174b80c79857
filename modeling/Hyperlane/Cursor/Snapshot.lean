/-
What the two sequence-aware cursors share (hyperlane-base/src/contract_sync/cursors/sequence_aware/mod.rs): snapshots, the
store reads, and the preparation of a log vector.

A log vector is prepared by dropping repeated sequences (the first one stays), dropping the sequences the cursor has
passed, and sorting.

- `prepare_spec`: a prepared vector has each kept sequence of its input once, ascending, and nothing else.
- `Prepared.card`, `Prepared.head_window`, `Prepared.last_window`: when its sequences are exactly a window, it has as many
  entries as the window, its first entry is the window's lowest sequence and its last entry the highest.
-/
import Mathlib.Tactic

namespace Hyperlane.Cursor

/-! ## Model -/

abbrev U32_MAX : ℕ := 2 ^ 32 - 1

inductive IndexMode where
  | Block
  | Sequence
deriving DecidableEq

structure LastIndexedSnapshot where
  sequence : Option ℕ
  atBlock : ℕ
deriving DecidableEq

structure TargetSnapshot where
  sequence : ℕ
  atBlock : ℕ
deriving DecidableEq

/-- `next_target` -/
def LastIndexedSnapshot.nextTarget (l : LastIndexedSnapshot) : TargetSnapshot :=
  ⟨(l.sequence.map fun s => min (s + 1) U32_MAX).getD 0, l.atBlock⟩

/-- `previous_target` -/
def LastIndexedSnapshot.previousTarget (l : LastIndexedSnapshot) : Option TargetSnapshot :=
  match l.sequence with
  | none => none
  | some 0 => none
  | some (s + 1) => some ⟨s, l.atBlock⟩

/-- an `Indexed` log with its block number (a `u64`) -/
structure Log where
  sequence : Option ℕ
  blockNumber : ℕ
deriving DecidableEq

/-- what the store answers during one call; every sequence is read at most once in a call -/
structure StoreView where
  /-- `retrieve_by_sequence(..).is_some()` -/
  hasEntry : ℕ → Except Unit Bool
  /-- `retrieve_log_block_number_by_sequence` -/
  blockNumber : ℕ → Except Unit (Option ℕ)

/-- `u32::try_from(u64)` -/
def tryIntoU32 (n : ℕ) : Except Unit ℕ := if n < 2 ^ 32 then .ok n else .error ()

/-- `get_sequence_log_block_number` -/
def getSequenceLogBlockNumber (view : StoreView) (sequence : ℕ) : Except Unit (Option ℕ) :=
  match view.hasEntry sequence with
  | .error _ => .error ()
  | .ok false => .ok none
  | .ok true =>
    match view.blockNumber sequence with
    | .error _ => .error ()
    | .ok none => .ok none
    | .ok (some block) =>
      match tryIntoU32 block with
      | .error _ => .error ()
      | .ok b => .ok (some b)

/-- `indexed_to_sequence_indexed_array`: sequence and block number, an error when a sequence is missing -/
def toSequenceIndexed : List Log → Except Unit (List (ℕ × ℕ))
  | [] => .ok []
  | log :: logs =>
    match log.sequence, toSequenceIndexed logs with
    | some s, .ok rest => .ok ((s, log.blockNumber) :: rest)
    | _, _ => .error ()

/-- `unique_by` on the sequence -/
def uniqueBySequence : List (ℕ × ℕ) → List (ℕ × ℕ)
  | [] => []
  | x :: xs => x :: (uniqueBySequence xs).filter fun y => y.1 ≠ x.1

/-- the prepared vector of `update`: unique, filtered and sorted ascending -/
def prepare (keep : ℕ → Bool) (logs : List Log) : Except Unit (List (ℕ × ℕ)) :=
  match toSequenceIndexed logs with
  | .error _ => .error ()
  | .ok ls => .ok (((uniqueBySequence ls).filter fun x => keep x.1).insertionSort fun a b => a.1 ≤ b.1)

/-- `all_log_sequences` -/
def allSequences (logs : List (ℕ × ℕ)) : Finset ℕ := (logs.map Prod.fst).toFinset

theorem tryIntoU32_ok {n m : ℕ} (h : tryIntoU32 n = .ok m) : m = n ∧ n < 2 ^ 32 := by
  unfold tryIntoU32 at h
  split at h
  · cases h
    exact ⟨rfl, by assumption⟩
  · cases h

theorem tryIntoU32_error {n : ℕ} {e : Unit} (h : tryIntoU32 n = .error e) : 2 ^ 32 ≤ n := by
  unfold tryIntoU32 at h
  split at h
  · cases h
  · rename_i hlt
    exact not_lt.1 hlt

theorem getSequenceLogBlockNumber_some {view : StoreView} {s b : ℕ}
    (h : getSequenceLogBlockNumber view s = .ok (some b)) : view.blockNumber s = .ok (some b) := by
  unfold getSequenceLogBlockNumber at h
  split at h
  · cases h
  · cases h
  split at h
  · cases h
  · cases h
  rename_i block hblock
  split at h
  · cases h
  · rename_i n hn
    cases h
    rw [hblock, (tryIntoU32_ok hn).1]

/-! ## Prepared vectors -/

theorem mem_toSequenceIndexed {logs : List Log} {ls : List (ℕ × ℕ)} (h : toSequenceIndexed logs = .ok ls) (x : ℕ × ℕ) :
    x ∈ ls ↔ (⟨some x.1, x.2⟩ : Log) ∈ logs := by
  induction logs generalizing ls with
  | nil =>
    cases h
    simp
  | cons log logs ih =>
    obtain ⟨sequence, block⟩ := log
    simp only [toSequenceIndexed] at h
    split at h
    · rename_i s rest hrest
      cases h
      rw [List.mem_cons, List.mem_cons, ih hrest]
      simp [Prod.ext_iff]
    · cases h

theorem toSequenceIndexed_ok {logs : List Log} (h : ∀ x ∈ logs, x.sequence ≠ none) :
    ∃ ls, toSequenceIndexed logs = .ok ls := by
  induction logs with
  | nil => exact ⟨[], rfl⟩
  | cons log logs ih =>
    obtain ⟨rest, hrest⟩ := ih fun x hx => h x (List.mem_cons_of_mem _ hx)
    obtain ⟨s, hs⟩ := Option.ne_none_iff_exists'.1 (h log List.mem_cons_self)
    exact ⟨(s, log.blockNumber) :: rest, by simp [toSequenceIndexed, hs, hrest]⟩

theorem toSequenceIndexed_sequenced {logs : List Log} {ls : List (ℕ × ℕ)} (h : toSequenceIndexed logs = .ok ls) :
    ∀ x ∈ logs, x.sequence ≠ none := by
  induction logs generalizing ls with
  | nil => simp
  | cons log logs ih =>
    simp only [toSequenceIndexed] at h
    split at h
    · rename_i s rest hs hrest
      intro x hx
      rcases List.mem_cons.1 hx with rfl | hx
      · simp [hs]
      · exact ih hrest x hx
    · cases h

theorem toSequenceIndexed_find {logs : List Log} {ls : List (ℕ × ℕ)} (h : toSequenceIndexed logs = .ok ls) (s : ℕ) :
    logs.find? (fun x => x.sequence = some s) = (ls.find? fun x => x.1 = s).map fun x => ⟨some x.1, x.2⟩ := by
  induction logs generalizing ls with
  | nil =>
    cases h
    rfl
  | cons log logs ih =>
    obtain ⟨sequence, block⟩ := log
    simp only [toSequenceIndexed] at h
    split at h
    · rename_i t rest hrest
      cases h
      by_cases hts : t = s
      · simp [hts]
      · simp [hts, ih hrest]
    · cases h

/-- of the entries with one sequence, the first one stays -/
theorem uniqueBySequence_first {ls : List (ℕ × ℕ)} {x : ℕ × ℕ} (hx : x ∈ uniqueBySequence ls) :
    (ls.find? fun y => y.1 = x.1) = some x := by
  induction ls with
  | nil => simp [uniqueBySequence] at hx
  | cons y ys ih =>
    rcases List.mem_cons.1 hx with rfl | hx
    · simp
    · obtain ⟨hx, hne⟩ := List.mem_filter.1 hx
      have hyx : y.1 ≠ x.1 := by
        intro h
        simp [h] at hne
      simp [hyx, ih hx]

theorem mem_uniqueBySequence {ls : List (ℕ × ℕ)} {s : ℕ} (h : s ∈ ls.map Prod.fst) :
    s ∈ (uniqueBySequence ls).map Prod.fst := by
  induction ls with
  | nil => simp at h
  | cons x xs ih =>
    simp only [uniqueBySequence, List.map_cons, List.mem_cons]
    by_cases hx : s = x.1
    · exact Or.inl hx
    · right
      rcases List.mem_cons.1 h with hs | hs
      · exact absurd hs hx
      · obtain ⟨y, hy, rfl⟩ := List.mem_map.1 (ih hs)
        exact List.mem_map.2 ⟨y, List.mem_filter.2 ⟨hy, by simpa using hx⟩, rfl⟩

theorem uniqueBySequence_nodup (ls : List (ℕ × ℕ)) : ((uniqueBySequence ls).map Prod.fst).Nodup := by
  induction ls with
  | nil => simp [uniqueBySequence]
  | cons x xs ih =>
    simp only [uniqueBySequence, List.map_cons, List.nodup_cons]
    refine ⟨?_, ?_⟩
    · intro hx
      obtain ⟨y, hy, hyx⟩ := List.mem_map.1 hx
      simpa [hyx] using (List.mem_filter.1 hy).2
    · exact ih.sublist (List.filter_sublist.map _)

/-- a prepared vector: entries of the input that are kept, each sequence once, ascending -/
structure Prepared (keep : ℕ → Bool) (logs : List Log) (ls : List (ℕ × ℕ)) : Prop where
  first : ∀ x ∈ ls, logs.find? (fun y => y.sequence = some x.1) = some ⟨some x.1, x.2⟩
  kept : ∀ x ∈ ls, keep x.1 = true
  complete : ∀ s b, (⟨some s, b⟩ : Log) ∈ logs → keep s = true → s ∈ allSequences ls
  nodup : (ls.map Prod.fst).Nodup
  sorted : ls.Pairwise fun a b => a.1 ≤ b.1

theorem prepare_spec {keep : ℕ → Bool} {logs : List Log} {ls : List (ℕ × ℕ)} (h : prepare keep logs = .ok ls) :
    Prepared keep logs ls := by
  unfold prepare at h
  split at h
  · cases h
  · rename_i raw hraw
    cases h
    have hperm := List.perm_insertionSort (fun a b : ℕ × ℕ => a.1 ≤ b.1)
      ((uniqueBySequence raw).filter fun x => keep x.1)
    refine ⟨?_, ?_, ?_, ?_, List.pairwise_insertionSort _ _⟩
    · intro x hx
      have hu := (List.mem_filter.1 (hperm.mem_iff.1 hx)).1
      rw [toSequenceIndexed_find hraw, uniqueBySequence_first hu, Option.map_some]
    · intro x hx
      exact (List.mem_filter.1 (hperm.mem_iff.1 hx)).2
    · intro s b hs hk
      have hmem : (s, b) ∈ raw := (mem_toSequenceIndexed hraw (s, b)).2 hs
      obtain ⟨y, hy, rfl⟩ := List.mem_map.1 (mem_uniqueBySequence (List.mem_map.2 ⟨_, hmem, rfl⟩))
      rw [allSequences, List.mem_toFinset]
      exact List.mem_map.2 ⟨y, hperm.mem_iff.2 (List.mem_filter.2 ⟨hy, hk⟩), rfl⟩
    · rw [(hperm.map Prod.fst).nodup_iff]
      exact (uniqueBySequence_nodup raw).sublist (List.filter_sublist.map _)

theorem prepare_ok {logs : List Log} (keep : ℕ → Bool) (h : ∀ x ∈ logs, x.sequence ≠ none) :
    ∃ ls, prepare keep logs = .ok ls := by
  obtain ⟨raw, hraw⟩ := toSequenceIndexed_ok h
  exact ⟨_, by rw [prepare, hraw]⟩

theorem prepare_sequenced {keep : ℕ → Bool} {logs : List Log} {ls : List (ℕ × ℕ)} (h : prepare keep logs = .ok ls) :
    ∀ x ∈ logs, x.sequence ≠ none := by
  unfold prepare at h
  split at h
  · cases h
  · rename_i raw hraw
    exact toSequenceIndexed_sequenced hraw

section Window

variable {keep : ℕ → Bool} {logs : List Log} {ls : List (ℕ × ℕ)}

theorem Prepared.mem_input (h : Prepared keep logs ls) {x : ℕ × ℕ} (hx : x ∈ ls) : (⟨some x.1, x.2⟩ : Log) ∈ logs :=
  List.mem_of_find?_eq_some (h.first x hx)

theorem Prepared.mem_logs (h : Prepared keep logs ls) {s : ℕ} (hs : s ∈ allSequences ls) :
    ∃ b, (⟨some s, b⟩ : Log) ∈ logs := by
  rw [allSequences, List.mem_toFinset] at hs
  obtain ⟨x, hx, rfl⟩ := List.mem_map.1 hs
  exact ⟨x.2, h.mem_input hx⟩

theorem Prepared.card (h : Prepared keep logs ls) : (allSequences ls).card = ls.length := by
  rw [allSequences, List.toFinset_card_of_nodup h.nodup, List.length_map]

theorem mem_allSequences {x : ℕ × ℕ} (hx : x ∈ ls) : x.1 ∈ allSequences ls := by
  rw [allSequences, List.mem_toFinset]
  exact List.mem_map.2 ⟨x, hx, rfl⟩

/-- the last entry of a nonempty prepared vector whose sequences are a window is the window's top -/
theorem Prepared.last_window (h : Prepared keep logs ls) {a b : ℕ} (hw : allSequences ls = Finset.Ico a b) {x : ℕ × ℕ}
    (hx : ls.getLast? = some x) : x.1 + 1 = b := by
  obtain ⟨pre, rfl⟩ : ∃ pre, ls = pre ++ [x] := by
    have hne : ls ≠ [] := by rintro rfl; simp at hx
    refine ⟨ls.dropLast, ?_⟩
    rw [List.getLast?_eq_some_getLast hne] at hx
    cases hx
    exact (List.dropLast_append_getLast hne).symm
  have hxm : x.1 ∈ Finset.Ico a b := hw ▸ mem_allSequences (by simp)
  have htop : b - 1 ∈ allSequences (pre ++ [x]) := by
    rw [hw]
    rw [Finset.mem_Ico] at hxm ⊢
    omega
  rw [allSequences, List.mem_toFinset] at htop
  obtain ⟨y, hy, hyb⟩ := List.mem_map.1 htop
  rw [Finset.mem_Ico] at hxm
  rcases List.mem_append.1 hy with hy | hy
  · have := (List.pairwise_append.1 h.sorted).2.2 y hy x (by simp)
    omega
  · rw [List.mem_singleton] at hy
    subst hy
    omega

/-- the first entry is the window's bottom -/
theorem Prepared.head_window (h : Prepared keep logs ls) {a b : ℕ} (hw : allSequences ls = Finset.Ico a b) {x : ℕ × ℕ}
    (hx : ls.head? = some x) : x.1 = a := by
  cases ls with
  | nil => simp at hx
  | cons y ys =>
    cases hx
    have hxm : x.1 ∈ Finset.Ico a b := hw ▸ mem_allSequences (by simp)
    rw [Finset.mem_Ico] at hxm
    have hbot : a ∈ allSequences (x :: ys) := by
      rw [hw, Finset.mem_Ico]
      omega
    rw [allSequences, List.mem_toFinset] at hbot
    obtain ⟨z, hz, hza⟩ := List.mem_map.1 hbot
    rcases List.mem_cons.1 hz with rfl | hz
    · exact hza
    · have := List.rel_of_pairwise_cons h.sorted hz
      omega

end Window

end Hyperlane.Cursor
