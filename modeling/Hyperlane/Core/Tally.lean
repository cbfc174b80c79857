/-
Ballots counted by key in the order of their arrival.

Events arrive in batches, in any order inside a batch. A fault ends the count; otherwise the first key to collect `t`
ballots wins with the ballots it has by then. The winner is good when its ballots agree.

- `run_quorum`: a winner's ballots are those of its key so far, and there are exactly `t` of them.
- `always_agrees_iff`: every order of arrival ends in a winner whose ballots agree exactly when, up to the first batch in
  which some key can win, there is no fault and (unless `t = 1`) every key that can win has only agreeing ballots.
-/
import Mathlib.Tactic

namespace Hyperlane.Tally

inductive Event (K V : Type*) where
  | skip
  | fault
  | ballot (key : K) (value : V)
deriving DecidableEq

inductive Verdict (K V : Type*) where
  | undecided
  | fault
  | quorum (key : K) (values : List V)

section

variable {K V W : Type*} [DecidableEq K]

/-- the ballots for a key, in order of arrival -/
def ballots (key : K) (es : List (Event K V)) : List V :=
  es.filterMap fun
    | .ballot k v => if k = key then some v else none
    | _ => none

/-- the verdict on `es` after `seen` -/
def run (t : ℕ) : List (Event K V) → List (Event K V) → Verdict K V
  | _, [] => .undecided
  | seen, .skip :: es => run t (seen ++ [.skip]) es
  | _, .fault :: _ => .fault
  | seen, .ballot key value :: es =>
    if t ≤ (ballots key seen).length + 1 then .quorum key (ballots key seen ++ [value])
    else run t (seen ++ [.ballot key value]) es

/-- the values agree on `f` -/
def Agree (f : V → W) (values : List V) : Prop := ∀ a ∈ values, ∀ b ∈ values, f a = f b

/-- no fault, and no key with `t` ballots -/
def Open (t : ℕ) (es : List (Event K V)) : Prop := .fault ∉ es ∧ ∀ key, (ballots key es).length < t

/-! ## Counting -/

/-- what a filter keeps comes with the keys of the elements it is made from -/
theorem filterMap_keys_sublist {α β γ : Type*} {f : α → Option β} {key : α → γ} {key' : β → γ}
    (h : ∀ a b, f a = some b → key' b = key a) (l : List α) : ((l.filterMap f).map key').Sublist (l.map key) := by
  induction l with
  | nil => exact List.Sublist.refl _
  | cons a l ih =>
    rw [List.filterMap_cons, List.map_cons]
    cases hf : f a with
    | none => exact ih.cons _
    | some b =>
      rw [List.map_cons, h a b hf]
      exact ih.cons_cons _

/-- the event's ballot for a key -/
theorem ballot_eq_some {key : K} {e : Event K V} {value : V}
    (h : (match e with | .ballot k v => if k = key then some v else none | _ => none) = some value) :
    e = .ballot key value := by
  cases e with
  | skip => cases h
  | fault => cases h
  | ballot k v =>
    dsimp only at h
    split at h
    · rename_i hk
      cases h
      rw [hk]
    · cases h

theorem mem_ballots {key : K} {value : V} {es : List (Event K V)} : value ∈ ballots key es ↔ .ballot key value ∈ es := by
  unfold ballots
  rw [List.mem_filterMap]
  constructor
  · rintro ⟨e, he, hv⟩
    rw [← ballot_eq_some hv]
    exact he
  · intro he
    exact ⟨_, he, if_pos rfl⟩

theorem ballots_append (key : K) (es es' : List (Event K V)) : ballots key (es ++ es') = ballots key es ++ ballots key es' :=
  List.filterMap_append

theorem ballots_ballot (key k : K) (value : V) :
    ballots key [.ballot k value] = if k = key then [value] else [] := by
  by_cases h : k = key <;> simp [ballots, h]

theorem ballots_perm {es es' : List (Event K V)} (h : es.Perm es') (key : K) :
    (ballots key es).Perm (ballots key es') :=
  h.filterMap _

theorem ballots_length_append (key : K) (es es' : List (Event K V)) :
    (ballots key (es ++ es')).length = (ballots key es).length + (ballots key es').length := by
  rw [ballots_append, List.length_append]

theorem Open.perm {t : ℕ} {es es' : List (Event K V)} (ho : Open t es) (h : es.Perm es') : Open t es' := by
  refine ⟨fun hf => ho.1 (h.mem_iff.2 hf), ?_⟩
  intro key
  rw [← (ballots_perm h key).length_eq]
  exact ho.2 key

theorem Open.left {t : ℕ} {es es' : List (Event K V)} (ho : Open t (es ++ es')) : Open t es := by
  refine ⟨fun hf => ho.1 (List.mem_append_left _ hf), ?_⟩
  intro key
  have := ho.2 key
  rw [ballots_length_append] at this
  omega

/-! ## One order of arrival -/

theorem run_open {t : ℕ} {seen es : List (Event K V)} (h : Open t (seen ++ es)) (rest : List (Event K V)) :
    run t seen (es ++ rest) = run t (seen ++ es) rest := by
  induction es generalizing seen with
  | nil => simp
  | cons e es ih =>
    rw [List.append_cons] at h ⊢
    cases e with
    | skip => exact ih h
    | fault => exact absurd (by simp) h.1
    | ballot key value =>
      have hlt := h.left.2 key
      rw [ballots_length_append, ballots_ballot, if_pos rfl, List.length_singleton] at hlt
      simp only [List.cons_append, run]
      rw [if_neg (not_le.2 hlt)]
      exact ih h

theorem run_undecided {t : ℕ} {seen es : List (Event K V)} (hs : Open t seen) (h : run t seen es = .undecided) :
    Open t (seen ++ es) := by
  induction es generalizing seen with
  | nil => simpa using hs
  | cons e es ih =>
    rw [List.append_cons]
    cases e with
    | skip =>
      apply ih _ h
      refine ⟨by simpa using hs.1, ?_⟩
      intro key
      simpa [ballots_append, ballots] using hs.2 key
    | fault => cases h
    | ballot key value =>
      unfold run at h
      split at h
      · cases h
      · rename_i hlt
        apply ih _ h
        refine ⟨by simpa using hs.1, ?_⟩
        intro k
        rw [ballots_length_append, ballots_ballot]
        split
        · rename_i hk
          subst hk
          exact not_le.1 hlt
        · exact hs.2 k

theorem run_fault {t : ℕ} {seen es : List (Event K V)} (h : run t seen es = .fault) : .fault ∈ es := by
  induction es generalizing seen with
  | nil => cases h
  | cons e es ih =>
    cases e with
    | skip => exact List.mem_cons_of_mem _ (ih h)
    | fault => exact List.mem_cons_self
    | ballot key value =>
      unfold run at h
      split at h
      · cases h
      · exact List.mem_cons_of_mem _ (ih h)

/-- a winner has exactly `t` ballots, those of its key so far -/
theorem run_quorum {t : ℕ} {seen es : List (Event K V)} (hs : ∀ key, (ballots key seen).length < t) {key : K}
    {values : List V} (h : run t seen es = .quorum key values) :
    values.length = t ∧ ∃ pre, pre <+: es ∧ values = ballots key (seen ++ pre) := by
  induction es generalizing seen with
  | nil => cases h
  | cons e es ih =>
    cases e with
    | skip =>
      obtain ⟨hlen, pre, hpre, hv⟩ := ih (fun k => by simpa [ballots_append, ballots] using hs k) h
      refine ⟨hlen, .skip :: pre, (List.prefix_cons_inj _).2 hpre, ?_⟩
      rw [hv, List.append_assoc]
      rfl
    | fault => cases h
    | ballot k value =>
      unfold run at h
      split at h
      · rename_i hle
        cases h
        refine ⟨?_, [.ballot key value], by simp, ?_⟩
        · rw [List.length_append, List.length_singleton]
          exact le_antisymm (hs key) hle
        · rw [ballots_append, ballots_ballot, if_pos rfl]
      · rename_i hlt
        have hs' : ∀ k', (ballots k' (seen ++ [.ballot k value])).length < t := by
          intro k'
          rw [ballots_length_append, ballots_ballot]
          split
          · rename_i hk
            subst hk
            exact not_le.1 hlt
          · exact hs k'
        obtain ⟨hlen, pre, hpre, hv⟩ := ih hs' h
        refine ⟨hlen, .ballot k value :: pre, (List.prefix_cons_inj _).2 hpre, ?_⟩
        rw [hv, List.append_assoc]
        rfl

/-- a winner of a whole count has `t` of its key's ballots -/
theorem run_winner {t : ℕ} (ht : 1 ≤ t) {es : List (Event K V)} {key : K} {values : List V}
    (h : run t [] es = .quorum key values) :
    values.length = t ∧ values ⊆ ballots key es ∧ t ≤ (ballots key es).length := by
  have hnil : ∀ key, (ballots key ([] : List (Event K V))).length < t := fun _ => ht
  obtain ⟨hlen, pre, ⟨post, rfl⟩, hv⟩ := run_quorum hnil h
  rw [List.nil_append] at hv
  refine ⟨hlen, ?_, ?_⟩
  · rw [hv, ballots_append]
    exact List.subset_append_left _ _
  · calc t = (ballots key pre).length := by rw [← hlen, hv]
      _ ≤ (ballots key pre).length + (ballots key post).length := Nat.le_add_right _ _
      _ = (ballots key (pre ++ post)).length := (ballots_length_append key pre post).symm

/-- a decided count does not look further -/
theorem run_decided {t : ℕ} {seen es : List (Event K V)} (h : run t seen es ≠ .undecided) (rest : List (Event K V)) :
    run t seen (es ++ rest) = run t seen es := by
  induction es generalizing seen with
  | nil => exact absurd rfl h
  | cons e es ih =>
    cases e with
    | skip => exact ih h
    | fault => rfl
    | ballot key value =>
      simp only [List.cons_append, run] at h ⊢
      split
      · rfl
      · rename_i hlt
        rw [if_neg hlt] at h
        exact ih h

/-- ballots for one key, one after the other, up to the `t`-th -/
theorem run_ballots {t : ℕ} {seen : List (Event K V)} {key : K} {values : List V} (hne : values ≠ [])
    (hlen : (ballots key seen).length + values.length = t) (rest : List (Event K V)) :
    run t seen (values.map (Event.ballot key) ++ rest) = .quorum key (ballots key seen ++ values) := by
  induction values generalizing seen with
  | nil => exact absurd rfl hne
  | cons v vs ih =>
    simp only [List.map_cons, List.cons_append, run]
    rw [List.length_cons] at hlen
    cases vs with
    | nil =>
      rw [if_pos (by simpa using hlen.ge)]
    | cons w ws =>
      rw [List.length_cons] at hlen
      rw [if_neg (by omega), ih (List.cons_ne_nil _ _)]
      · rw [ballots_append, ballots_ballot, if_pos rfl, List.append_assoc]
        rfl
      · rw [ballots_length_append, ballots_ballot, if_pos rfl]
        simp only [List.length_cons, List.length_nil]
        omega

/-! ## All orders of arrival -/

/-- `es` is an order in which the batches can arrive -/
def Arrival (batches : List (List (Event K V))) (es : List (Event K V)) : Prop :=
  ∃ parts, List.Forall₂ List.Perm parts batches ∧ es = parts.flatten

/-- the first batch in which some key can win comes without a fault up to then, and the ballots of every key that can win
agree unless one ballot is enough -/
def Unblocked (t : ℕ) (f : V → W) (batches : List (List (Event K V))) : Prop :=
  ∃ k < batches.length,
    (∀ key, (ballots key (batches.take k).flatten).length < t) ∧
    (∃ key, t ≤ (ballots key (batches.take (k + 1)).flatten).length) ∧
    .fault ∉ (batches.take (k + 1)).flatten ∧
    (t = 1 ∨ ∀ key, t ≤ (ballots key (batches.take (k + 1)).flatten).length →
      Agree f (ballots key (batches.take (k + 1)).flatten))

omit [DecidableEq K] in
theorem forall₂_perm_refl (zs : List (List (Event K V))) : List.Forall₂ List.Perm zs zs :=
  List.forall₂_same.2 fun z _ => List.Perm.refl z

omit [DecidableEq K] in
/-- batch `k` can arrive in any order while the others keep theirs -/
theorem Arrival.reorder {batches : List (List (Event K V))} {k : ℕ} (hk : k < batches.length) {b : List (Event K V)}
    (h : b.Perm batches[k]) :
    Arrival batches ((batches.take k).flatten ++ (b ++ (batches.drop (k + 1)).flatten)) := by
  refine ⟨batches.take k ++ b :: batches.drop (k + 1), ?_, by simp⟩
  have hsplit : batches = batches.take k ++ batches[k] :: batches.drop (k + 1) := by
    rw [List.cons_getElem_drop_succ, List.take_append_drop]
  conv => rhs; rw [hsplit]
  exact List.rel_append (forall₂_perm_refl _) (.cons h (forall₂_perm_refl _))

omit [DecidableEq K] in
theorem flatten_perm {parts batches : List (List (Event K V))} (h : List.Forall₂ List.Perm parts batches) (k : ℕ) :
    (parts.take k).flatten.Perm (batches.take k).flatten := by
  induction h generalizing k with
  | nil => simp
  | cons hp _ ih =>
    cases k with
    | zero => simp
    | succ k => exact hp.append (ih k)

theorem Unblocked.agrees {t : ℕ} (ht : 1 ≤ t) {f : V → W} {batches : List (List (Event K V))} (h : Unblocked t f batches)
    {es : List (Event K V)} (he : Arrival batches es) :
    ∃ key values, run t [] es = .quorum key values ∧ values.length = t ∧ Agree f values := by
  obtain ⟨k, -, -, ⟨winner, hwin⟩, hfault, hagree⟩ := h
  obtain ⟨parts, hparts, rfl⟩ := he
  have hperm := flatten_perm hparts (k + 1)
  have hnil : Open t ([] : List (Event K V)) := ⟨by simp, fun key => ht⟩
  have hsplit : parts.flatten = (parts.take (k + 1)).flatten ++ (parts.drop (k + 1)).flatten := by
    rw [← List.flatten_append, List.take_append_drop]
  -- the events through batch `k` decide: a key reaches `t`, and there is no fault
  cases hr : run t [] (parts.take (k + 1)).flatten with
  | undecided =>
    have hopen := (run_undecided hnil hr).perm hperm
    exact absurd (hopen.2 winner) (not_lt.2 hwin)
  | fault => exact absurd (hperm.mem_iff.1 (run_fault hr)) hfault
  | quorum key values =>
    have hdec : run t [] (parts.take (k + 1)).flatten ≠ .undecided := by
      rw [hr]
      nofun
    obtain ⟨hlen, hsub, hle⟩ := run_winner ht hr
    refine ⟨key, values, by rw [hsplit, run_decided hdec, hr], hlen, ?_⟩
    have hballots := ballots_perm hperm key
    rcases hagree with rfl | hagree
    · obtain ⟨v, rfl⟩ := List.length_eq_one_iff.1 hlen
      intro a ha b hb
      rw [List.mem_singleton.1 ha, List.mem_singleton.1 hb]
    · intro a ha b hb
      exact hagree key (hle.trans_eq hballots.length_eq) a (hballots.subset (hsub ha)) b (hballots.subset (hsub hb))

omit [DecidableEq K] in
theorem perm_cons_of_mem {v : V} {l : List V} (h : v ∈ l) : ∃ l', l.Perm (v :: l') := by
  obtain ⟨s, s', rfl⟩ := List.append_of_mem h
  exact ⟨s ++ s', List.perm_middle⟩

omit [DecidableEq K] in
/-- one or two of the new ballots are enough to disagree -/
theorem exists_few_disagreeing {t : ℕ} (ht : 2 ≤ t) {f : V → W} {old new : List V} (hold : old.length < t)
    (h : ¬ Agree f (old ++ new)) :
    ∃ few rest, new.Perm (few ++ rest) ∧ old.length + few.length ≤ t ∧ ¬ Agree f (old ++ few) := by
  cases old with
  | nil =>
    simp only [Agree, List.nil_append, not_forall] at h
    obtain ⟨a, ha, b, hb, hab⟩ := h
    obtain ⟨l, hl⟩ := perm_cons_of_mem ha
    have hbl : b ∈ l := by
      rcases List.mem_cons.1 (hl.subset hb) with rfl | hb
      · exact absurd rfl hab
      · exact hb
    obtain ⟨l', hl'⟩ := perm_cons_of_mem hbl
    refine ⟨[a, b], l', hl.trans (hl'.cons a), ht, ?_⟩
    intro hag
    exact hab (hag a (by simp) b (by simp))
  | cons p old =>
    -- some ballot differs from the first old one
    obtain ⟨x, hx, hxp⟩ : ∃ x ∈ p :: old ++ new, f x ≠ f p := by
      by_contra hall
      push Not at hall
      apply h
      intro a ha b hb
      rw [hall a ha, hall b hb]
    rcases List.mem_append.1 hx with hx | hx
    · refine ⟨[], new, .refl _, hold.le, ?_⟩
      intro hag
      exact hxp (hag x (List.mem_append_left _ hx) p (by simp))
    · obtain ⟨l, hl⟩ := perm_cons_of_mem hx
      refine ⟨[x], l, hl, hold, ?_⟩
      intro hag
      exact hxp (hag x (by simp) p (by simp))

omit [DecidableEq K] in
/-- a part of the new ballots that completes `t` and does not agree -/
theorem exists_disagreeing {t : ℕ} (ht : 2 ≤ t) {f : V → W} {old new : List V} (hold : old.length < t)
    (hnew : t ≤ old.length + new.length) (h : ¬ Agree f (old ++ new)) :
    ∃ chosen rest, new.Perm (chosen ++ rest) ∧ old.length + chosen.length = t ∧ ¬ Agree f (old ++ chosen) := by
  obtain ⟨few, rest, hperm, hle, hdis⟩ := exists_few_disagreeing ht hold h
  -- any others fill up to `t`
  refine ⟨few ++ rest.take (t - old.length - few.length), rest.drop (t - old.length - few.length), ?_, ?_, ?_⟩
  · rw [List.append_assoc, List.take_append_drop]
    exact hperm
  · have hlen := hperm.length_eq
    rw [List.length_append] at hlen
    rw [List.length_append, List.length_take]
    omega
  · intro hag
    apply hdis
    intro x hx y hy
    apply hag
    · rw [← List.append_assoc]
      exact List.mem_append_left _ hx
    · rw [← List.append_assoc]
      exact List.mem_append_left _ hy

theorem perm_ballots_first (key : K) (es : List (Event K V)) :
    ∃ others, es.Perm ((ballots key es).map (Event.ballot key) ++ others) := by
  induction es with
  | nil => exact ⟨[], .refl _⟩
  | cons e es ih =>
    obtain ⟨others, ho⟩ := ih
    by_cases he : ∃ v, e = .ballot key v
    · obtain ⟨v, rfl⟩ := he
      refine ⟨others, ?_⟩
      have : ballots key (.ballot key v :: es) = v :: ballots key es := by simp [ballots]
      rw [this]
      exact ho.cons _
    · refine ⟨e :: others, ?_⟩
      have : ballots key (e :: es) = ballots key es := by
        cases e with
        | skip => rfl
        | fault => rfl
        | ballot k v =>
          have hk : k ≠ key := fun hk => he ⟨v, by rw [hk]⟩
          simp [ballots, hk]
      rw [this]
      exact (ho.cons e).trans List.perm_middle.symm

/-- there is a first batch in which some key can win, when some key can win at all -/
theorem exists_first_win {t : ℕ} (ht : 1 ≤ t) {batches : List (List (Event K V))} {winner : K}
    (h : t ≤ (ballots winner batches.flatten).length) :
    ∃ k < batches.length, (∃ key, t ≤ (ballots key (batches.take (k + 1)).flatten).length) ∧
      ∀ j ≤ k, ∀ key, (ballots key (batches.take j).flatten).length < t := by
  classical
  have hex : ∃ k, ∃ key, t ≤ (ballots key (batches.take k).flatten).length := by
    refine ⟨batches.length, winner, ?_⟩
    rwa [List.take_length]
  have hle : Nat.find hex ≤ batches.length := by
    apply Nat.find_min' hex
    exact ⟨winner, by rwa [List.take_length]⟩
  cases hfind : Nat.find hex with
  | zero =>
    -- nothing has arrived before the first batch
    obtain ⟨key, hkey⟩ := Nat.find_spec hex
    rw [hfind] at hkey
    exact absurd hkey (not_le.2 ht)
  | succ k =>
    have hspec := Nat.find_spec hex
    rw [hfind] at hle hspec
    refine ⟨k, hle, hspec, ?_⟩
    intro j hj key
    have hmin := Nat.find_min hex (m := j) (hfind ▸ Nat.lt_succ_of_le hj)
    push Not at hmin
    exact hmin key

section Necessary

variable {t : ℕ} {f : V → W} {batches : List (List (Event K V))}
  (h : ∀ es, Arrival batches es → ∃ key values, run t [] es = .quorum key values ∧ Agree f values)
include h

/-- a fault of a batch that is still looked at could arrive first in it -/
theorem fault_free {k : ℕ} (hk : k < batches.length)
    (hbefore : ∀ j ≤ k, ∀ key, (ballots key (batches.take j).flatten).length < t) :
    ∀ j ≤ k + 1, Event.fault ∉ (batches.take j).flatten := by
  intro j
  induction j with
  | zero => simp
  | succ j ih =>
    intro hj hf
    have hjk : j ≤ k := Nat.le_of_succ_le_succ hj
    have hlen : j < batches.length := hjk.trans_lt hk
    have hclean := ih (Nat.le_of_succ_le hj)
    rw [List.take_succ_eq_append_getElem hlen, List.flatten_append, List.mem_append] at hf
    have hmem : Event.fault ∈ batches[j] := by simpa [hclean] using hf
    obtain ⟨rest, hrest⟩ := perm_cons_of_mem hmem
    obtain ⟨key, values, hr, -⟩ := h _ (Arrival.reorder hlen hrest.symm)
    have hopen : Open t ([] ++ (batches.take j).flatten) := ⟨hclean, hbefore j hjk⟩
    rw [run_open hopen] at hr
    cases hr

/-- disagreeing ballots of the deciding batch could arrive first in it -/
theorem winners_agree (ht : 2 ≤ t) {k : ℕ} (hk : k < batches.length) (hopen : Open t (batches.take k).flatten) {key : K}
    (hkey : t ≤ (ballots key (batches.take (k + 1)).flatten).length) :
    Agree f (ballots key (batches.take (k + 1)).flatten) := by
  by_contra hdis
  rw [List.take_succ_eq_append_getElem hk, List.flatten_append, List.flatten_singleton] at hkey hdis
  rw [ballots_length_append] at hkey
  rw [ballots_append] at hdis
  have hold := hopen.2 key
  obtain ⟨chosen, rest, hperm, hlen, hdis⟩ := exists_disagreeing ht hold hkey hdis
  obtain ⟨others, hothers⟩ := perm_ballots_first key batches[k]
  have hb : (chosen.map (Event.ballot key) ++ (rest.map (Event.ballot key) ++ others)).Perm batches[k] :=
    calc chosen.map (Event.ballot key) ++ (rest.map (Event.ballot key) ++ others)
      _ = (chosen ++ rest).map (Event.ballot key) ++ others := by rw [List.map_append, List.append_assoc]
      List.Perm _ ((ballots key batches[k]).map (Event.ballot key) ++ others) := (hperm.map _).symm.append_right others
      List.Perm _ batches[k] := hothers.symm
  have harr := Arrival.reorder hk hb
  rw [List.append_assoc] at harr
  obtain ⟨key', values, hr, hag⟩ := h _ harr
  have hne : chosen ≠ [] := by
    rintro rfl
    exact absurd hlen hold.ne
  have hrun : ∀ rest, run t [] ((batches.take k).flatten ++ rest) = run t (batches.take k).flatten rest := run_open hopen
  rw [hrun, run_ballots hne hlen] at hr
  cases hr
  exact hdis hag

theorem unblocked_of_always (ht : 1 ≤ t) : Unblocked t f batches := by
  obtain ⟨winner, values, hr, -⟩ := h batches.flatten ⟨batches, forall₂_perm_refl _, rfl⟩
  obtain ⟨-, -, hwin⟩ := run_winner ht hr
  obtain ⟨k, hk, hfirst, hbefore⟩ := exists_first_win ht hwin
  have hfault := fault_free h hk hbefore
  refine ⟨k, hk, hbefore k le_rfl, hfirst, hfault (k + 1) le_rfl, ?_⟩
  rcases ht.eq_or_lt with hone | htwo
  · exact Or.inl hone.symm
  · right
    intro key hkey
    exact winners_agree h htwo hk ⟨hfault k (Nat.le_succ k), hbefore k le_rfl⟩ hkey

end Necessary

/-- every order of arrival ends in a winner whose ballots agree exactly when the batches are unblocked -/
theorem always_agrees_iff {t : ℕ} (ht : 1 ≤ t) (f : V → W) (batches : List (List (Event K V))) :
    (∀ es, Arrival batches es → ∃ key values, run t [] es = .quorum key values ∧ Agree f values) ↔
      Unblocked t f batches := by
  constructor
  · intro h
    exact unblocked_of_always h ht
  · intro h es he
    obtain ⟨key, values, hr, -, hag⟩ := h.agrees ht he
    exact ⟨key, values, hr, hag⟩

end

end Hyperlane.Tally
