/-
What the calls of a fallback provider come to, however they run together and whatever the providers do.

- `Gives`: what a program returns while everybody keeps the order of the providers a permutation.
- `Turn`: a provider is asked when nobody dismissed it and no other one that may be asked was asked less often.
- `calls_answered`: no provider is ever lost or doubled; a retrying call ends, and fails only after it asked all of them;
  the calls that ask once ask each provider at most once, and stop early only with what they look for.
-/
import Hyperlane.Rpc.FallbackProvider

namespace Hyperlane.Rpc

open Hyperlane.Interleaving PrioritizedProviderInner

variable {Request E V W α β : Type}

/-! ## What calls come to -/

/-- an error of the provider, or a timeout -/
def Plain (e : ChainCommunicationError E) : Prop := e = timedOut ∨ ∃ e', e = .provider e'

section Errors

variable (n : ℕ) (shouldRetry : ChainCommunicationError E → Bool) (errors : List (ℕ × ChainCommunicationError E)) (i : ℕ)

/-- how often a provider failed -/
def failures : ℕ := (errors.map Prod.fst).count i

/-- an error of the provider was not worth a retry -/
def Dismissed : Prop := ∃ e, (i, e) ∈ errors ∧ shouldRetry e = false

/-- after these errors the provider may be asked -/
structure Turn : Prop where
  lt : i < n
  kept : ¬ Dismissed shouldRetry errors i
  fair : ∀ j < n, Dismissed shouldRetry errors j ∨ failures errors i ≤ failures errors j

/-- every provider was asked in its turn -/
def InTurn : Prop := ∀ before i e after, errors = before ++ (i, e) :: after → Turn n shouldRetry before i

end Errors

structure Retried.Meets (n : ℕ) (shouldRetry : ChainCommunicationError E → Bool) (r : Retried E V) : Prop where
  plain : ∀ x ∈ r.errors, Plain x.2
  inTurn : InTurn n shouldRetry r.errors
  few : r.errors.length ≤ n + 3
  value : ∀ i v, r.value = some (i, v) → Turn n shouldRetry r.errors i
  failed : r.value = none → (∀ i < n, ∃ e, (i, e) ∈ r.errors) ∧
    (4 ≤ r.errors.length ∨ ∀ i < n, Dismissed shouldRetry r.errors i)

/-- each response comes from another provider -/
structure Once (n : ℕ) (responses : List (ℕ × ChainResult E W)) : Prop where
  nodup : (responses.map Prod.fst).Nodup
  lt : ∀ x ∈ responses, x.1 < n
  plain : ∀ i e, (i, .error e) ∈ responses → Plain e

/-- every provider responded -/
def AllOf (n : ℕ) (responses : List (ℕ × ChainResult E W)) : Prop := ∀ i < n, ∃ r, (i, r) ∈ responses

def OptionalMeets (n : ℕ) (responses : List (ℕ × ChainResult E (Option V))) : ChainResult E (Option V) → Prop
  | .ok (some v) => ∃ i, responses.getLast? = some (i, .ok (some v))
  | .ok none => n ≠ 0 ∧ ∀ i < n, (i, .ok none) ∈ responses
  | .error e => e = .fallbackProvidersFailed (errorsOf responses) ∧ AllOf n responses ∧
      (∀ i v, (i, .ok (some v)) ∉ responses) ∧ (n ≠ 0 → errorsOf responses ≠ [])

def Outcome.Meets (n : ℕ) : Outcome E V → Prop
  | .retried shouldRetry r => ∃ r', r = some r' ∧ r'.Meets n shouldRetry
  | .gathered isComplete responses => Once n responses ∧
      (∀ before, before <+: responses → before ≠ responses → before ≠ [] → isComplete (before.map Prod.snd) = false) ∧
      (AllOf n responses ∨ isComplete (responses.map Prod.snd) = true)
  | .optional responses result => Once n responses ∧ OptionalMeets n responses result

/-- the priorities of `n` providers -/
def Ordered (n : ℕ) (priorities : List PrioritizedProviderInner) : Prop := (priorities.map (·.index)).Perm (List.range n)

structure Sound (n : ℕ) (s : Store Request E V) : Prop where
  ordered : Ordered n s.priorities
  outcomes : ∀ o ∈ s.outcomes, o.Meets n

/-! ## Programs that keep the order -/

section Gives

variable {n : ℕ} {Φ : α → Prop} {Ψ : β → Prop}

def Moves (n : ℕ) (s s' : Store Request E V) : Prop := Sound n s → Sound n s'

def Gives (n : ℕ) (p : Program Request E V α) (Φ : α → Prop) : Prop :=
  ∀ s, Sound n s → Keeps (Moves n) (Moves n) (Sound n) (fun a s => Sound n s ∧ Φ a) p s

theorem gives_pure {a : α} (h : Φ a) : Gives n (pure a : Program Request E V α) Φ := fun _ hs => ⟨hs, h⟩

theorem Gives.bind {p : Program Request E V α} {k : α → Program Request E V β} (h : Gives n p Φ)
    (hk : ∀ a, Φ a → Gives n (k a) Ψ) : Gives n (p >>= k) Ψ := by
  intro s hs
  refine (h s hs).bind fun a s ha => ?_
  exact hk a ha.2 s ha.1

theorem Gives.mono {Φ' : α → Prop} {p : Program Request E V α} (h : Gives n p Φ) (hΦ : ∀ a, Φ a → Φ' a) :
    Gives n p Φ' := fun s hs => (h s hs).mono fun a _ ha => ⟨ha.1, hΦ a ha.2⟩

theorem asserts_sound : Asserts (Moves n) (Sound n) fun s : Store Request E V => Sound n s :=
  ⟨fun _ _ hs hmoves => hmoves hs, fun _ hs => hs⟩

theorem gives_read {query : Store Request E V → α} (h : ∀ s, Sound n s → Φ (query s)) : Gives n (.read query) Φ := by
  intro s hs
  refine (asserts_sound.read (fun s hs => hs) query hs).mono ?_
  rintro a s' ⟨hs', rfl⟩
  exact ⟨hs', h s' hs'⟩

theorem gives_write {change : Store Request E V → Store Request E V} (h : ∀ s, Sound n s → Sound n (change s)) :
    Gives n (.write change) fun _ => True := by
  intro s hs
  exact (asserts_sound.write (fun _ hs' _ => h _ hs') h hs).mono fun _ _ hs' => ⟨hs', trivial⟩

theorem keeps_timeout {p : Program Request E V α} {s : Store Request E V}
    (h : Keeps (Moves n) (Moves n) (Sound n) (fun a s => Sound n s ∧ Φ a) p s) :
    Keeps (Moves n) (Moves n) (Sound n) (fun r s => Sound n s ∧ ∀ a ∈ r, Φ a) (timeout p) s := by
  induction p generalizing s with
  | pure a =>
    refine ⟨h.1, ?_⟩
    rintro a' ha'
    obtain rfl := Option.some.inj ha'
    exact h.2
  | access change next ih =>
    intro s' hs'
    obtain ⟨hsound, hmoves, hnext⟩ := h s' hs'
    refine ⟨hsound, ?_⟩
    dsimp only
    by_cases hexpired : s'.expired = true
    · rw [if_pos hexpired, if_pos hexpired]
      exact ⟨fun hs => hs, hsound, fun _ ha => nomatch ha⟩
    · rw [if_neg hexpired, if_neg hexpired]
      exact ⟨hmoves, ih s' hnext⟩
  | acquire next => exact h.elim
  | release next => exact h.elim

theorem Gives.timeout {p : Program Request E V α} (h : Gives n p Φ) : Gives n (timeout p) fun r => ∀ a ∈ r, Φ a :=
  fun s hs => keeps_timeout (h s hs)

end Gives

/-! ## The order of the providers -/

section Order

variable {n : ℕ} {priorities : List PrioritizedProviderInner}

theorem map_modifyFirst {index : ℕ} {f : PrioritizedProviderInner → PrioritizedProviderInner}
    (hf : ∀ p, p.index = index → (f p).index = index) (priorities : List PrioritizedProviderInner) :
    (modifyFirst index f priorities).map (·.index) = priorities.map (·.index) := by
  induction priorities with
  | nil => rfl
  | cons p ps ih =>
    by_cases hp : p.index = index
    · simp [modifyFirst, hp, hf p hp]
    · simp [modifyFirst, hp, ih]

theorem Ordered.modifyFirst {index : ℕ} {f : PrioritizedProviderInner → PrioritizedProviderInner}
    (h : Ordered n priorities) (hf : ∀ p, p.index = index → (f p).index = index) :
    Ordered n (modifyFirst index f priorities) := by
  unfold Ordered
  rw [map_modifyFirst hf]
  exact h

theorem Ordered.nodup (h : Ordered n priorities) : (priorities.map (·.index)).Nodup := (h.nodup_iff).2 List.nodup_range

theorem Ordered.mem_iff (h : Ordered n priorities) {i : ℕ} : i ∈ priorities.map (·.index) ↔ i < n := by
  rw [List.Perm.mem_iff h, List.mem_range]

theorem Ordered.length (h : Ordered n priorities) : priorities.length = n := by
  have := List.Perm.length_eq h
  simpa using this

/-- a provider that is moved to the end is still there, once -/
theorem Ordered.moved (h : Ordered n priorities) {p : PrioritizedProviderInner} (hp : p.index < n) :
    Ordered n (priorities.filter (fun q => q.index ≠ p.index) ++ [p]) := by
  have hfilter : (priorities.filter fun q => q.index ≠ p.index).map (·.index) =
      (priorities.map (·.index)).erase p.index := by
    rw [h.nodup.erase_eq_filter, List.filter_map]
    congr 1
    apply List.filter_congr
    intro q _
    simp [bne, BEq.beq]
  unfold Ordered
  rw [List.map_append, hfilter, List.map_singleton]
  have hmem : p.index ∈ priorities.map (·.index) := h.mem_iff.2 hp
  exact (List.perm_append_singleton _ _).trans ((List.perm_cons_erase hmem).symm.trans h)

theorem Sound.setPriorities {s : Store Request E V} (h : Sound n s) {priorities : List PrioritizedProviderInner}
    (hordered : Ordered n priorities) : Sound n { s with priorities := priorities } := ⟨hordered, h.outcomes⟩

end Order

/-! ## One provider -/

section Provider

variable {n : ℕ} (F : FallbackProvider)

theorem gives_deprioritize {priority : PrioritizedProviderInner} (h : priority.index < n) :
    Gives n (deprioritizeProvider priority : Program Request E V Unit) fun _ => True :=
  gives_write fun _ hs => hs.setPriorities (hs.ordered.moved h)

theorem gives_snapshot : Gives n (takePrioritiesSnapshot : Program Request E V _) (Ordered n) :=
  gives_read fun _ hs => hs.ordered

theorem gives_now : Gives n (instantNow : Program Request E V ℕ) fun _ => True :=
  gives_read fun _ _ => trivial

theorem gives_priority {index : ℕ} (h : index < n) :
    Gives n (priorityForProvider index : Program Request E V _) fun r => ∃ p, r = some p ∧ p.index = index := by
  refine gives_read fun s hs => ?_
  obtain ⟨p, hp, hindex⟩ := List.mem_map.1 (hs.ordered.mem_iff.2 h)
  cases hfind : s.priorities.find? fun priority => priority.index = index with
  | none =>
    have := List.find?_eq_none.1 hfind p hp
    simp [hindex] at this
  | some q =>
    refine ⟨q, rfl, ?_⟩
    simpa using List.find?_some hfind

/-- what the health check of a provider says -/
def Checked (r : ChainResult E Unit) : Prop := r = .ok () ∨ r = .error timedOut

theorem gives_probe {index : ℕ} (h : index < n) :
    Gives n (probe F index : Program Request E V _) Checked := by
  refine (gives_priority h).bind ?_
  rintro _ ⟨p, rfl, hp⟩
  refine gives_now.bind fun now _ => ?_
  dsimp only
  split_ifs
  · exact gives_pure (Or.inl rfl)
  refine (gives_read (Φ := fun _ => True) fun _ _ => trivial).bind fun reply _ => ?_
  rcases reply with result | _
  · dsimp only
    split_ifs
    · refine gives_now.bind fun now _ => ?_
      have hlt : (fromBlockHeight p.index p.lastBlockHeight.1 now).index < n := lt_of_eq_of_lt hp h
      exact (gives_deprioritize hlt).bind fun _ _ => gives_pure (Or.inl rfl)
    · refine Gives.bind (Φ := fun _ => True) (gives_write fun s hs => ?_) fun _ _ => gives_pure (Or.inl rfl)
      exact hs.setPriorities (hs.ordered.modifyFirst fun _ _ => rfl)
  · exact gives_pure (Or.inr rfl)

theorem gives_handleStalled {priority : PrioritizedProviderInner} (h : priority.index < n) :
    Gives n (handleStalledProvider F priority : Program Request E V _) fun r => ∀ a ∈ r, Checked a := by
  have hfine : ∀ a ∈ some (Except.ok () : ChainResult E Unit), Checked a := by
    intro a ha
    exact Or.inl (Option.some.inj ha).symm
  unfold handleStalledProvider
  split_ifs
  · exact gives_pure hfine
  refine gives_now.bind fun now _ => ?_
  split_ifs
  · exact gives_pure hfine
  have hlock : Gives n (tryLockProbe priority.index : Program Request E V Bool) fun _ => True := by
    have htaken : ∀ s : Store Request E V, Sound n s →
        Sound n (if priority.index ∈ s.probing then s else { s with probing := priority.index :: s.probing }) := by
      intro s hs
      split_ifs
      · exact hs
      · exact ⟨hs.ordered, hs.outcomes⟩
    intro s hs s' hs'
    exact ⟨hs' hs, htaken s', htaken s' (hs' hs), trivial⟩
  refine hlock.bind fun free _ => ?_
  cases free with
  | false => exact gives_pure hfine
  | true =>
    refine (gives_probe F h).timeout.bind fun r hr => ?_
    refine Gives.bind (Φ := fun _ => True) (gives_write fun s hs => ⟨hs.ordered, hs.outcomes⟩) fun _ _ => ?_
    exact gives_pure hr

theorem gives_handleFailed {priority : PrioritizedProviderInner} (h : priority.index < n) :
    Gives n (handleFailedProvider priority : Program Request E V Unit) fun _ => True := by
  refine Gives.bind (Φ := fun _ => True) (gives_write fun s hs => ?_) fun _ _ => ?_
  · exact hs.setPriorities (hs.ordered.modifyFirst fun _ hp => hp)
  split_ifs
  · exact gives_deprioritize h
  · exact gives_pure trivial

/-- **A call to a provider** fails with an error of the provider or a timeout. -/
theorem gives_callProvider (f : Store Request E V → ℕ → Reply E W) {priority : PrioritizedProviderInner}
    (h : priority.index < n) :
    Gives n (callProvider F f priority) fun r => ∀ e, r = .error e → Plain e := by
  have hunder : Gives n (underTimeout F f priority) fun r => ∀ e, r = .error e → Plain e := by
    refine (gives_read (Φ := fun _ => True) fun _ _ => trivial).bind fun reply _ => ?_
    rcases reply with (e | v) | _
    · refine gives_pure fun e' he' => Or.inr ⟨e, ?_⟩
      exact (Except.error.inj he').symm
    · refine (gives_handleStalled F h).bind fun r hr => ?_
      rcases r with _ | (e | u)
      · exact gives_pure fun e' he' => Or.inl (Except.error.inj he').symm
      · refine gives_pure fun e' he' => Or.inl ?_
        rcases hr _ rfl with hok | herror
        · cases hok
        · exact (Except.error.inj he').symm.trans (Except.error.inj herror)
      · exact gives_pure fun e' he' => nomatch he'
    · exact gives_pure fun e' he' => Or.inl (Except.error.inj he').symm
  refine hunder.bind fun r hr => ?_
  cases r with
  | ok v => exact gives_pure hr
  | error e => exact (gives_handleFailed h).bind fun _ _ => gives_pure hr

end Provider

/-! ## Turns -/

section Turns

variable {n : ℕ} {shouldRetry : ChainCommunicationError E → Bool} {errors : List (ℕ × ChainCommunicationError E)} {i j : ℕ}
  {e : ChainCommunicationError E}

theorem failures_append : failures (errors ++ [(i, e)]) j = failures errors j + if i = j then 1 else 0 := by
  simp [failures, List.count_singleton]

theorem dismissed_append :
    Dismissed shouldRetry (errors ++ [(i, e)]) j ↔ Dismissed shouldRetry errors j ∨ (i = j ∧ shouldRetry e = false) := by
  constructor
  · rintro ⟨e', hmem, he'⟩
    rcases List.mem_append.1 hmem with hmem | hmem
    · exact Or.inl ⟨e', hmem, he'⟩
    · simp only [List.mem_singleton, Prod.mk.injEq] at hmem
      obtain ⟨rfl, rfl⟩ := hmem
      exact Or.inr ⟨rfl, he'⟩
  · rintro (⟨e', hmem, he'⟩ | ⟨rfl, he'⟩)
    · exact ⟨e', List.mem_append_left _ hmem, he'⟩
    · exact ⟨e, by simp, he'⟩

theorem Dismissed.failures_pos (h : Dismissed shouldRetry errors i) : 0 < failures errors i := by
  obtain ⟨e, hmem, -⟩ := h
  exact List.count_pos_iff.2 (List.mem_map.2 ⟨_, hmem, rfl⟩)

theorem mem_of_failures_pos (h : 0 < failures errors i) : ∃ e, (i, e) ∈ errors := by
  obtain ⟨⟨i', e⟩, hmem, rfl⟩ := List.mem_map.1 (List.count_pos_iff.1 h)
  exact ⟨e, hmem⟩

theorem InTurn.nil : InTurn n shouldRetry [] := by
  intro before i e after h
  simp at h

/-- one more error of the provider whose turn it was -/
theorem InTurn.append (h : InTurn n shouldRetry errors) (hturn : Turn n shouldRetry errors i) :
    InTurn n shouldRetry (errors ++ [(i, e)]) := by
  intro before i' e' after heq
  rcases List.append_eq_append_iff.1 heq with ⟨more, hbefore, hmore⟩ | ⟨more, herrors, hmore⟩
  · rcases more with _ | ⟨x, more⟩
    · simp only [List.nil_append, List.cons.injEq, Prod.mk.injEq] at hmore
      obtain ⟨⟨rfl, -⟩, -⟩ := hmore
      rw [hbefore, List.append_nil]
      exact hturn
    · simp at hmore
  · rcases more with _ | ⟨x, more⟩
    · simp only [List.nil_append, List.cons.injEq, Prod.mk.injEq] at hmore
      obtain ⟨⟨rfl, -⟩, -⟩ := hmore
      rw [List.append_nil] at herrors
      rw [← herrors]
      exact hturn
    · simp only [List.cons_append, List.cons.injEq] at hmore
      exact h before i' e' more (by rw [herrors, hmore.1])

end Turns

/-! ## Calls that retry -/

section Retry

variable {n : ℕ} {shouldRetry : ChainCommunicationError E → Bool} {errors : List (ℕ × ChainCommunicationError E)}
  {retryable : ℕ → Bool} {rest : List PrioritizedProviderInner} {k : ℕ}

/-- round `k + 1` has come as far as to `rest` -/
structure Round (n : ℕ) (shouldRetry : ChainCommunicationError E → Bool) (k : ℕ)
    (errors : List (ℕ × ChainCommunicationError E)) (retryable : ℕ → Bool) (rest : List PrioritizedProviderInner) :
    Prop where
  plain : ∀ x ∈ errors, Plain x.2
  inTurn : InTurn n shouldRetry errors
  few : errors.length + rest.length ≤ n + 3
  retryable : ∀ i, retryable i = true ↔ ¬ Dismissed shouldRetry errors i
  lt : ∀ i ∈ rest.map (·.index), i < n
  nodup : (rest.map (·.index)).Nodup
  count : ∀ i < n, ¬ Dismissed shouldRetry errors i →
    failures errors i = if i ∈ rest.map (·.index) then k else k + 1

/-- the provider at the head may be asked, if nobody dismissed it -/
theorem Round.turn {priority : PrioritizedProviderInner}
    (h : Round n shouldRetry k errors retryable (priority :: rest)) (hretry : retryable priority.index = true) :
    Turn n shouldRetry errors priority.index where
  lt := h.lt _ (by simp)
  kept := (h.retryable _).1 hretry
  fair j hj := by
    by_cases hdismissed : Dismissed shouldRetry errors j
    · exact Or.inl hdismissed
    · refine Or.inr ?_
      rw [h.count j hj hdismissed, h.count _ (h.lt _ (by simp)) ((h.retryable _).1 hretry), if_pos (by simp)]
      split_ifs
      · exact le_rfl
      · exact Nat.le_succ k

/-- a dismissed provider is passed over -/
theorem Round.skip {priority : PrioritizedProviderInner}
    (h : Round n shouldRetry k errors retryable (priority :: rest)) (hretry : retryable priority.index ≠ true) :
    Round n shouldRetry k errors retryable rest where
  plain := h.plain
  inTurn := h.inTurn
  few := by
    have := h.few
    simp only [List.length_cons] at this
    omega
  retryable := h.retryable
  lt i hi := h.lt i (List.mem_cons_of_mem _ hi)
  nodup := (List.nodup_cons.1 h.nodup).2
  count i hi hkept := by
    have hne : i ≠ priority.index := by
      rintro rfl
      exact hretry ((h.retryable _).2 hkept)
    rw [h.count i hi hkept]
    simp [hne]

theorem Round.fail {priority : PrioritizedProviderInner} {e : ChainCommunicationError E}
    (h : Round n shouldRetry k errors retryable (priority :: rest)) (hretry : retryable priority.index = true)
    (he : Plain e) :
    Round n shouldRetry k (errors ++ [(priority.index, e)])
      (Function.update retryable priority.index (shouldRetry e)) rest where
  plain x hx := by
    rcases List.mem_append.1 hx with hx | hx
    · exact h.plain x hx
    · rw [List.mem_singleton.1 hx]
      exact he
  inTurn := h.inTurn.append (h.turn hretry)
  few := by
    have := h.few
    simp only [List.length_cons, List.length_append] at this ⊢
    simp only [List.length_nil]
    omega
  retryable i := by
    rw [dismissed_append, not_or, ← h.retryable]
    by_cases hi : i = priority.index
    · subst hi
      simp [hretry]
    · simp [Function.update_of_ne hi, Ne.symm hi]
  lt i hi := h.lt i (List.mem_cons_of_mem _ hi)
  nodup := (List.nodup_cons.1 h.nodup).2
  count i hi hkept := by
    rw [dismissed_append, not_or] at hkept
    rw [failures_append, h.count i hi hkept.1]
    have hnew : priority.index ∉ rest.map (·.index) := (List.nodup_cons.1 h.nodup).1
    by_cases hpi : priority.index = i
    · subst hpi
      simp [hnew]
    · simp [Ne.symm hpi, hpi]

/-- what a round comes to -/
structure Rounded (n : ℕ) (shouldRetry : ChainCommunicationError E → Bool) (k : ℕ)
    (errors : List (ℕ × ChainCommunicationError E)) (asks : Bool) (r : Retried E V × (ℕ → Bool)) : Prop where
  found : ∀ x, r.1.value = some x → r.1.Meets n shouldRetry
  failed : r.1.value = none → Round n shouldRetry k r.1.errors r.2 []
  grows : r.1.value = none → errors.length + asks.toNat ≤ r.1.errors.length

variable (F : FallbackProvider) (f : Store Request E V → ℕ → Reply E V)

/-- **A round asks everybody** who may be asked, until somebody answers. -/
theorem gives_retryRound (h : Round n shouldRetry k errors retryable rest) :
    Gives n (retryRound F f shouldRetry rest errors retryable)
      (Rounded n shouldRetry k errors (rest.any fun p => retryable p.index)) := by
  induction rest generalizing errors retryable with
  | nil => exact gives_pure ⟨fun _ hx => (nomatch hx), fun _ => h, fun _ => le_rfl⟩
  | cons priority rest ih =>
    unfold retryRound
    split_ifs with hretry
    · have hlt : priority.index < n := h.lt _ (by simp)
      refine (gives_callProvider F f hlt).bind fun r hr => ?_
      cases r with
      | ok v =>
        refine gives_pure ⟨fun _ _ => ?_, fun hnone => (nomatch hnone), fun hnone => (nomatch hnone)⟩
        have hfew := h.few
        exact
          { plain := h.plain
            inTurn := h.inTurn
            few := le_trans (Nat.le_add_right _ _) hfew
            value := by
              rintro i v' hvalue
              obtain ⟨rfl, rfl⟩ := Prod.mk.inj (Option.some.inj hvalue)
              exact h.turn hretry
            failed := fun hnone => nomatch hnone }
      | error e =>
        refine (ih (h.fail hretry (hr e rfl))).mono fun r hr => ⟨hr.found, hr.failed, fun hnone => ?_⟩
        have hgrows := hr.grows hnone
        have hle : (Bool.toNat ((priority :: rest).any fun p => retryable p.index)) ≤ 1 := Bool.toNat_le _
        simp only [List.length_append, List.length_singleton] at hgrows
        omega
    · refine (ih (h.skip hretry)).mono fun r hr => ⟨hr.found, hr.failed, fun hnone => ?_⟩
      have hgrows := hr.grows hnone
      rw [List.any_cons, Bool.eq_false_iff.2 hretry, Bool.false_or]
      exact hgrows

/-- `k` rounds are over -/
structure Between (n : ℕ) (shouldRetry : ChainCommunicationError E → Bool) (k : ℕ)
    (errors : List (ℕ × ChainCommunicationError E)) (retryable : ℕ → Bool) : Prop where
  plain : ∀ x ∈ errors, Plain x.2
  inTurn : InTurn n shouldRetry errors
  few : errors.length ≤ n + 3
  retryable : ∀ i, retryable i = true ↔ ¬ Dismissed shouldRetry errors i
  count : ∀ i < n, ¬ Dismissed shouldRetry errors i → failures errors i = k
  first : k = 0 → errors = []

theorem Between.start : Between (E := E) n shouldRetry 0 [] fun _ => true where
  plain _ hx := nomatch hx
  inTurn := .nil
  few := Nat.zero_le _
  retryable i := by simp [Dismissed]
  count _ _ _ := rfl
  first _ := rfl

theorem Between.round (h : Between n shouldRetry k errors retryable) (hfew : errors.length ≤ 3)
    {snapshot : List PrioritizedProviderInner} (hsnapshot : Ordered n snapshot) :
    Round n shouldRetry k errors retryable snapshot where
  plain := h.plain
  inTurn := h.inTurn
  few := by
    rw [hsnapshot.length]
    omega
  retryable := h.retryable
  lt i hi := hsnapshot.mem_iff.1 hi
  nodup := hsnapshot.nodup
  count i hi hkept := by
    rw [if_pos (hsnapshot.mem_iff.2 hi)]
    exact h.count i hi hkept

theorem Round.between (h : Round n shouldRetry k errors retryable []) :
    Between n shouldRetry (k + 1) errors retryable where
  plain := h.plain
  inTurn := h.inTurn
  few := h.few
  retryable := h.retryable
  count i hi hkept := by simpa using h.count i hi hkept
  first hk := nomatch hk

/-- when no further round starts, everybody failed -/
theorem Between.finished (h : Between n shouldRetry k errors retryable)
    (hend : ¬ (errors.length ≤ 3 ∧ (List.range n).any retryable = true)) :
    Retried.Meets n shouldRetry (⟨errors, none⟩ : Retried E V) where
  plain := h.plain
  inTurn := h.inTurn
  few := h.few
  value _ _ hvalue := nomatch hvalue
  failed _ := by
    have hdismissed : errors.length ≤ 3 → ∀ i < n, Dismissed shouldRetry errors i := by
      intro hfew i hi
      by_contra hkept
      refine hend ⟨hfew, List.any_eq_true.2 ⟨i, List.mem_range.2 hi, ?_⟩⟩
      exact (h.retryable i).2 hkept
    refine ⟨fun i hi => mem_of_failures_pos ?_, ?_⟩
    · by_cases hkept : Dismissed shouldRetry errors i
      · exact hkept.failures_pos
      · rw [h.count i hi hkept, Nat.pos_iff_ne_zero]
        rintro hk
        refine hkept (hdismissed ?_ i hi)
        simp [h.first hk]
    · rcases Nat.lt_or_ge 3 errors.length with hmany | hfew
      · exact Or.inl hmany
      · exact Or.inr (hdismissed hfew)

/-- **Four rounds are enough.** -/
theorem gives_retryRounds (hn : F.len = n) {fuel : ℕ} (h : Between n shouldRetry k errors retryable)
    (hfuel : 4 ≤ fuel + errors.length) :
    Gives n (retryRounds F f shouldRetry fuel errors retryable) fun r => ∃ r', r = some r' ∧ r'.Meets n shouldRetry := by
  induction fuel generalizing errors retryable k with
  | zero =>
    have hend : ¬ (errors.length ≤ 3 ∧ (List.range n).any retryable = true) := by omega
    unfold retryRounds
    rw [hn, if_neg hend]
    exact gives_pure ⟨_, rfl, h.finished hend⟩
  | succ fuel ih =>
    unfold retryRounds
    rw [hn]
    split_ifs with hgo
    · obtain ⟨hfew, hany⟩ := hgo
      refine gives_snapshot.bind fun snapshot hsnapshot => ?_
      refine (gives_retryRound F f (h.round hfew hsnapshot)).bind ?_
      rintro ⟨r, retryable'⟩ hr
      dsimp only
      -- a provider that may be asked is in the snapshot, as no provider was lost
      have hasks : (snapshot.any fun p => retryable p.index) = true := by
        obtain ⟨i, hi, hretry⟩ := List.any_eq_true.1 hany
        obtain ⟨p, hp, rfl⟩ := List.mem_map.1 (hsnapshot.mem_iff.2 (List.mem_range.1 hi))
        exact List.any_eq_true.2 ⟨p, hp, hretry⟩
      cases hvalue : r.value with
      | some x =>
        rw [Option.isSome_some, if_pos rfl]
        exact gives_pure ⟨r, rfl, hr.found x hvalue⟩
      | none =>
        rw [Option.isSome_none, if_neg Bool.false_ne_true]
        have hgrows := hr.grows hvalue
        rw [hasks] at hgrows
        refine ih (hr.failed hvalue).between ?_
        simp only [Bool.toNat_true] at hgrows
        omega
    · exact gives_pure ⟨_, rfl, h.finished hgo⟩

theorem gives_callWithRetryPredicate (hn : F.len = n) :
    Gives n (callWithRetryPredicate F f shouldRetry) fun r => ∃ r', r = some r' ∧ r'.Meets n shouldRetry :=
  gives_retryRounds F f hn .start le_rfl

end Retry

/-! ## Calls that ask once -/

section Once

variable {n : ℕ} {responses : List (ℕ × ChainResult E W)} {rest : List PrioritizedProviderInner}
  {priority : PrioritizedProviderInner} {response : ChainResult E W}

/-- the providers that responded, and those still to ask -/
structure Asking (n : ℕ) (responses : List (ℕ × ChainResult E W)) (rest : List PrioritizedProviderInner) : Prop where
  ordered : (responses.map Prod.fst ++ rest.map (·.index)).Perm (List.range n)
  plain : ∀ i e, (i, .error e) ∈ responses → Plain e

theorem Asking.start {snapshot : List PrioritizedProviderInner} (h : Ordered n snapshot) :
    Asking (E := E) (W := W) n [] snapshot := ⟨h, fun _ _ hmem => nomatch hmem⟩

theorem Asking.once (h : Asking n responses rest) : Once n responses where
  nodup := (List.nodup_append.1 (h.ordered.nodup_iff.2 List.nodup_range)).1
  lt x hx := by
    refine List.mem_range.1 (h.ordered.mem_iff.1 ?_)
    exact List.mem_append_left _ (List.mem_map_of_mem hx)
  plain := h.plain

theorem Asking.lt (h : Asking n responses (priority :: rest)) : priority.index < n := by
  refine List.mem_range.1 (h.ordered.mem_iff.1 ?_)
  simp

theorem Asking.ask (h : Asking n responses (priority :: rest)) (hresponse : ∀ e, response = .error e → Plain e) :
    Asking n (responses ++ [(priority.index, response)]) rest where
  ordered := by
    have := h.ordered
    simpa using this
  plain i e hmem := by
    rcases List.mem_append.1 hmem with hmem | hmem
    · exact h.plain i e hmem
    · simp only [List.mem_singleton, Prod.mk.injEq] at hmem
      exact hresponse e hmem.2.symm

theorem Asking.all (h : Asking n responses []) : AllOf n responses := by
  intro i hi
  have hmem := h.ordered.mem_iff.2 (List.mem_range.2 hi)
  simp only [List.map_nil, List.append_nil, List.mem_map] at hmem
  obtain ⟨⟨i', r⟩, hmem, rfl⟩ := hmem
  exact ⟨r, hmem⟩

variable (F : FallbackProvider)

theorem gives_untilLoop (f : Store Request E V → ℕ → Reply E V) {isComplete : List (ChainResult E V) → Bool}
    {responses : List (ℕ × ChainResult E V)} (h : Asking n responses rest)
    (hopen : ∀ before, before <+: responses → before ≠ [] → isComplete (before.map Prod.snd) = false) :
    Gives n (untilLoop F f isComplete rest responses) fun r => (Outcome.gathered isComplete r).Meets n := by
  induction rest generalizing responses with
  | nil => exact gives_pure ⟨h.once, fun before hbefore _ => hopen before hbefore, Or.inl h.all⟩
  | cons priority rest ih =>
    refine (gives_callProvider F f h.lt).bind fun response hresponse => ?_
    have hasked := h.ask hresponse
    have hproper : ∀ before, before <+: responses ++ [(priority.index, response)] →
        before ≠ responses ++ [(priority.index, response)] → before ≠ [] → isComplete (before.map Prod.snd) = false := by
      intro before hbefore hne hnil
      rcases List.prefix_concat_iff.1 hbefore with heq | hbefore
      · exact absurd heq hne
      · exact hopen before hbefore hnil
    dsimp only
    split_ifs with hcomplete
    · exact gives_pure ⟨hasked.once, hproper, Or.inr hcomplete⟩
    · refine ih hasked fun before hbefore hnil => ?_
      by_cases heq : before = responses ++ [(priority.index, response)]
      · rw [heq]
        exact Bool.eq_false_iff.2 hcomplete
      · exact hproper before hbefore heq hnil

theorem gives_callUntil (f : Store Request E V → ℕ → Reply E V) (isComplete : List (ChainResult E V) → Bool) :
    Gives n (callUntil F f isComplete) fun r => (Outcome.gathered isComplete r).Meets n := by
  refine gives_snapshot.bind fun snapshot hsnapshot => ?_
  refine gives_untilLoop F f (.start hsnapshot) ?_
  intro before hbefore hnil
  exact absurd (List.prefix_nil.1 hbefore) hnil

theorem mem_errorsOf {e : ChainCommunicationError E} : e ∈ errorsOf responses ↔ ∃ i, (i, .error e) ∈ responses := by
  unfold errorsOf
  rw [List.mem_filterMap]
  constructor
  · rintro ⟨⟨i, r⟩, hmem, hr⟩
    cases r with
    | ok v => cases hr
    | error e' =>
      obtain rfl := Option.some.inj hr
      exact ⟨i, hmem⟩
  · rintro ⟨i, hmem⟩
    exact ⟨_, hmem, rfl⟩

theorem gives_optionalLoop (f : Store Request E V → ℕ → Reply E (Option V)) (hn : n ≠ 0)
    {responses : List (ℕ × ChainResult E (Option V))} (h : Asking n responses rest)
    (habsent : ∀ i v, (i, .ok (some v)) ∉ responses) :
    Gives n (optionalLoop F f rest responses) fun r => (Outcome.optional r.1 r.2).Meets n := by
  induction rest generalizing responses with
  | nil =>
    unfold optionalLoop
    split_ifs with hempty
    · refine gives_pure ⟨h.once, hn, fun i hi => ?_⟩
      obtain ⟨r, hmem⟩ := h.all i hi
      rcases r with e | v | v
      · have := mem_errorsOf.2 ⟨i, hmem⟩
        rw [List.isEmpty_iff.1 hempty] at this
        cases this
      · exact hmem
      · exact absurd hmem (habsent i v)
    · refine gives_pure ⟨h.once, rfl, h.all, habsent, fun _ => ?_⟩
      intro hnil
      exact hempty (List.isEmpty_iff.2 hnil)
  | cons priority rest ih =>
    refine (gives_callProvider F f h.lt).bind fun response hresponse => ?_
    have hasked := h.ask hresponse
    have hnext : (∀ v, response ≠ .ok (some v)) →
        ∀ i v, (i, .ok (some v)) ∉ responses ++ [(priority.index, response)] := by
      intro hne i v hmem
      rcases List.mem_append.1 hmem with hmem | hmem
      · exact habsent i v hmem
      · simp only [List.mem_singleton, Prod.mk.injEq] at hmem
        exact hne v hmem.2.symm
    rcases response with e | v | v
    · exact ih hasked (hnext fun v hv => nomatch hv)
    · exact ih hasked (hnext fun v hv => nomatch hv)
    · exact gives_pure ⟨hasked.once, priority.index, List.getLast?_concat⟩

theorem gives_callOptional (f : Store Request E V → ℕ → Reply E (Option V)) :
    Gives n (callOptional F f) fun r => (Outcome.optional r.1 r.2).Meets n := by
  refine gives_snapshot.bind fun snapshot hsnapshot => ?_
  split_ifs with hempty
  · have hn : n = 0 := by
      have := hsnapshot.length
      rw [List.isEmpty_iff.1 hempty] at this
      exact this.symm
    subst hn
    refine gives_pure ⟨⟨List.nodup_nil, fun _ hx => (nomatch hx), fun _ _ hmem => (nomatch hmem)⟩, rfl, ?_⟩
    exact ⟨fun i hi => absurd hi (Nat.not_lt_zero i), fun _ _ hmem => (nomatch hmem), fun hn => absurd rfl hn⟩
  · have hn : n ≠ 0 := by
      rintro rfl
      exact hempty (List.isEmpty_iff.2 (List.length_eq_zero_iff.1 hsnapshot.length))
    exact gives_optionalLoop F f hn (.start hsnapshot) fun _ _ hmem => nomatch hmem

end Once

/-! ## Runs -/

section Runs

variable (F : FallbackProvider)

theorem gives_putDown {n : ℕ} {o : Outcome E V} (h : o.Meets n) :
    Gives n (putDown o : Program Request E V Unit) fun _ => True := by
  refine gives_write fun s hs => ⟨hs.ordered, fun o' ho' => ?_⟩
  rcases List.mem_append.1 ho' with ho' | ho'
  · exact hs.outcomes o' ho'
  · rw [List.mem_singleton.1 ho']
    exact h

theorem gives_program (op : Op Request E V) : Gives F.len (op.program F) fun _ => True := by
  cases op with
  | call request => exact (gives_callWithRetryPredicate F _ rfl).bind fun _ hr => gives_putDown hr
  | callWithRetryPredicate request shouldRetry =>
    exact (gives_callWithRetryPredicate F _ rfl).bind fun _ hr => gives_putDown hr
  | callUntil request isComplete => exact (gives_callUntil F _ isComplete).bind fun _ hr => gives_putDown hr
  | callOptional request => exact (gives_callOptional F _).bind fun _ hr => gives_putDown hr

def agreement : Agreement (machine F : Machine (Op Request E V) _ _) where
  Takes _ := True
  P := Sound F.len
  R := Moves F.len
  R_refl _ hs := hs
  R_trans h₁ h₂ hs := h₂ (h₁ hs)
  P_R hs hmoves := hmoves hs
  interfere_R _ _ _ _ hs := ⟨hs.ordered, hs.outcomes⟩
  keeps op s _ hs := (gives_program F op s hs).mono fun _ _ _ => trivial

theorem build_sound (w : World Request E V) : Sound F.len (build F w).store where
  ordered := by
    unfold Ordered
    simp only [build, List.map_map]
    have hid : ((fun p : PrioritizedProviderInner => p.index) ∘ fun i => PrioritizedProviderInner.new i 0 w.now) = id := rfl
    rw [hid, List.map_id]
  outcomes _ ho := nomatch ho

/-- **However calls interleave and whatever providers do**, no provider is lost from the order or twice in it, and every
call that ends has met what it promises. -/
theorem calls_answered (w : World Request E V) (es : List (Event (Op Request E V) (World Request E V))) :
    let s := ((machine F).run (build F w) es).store
    (s.priorities.map (·.index)).Perm (List.range F.len) ∧ ∀ o ∈ s.outcomes, o.Meets F.len := by
  intro s
  have hinv : (agreement F).Inv ((machine F).run (build F w) es) :=
    Agreement.run_inv (Agreement.Inv.initial (build_sound F w)) fun _ _ => trivial
  exact ⟨hinv.1.ordered, hinv.1.outcomes⟩

end Runs

end Hyperlane.Rpc
