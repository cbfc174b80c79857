/-
The lookup of finalized events returns the right row, in every run of a client (modules `FinalizedEvents`,
`FinalizedEventLookup`).

Calls run beside each other and beside an endpoint that answers as it likes; a restart drops the calls and the scans. Each
access keeps the invariant: the rows and what was returned were authenticated by a call for their contract, topic and
sequence, and if the pages that were read so far are those of the list, every scan stands behind a front part of it and
every event that was examined is the one of its sequence.

- `client_lawful`: a call keeps the invariant.
- `finalized_event_lookup`: what holds in every run.
-/
import Hyperlane.Dusk.FinalizedEventLookup

namespace Hyperlane.Dusk.Events

open Interleaving Contract Bytes Text

variable (crates : Crates)

/-! ## The invariant -/

/-- the call has examined the event, which matches what it expects, and was told that the block is finalized -/
structure Authenticated (s : Store) (call : ℕ) (op : Call) (event : FinalizedContractEvent) : Prop where
  called : s.calls[call]? = some op
  examined : (call, event) ∈ s.examined
  reverted : event.reverted = false
  topic : event.topic = op.topic
  height : event.blockHeight = op.expectedBlockHeight
  data : hexDecode (stripHexPrefix event.data.toList) = some op.expectedData
  checked : ⟨call, event.blockHeight, event.blockHash, true⟩ ∈ s.checks
  id : event.id = op.sequence.toNat

/-- the pages that were read are those of the list -/
def AllFaithful (s : Store) : Prop := ∀ r ∈ s.reads, r.Faithful crates

/-- what a call may return -/
def Outcome (s : Store) (call : ℕ) (op : Call) : Except EventError FinalizedEventProvenance → Prop
  | .ok p => ∃ event, Authenticated s call op event ∧ provenance event = .ok p
  | .error .notArchived => ∃ r ∈ s.reads, r.call = call ∧ r.contractId = op.contractId ∧
      (AllFaithful crates s → (ofTopic op.topic r.list).length ≤ op.sequence.toNat)
  | .error _ => True

structure Inv (s : Store) : Prop where
  sorted : ∀ c, Sorted (s.archive c)
  reads : ∀ r ∈ s.reads, r.list <+: s.archive r.contractId
  rows : ∀ key event, s.rows key = some event → ∃ call op, Authenticated s call op event ∧
    finalizedEventRowKey crates op.contractId op.topic op.sequence = .ok key
  returned : ∀ o ∈ s.returned, ∃ op, s.calls[o.call]? = some op ∧ Outcome crates s o.call op o.result
  scans : AllFaithful crates s → ∀ c t scan, s.scans c t = some scan → ScanAt (s.archive c) t scan
  examined : AllFaithful crates s → ∀ x ∈ s.examined, ∃ op, s.calls[x.1]? = some op ∧
    IsNth (s.archive op.contractId) op.topic op.sequence x.2

/-- what only grows -/
structure Grows (a b : Store) : Prop where
  calls : a.calls <+: b.calls
  examined : ∀ x ∈ a.examined, x ∈ b.examined
  checks : ∀ x ∈ a.checks, x ∈ b.checks
  reads : ∀ r ∈ a.reads, r ∈ b.reads
  archive : ∀ c, a.archive c <+: b.archive c

variable {crates} {a b s : Store} {call : ℕ} {op : Call} {event : FinalizedContractEvent} {α : Type}

theorem Grows.refl (s : Store) : Grows s s :=
  ⟨List.prefix_rfl, fun _ h => h, fun _ h => h, fun _ h => h, fun _ => List.prefix_rfl⟩

theorem Grows.trans {c : Store} (h : Grows a b) (h' : Grows b c) : Grows a c where
  calls := h.calls.trans h'.calls
  examined x hx := h'.examined x (h.examined x hx)
  checks x hx := h'.checks x (h.checks x hx)
  reads r hr := h'.reads r (h.reads r hr)
  archive c := (h.archive c).trans (h'.archive c)

theorem Grows.called (h : Grows a b) (hcall : a.calls[call]? = some op) : b.calls[call]? = some op := by
  obtain ⟨rest, hrest⟩ := h.calls
  rw [← hrest, List.getElem?_append_left (List.getElem?_eq_some_iff.1 hcall).1]
  exact hcall

theorem Authenticated.grow (h : Authenticated a call op event) (hg : Grows a b) : Authenticated b call op event where
  called := hg.called h.called
  examined := hg.examined _ h.examined
  reverted := h.reverted
  topic := h.topic
  height := h.height
  data := h.data
  checked := hg.checks _ h.checked
  id := h.id

theorem AllFaithful.before (h : AllFaithful crates b) (hg : Grows a b) : AllFaithful crates a :=
  fun r hr => h r (hg.reads r hr)

theorem Outcome.grow {r : Except EventError FinalizedEventProvenance} (h : Outcome crates a call op r)
    (hg : Grows a b) : Outcome crates b call op r := by
  cases r with
  | ok p =>
    obtain ⟨event, hauth, hp⟩ := h
    exact ⟨event, hauth.grow hg, hp⟩
  | error e =>
    cases e with
    | notArchived =>
      obtain ⟨r, hr, hcall, hcontract, hfew⟩ := h
      exact ⟨r, hg.reads r hr, hcall, hcontract, fun hb => hfew (hb.before hg)⟩
    | check e => trivial
    | endpoint => trivial
    | store => trivial
    | failedCheckBlock => trivial

/-- the invariant after an access that adds to what was there -/
theorem Inv.grow (h : Inv crates a) (hg : Grows a b) (hsorted : ∀ c, Sorted (b.archive c))
    (hreads : ∀ r ∈ b.reads, r ∈ a.reads ∨ r.list <+: b.archive r.contractId)
    (hrows : ∀ key event, b.rows key = some event → a.rows key = some event ∨ ∃ call op,
      Authenticated b call op event ∧ finalizedEventRowKey crates op.contractId op.topic op.sequence = .ok key)
    (hreturned : ∀ o ∈ b.returned, o ∈ a.returned ∨ ∃ op, b.calls[o.call]? = some op ∧
      Outcome crates b o.call op o.result)
    (hscans : AllFaithful crates b → ∀ c t scan, b.scans c t = some scan → a.scans c t = some scan ∨
      ScanAt (b.archive c) t scan)
    (hexamined : AllFaithful crates b → ∀ x ∈ b.examined, x ∈ a.examined ∨ ∃ op, b.calls[x.1]? = some op ∧
      IsNth (b.archive op.contractId) op.topic op.sequence x.2) : Inv crates b where
  sorted := hsorted
  reads r hr := (hreads r hr).elim (fun hold => (h.reads r hold).trans (hg.archive _)) id
  rows key event hrow := by
    rcases hrows key event hrow with hold | hnew
    · obtain ⟨call, op, hauth, hkey⟩ := h.rows key event hold
      exact ⟨call, op, hauth.grow hg, hkey⟩
    · exact hnew
  returned o ho := by
    rcases hreturned o ho with hold | hnew
    · obtain ⟨op, hcall, houtcome⟩ := h.returned o hold
      exact ⟨op, hg.called hcall, houtcome.grow hg⟩
    · exact hnew
  scans hb c t scan hscan := by
    rcases hscans hb c t scan hscan with hold | hnew
    · exact (h.scans (hb.before hg) c t scan hold).grow (hg.archive c)
    · exact hnew
  examined hb x hx := by
    rcases hexamined hb x hx with hold | hnew
    · obtain ⟨op, hcall, hnth⟩ := h.examined (hb.before hg) x hold
      exact ⟨op, hg.called hcall, hnth.grow (hg.archive _)⟩
    · exact hnew

/-- nothing is recorded -/
structure SameRecords (a b : Store) : Prop where
  archive : b.archive = a.archive
  calls : b.calls = a.calls
  examined : b.examined = a.examined
  checks : b.checks = a.checks
  reads : b.reads = a.reads
  returned : b.returned = a.returned

theorem SameRecords.grows (h : SameRecords a b) : Grows a b where
  calls := h.calls ▸ List.prefix_rfl
  examined _ hx := h.examined ▸ hx
  checks _ hx := h.checks ▸ hx
  reads _ hr := h.reads ▸ hr
  archive _ := h.archive ▸ List.prefix_rfl

/-- an access that records nothing may change rows and scans -/
theorem Inv.change (h : Inv crates a) (hsame : SameRecords a b)
    (hrows : ∀ key event, b.rows key = some event → a.rows key = some event ∨ ∃ call op,
      Authenticated b call op event ∧ finalizedEventRowKey crates op.contractId op.topic op.sequence = .ok key)
    (hscans : AllFaithful crates b → ∀ c t scan, b.scans c t = some scan → a.scans c t = some scan ∨
      ScanAt (b.archive c) t scan) : Inv crates b :=
  h.grow hsame.grows (hsame.archive ▸ h.sorted) (fun _ hr => .inl (hsame.reads ▸ hr)) hrows
    (fun _ ho => .inl (hsame.returned ▸ ho)) hscans fun _ _ hx => .inl (hsame.examined ▸ hx)

/-! ## Rows and keys -/

/-- a key tells the contract, the hash of the topic and the sequence -/
theorem finalizedEventRowKey_inj {c c' : ContractId} {t t' : String} {n n' : UInt64} {key : List UInt8}
    (h : finalizedEventRowKey crates c t n = .ok key) (h' : finalizedEventRowKey crates c' t' n' = .ok key) :
    c = c' ∧ crates.keccak256 t.toUTF8.toList = crates.keccak256 t'.toUTF8.toList ∧ n = n' := by
  unfold finalizedEventRowKey at h h'
  split at h
  · cases h
  split at h'
  · cases h'
  have heq := (Except.ok.inj h).trans (Except.ok.inj h').symm
  obtain ⟨hfront, hseq⟩ := List.append_inj' heq (by rw [be_length, be_length])
  have hlength : ("dusk-finalized-row-v2:".toUTF8.toList ++ c.1).length =
      ("dusk-finalized-row-v2:".toUTF8.toList ++ c'.1).length := by
    rw [List.length_append, List.length_append, c.2, c'.2]
  obtain ⟨hcontract, hhash⟩ := List.append_inj hfront hlength
  refine ⟨Subtype.ext (List.append_cancel_left hcontract), hhash, UInt64.toNat_inj.1 ?_⟩
  have hlt : ∀ m : UInt64, m.toNat < 256 ^ 8 := fun m => m.toNat_lt
  rw [← ofBe_be (hlt n), ← ofBe_be (hlt n'), hseq]

theorem persistedRow_ok {row : FinalizedContractEvent} (h : persistedRow crates op row = .ok event) :
    event = { row with id := op.sequence.toNat } ∧ row.topic = op.topic := by
  unfold persistedRow at h
  simp only [bind, Except.bind, throw, throwThe, MonadExceptOf.throw, pure, Except.pure] at h
  split at h
  · cases h
  · cases hid : sequenceId op.sequence with
    | error e => simp [hid] at h
    | ok id =>
      obtain rfl := sequenceId_ok hid
      simp only [hid] at h
      cases hvalid : validatePersistedEvent op.contractId op.topic { row with id := (op.sequence.toNat : ℤ) } with
      | error e => simp [hvalid] at h
      | ok u =>
        simp only [hvalid] at h
        refine ⟨(Except.ok.inj h).symm, ?_⟩
        unfold validatePersistedEvent at hvalid
        by_contra htopic
        simp [htopic, bind, Except.bind, throw, throwThe, MonadExceptOf.throw] at hvalid

theorem loadedEvent_ok (h : loadedEvent crates op s = .ok (some event)) : ∃ key row,
    finalizedEventRowKey crates op.contractId op.topic op.sequence = .ok key ∧ s.rows key = some row ∧
      persistedRow crates op row = .ok event := by
  unfold loadedEvent at h
  cases hkey : finalizedEventRowKey crates op.contractId op.topic op.sequence with
  | error e => simp [hkey, Except.mapError, bind, Except.bind] at h
  | ok key =>
    simp only [hkey, Except.mapError, bind, Except.bind, throw, throwThe, MonadExceptOf.throw, pure, Except.pure] at h
    split at h
    · cases h
    · cases hrow : s.rows key with
      | none => simp [hrow] at h
      | some row =>
        simp only [hrow] at h
        cases hpersisted : persistedRow crates op row with
        | error e => simp [hpersisted] at h
        | ok event' =>
          simp only [hpersisted, Except.ok.injEq, Option.some.injEq] at h
          exact ⟨key, row, rfl, hrow, by rw [hpersisted, h]⟩

theorem loadedEvent_error {e : EventError} (h : loadedEvent crates op s = .error e) : e ≠ .notArchived := by
  unfold loadedEvent at h
  cases hkey : finalizedEventRowKey crates op.contractId op.topic op.sequence with
  | error e' =>
    simp only [hkey, Except.mapError, bind, Except.bind, Except.error.injEq] at h
    simp [← h]
  | ok key =>
    simp only [hkey, Except.mapError, bind, Except.bind, throw, throwThe, MonadExceptOf.throw, pure, Except.pure] at h
    split at h
    · simp [← Except.error.inj h]
    · cases hrow : s.rows key with
      | none => simp [hrow] at h
      | some row =>
        simp only [hrow] at h
        cases hpersisted : persistedRow crates op row with
        | error e' =>
          simp only [hpersisted, Except.error.injEq] at h
          simp [← h]
        | ok event' => simp [hpersisted] at h

/-- an event that matches -/
theorem matchesState_ok (h : matchesState op event = .ok ()) : event.reverted = false ∧ event.topic = op.topic ∧
    event.blockHeight = op.expectedBlockHeight ∧
      hexDecode (stripHexPrefix event.data.toList) = some op.expectedData := by
  unfold matchesState at h
  simp only [bind, Except.bind, throw, throwThe, MonadExceptOf.throw, pure, Except.pure] at h
  split at h
  · cases h
  next hstanding =>
    split at h
    · cases h
    next hheight =>
      cases hdata : decodeField "data" event.data with
      | error e => simp [hdata] at h
      | ok data =>
        simp only [hdata] at h
        split at h
        · cases h
        next heq =>
          have hdecode : hexDecode (stripHexPrefix event.data.toList) = some data := by
            unfold decodeField at hdata
            cases hhex : hexDecode (stripHexPrefix event.data.toList) with
            | none => simp [hhex] at hdata
            | some bytes =>
              simp only [hhex, Option.elim] at hdata
              rw [Except.ok.inj hdata]
          push Not at hstanding
          refine ⟨by simpa using hstanding.1, hstanding.2, not_not.1 hheight, ?_⟩
          rw [hdecode, not_not.1 heq]

/-! ## The accesses of a call -/

variable (crates)

/-- every access, and whatever else happens, keeps the invariant and adds to what was there -/
def Step (a b : Store) : Prop := (Inv crates a → Inv crates b) ∧ Grows a b

theorem emit_step (s : Store) (contractId : ContractId) (event : FinalizedContractEvent) :
    Step crates s (s.emit contractId event) := by
  unfold Store.emit
  split
  next hnew =>
    have hgrows : Grows s { s with archive := Function.update s.archive contractId (s.archive contractId ++ [event]) } := by
      refine ⟨List.prefix_rfl, fun _ h => h, fun _ h => h, fun _ h => h, fun c => ?_⟩
      by_cases hc : c = contractId
      · subst hc
        simp only [Function.update_self]
        exact List.prefix_append _ _
      · simp only [Function.update_of_ne hc]
        exact List.prefix_rfl
    refine ⟨fun h => h.grow hgrows (fun c => ?_) (fun _ h => .inl h) (fun _ _ h => .inl h) (fun _ h => .inl h)
      (fun _ _ _ _ h => .inl h) fun _ _ h => .inl h, hgrows⟩
    by_cases hc : c = contractId
    · subst hc
      simp only [Function.update_self]
      exact List.pairwise_append.2 ⟨h.sorted c, List.pairwise_singleton _ _, fun e he e' he' => by
        obtain rfl := List.mem_singleton.1 he'
        exact hnew.2 e he⟩
    · simp only [Function.update_of_ne hc]
      exact h.sorted c
  · exact ⟨fun h => h, Grows.refl s⟩

theorem step_same (hsame : SameRecords a b) (hrows : b.rows = a.rows)
    (hscans : ∀ c t scan, b.scans c t = some scan → a.scans c t = some scan) : Step crates a b :=
  ⟨fun h => h.change hsame (fun _ _ hrow => .inl (hrows ▸ hrow)) fun _ c t scan hscan => .inl (hscans c t scan hscan),
    hsame.grows⟩

theorem crash_step (s : Store) : Step crates s ((client crates).crash s) :=
  step_same crates ⟨rfl, rfl, rfl, rfl, rfl, rfl⟩ rfl fun _ _ _ h => nomatch h

def contract : Contract (client crates) where
  Safe := Inv crates
  Serving := Inv crates
  Settled := Inv crates
  Assumes _ _ := True
  U := Step crates
  T := Step crates
  K := Step crates
  U_refl s := ⟨fun h => h, Grows.refl s⟩
  U_trans h h' := ⟨fun ha => h'.1 (h.1 ha), h.2.trans h'.2⟩
  T_trans h h' := ⟨fun ha => h'.1 (h.1 ha), h.2.trans h'.2⟩
  U_T h := h
  T_K h := h
  K_trans h h' := ⟨fun ha => h'.1 (h.1 ha), h.2.trans h'.2⟩
  serving_safe h := h
  settled_serving h := h
  safe_U h hu := hu.1 h
  serving_U h hu := hu.1 h
  settled_U h hu := hu.1 h
  interfere_U e s := by
    cases e with
    | emitted contractId event => exact emit_step crates s contractId event
    | storeFailing failing => exact step_same crates ⟨rfl, rfl, rfl, rfl, rfl, rfl⟩ rfl fun _ _ _ h => h
    | page page => exact step_same crates ⟨rfl, rfl, rfl, rfl, rfl, rfl⟩ rfl fun _ _ _ h => h
    | checkBlock answer => exact step_same crates ⟨rfl, rfl, rfl, rfl, rfl, rfl⟩ rfl fun _ _ _ h => h
  safe_crash {s} h := (crash_step crates s).1 h
  crash_K s := crash_step crates s

/-! ## A call -/

variable {crates} {me : Call}

/-- an access that keeps the invariant, whatever the others have added before it -/
theorem accessing_free {change : Store → Store} {answer : Store → Except EventError α}
    {Q : Except EventError α → Store → Prop}
    (h : ∀ s', Grows s s' → Inv crates s' → Inv crates (change s') ∧ Grows s' (change s') ∧ Q (answer s') (change s')) :
    (contract crates).Free me Q (accessing change answer).run s := by
  intro s' hs' hinv
  obtain ⟨hkept, hgrows, hq⟩ := h s' hs'.2 hinv
  exact ⟨⟨fun _ => hkept, hgrows⟩, hq⟩

/-- `A` of what is answered; an error does not say that the event is missing -/
def Answers (A : α → Store → Prop) : Except EventError α → Store → Prop
  | .ok a, s => A a s
  | .error e, _ => e ≠ .notArchived

theorem Answers.check {r : Except CheckError α} {A : α → Store → Prop} (h : ∀ a, r = .ok a → A a s) :
    (contract crates).Free me (Answers A) (check r).run s := by
  cases r with
  | ok a => exact h a rfl
  | error e => exact fun he => nomatch he

theorem Answers.bind {β : Type} {A : α → Store → Prop} {B : β → Store → Prop} {p : Rues α} {k : α → Rues β}
    (h : (contract crates).Free me (Answers A) p.run s)
    (hk : ∀ a s, A a s → (contract crates).Free me (Answers B) (k a).run s) :
    (contract crates).Free me (Answers B) (p >>= k).run s :=
  Free.except_bind h hk fun _ _ he => he

/-- another event that a call has examined -/
theorem Inv.examine (h : Inv crates s) (hcall : s.calls[call]? = some op)
    (hnth : AllFaithful crates s → IsNth (s.archive op.contractId) op.topic op.sequence event) :
    Inv crates (s.examine call event) ∧ Grows s (s.examine call event) := by
  have hg : Grows s (s.examine call event) :=
    ⟨List.prefix_rfl, fun _ hx => List.mem_append_left _ hx, fun _ h => h, fun _ h => h, fun _ => List.prefix_rfl⟩
  refine ⟨h.grow hg h.sorted (fun _ hr => .inl hr) (fun _ _ hrow => .inl hrow) (fun _ ho => .inl ho)
    (fun _ _ _ _ hscan => .inl hscan) fun hall x hx => ?_, hg⟩
  rcases List.mem_append.1 hx with hx | hx
  · exact .inl hx
  · obtain rfl := List.mem_singleton.1 hx
    exact .inr ⟨op, hcall, hnth hall⟩

/-- the scan of a topic is set -/
theorem Inv.setScan (h : Inv crates s) {scan : Option FinalizedEventScan}
    (hscan : AllFaithful crates s → ∀ scan', scan = some scan' → ScanAt (s.archive op.contractId) op.topic scan') :
    Inv crates (s.setScan op.contractId op.topic scan) ∧ Grows s (s.setScan op.contractId op.topic scan) := by
  have hsame : SameRecords s (s.setScan op.contractId op.topic scan) := ⟨rfl, rfl, rfl, rfl, rfl, rfl⟩
  refine ⟨h.change hsame (fun _ _ hrow => .inl hrow) fun hall c t scan' hscan' => ?_, hsame.grows⟩
  simp only [Store.setScan] at hscan'
  by_cases hc : c = op.contractId
  · subst hc
    rw [Function.update_self] at hscan'
    by_cases ht : t = op.topic
    · subst ht
      rw [Function.update_self] at hscan'
      exact .inr (hscan hall scan' hscan')
    · rw [Function.update_of_ne ht] at hscan'
      exact .inl hscan'
  · rw [Function.update_of_ne hc] at hscan'
    exact .inl hscan'

/-- the scan that is there, or the default one -/
theorem Inv.currentScan (h : Inv crates s) (hall : AllFaithful crates s) :
    ScanAt (s.archive op.contractId) op.topic ((s.scans op.contractId op.topic).getD .default) := by
  cases hscan : s.scans op.contractId op.topic with
  | none => exact scanAt_default
  | some scan => exact h.scans hall _ _ scan hscan

/-- a row that is loaded is the event of the sequence, for it was so when it was stored -/
theorem loadFinalizedEvent_free (hcall : s.calls[call]? = some op) : (contract crates).Free me
    (Answers fun row s => s.calls[call]? = some op ∧
      ∀ event, row = some event → (call, event) ∈ s.examined ∧ event.id = op.sequence.toNat)
    (loadFinalizedEvent crates call op).run s := by
  refine accessing_free fun s' hs' hinv => ?_
  have hcall' := hs'.called hcall
  cases hload : loadedEvent crates op s' with
  | error e => exact ⟨hinv, Grows.refl s', loadedEvent_error hload⟩
  | ok row =>
    cases row with
    | none => exact ⟨hinv, Grows.refl s', hcall', fun _ h => nomatch h⟩
    | some event =>
      obtain ⟨key, row, hkey, hrow, hpersisted⟩ := loadedEvent_ok hload
      obtain ⟨hevent, htopic⟩ := persistedRow_ok hpersisted
      obtain ⟨call', op', hauth, hkey'⟩ := hinv.rows key row hrow
      have hsame : op'.topic = op.topic := hauth.topic.symm.trans htopic
      obtain ⟨hcontract, -, hsequence⟩ := finalizedEventRowKey_inj hkey' hkey
      have hrowid : row = event := by rw [hevent, ← hsequence, ← hauth.id]
      subst hrowid
      obtain ⟨hkept, hgrows⟩ := hinv.examine hcall' fun hall => by
        obtain ⟨op'', hcalled, hnth⟩ := hinv.examined hall _ hauth.examined
        obtain rfl := Option.some.inj (hauth.called.symm.trans hcalled)
        exact hcontract ▸ hsame ▸ hsequence ▸ hnth
      refine ⟨hkept, hgrows, hcall', fun event h => ?_⟩
      obtain rfl := Option.some.inj h
      exact ⟨List.mem_append_right _ (List.mem_singleton.2 rfl), hsequence ▸ hauth.id⟩

/-- the call examines the event -/
structure Examining (s : Store) (call : ℕ) (op : Call) (event : FinalizedContractEvent) : Prop where
  called : s.calls[call]? = some op
  examined : (call, event) ∈ s.examined
  id : event.id = op.sequence.toNat

/-- the event is authenticated, and the call can return its provenance -/
def Proved (call : ℕ) (op : Call) (event : FinalizedContractEvent) (p : FinalizedEventProvenance) (s : Store) : Prop :=
  Authenticated s call op event ∧ provenance event = .ok p

theorem Examining.grow (h : Examining a call op event) (hg : Grows a b) : Examining b call op event :=
  ⟨hg.called h.called, hg.examined _ h.examined, h.id⟩

theorem askBlock_free (h : Examining s call op event) : (contract crates).Free me
    (Answers fun answer s => Examining s call op event ∧
      (⟨call, event.blockHeight, event.blockHash, answer⟩ : BlockCheck) ∈ s.checks)
    (askBlock call event).run s := by
  refine accessing_free fun s' hs' hinv => ?_
  cases hanswer : s'.checkBlock with
  | none => exact ⟨hinv, Grows.refl s', fun h => nomatch h⟩
  | some answer =>
    have hg : Grows s' (s'.recordCheck ⟨call, event.blockHeight, event.blockHash, answer⟩) :=
      ⟨List.prefix_rfl, fun _ h => h, fun _ hx => List.mem_append_left _ hx, fun _ h => h, fun _ => List.prefix_rfl⟩
    exact ⟨hinv.grow hg hinv.sorted (fun _ h => .inl h) (fun _ _ h => .inl h) (fun _ h => .inl h)
      (fun _ _ _ _ h => .inl h) fun _ _ h => .inl h, hg, (h.grow hs').grow hg,
      List.mem_append_right _ (List.mem_singleton.2 rfl)⟩

theorem validateFinalizedEvent_free (h : Examining s call op event) : (contract crates).Free me
    (Answers (Proved call op event)) (validateFinalizedEvent call op event).run s := by
  have hmatch : (contract crates).Free me
      (Answers fun _ s => Examining s call op event ∧ matchesState op event = .ok ()) (check (matchesState op event)).run
      s := Answers.check fun _ hok => ⟨h, hok⟩
  refine Answers.bind hmatch fun _ s ⟨h, hok⟩ => ?_
  have hask : (contract crates).Free me (Answers fun answer s => Examining s call op event ∧
      (⟨call, event.blockHeight, event.blockHash, answer⟩ : BlockCheck) ∈ s.checks) (askBlock call event).run s :=
    askBlock_free h
  refine Answers.bind hask fun answer s ⟨h, hanswer⟩ => ?_
  split
  next hyes =>
    refine Answers.check fun p hp => ⟨?_, hp⟩
    obtain ⟨hreverted, htopic, hheight, hdata⟩ := matchesState_ok hok
    exact ⟨h.called, h.examined, hreverted, htopic, hheight, hdata, hyes ▸ hanswer, h.id⟩
  · exact fun he => nomatch he

theorem invalidateFinalizedEvent_free : (contract crates).Free me (Answers fun _ _ => True)
    (invalidateFinalizedEvent crates op).run s := by
  refine accessing_free fun s' _ hinv => ?_
  obtain ⟨hdropped, hgrows⟩ : Inv crates (s'.setScan op.contractId op.topic none) ∧
      Grows s' (s'.setScan op.contractId op.topic none) := hinv.setScan fun _ _ h => nomatch h
  cases finalizedEventRowKey crates op.contractId op.topic op.sequence with
  | error e => exact ⟨hdropped, hgrows, fun h => nomatch h⟩
  | ok key =>
    simp only
    split
    · exact ⟨hdropped, hgrows, fun h => nomatch h⟩
    · have hsame : SameRecords (s'.setScan op.contractId op.topic none)
          { s'.setScan op.contractId op.topic none with rows := Function.update s'.rows key none } :=
        ⟨rfl, rfl, rfl, rfl, rfl, rfl⟩
      refine ⟨hdropped.change hsame (fun k event hrow => ?_) fun _ _ _ _ h => .inl h, hgrows.trans hsame.grows, trivial⟩
      by_cases hk : k = key
      · subst hk
        simp at hrow
      · simp only [Function.update_of_ne hk] at hrow
        exact .inl hrow

theorem authenticate_free (h : Examining s call op event) : (contract crates).Free me
    (Answers (Proved call op event)) (authenticate crates call op event).run s := by
  refine (Free.bind fun r s hr => ?_).1 (validateFinalizedEvent_free h)
  cases r with
  | ok p => exact hr
  | error e =>
    have hthrow : (contract crates).Free me (Answers (Proved call op event))
        (invalidateFinalizedEvent crates op >>= fun _ => throw e : Rues FinalizedEventProvenance).run s :=
      Answers.bind invalidateFinalizedEvent_free fun _ _ _ => hr
    exact hthrow

/-- the scan a call starts from is not beyond its sequence -/
theorem takeScan_free (hcall : s.calls[call]? = some op) : (contract crates).Free me
    (Answers fun scan s => s.calls[call]? = some op ∧ scan.replayed ≤ op.sequence.toNat ∧
      (AllFaithful crates s → ScanAt (s.archive op.contractId) op.topic scan)) (takeScan op).run s := by
  refine accessing_free fun s' hs' hinv => ?_
  have hscan : AllFaithful crates s' → ScanAt (s'.archive op.contractId) op.topic (s'.scanFor op) := by
    intro hall
    unfold Store.scanFor
    simp only
    split
    · exact scanAt_default
    · exact hinv.currentScan hall
  obtain ⟨hkept, hgrows⟩ : Inv crates (s'.setScan op.contractId op.topic (some (s'.scanFor op))) ∧
      Grows s' (s'.setScan op.contractId op.topic (some (s'.scanFor op))) :=
    hinv.setScan fun hall scan' h => Option.some.inj h ▸ hscan hall
  refine ⟨hkept, hgrows, hgrows.called (hs'.called hcall), ?_, fun hall => hscan (hall.before hgrows)⟩
  unfold Store.scanFor
  simp only
  split
  · exact Nat.zero_le _
  next h => exact not_lt.1 h

/-- the page a call has read for its scan -/
structure ReadFor (crates : Crates) (s : Store) (call : ℕ) (op : Call) (scan : FinalizedEventScan) (r : PageRead) :
    Prop where
  called : s.calls[call]? = some op
  mem : r ∈ s.reads
  call : r.call = call
  contractId : r.contractId = op.contractId
  cursor : r.cursor = scan.cursor
  scan : AllFaithful crates s → ScanAt r.list op.topic scan

theorem ReadFor.grow {scan : FinalizedEventScan} {r : PageRead} (h : ReadFor crates a call op scan r)
    (hg : Grows a b) : ReadFor crates b call op scan r :=
  ⟨hg.called h.called, hg.reads r h.mem, h.call, h.contractId, h.cursor, fun hb => h.scan (hb.before hg)⟩

theorem finalizedEventPage_free {scan : FinalizedEventScan} (hcall : s.calls[call]? = some op)
    (hscan : AllFaithful crates s → ScanAt (s.archive op.contractId) op.topic scan) : (contract crates).Free me
    (Answers fun page s => ∃ r, r.page = page ∧ ReadFor crates s call op scan r)
    (finalizedEventPage call op scan.cursor).run s := by
  refine accessing_free fun s' hs' hinv => ?_
  cases hpage : s'.page with
  | none => exact ⟨hinv, Grows.refl s', fun h => nomatch h⟩
  | some page =>
    have hg : Grows s' (s'.recordRead ⟨call, op.contractId, scan.cursor, page, s'.archive op.contractId⟩) :=
      ⟨List.prefix_rfl, fun _ h => h, fun _ h => h, fun _ h => List.mem_append_left _ h, fun _ => List.prefix_rfl⟩
    refine ⟨hinv.grow hg hinv.sorted (fun r hr => ?_) (fun _ _ h => .inl h) (fun _ h => .inl h)
      (fun _ _ _ _ h => .inl h) (fun _ _ h => .inl h), hg, _, rfl, hg.called (hs'.called hcall),
      List.mem_append_right _ (List.mem_singleton.2 rfl), rfl, rfl, rfl, fun hall => ?_⟩
    · rcases List.mem_append.1 hr with hr | hr
      · exact .inl hr
      · obtain rfl := List.mem_singleton.1 hr
        exact .inr List.prefix_rfl
    · exact (hscan ((hall.before hg).before hs')).grow (hs'.archive _)

/-- what a call knows after it has gone on with its page -/
def Advanced (crates : Crates) (call : ℕ) (op : Call) (r : PageRead) : Advance → Store → Prop
  | .raced, s => s.calls[call]? = some op
  | .found event, s => Examining s call op event
  | .passed, s => s.calls[call]? = some op ∧ (r.page.hasNextPage = false →
      Outcome crates s call op (.error .notArchived))

theorem advanceScan_free {scan : FinalizedEventScan} {r : PageRead} (hread : ReadFor crates s call op scan r)
    (hle : scan.replayed ≤ op.sequence.toNat)
    (hvalid : validateFinalizedEventPage crates op.contractId scan.cursor scan.lastId r.page = .ok ()) :
    (contract crates).Free me (Answers (Advanced crates call op r)) (advanceScan crates call op scan r.page).run s := by
  refine accessing_free fun s' hs' hinv => ?_
  have hread' := hread.grow hs'
  split
  · exact ⟨hinv, Grows.refl s', hread'.called⟩
  cases hadvance : advancedScan crates op scan r.page with
  | error e => exact ⟨hinv, Grows.refl s', fun h => nomatch h⟩
  | ok result =>
    obtain ⟨scan', cached⟩ := result
    have hprefix : r.list <+: s'.archive op.contractId := hread'.contractId ▸ hinv.reads r hread'.mem
    have hfaithful : AllFaithful crates s' → ScanAt r.list op.topic scan' ∧
        (∀ e, cached = some e → IsNth r.list op.topic op.sequence e) ∧
        (cached = none → r.page.hasNextPage = false → (ofTopic op.topic r.list).length ≤ op.sequence.toNat) :=
      fun hall => scanAt_advance ((hinv.sorted _).sublist hprefix.sublist) (hall r hread'.mem) (hread'.scan hall) hle
        hread'.cursor hvalid hadvance
    obtain ⟨hset, hgrows⟩ : Inv crates (s'.setScan op.contractId op.topic (some scan')) ∧
        Grows s' (s'.setScan op.contractId op.topic (some scan')) :=
      hinv.setScan fun hall x hx => Option.some.inj hx ▸ (hfaithful hall).1.grow hprefix
    have hcalled := hgrows.called hread'.called
    cases cached with
    | none =>
      refine ⟨hset, hgrows, hcalled, fun hnext => ⟨r, hgrows.reads r hread'.mem, hread'.call, hread'.contractId,
        fun hall => (hfaithful (hall.before hgrows)).2.2 rfl hnext⟩⟩
    | some event =>
      obtain ⟨hkept, hmore⟩ := hset.examine hcalled fun hall =>
        ((hfaithful (hall.before hgrows)).2.1 event rfl).grow hprefix
      refine ⟨hkept, hgrows.trans hmore, hmore.called hcalled, List.mem_append_right _ (List.mem_singleton.2 rfl), ?_⟩
      exact advancedScan_id hadvance hle

theorem persistFinalizedEvent_free {p : FinalizedEventProvenance} (h : Proved call op event p s) :
    (contract crates).Free me (Answers fun _ => Proved call op event p) (persistFinalizedEvent crates op event).run
      s := by
  have hvalid : (contract crates).Free me (Answers fun _ => Proved call op event p)
      (check (validatePersistedEvent op.contractId op.topic event)).run s := Answers.check fun _ _ => h
  refine Answers.bind hvalid fun _ s h => ?_
  have hlength : (contract crates).Free me (Answers fun _ => Proved call op event p)
      (check (if MAX_RUES_RESPONSE_BYTES < crates.jsonLength event then .error .transportBound else .ok ())).run s :=
    Answers.check fun _ _ => h
  refine Answers.bind hlength fun _ s h => ?_
  have hkey : (contract crates).Free me (Answers fun key s => Proved call op event p s ∧
      finalizedEventRowKey crates op.contractId op.topic op.sequence = .ok key)
      (check (finalizedEventRowKey crates op.contractId op.topic op.sequence)).run s := Answers.check fun _ hk => ⟨h, hk⟩
  refine Answers.bind hkey fun key s ⟨h, hk⟩ => accessing_free fun s' hs' hinv => ?_
  have hauth := h.1.grow hs'
  split
  · exact ⟨hinv, Grows.refl s', fun h => nomatch h⟩
  · have hsame : SameRecords s' { s' with rows := Function.update s'.rows key (some event) } :=
      ⟨rfl, rfl, rfl, rfl, rfl, rfl⟩
    have hstored := hauth.grow hsame.grows
    refine ⟨hinv.change hsame (fun k row hrow => ?_) fun _ _ _ _ h => .inl h, hsame.grows, hstored, h.2⟩
    by_cases hne : k = key
    · subst hne
      simp only [Function.update_self, Option.some.injEq] at hrow
      subst hrow
      exact .inr ⟨call, op, hstored, hk⟩
    · simp only [Function.update_of_ne hne] at hrow
      exact .inl hrow

/-- how a turn, or all of them, can end -/
def Ends (crates : Crates) (call : ℕ) (op : Call) : Except EventError (Option FinalizedEventProvenance) → Store → Prop
  | .ok none, _ => True
  | .ok (some p), s => Outcome crates s call op (.ok p)
  | .error e, s => Outcome crates s call op (.error e)

/-- an error that does not say that the event is missing -/
theorem Ends.of_answers {A : Option FinalizedEventProvenance → Store → Prop} {r} (h : Answers A r s)
    (hok : ∀ p, A (some p) s → Outcome crates s call op (.ok p)) : Ends crates call op r s := by
  cases r with
  | ok result =>
    cases result with
    | none => trivial
    | some p => exact hok p h
  | error e =>
    cases e with
    | notArchived => exact absurd rfl h
    | check e => trivial
    | endpoint => trivial
    | store => trivial
    | failedCheckBlock => trivial

theorem Ends.error {e : EventError} (h : e ≠ .notArchived) : Ends crates call op (.error e) s :=
  Ends.of_answers (A := fun _ _ => False) (r := .error e) h fun _ hfalse => hfalse.elim

theorem Ends.bind {A : α → Store → Prop} {p : Rues α} {k : α → Rues (Option FinalizedEventProvenance)}
    (h : (contract crates).Free me (Answers A) p.run s)
    (hk : ∀ a s, A a s → (contract crates).Free me (Ends crates call op) (k a).run s) :
    (contract crates).Free me (Ends crates call op) (p >>= k).run s :=
  Free.except_bind h hk fun _ _ he => Ends.error he

theorem lookupTurn_free (hcall : s.calls[call]? = some op) : (contract crates).Free me (Ends crates call op)
    (lookupTurn crates call op).run s := by
  refine Ends.bind (loadFinalizedEvent_free hcall) fun row s ⟨hcall, hrow⟩ => ?_
  cases row with
  | some event =>
    obtain ⟨hexamined, hid⟩ := hrow event rfl
    refine Ends.bind (authenticate_free ⟨hcall, hexamined, hid⟩) fun p s hp => ?_
    exact ⟨event, hp⟩
  | none =>
    refine Ends.bind (takeScan_free hcall) fun scan s ⟨hcall, hle, hscan⟩ => ?_
    refine Ends.bind (finalizedEventPage_free hcall hscan) fun page s ⟨r, hpage, hread⟩ => ?_
    subst hpage
    have hvalid : (contract crates).Free me (Answers fun _ s => ReadFor crates s call op scan r ∧
        validateFinalizedEventPage crates op.contractId scan.cursor scan.lastId r.page = .ok ())
        (check (validateFinalizedEventPage crates op.contractId scan.cursor scan.lastId r.page)).run s :=
      Answers.check fun _ hok => ⟨hread, hok⟩
    refine Ends.bind hvalid fun _ s ⟨hread, hvalid⟩ => ?_
    refine Ends.bind (advanceScan_free hread hle hvalid) fun advance s hadvance => ?_
    cases advance with
    | raced => trivial
    | found event =>
      refine Ends.bind (authenticate_free hadvance) fun p s hp => ?_
      refine Ends.bind (persistFinalizedEvent_free hp) fun _ s hp => ?_
      exact ⟨event, hp⟩
    | passed =>
      obtain ⟨-, hmissing⟩ := hadvance
      simp only
      split
      · trivial
      next hnext => exact hmissing (by simpa using hnext)

/-- the number of a call stays, whatever it does -/
theorem free_called {β : Type} {Q : β → Store → Prop} {p : Prog Store β} (h : (contract crates).Free me Q p s)
    (hcall : s.calls[call]? = some op) :
    (contract crates).Free me (fun r s => Q r s ∧ s.calls[call]? = some op) p s := by
  have hstays : ∀ a b, (contract crates).T a b → a.calls[call]? = some op → b.calls[call]? = some op :=
    fun a b hstep hcalled => Grows.called (And.right hstep) hcalled
  exact (Free.frame hstays).1 h hcall

theorem lookup_free (turns : ℕ) (hcall : s.calls[call]? = some op) : (contract crates).Free me (Ends crates call op)
    (lookup crates call op turns).run s := by
  induction turns generalizing s with
  | zero => trivial
  | succ turns ih =>
    refine Free.except_bind (free_called (lookupTurn_free hcall) hcall) (fun result s ⟨hends, hcall⟩ => ?_) fun _ _ he => he.1
    cases result with
    | some p => exact hends
    | none => exact ih hcall

theorem recordReturn_free {r : Except EventError FinalizedEventProvenance} (hcall : s.calls[call]? = some op)
    (h : Outcome crates s call op r) : (contract crates).Free me (fun _ _ => True)
    (Prog.write (Store.recordReturn · ⟨call, r⟩)) s := by
  intro s' hs' hinv
  have hg : Grows s' (s'.recordReturn ⟨call, r⟩) :=
    ⟨List.prefix_rfl, fun _ h => h, fun _ h => h, fun _ h => h, fun _ => List.prefix_rfl⟩
  refine ⟨⟨fun _ => hinv.grow hg hinv.sorted (fun _ h => .inl h) (fun _ _ h => .inl h) (fun o ho => ?_)
    (fun _ _ _ _ h => .inl h) fun _ _ h => .inl h, hg⟩, trivial⟩
  rcases List.mem_append.1 ho with ho | ho
  · exact .inl ho
  · obtain rfl := List.mem_singleton.1 ho
    exact .inr ⟨op, hg.called (hs'.2.called hcall), (h.grow hs'.2).grow hg⟩

/-- **Every call keeps the invariant.** -/
theorem client_lawful : (contract crates).Lawful where
  startup _ s h := fun _ => h
  program op s _ := by
    -- the call gets its number
    intro s' _ hinv
    have hg : Grows s' { s' with calls := s'.calls ++ [op] } :=
      ⟨List.prefix_append _ _, fun _ h => h, fun _ h => h, fun _ h => h, fun _ => List.prefix_rfl⟩
    have hkept := hinv.grow hg hinv.sorted (fun _ h => .inl h) (fun _ _ h => .inl h) (fun _ h => .inl h)
      (fun _ _ _ _ h => .inl h) fun _ _ h => .inl h
    refine ⟨⟨fun _ => hkept, hg⟩, ?_⟩
    have hcall : ({ s' with calls := s'.calls ++ [op] } : Store).calls[s'.calls.length]? = some op := by simp
    change (contract crates).Free op (fun _ _ => True) ((lookup crates s'.calls.length op op.turns).run >>= _) _
    refine (Free.bind ?_).1 (free_called (lookup_free op.turns hcall) hcall)
    rintro r s ⟨hends, hcall⟩
    cases r with
    | ok result =>
      cases result with
      | none => trivial
      | some p => exact recordReturn_free hcall hends
    | error e => exact recordReturn_free hcall hends

/-! ## Runs -/

theorem fresh_inv : (contract crates).Inv fresh where
  sorted _ := List.Pairwise.nil
  reads _ hr := nomatch hr
  rows _ _ hrow := nomatch hrow
  returned _ ho := nomatch ho
  scans _ _ _ _ hscan := nomatch hscan
  examined _ _ hx := nomatch hx

theorem run_inv_store (crates : Crates) (es : List (Happening Unit Call Other)) :
    Inv crates ((client crates).run fresh es).store :=
  (run_inv client_lawful fresh_inv (Service.findsRun_of_forall _ (fun _ _ => trivial) _ _)).1.safe

/-- what is returned and stored, whatever the endpoint answers -/
structure RightRows (crates : Crates) (s : Store) : Prop where
  /-- a call that returns a provenance has examined the event it is of, which matches what the call expects, and was told
  that its block is finalized; the ID is the sequence -/
  returned : ∀ o ∈ s.returned, ∀ p, o.result = .ok p → ∃ op event, Authenticated s o.call op event ∧
    provenance event = .ok p ∧ p.blockHeight = op.expectedBlockHeight ∧ p.eventId = op.sequence.toNat
  /-- a stored row was authenticated so by a call for its contract, its sequence and, unless another one has the same
  hash, its topic -/
  rows : ∀ c t n key event, finalizedEventRowKey crates c t n = .ok key → s.rows key = some event →
    ∃ call op, Authenticated s call op event ∧ op.contractId = c ∧ op.sequence = n ∧
      ((∀ t', crates.keccak256 t'.toUTF8.toList = crates.keccak256 t.toUTF8.toList → t' = t) → op.topic = t)

/-- the events up to an ID -/
def upTo (list : List FinalizedContractEvent) (lastId : Option ℤ) : List FinalizedContractEvent :=
  list.filter fun e => lastId.any (e.id ≤ ·)

/-- where the scans stand and what the calls examine, when the pages are those of the list -/
structure RightSequences (s : Store) : Prop where
  /-- a scan has counted the events of its topic up to its last ID -/
  scans : ∀ c t scan, s.scans c t = some scan → scan.replayed = (ofTopic t (upTo (s.archive c) scan.lastId)).length
  /-- a call examines the event of its sequence -/
  examined : ∀ x ∈ s.examined, ∃ op, s.calls[x.1]? = some op ∧
    IsNth (s.archive op.contractId) op.topic op.sequence x.2
  /-- a call that finds the event missing has read a page when the list had no more events of the topic -/
  missing : ∀ o ∈ s.returned, o.result = .error .notArchived → ∃ op, ∃ r ∈ s.reads, s.calls[o.call]? = some op ∧
    r.call = o.call ∧ r.contractId = op.contractId ∧ (ofTopic op.topic r.list).length ≤ op.sequence.toNat

theorem scanAt_upTo {list : List FinalizedContractEvent} {topic : String} {scan : FinalizedEventScan}
    (h : ScanAt list topic scan) (hsorted : Sorted list) :
    scan.replayed = (ofTopic topic (upTo list scan.lastId)).length := by
  obtain ⟨seen, ⟨rest, rfl⟩, hlast, hreplayed⟩ := h
  have hseen : upTo (seen ++ rest) scan.lastId = seen := by
    rw [hlast]
    cases hlast' : seen.getLast? with
    | none =>
      rw [List.getLast?_eq_none_iff.1 hlast', upTo, List.filter_eq_nil_iff]
      exact fun _ _ => by simp
    | some last =>
      -- the events up to the last one seen are those that are not behind it
      obtain ⟨front, rfl⟩ := List.getLast?_eq_some_iff.1 hlast'
      obtain ⟨hseen, -, hrest⟩ := List.pairwise_append.1 hsorted
      obtain ⟨-, -, hfront⟩ := List.pairwise_append.1 hseen
      rw [upTo, List.filter_append, List.filter_eq_self.2, List.filter_eq_nil_iff.2, List.append_nil]
      · intro e he
        simpa using hrest last (List.mem_append_right _ (List.mem_singleton.2 rfl)) e he
      · intro e he
        rcases List.mem_append.1 he with he | he
        · simpa using (hfront e he last (List.mem_singleton.2 rfl)).le
        · obtain rfl := List.mem_singleton.1 he
          simp
  rw [hseen, hreplayed]

theorem provenance_ok {p : FinalizedEventProvenance} (h : provenance event = .ok p) :
    p.blockHeight = event.blockHeight ∧ p.eventId = event.id := by
  unfold provenance at h
  cases hhash : parseH256Hex "block hash" event.blockHash with
  | error e => simp [hhash, bind, Except.bind] at h
  | ok blockHash =>
    cases horigin : parseH256Hex "origin" event.origin with
    | error e => simp [hhash, horigin, bind, Except.bind] at h
    | ok origin =>
      simp only [hhash, horigin, bind, Except.bind] at h
      cases h
      exact ⟨rfl, rfl⟩

/-- **The lookup returns the right row**: in every run of calls, restarts and answers, only rows that were authenticated
are returned and stored; and if the pages that were read are those of the list, in whatever order the calls go on, each
scan has counted right, and each call examines the event of its sequence. -/
theorem finalized_event_lookup (crates : Crates) (es : List (Happening Unit Call Other)) :
    RightRows crates ((client crates).run fresh es).store ∧
      (AllFaithful crates ((client crates).run fresh es).store →
        RightSequences ((client crates).run fresh es).store) := by
  have hinv := run_inv_store crates es
  refine ⟨⟨fun o ho p hp => ?_, fun c t n key event hkey hrow => ?_⟩, fun hall => ⟨fun c t scan hscan => ?_,
    hinv.examined hall, fun o ho hmissing => ?_⟩⟩
  · obtain ⟨op, -, houtcome⟩ := hinv.returned o ho
    rw [hp] at houtcome
    obtain ⟨event, hauth, hprovenance⟩ := houtcome
    obtain ⟨hheight, hid⟩ := provenance_ok hprovenance
    exact ⟨op, event, hauth, hprovenance, hheight.trans hauth.height, hid.trans hauth.id⟩
  · obtain ⟨call, op, hauth, hkey'⟩ := hinv.rows key event hrow
    obtain ⟨hcontract, htopic, hsequence⟩ := finalizedEventRowKey_inj hkey' hkey
    exact ⟨call, op, hauth, hcontract, hsequence, fun hunique => hunique _ htopic⟩
  · exact scanAt_upTo (hinv.scans hall c t scan hscan) (hinv.sorted c)
  · obtain ⟨op, hcalled, houtcome⟩ := hinv.returned o ho
    rw [hmissing] at houtcome
    obtain ⟨r, hr, hcall, hcontract, hfew⟩ := houtcome
    exact ⟨op, r, hr, hcalled, hcall, hcontract, hfew hall⟩

/-! ## A run -/

def plainCrates : Crates where
  base64 text := text
  unbase64 := some
  keccak256 bytes := bytes
  jsonLength _ := 0

def mailbox : ContractId := ⟨List.replicate 32 17, rfl⟩

/-- a dispatch of the mailbox -/
def dispatched (id : ℤ) (data : String) : FinalizedContractEvent where
  id := id
  blockHeight := 9
  blockHash := "0202020202020202020202020202020202020202020202020202020202020202"
  origin := "0303030303030303030303030303030303030303030303030303030303030303"
  topic := "dispatch"
  source := "1111111111111111111111111111111111111111111111111111111111111111"
  data := data
  reverted := false

/-- the first dispatches in one page -/
def firstDispatches : FinalizedEventPage where
  events := [dispatched 3 "0a", dispatched 5 "0b"]
  startCursor := some "v1:3"
  endCursor := some "v1:5"
  hasNextPage := false

/-- a call for the second dispatch -/
def secondDispatch : List (Happening Unit Call Other) :=
  [.boot (), .advance 0, .interfere (.emitted mailbox (dispatched 3 "0a")),
    .interfere (.emitted mailbox (dispatched 5 "0b")), .interfere (.page (some firstDispatches)),
    .interfere (.checkBlock (some true)), .call ⟨mailbox, "dispatch", 1, 9, [11], 1⟩] ++ List.replicate 12 (.advance 0)

/-- the page that the call read, and the event that it returned -/
theorem secondDispatch_store :
    ((client plainCrates).run fresh secondDispatch).store.reads =
        [⟨0, mailbox, none, firstDispatches, firstDispatches.events⟩] ∧
      (((client plainCrates).run fresh secondDispatch).store.returned.map (·.result.toOption.map (·.eventId))) = [some 1] := by
  decide +kernel

theorem secondDispatch_faithful : AllFaithful plainCrates ((client plainCrates).run fresh secondDispatch).store := by
  intro r hr
  rw [secondDispatch_store.1, List.mem_singleton] at hr
  subst hr
  exact ⟨List.prefix_rfl, fun _ => rfl⟩

/-- the call returns the event with its sequence for an ID, and every scan has counted right -/
theorem secondDispatch_right :
    (((client plainCrates).run fresh secondDispatch).store.returned.map (·.result.toOption.map (·.eventId))) = [some 1] ∧
      RightSequences ((client plainCrates).run fresh secondDispatch).store :=
  ⟨secondDispatch_store.2, (finalized_event_lookup plainCrates secondDispatch).2 secondDispatch_faithful⟩

end Hyperlane.Dusk.Events
