/-
The relayer's quorum search: `MultisigCheckpointSyncer::fetch_checkpoint` (hyperlane-base/src/types/multisig.rs), with the
checkpoint it collects signatures for (hyperlane-core/src/types/checkpoint.rs).

Validators are asked in batches of one and a half times the threshold, at most ten; the answers of a batch come in any
order. Answers with the wrong index or signer are passed over, the others are counted by root, and the first root with
enough votes is returned. Keccak and signature recovery are parameters (`Crypto`).

- `fetchCheckpoint_eq`: the search is a count of ballots in the sense of `Tally`.
- `always_found_iff`: which answers lead to a checkpoint in every order of completion. Two things get in the way of a
  quorum that exists: an answer whose signature cannot be recovered ends the search with an error, where one by the wrong
  signer is passed over; and votes for one root with different message ids or domains fail together.
-/
import Hyperlane.Core.Bytes
import Hyperlane.Core.Tally

namespace Hyperlane.Relayer

open Hyperlane.Bytes

/-! ## Model -/

abbrev H160 := Word 20
abbrev H256 := Word 32

/-- `H160::from(H256)`: the last 20 bytes -/
def toH160 (h : H256) : H160 := ⟨h.1.drop 12, by rw [List.length_drop, h.2]⟩

/-- `H256::from(H160)`: padded with zeros on the left -/
def toH256 (a : H160) : H256 := ⟨List.replicate 12 0 ++ a.1, by rw [List.length_append, a.2, List.length_replicate]⟩

structure Signature where
  r : Fin (2 ^ 256)
  s : Fin (2 ^ 256)
  v : UInt64
deriving DecidableEq

/-- `<[u8; 65]>::from(Signature)` -/
def Signature.toBytes (σ : Signature) : Word 65 := ⟨be 32 σ.r ++ be 32 σ.s ++ [σ.v.toUInt8], by simp⟩

/-- Keccak-256, and the signer of a 65-byte signature over a digest -/
structure Crypto where
  keccak : List UInt8 → H256
  recover : H256 → Word 65 → Option H160

structure CheckpointWithMessageId where
  merkleTreeHookAddress : H256
  mailboxDomain : UInt32
  root : H256
  index : UInt32
  messageId : H256
deriving DecidableEq

/-- the bytes of `HYPERLANE` -/
def hyperlaneTag : List UInt8 := [0x48, 0x59, 0x50, 0x45, 0x52, 0x4c, 0x41, 0x4e, 0x45]

/-- the bytes of `\x19Ethereum Signed Message:\n32` -/
def signedMessageTag : List UInt8 :=
  [0x19, 0x45, 0x74, 0x68, 0x65, 0x72, 0x65, 0x75, 0x6d, 0x20, 0x53, 0x69, 0x67, 0x6e, 0x65, 0x64, 0x20, 0x4d, 0x65, 0x73,
    0x73, 0x61, 0x67, 0x65, 0x3a, 0x0a, 0x33, 0x32]

/-- `domain_hash` -/
def domainHash (C : Crypto) (address : H256) (domain : UInt32) : H256 :=
  C.keccak (be 4 domain.toNat ++ address.1 ++ hyperlaneTag)

/-- `signing_hash` -/
def CheckpointWithMessageId.signingHash (C : Crypto) (c : CheckpointWithMessageId) : H256 :=
  C.keccak ((domainHash C c.merkleTreeHookAddress c.mailboxDomain).1 ++ c.root.1 ++ be 4 c.index.toNat ++ c.messageId.1)

/-- `eth_signed_message_hash` -/
def CheckpointWithMessageId.ethSignedMessageHash (C : Crypto) (c : CheckpointWithMessageId) : H256 :=
  C.keccak (signedMessageTag ++ (c.signingHash C).1)

structure SignedCheckpoint where
  value : CheckpointWithMessageId
  signature : Signature
deriving DecidableEq

/-- `SignedType::recover` -/
def SignedCheckpoint.recover (C : Crypto) (s : SignedCheckpoint) : Option H160 :=
  C.recover (s.value.ethSignedMessageHash C) s.signature.toBytes

structure MultisigSignedCheckpoint where
  checkpoint : CheckpointWithMessageId
  signatures : List Signature
deriving DecidableEq

/-- `TryFrom<&mut Vec<SignedCheckpointWithMessageId>>` -/
def MultisigSignedCheckpoint.tryFrom : List SignedCheckpoint → Option MultisigSignedCheckpoint
  | [] => none
  | first :: rest =>
    if (first :: rest).all fun c => first.value = c.value then
      some ⟨first.value, (first :: rest).map SignedCheckpoint.signature⟩
    else none

/-- `chunks` of a slice -/
def chunks {α : Type} (n : ℕ) (l : List α) : List (List α) :=
  (List.range ((l.length + n - 1) / n)).map fun k => (l.drop (k * n)).take n

/-- what the validators answer: whether there is a syncer for an address, and the answer by position in the list -/
structure Answers where
  hasSyncer : H160 → Bool
  answer : ℕ → Except Unit (Option SignedCheckpoint)

/-- a completed fetch -/
structure Response where
  validatorIndex : ℕ
  validator : H256
  fetched : Except Unit (Option SignedCheckpoint)

def batchSize (threshold : ℕ) : ℕ := min (max (3 * threshold / 2) 1) 10

/-- the fetches of one batch -/
def futures (A : Answers) (batch : List (H256 × ℕ)) : List Response :=
  batch.filterMap fun x => if A.hasSyncer (toH160 x.1) then some ⟨x.2, x.1, A.answer x.2⟩ else none

def batches (A : Answers) (validators : List H256) (threshold : ℕ) : List (List Response) :=
  (chunks (batchSize threshold) validators.zipIdx).map (futures A)

/-- `ensure_validator_ordering`: a signature for every validator, the last one of its signer or a padding -/
def ensureValidatorOrdering (C : Crypto) (validators : List H256) (signed : List SignedCheckpoint) : List Signature :=
  validators.map fun validator =>
    match (signed.filter fun s => (s.recover C).map toH256 = some validator).getLast? with
    | some s => s.signature
    | none => ⟨1, 1, 1⟩

/-- the votes by root, each with its validator's position -/
abbrev Votes := H256 → List (ℕ × SignedCheckpoint)

/-- the checkpoint of a root that has its votes -/
def finish (C : Crypto) (aleo : Bool) (validators : List H256) (votes : List (ℕ × SignedCheckpoint)) :
    Except Unit (Option MultisigSignedCheckpoint) :=
  let ordered := (votes.insertionSort fun a b => a.1 ≤ b.1).map Prod.snd
  match MultisigSignedCheckpoint.tryFrom ordered with
  | none => .error ()
  | some c => .ok (some (if aleo then { c with signatures := ensureValidatorOrdering C validators ordered } else c))

/-- one round of the loop over completed fetches: the votes to go on with, or the result -/
def receive (C : Crypto) (aleo : Bool) (validators : List H256) (threshold : ℕ) (index : UInt32) (votes : Votes)
    (response : Response) : Votes ⊕ Except Unit (Option MultisigSignedCheckpoint) :=
  match response.fetched with
  | .ok (some signed) =>
    if signed.value.index ≠ index then .inl votes
    else
      match signed.recover C with
      | none => .inr (.error ())
      | some signer =>
        if toH256 signer ≠ response.validator then .inl votes
        else
          let root := signed.value.root
          let forRoot := votes root ++ [(response.validatorIndex, signed)]
          if threshold ≤ forRoot.length then .inr (finish C aleo validators forRoot)
          else .inl (Function.update votes root forRoot)
  | _ => .inl votes

/-- the loop over the completed fetches of one batch -/
def drain (C : Crypto) (aleo : Bool) (validators : List H256) (threshold : ℕ) (index : UInt32) :
    Votes → List Response → Votes ⊕ Except Unit (Option MultisigSignedCheckpoint)
  | votes, [] => .inl votes
  | votes, response :: rest =>
    match receive C aleo validators threshold index votes response with
    | .inl votes => drain C aleo validators threshold index votes rest
    | .inr result => .inr result

/-- the loop over the batches, each in its order of completion -/
def fetchBatches (C : Crypto) (aleo : Bool) (validators : List H256) (threshold : ℕ) (index : UInt32) :
    Votes → List (List Response) → Except Unit (Option MultisigSignedCheckpoint)
  | _, [] => .ok none
  | votes, batch :: rest =>
    match drain C aleo validators threshold index votes batch with
    | .inl votes => fetchBatches C aleo validators threshold index votes rest
    | .inr result => result

/-- the orders in which the fetches can complete: each batch in any order -/
def Completion (A : Answers) (validators : List H256) (threshold : ℕ) (arrivals : List (List Response)) : Prop :=
  List.Forall₂ List.Perm arrivals (batches A validators threshold)

/-- `fetch_checkpoint`, for an order of completion -/
def fetchCheckpoint (C : Crypto) (aleo : Bool) (validators : List H256) (threshold : ℕ) (index : UInt32)
    (arrivals : List (List Response)) : Except Unit (Option MultisigSignedCheckpoint) :=
  fetchBatches C aleo validators threshold index (fun _ => []) arrivals

/-! ## The search as a count of ballots -/

/-- a completed fetch as an event: a vote for a root, a failure, or nothing -/
def event (C : Crypto) (index : UInt32) (response : Response) : Tally.Event H256 (ℕ × SignedCheckpoint) :=
  match response.fetched with
  | .ok (some signed) =>
    if signed.value.index ≠ index then .skip
    else
      match signed.recover C with
      | none => .fault
      | some signer =>
        if toH256 signer ≠ response.validator then .skip
        else .ballot signed.value.root (response.validatorIndex, signed)
  | _ => .skip

/-- the result of a decided or exhausted count -/
def conclude (C : Crypto) (aleo : Bool) (validators : List H256) :
    Tally.Verdict H256 (ℕ × SignedCheckpoint) → Except Unit (Option MultisigSignedCheckpoint)
  | .undecided => .ok none
  | .fault => .error ()
  | .quorum _ votes => finish C aleo validators votes

section Counting

variable {C : Crypto} {aleo : Bool} {validators : List H256} {threshold : ℕ} {index : UInt32}

theorem receive_eq (votes : Votes) (response : Response) :
    receive C aleo validators threshold index votes response =
      match event C index response with
      | .skip => .inl votes
      | .fault => .inr (.error ())
      | .ballot root vote =>
        if threshold ≤ (votes root).length + 1 then .inr (finish C aleo validators (votes root ++ [vote]))
        else .inl (Function.update votes root (votes root ++ [vote])) := by
  obtain ⟨i, validator, fetched⟩ := response
  unfold receive event
  rcases fetched with _ | _ | signed
  · rfl
  · rfl
  · dsimp only
    by_cases hindex : signed.value.index = index
    · rw [if_neg (not_not.2 hindex), if_neg (not_not.2 hindex)]
      cases signed.recover C with
      | none => rfl
      | some signer =>
        by_cases hsigner : toH256 signer = validator
        · simp [hsigner]
        · simp [hsigner]
    · rw [if_pos hindex, if_pos hindex]

/-- the result of one loop over all completed fetches -/
def settle : Votes ⊕ Except Unit (Option MultisigSignedCheckpoint) → Except Unit (Option MultisigSignedCheckpoint)
  | .inl _ => .ok none
  | .inr result => result

theorem drain_append (votes : Votes) (xs ys : List Response) :
    drain C aleo validators threshold index votes (xs ++ ys) =
      match drain C aleo validators threshold index votes xs with
      | .inl votes => drain C aleo validators threshold index votes ys
      | .inr result => .inr result := by
  induction xs generalizing votes with
  | nil => rfl
  | cons x xs ih =>
    simp only [List.cons_append, drain]
    cases receive C aleo validators threshold index votes x with
    | inl votes => exact ih votes
    | inr result => rfl

/-- the batches matter for the order only -/
theorem fetchBatches_flatten (votes : Votes) (arrivals : List (List Response)) :
    fetchBatches C aleo validators threshold index votes arrivals =
      settle (drain C aleo validators threshold index votes arrivals.flatten) := by
  induction arrivals generalizing votes with
  | nil => rfl
  | cons batch rest ih =>
    rw [List.flatten_cons, drain_append, fetchBatches]
    cases drain C aleo validators threshold index votes batch with
    | inl votes => exact ih votes
    | inr result => rfl

theorem drain_run {votes : Votes} {seen : List (Tally.Event H256 (ℕ × SignedCheckpoint))}
    (hvotes : ∀ root, votes root = Tally.ballots root seen) (responses : List Response) :
    settle (drain C aleo validators threshold index votes responses) =
      conclude C aleo validators (Tally.run threshold seen (responses.map (event C index))) := by
  induction responses generalizing votes seen with
  | nil => rfl
  | cons response responses ih =>
    rw [drain, receive_eq, List.map_cons]
    cases event C index response with
    | skip =>
      apply ih
      intro root
      rw [hvotes, Tally.ballots_append]
      exact (List.append_nil _).symm
    | fault => rfl
    | ballot root vote =>
      simp only [Tally.run, hvotes]
      by_cases hle : threshold ≤ (Tally.ballots root seen).length + 1
      · rw [if_pos hle, if_pos hle]
        rfl
      · rw [if_neg hle, if_neg hle]
        apply ih
        intro root'
        rw [Tally.ballots_append, Tally.ballots_ballot]
        by_cases hroot : root = root'
        · subst hroot
          rw [Function.update_self, if_pos rfl]
        · rw [Function.update_of_ne (Ne.symm hroot), if_neg hroot, List.append_nil, hvotes]

/-- the search is a count of ballots -/
theorem fetchCheckpoint_eq (arrivals : List (List Response)) :
    fetchCheckpoint C aleo validators threshold index arrivals =
      conclude C aleo validators (Tally.run threshold [] (arrivals.flatten.map (event C index))) := by
  rw [fetchCheckpoint, fetchBatches_flatten]
  apply drain_run
  intro root
  rfl

end Counting

/-! ## What is returned -/

theorem chunks_flatten {α : Type} {n : ℕ} (hn : 0 < n) (l : List α) : (chunks n l).flatten = l := by
  have htake : ∀ k, ((List.range k).map fun j => (l.drop (j * n)).take n).flatten = l.take (k * n) := by
    intro k
    induction k with
    | zero => simp
    | succ k ih =>
      rw [List.range_succ, List.map_append, List.flatten_append, ih, List.map_singleton, List.flatten_singleton,
        Nat.succ_mul, List.take_add]
  rw [chunks, htake, List.take_of_length_le]
  have hdiv := Nat.div_add_mod (l.length + n - 1) n
  have hmod := Nat.mod_lt (l.length + n - 1) hn
  rw [mul_comm] at hdiv
  omega

theorem batchSize_pos (threshold : ℕ) : 0 < batchSize threshold := by
  unfold batchSize
  omega

theorem batches_flatten (A : Answers) (validators : List H256) (threshold : ℕ) :
    (batches A validators threshold).flatten = futures A validators.zipIdx := by
  have hmap : ∀ ls : List (List (H256 × ℕ)), (ls.map (futures A)).flatten = futures A ls.flatten := by
    intro ls
    induction ls with
    | nil => rfl
    | cons l ls ih =>
      rw [List.map_cons, List.flatten_cons, ih, List.flatten_cons]
      exact List.filterMap_append.symm
  rw [batches, hmap, chunks_flatten (batchSize_pos threshold)]

theorem mem_futures {A : Answers} {x : H256 × ℕ} {r : Response}
    (h : (if A.hasSyncer (toH160 x.1) then some ⟨x.2, x.1, A.answer x.2⟩ else none) = some r) :
    r.validator = x.1 ∧ r.validatorIndex = x.2 := by
  split at h
  · cases h
    exact ⟨rfl, rfl⟩
  · cases h

/-- every batch in the order of its requests -/
theorem batches_completion (A : Answers) (validators : List H256) (threshold : ℕ) :
    Completion A validators threshold (batches A validators threshold) :=
  List.forall₂_same.2 fun b _ => .refl b

theorem Completion.perm {A : Answers} {validators : List H256} {threshold : ℕ} {arrivals : List (List Response)}
    (h : Completion A validators threshold arrivals) : arrivals.flatten.Perm (futures A validators.zipIdx) := by
  rw [← batches_flatten A validators threshold]
  exact List.Perm.flatten_congr h

/-- no position of the validator list answers twice -/
theorem Completion.nodup {A : Answers} {validators : List H256} {threshold : ℕ} {arrivals : List (List Response)}
    (h : Completion A validators threshold arrivals) : (arrivals.flatten.map Response.validatorIndex).Nodup := by
  rw [(h.perm.map _).nodup_iff]
  refine List.Nodup.sublist (Tally.filterMap_keys_sublist (fun x r hr => (mem_futures hr).2) _) ?_
  rw [List.zipIdx_map_snd]
  exact List.nodup_range'

theorem Completion.validator {A : Answers} {validators : List H256} {threshold : ℕ} {arrivals : List (List Response)}
    (h : Completion A validators threshold arrivals) {r : Response} (hr : r ∈ arrivals.flatten) :
    validators[r.validatorIndex]? = some r.validator := by
  obtain ⟨x, hmem, hx⟩ := List.mem_filterMap.1 (h.perm.mem_iff.1 hr)
  obtain ⟨hvalidator, hindex⟩ := mem_futures hx
  rw [hvalidator, hindex]
  exact List.mem_zipIdx_iff_getElem?.1 hmem

theorem event_ballot {C : Crypto} {index : UInt32} {r : Response} {root : H256} {v : ℕ × SignedCheckpoint}
    (h : event C index r = .ballot root v) :
    v.1 = r.validatorIndex ∧ v.2.value.index = index ∧ (v.2.recover C).map toH256 = some r.validator := by
  unfold event at h
  split at h
  · rename_i signed hfetched
    split at h
    · cases h
    rename_i hindex
    split at h
    · cases h
    rename_i signer hsigner
    split at h
    · cases h
    rename_i hvalidator
    cases h
    refine ⟨rfl, not_not.1 hindex, ?_⟩
    rw [hsigner, Option.map_some, not_not.1 hvalidator]
  · cases h

theorem ballots_index_sublist (C : Crypto) (index : UInt32) (root : H256) (rs : List Response) :
    ((Tally.ballots root (rs.map (event C index))).map Prod.fst).Sublist (rs.map Response.validatorIndex) := by
  rw [Tally.ballots, List.filterMap_map]
  apply Tally.filterMap_keys_sublist
  intro r v hv
  exact (event_ballot (Tally.ballot_eq_some hv)).1

theorem tryFrom_eq_some_iff (signed : List SignedCheckpoint) (c : MultisigSignedCheckpoint) :
    MultisigSignedCheckpoint.tryFrom signed = some c ↔
      signed ≠ [] ∧ (∀ s ∈ signed, s.value = c.checkpoint) ∧ c.signatures = signed.map SignedCheckpoint.signature := by
  obtain ⟨value, signatures⟩ := c
  cases signed with
  | nil => simp [MultisigSignedCheckpoint.tryFrom]
  | cons first rest =>
    rw [MultisigSignedCheckpoint.tryFrom]
    simp only [List.all_eq_true, decide_eq_true_eq]
    constructor
    · intro h
      split at h
      · rename_i hall
        cases h
        exact ⟨List.cons_ne_nil _ _, fun s hs => (hall s hs).symm, rfl⟩
      · cases h
    · rintro ⟨-, hall, hsig⟩
      have hfirst : first.value = value := hall first List.mem_cons_self
      rw [if_pos]
      · rw [hfirst, ← hsig]
      · intro s hs
        rw [hfirst, hall s hs]

/-- `validators` at the increasing `positions` signed the checkpoint, in the order of its signatures -/
def SignedBy (C : Crypto) (validators : List H256) (c : MultisigSignedCheckpoint) (positions : List ℕ) : Prop :=
  positions.Pairwise (· < ·) ∧
  List.Forall₂ (fun p σ => ∃ signer, C.recover (c.checkpoint.ethSignedMessageHash C) σ.toBytes = some signer ∧
    validators[p]? = some (toH256 signer)) positions c.signatures

/-- the votes of a winning root are by validators of the list, at different positions -/
theorem quorum_votes {C : Crypto} {A : Answers} {validators : List H256} {threshold : ℕ} {index : UInt32}
    (ht : 1 ≤ threshold) {arrivals : List (List Response)} (ha : Completion A validators threshold arrivals) {root : H256}
    {votes : List (ℕ × SignedCheckpoint)}
    (hr : Tally.run threshold [] (arrivals.flatten.map (event C index)) = .quorum root votes) :
    votes.length = threshold ∧ (votes.map Prod.fst).Nodup ∧
    ∀ v ∈ votes, v.2.value.index = index ∧ ∃ signer, v.2.recover C = some signer ∧
      validators[v.1]? = some (toH256 signer) := by
  obtain ⟨hlen, pre, hpre, hvotes⟩ := Tally.run_quorum (fun _ => ht) hr
  obtain ⟨k, hk⟩ : ∃ k, pre = (arrivals.flatten.take k).map (event C index) := by
    refine ⟨pre.length, ?_⟩
    rw [List.map_take]
    exact List.prefix_iff_eq_take.1 hpre
  rw [List.nil_append, hk] at hvotes
  refine ⟨hlen, ?_, ?_⟩
  · rw [hvotes]
    refine List.Nodup.sublist ((ballots_index_sublist C index root _).trans ?_) ha.nodup
    exact (List.take_sublist _ _).map _
  · intro v hv
    rw [hvotes, Tally.mem_ballots] at hv
    obtain ⟨r, hr, he⟩ := List.mem_map.1 hv
    obtain ⟨hfst, hindex, hsigner⟩ := event_ballot he
    obtain ⟨signer, hrec, hval⟩ := Option.map_eq_some_iff.1 hsigner
    refine ⟨hindex, signer, hrec, ?_⟩
    rw [hfst, hval]
    exact ha.validator (List.mem_of_mem_take hr)

/-- the checkpoint of a list of votes keeps every vote's signature, in the order of the positions -/
theorem finish_votes {C : Crypto} {validators : List H256} {votes : List (ℕ × SignedCheckpoint)}
    (hnodup : (votes.map Prod.fst).Nodup) {c : MultisigSignedCheckpoint}
    (h : finish C false validators votes = .ok (some c)) :
    ∃ sorted : List (ℕ × SignedCheckpoint), sorted.Perm votes ∧ (sorted.map Prod.fst).Pairwise (· < ·) ∧ sorted ≠ [] ∧
      (∀ v ∈ sorted, v.2.value = c.checkpoint) ∧ c.signatures = sorted.map fun v => v.2.signature := by
  have hperm := List.perm_insertionSort (fun a b : ℕ × SignedCheckpoint => a.1 ≤ b.1) votes
  have hsorted := List.pairwise_insertionSort (fun a b : ℕ × SignedCheckpoint => a.1 ≤ b.1) votes
  refine ⟨votes.insertionSort fun a b => a.1 ≤ b.1, hperm, ?_, ?_⟩
  · have hdistinct : ((votes.insertionSort fun a b => a.1 ≤ b.1).map Prod.fst).Nodup := (hperm.map _).nodup_iff.2 hnodup
    exact ((List.pairwise_map.2 hsorted).and hdistinct).imp fun h => lt_of_le_of_ne h.1 h.2
  · unfold finish at h
    simp only [Bool.false_eq_true, if_false] at h
    split at h
    · cases h
    · rename_i c' hfrom
      cases h
      obtain ⟨hne, hall, hsig⟩ := (tryFrom_eq_some_iff _ _).1 hfrom
      refine ⟨?_, ?_, ?_⟩
      · intro hnil
        rw [hnil] at hne
        exact hne rfl
      · intro v hv
        exact hall v.2 (List.mem_map_of_mem hv)
      · rw [hsig, List.map_map]
        rfl

/-- a checkpoint that is returned has `threshold` signatures, by validators of the list in the order of the list -/
theorem fetchCheckpoint_signedBy {C : Crypto} {A : Answers} {validators : List H256} {threshold : ℕ} {index : UInt32}
    (ht : 1 ≤ threshold) {arrivals : List (List Response)} (ha : Completion A validators threshold arrivals)
    {c : MultisigSignedCheckpoint} (h : fetchCheckpoint C false validators threshold index arrivals = .ok (some c)) :
    c.checkpoint.index = index ∧ c.signatures.length = threshold ∧ ∃ positions, SignedBy C validators c positions := by
  rw [fetchCheckpoint_eq] at h
  cases hr : Tally.run threshold [] (arrivals.flatten.map (event C index)) with
  | undecided =>
    rw [hr] at h
    cases h
  | fault =>
    rw [hr] at h
    cases h
  | quorum root votes =>
    rw [hr] at h
    obtain ⟨hlen, hnodup, hvote⟩ := quorum_votes ht ha hr
    obtain ⟨sorted, hperm, hlt, hne, hvalue, hsig⟩ := finish_votes hnodup h
    refine ⟨?_, ?_, sorted.map Prod.fst, hlt, ?_⟩
    · obtain ⟨v, hv⟩ := List.exists_mem_of_ne_nil sorted hne
      rw [← hvalue v hv]
      exact (hvote v (hperm.mem_iff.1 hv)).1
    · rw [hsig, List.length_map, hperm.length_eq, hlen]
    · rw [hsig, List.forall₂_map_left_iff, List.forall₂_map_right_iff]
      refine List.forall₂_same.2 ?_
      intro v hv
      obtain ⟨-, signer, hrec, hval⟩ := hvote v (hperm.mem_iff.1 hv)
      rw [SignedCheckpoint.recover, hvalue v hv] at hrec
      exact ⟨signer, hrec, hval⟩

/-! ## When a checkpoint is always found -/

theorem finish_some_iff (C : Crypto) (aleo : Bool) (validators : List H256) (votes : List (ℕ × SignedCheckpoint)) :
    (∃ c, finish C aleo validators votes = .ok (some c)) ↔ votes ≠ [] ∧ Tally.Agree (fun v => v.2.value) votes := by
  have hperm := List.perm_insertionSort (fun a b : ℕ × SignedCheckpoint => a.1 ≤ b.1) votes
  have hordered : (∃ c, finish C aleo validators votes = .ok (some c)) ↔
      ∃ c, MultisigSignedCheckpoint.tryFrom ((votes.insertionSort fun a b => a.1 ≤ b.1).map Prod.snd) = some c := by
    unfold finish
    dsimp only
    generalize MultisigSignedCheckpoint.tryFrom _ = result
    cases result <;> simp
  simp only [hordered, tryFrom_eq_some_iff]
  constructor
  · rintro ⟨c, hne, hall, -⟩
    refine ⟨?_, ?_⟩
    · rintro rfl
      exact hne rfl
    · intro a ha b hb
      dsimp only
      rw [hall a.2 (List.mem_map_of_mem (hperm.mem_iff.2 ha)), hall b.2 (List.mem_map_of_mem (hperm.mem_iff.2 hb))]
  · rintro ⟨hne, hag⟩
    obtain ⟨v, hv⟩ := List.exists_mem_of_ne_nil _ hne
    refine ⟨⟨v.2.value, _⟩, ?_, ?_, rfl⟩
    · exact List.ne_nil_of_mem (List.mem_map_of_mem (hperm.mem_iff.2 hv))
    · intro s hs
      obtain ⟨x, hx, rfl⟩ := List.mem_map.1 hs
      exact hag x (hperm.mem_iff.1 hx) v hv

/-- the answers, as events by batch -/
def events (C : Crypto) (A : Answers) (validators : List H256) (threshold : ℕ) (index : UInt32) :
    List (List (Tally.Event H256 (ℕ × SignedCheckpoint))) :=
  (batches A validators threshold).map (List.map (event C index))

/-- up to the first batch in which some root has enough votes, every signature at the index can be recovered, and the
votes for every root with enough of them are for one checkpoint, unless one vote is enough -/
def Unblocked (C : Crypto) (A : Answers) (validators : List H256) (threshold : ℕ) (index : UInt32) : Prop :=
  Tally.Unblocked threshold (fun v => v.2.value) (events C A validators threshold index)

section Orders

variable {C : Crypto} {A : Answers} {validators : List H256} {threshold : ℕ} {index : UInt32}

theorem map_perm {batch : List Response} {part : List (Tally.Event H256 (ℕ × SignedCheckpoint))}
    (h : part.Perm (batch.map (event C index))) : ∃ arrival : List Response, arrival.Perm batch ∧ part = arrival.map (event C index) := by
  have hrel : List.Forall₂ (fun e r => e = event C index r) (batch.map (event C index)) batch := by
    rw [List.forall₂_map_left_iff]
    exact List.forall₂_same.2 fun r _ => rfl
  obtain ⟨arrival, hmap, hperm⟩ := List.perm_comp_forall₂ h hrel
  refine ⟨arrival, hperm, ?_⟩
  rw [← List.forall₂_eq_eq_eq, List.forall₂_map_right_iff]
  exact hmap

/-- the orders of arrival of the events are those of the fetches -/
theorem arrival_iff (es : List (Tally.Event H256 (ℕ × SignedCheckpoint))) :
    Tally.Arrival (events C A validators threshold index) es ↔
      ∃ arrivals, Completion A validators threshold arrivals ∧ es = arrivals.flatten.map (event C index) := by
  constructor
  · rintro ⟨parts, hparts, rfl⟩
    unfold events at hparts
    rw [List.forall₂_map_right_iff] at hparts
    have hex : ∀ (bs : List (List Response)) (ps : List (List (Tally.Event H256 (ℕ × SignedCheckpoint)))),
        List.Forall₂ (fun p b => p.Perm (b.map (event C index))) ps bs →
        ∃ arrivals, List.Forall₂ List.Perm arrivals bs ∧ ps = arrivals.map (List.map (event C index)) := by
      intro bs ps h
      induction h with
      | nil => exact ⟨[], .nil, rfl⟩
      | cons hp _ ih =>
        obtain ⟨arrivals, ha, rfl⟩ := ih
        obtain ⟨arrival, hperm, rfl⟩ := map_perm hp
        exact ⟨arrival :: arrivals, .cons hperm ha, rfl⟩
    obtain ⟨arrivals, ha, rfl⟩ := hex _ _ hparts
    exact ⟨arrivals, ha, List.map_flatten.symm⟩
  · rintro ⟨arrivals, ha, rfl⟩
    refine ⟨arrivals.map (List.map (event C index)), ?_, List.map_flatten⟩
    unfold events
    rw [List.forall₂_map_left_iff, List.forall₂_map_right_iff]
    exact ha.imp fun _ _ h => h.map _

theorem fetchCheckpoint_some_iff (aleo : Bool) (ht : 1 ≤ threshold) (arrivals : List (List Response)) :
    (∃ c, fetchCheckpoint C aleo validators threshold index arrivals = .ok (some c)) ↔
      ∃ root votes, Tally.run threshold [] (arrivals.flatten.map (event C index)) = .quorum root votes ∧
        Tally.Agree (fun v => v.2.value) votes := by
  rw [fetchCheckpoint_eq]
  cases hr : Tally.run threshold [] (arrivals.flatten.map (event C index)) with
  | undecided => simp [conclude]
  | fault => simp [conclude]
  | quorum root votes =>
    have hlen : votes.length = threshold := (Tally.run_quorum (fun _ => ht) hr).1
    have hne : votes ≠ [] := by
      rintro rfl
      simp at hlen
      omega
    rw [conclude, finish_some_iff]
    simp [hne]

end Orders

/-- **When a minority does not block the quorum.** Every order of completion returns a checkpoint exactly when the answers
are unblocked. -/
theorem always_found_iff (C : Crypto) (aleo : Bool) (A : Answers) (validators : List H256) (threshold : ℕ)
    (index : UInt32) (ht : 1 ≤ threshold) :
    (∀ arrivals, Completion A validators threshold arrivals →
      ∃ c, fetchCheckpoint C aleo validators threshold index arrivals = .ok (some c)) ↔
      Unblocked C A validators threshold index := by
  rw [Unblocked, ← Tally.always_agrees_iff ht]
  constructor
  · intro h es hes
    obtain ⟨arrivals, ha, rfl⟩ := (arrival_iff es).1 hes
    exact (fetchCheckpoint_some_iff aleo ht arrivals).1 (h arrivals ha)
  · intro h arrivals ha
    exact (fetchCheckpoint_some_iff aleo ht arrivals).2 (h _ ((arrival_iff _).2 ⟨arrivals, ha, rfl⟩))

/-- at least `threshold` validators answer with a correctly signed checkpoint of one value at the index -/
def Quorum (C : Crypto) (A : Answers) (validators : List H256) (threshold : ℕ) (index : UInt32) : Prop :=
  ∃ value : CheckpointWithMessageId, value.index = index ∧
    threshold ≤ (validators.zipIdx.filter fun x => A.hasSyncer (toH160 x.1) && match A.answer x.2 with
      | .ok (some signed) => decide (signed.value = value ∧ (signed.recover C).map toH256 = some x.1)
      | _ => false).length

/-- a signature holds its signer in `r` and the signed digest in `s`; one with `v = 0` cannot be recovered -/
def toyCrypto : Crypto where
  keccak bs := ⟨be 32 (ofBe bs % (2 ^ 256 - 189)), be_length _ _⟩
  recover digest sig :=
    if sig.1.getLast? = some 0 then none
    else if (sig.1.drop 32).take 32 = digest.1 then some ⟨sig.1.take 20, by rw [List.length_take, sig.2]; rfl⟩
    else some ⟨List.replicate 20 0xff, by rw [List.length_replicate]⟩

def toyValidator (n : ℕ) : H256 := toH256 ⟨be 20 n, be_length _ _⟩

def toyWord (n : ℕ) : H256 := ⟨be 32 n, be_length _ _⟩

def toyCheckpoint (root messageId : ℕ) : CheckpointWithMessageId :=
  ⟨toyWord 7, 1, toyWord root, 5, toyWord messageId⟩

/-- signed by `toyValidator n` when `v` is not zero -/
def toySigned (c : CheckpointWithMessageId) (n : ℕ) (v : UInt64) : SignedCheckpoint :=
  ⟨c, ⟨Fin.ofNat _ (n * 2 ^ 96), Fin.ofNat _ (ofBe (c.ethSignedMessageHash toyCrypto).1), v⟩⟩

theorem toyCrypto_recover {digest : H256} {sig : Word 65} {signer : H160} {rest : List UInt8} (hrest : rest.length = 12)
    (hsig : sig.1 = signer.1 ++ rest ++ digest.1 ++ [27]) : toyCrypto.recover digest sig = some signer := by
  have hfront : (signer.1 ++ rest).length = 32 := by rw [List.length_append, signer.2, hrest]
  have hlast : sig.1.getLast? ≠ some 0 := by
    rw [hsig, List.getLast?_concat]
    decide
  have hdigest : (sig.1.drop 32).take 32 = digest.1 := by
    rw [hsig, List.append_assoc, List.drop_left' hfront, List.take_left' digest.2]
  have hsigner : sig.1.take 20 = signer.1 := by
    rw [hsig, List.append_assoc, List.append_assoc, List.take_left' signer.2]
  simp only [toyCrypto, if_neg hlast, if_pos hdigest, hsigner]

/-- what a toy validator signs is recovered to it -/
theorem toySigned_recover (c : CheckpointWithMessageId) {n : ℕ} (hn : n < 2 ^ 160) :
    (toySigned c n 27).recover toyCrypto = some ⟨be 20 n, be_length _ _⟩ := by
  have hr : be 32 (Fin.ofNat (2 ^ 256) (n * 2 ^ 96)).val = be 20 n ++ be 12 (n * 2 ^ 96) := by
    have hlt : n * 2 ^ 96 < 2 ^ 256 := by omega
    rw [Fin.val_ofNat, Nat.mod_eq_of_lt hlt, be_add 20 12, show 256 ^ 12 = 2 ^ 96 from rfl,
      Nat.mul_div_cancel _ (Nat.two_pow_pos _)]
  have hs (digest : H256) : be 32 (Fin.ofNat (2 ^ 256) (ofBe digest.1)).val = digest.1 := by
    have hlt := ofBe_lt digest.1
    have hbytes := be_ofBe digest.1
    rw [digest.2] at hlt hbytes
    rw [Fin.val_ofNat, show 2 ^ 256 = 256 ^ 32 from rfl, Nat.mod_eq_of_lt hlt, hbytes]
  refine toyCrypto_recover (be_length 12 (n * 2 ^ 96)) ?_
  simp only [Signature.toBytes, toySigned, hr, hs]
  rfl

@[simp]
theorem toySigned_value (c : CheckpointWithMessageId) (n : ℕ) (v : UInt64) : (toySigned c n v).value = c := rfl

theorem event_toySigned {c : CheckpointWithMessageId} {index : UInt32} (hc : c.index = index) (i : ℕ) {n : ℕ}
    (hn : n < 2 ^ 160) :
    event toyCrypto index ⟨i, toyValidator n, .ok (some (toySigned c n 27))⟩ = .ballot c.root (i, toySigned c n 27) := by
  simp [event, toySigned_recover c hn, hc, toyValidator]

/-- two validators of three, the first one without an answer -/
theorem always_found_two :
    let A : Answers := ⟨fun _ => true, fun i => if i = 0 then .error () else .ok (some (toySigned (toyCheckpoint 1 2) i 27))⟩
    let validators := [toyValidator 0, toyValidator 1, toyValidator 2]
    1 ≤ 2 ∧ ∀ arrivals, Completion A validators 2 arrivals →
      ∃ c, fetchCheckpoint toyCrypto false validators 2 5 arrivals = .ok (some c) := by
  intro A validators
  let vote (i : ℕ) : Tally.Event H256 (ℕ × SignedCheckpoint) :=
    .ballot (toyCheckpoint 1 2).root (i, toySigned (toyCheckpoint 1 2) i 27)
  have hevents : events toyCrypto A validators 2 5 = [[.skip, vote 1, vote 2]] := by
    have hsize : batchSize 2 = 3 := by decide
    have hchunks : chunks 3 validators.zipIdx = [validators.zipIdx] := by simp [chunks, validators]
    have hvote (i : ℕ) (hi : i < 2 ^ 160) := event_toySigned (show (toyCheckpoint 1 2).index = 5 from rfl) i hi
    have hfutures : futures A validators.zipIdx = [⟨0, toyValidator 0, .error ()⟩,
      ⟨1, toyValidator 1, .ok (some (toySigned (toyCheckpoint 1 2) 1 27))⟩,
      ⟨2, toyValidator 2, .ok (some (toySigned (toyCheckpoint 1 2) 2 27))⟩] := rfl
    rw [events, batches, hsize, hchunks, List.map_singleton, List.map_singleton, hfutures, List.map_cons, List.map_cons,
      List.map_singleton, hvote 1 (by decide), hvote 2 (by decide)]
    rfl
  refine ⟨by decide, (always_found_iff toyCrypto false A validators 2 5 (by decide)).2 ?_⟩
  rw [Unblocked, hevents]
  refine ⟨0, by decide, fun _ => Nat.two_pos, ⟨(toyCheckpoint 1 2).root, by decide +kernel⟩, by decide +kernel, Or.inr ?_⟩
  intro key _
  have hvalue : ∀ v, Tally.Event.ballot key v ∈ [.skip, vote 1, vote 2] → v.2.value = toyCheckpoint 1 2 := by
    intro v hv
    simp only [vote, List.mem_cons, reduceCtorEq, Tally.Event.ballot.injEq, List.not_mem_nil, or_false, false_or] at hv
    rcases hv with ⟨-, rfl⟩ | ⟨-, rfl⟩ <;> rfl
  intro a ha b hb
  dsimp only
  rw [hvalue a (Tally.mem_ballots.1 ha), hvalue b (Tally.mem_ballots.1 hb)]

/-- a validator whose signature cannot be recovered comes first, and the second one, enough by itself, is not asked -/
theorem malformed_signature_blocks :
    let A : Answers := ⟨fun _ => true, fun i => .ok (some (toySigned (toyCheckpoint 1 2) i (if i = 0 then 0 else 27)))⟩
    let validators := [toyValidator 0, toyValidator 1]
    1 ≤ 1 ∧ Quorum toyCrypto A validators 1 5 ∧ ∃ arrivals, Completion A validators 1 arrivals ∧
      ¬ ∃ c, fetchCheckpoint toyCrypto false validators 1 5 arrivals = .ok (some c) := by
  intro A validators
  refine ⟨le_rfl, ⟨toyCheckpoint 1 2, rfl, by decide +kernel⟩, batches A validators 1, ?_, ?_⟩
  · exact batches_completion A validators 1
  · rintro ⟨c, hc⟩
    have herr : (fetchCheckpoint toyCrypto false validators 1 5 (batches A validators 1)).toOption = none := by
      decide +kernel
    rw [hc] at herr
    cases herr

end Hyperlane.Relayer
