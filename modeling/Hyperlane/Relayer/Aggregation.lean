/-
Aggregation metadata: the relayer's builder (agents/relayer/src/msg/metadata/aggregation.rs) and the contract that reads
it (contracts/isms/aggregation/AbstractAggregationIsm.sol, contracts/isms/libs/AggregationIsmMetadata.sol).

The metadata is a table of byte ranges, one for each sub-module, followed by the sub-modules' metadata. The table starts
as zeros and each range is written over its place when its metadata has been appended. The contract takes a sub-module as
present when its range does not start at zero, verifies every present one, counts the threshold down once for each, and
requires that it ends at zero. A revert is `none`.

- `format_decodes`: every supplied entry is found at its range and no other index is present.
- `collect_spec`: the slow path stops at `threshold` verified sub-modules.
- `aggregation_accepted`: what the slow path emits is accepted when the sub-modules accept their own metadata.
-/
import Hyperlane.Core.Bytes
import Hyperlane.Core.Tally

namespace Hyperlane.Relayer

open Hyperlane.Bytes

/-! ## The relayer -/

def METADATA_RANGE_SIZE : ℕ := 4

structure SubModuleMetadata where
  index : ℕ
  metadata : List UInt8
deriving DecidableEq

/-- `encode_byte_index` -/
def encodeByteIndex (i : ℕ) : List UInt8 := be 4 (i % 2 ^ 32)

/-- one round of `format_metadata`; `none` is a range outside the buffer -/
def formatEntry (buffer : List UInt8) (entry : SubModuleMetadata) : Option (List UInt8) :=
  let rangeStart := buffer.length
  let buffer := buffer ++ entry.metadata
  let rangeEnd := buffer.length
  let encodedRangeStart := METADATA_RANGE_SIZE * 2 * entry.index
  if encodedRangeStart + METADATA_RANGE_SIZE * 2 ≤ buffer.length then
    some (overwrite buffer encodedRangeStart (encodeByteIndex rangeStart ++ encodeByteIndex rangeEnd))
  else none

/-- `format_metadata` -/
def formatMetadata (metadatas : List SubModuleMetadata) (ismCount : ℕ) : Option (List UInt8) :=
  metadatas.foldlM formatEntry (List.replicate (METADATA_RANGE_SIZE * 2 * ismCount) 0)

/-- `MetadataBuildError`, with the reorg event of a refusal as a parameter -/
inductive MetadataBuildError (R : Type) where
  | FailedToBuild (text : String)
  | Refused (reason : R)
  | CouldNotFetch
  | AwaitingValidatorSignatures
  | UnsupportedModuleType (moduleType : ℕ)
  | MaxIsmDepthExceeded (depth : ℕ)
  | MaxIsmCountReached (count : ℕ)
  | MaxValidatorCountReached (count : ℕ)
  | AggregationThresholdNotMet (threshold : ℕ)
  | FastPathError (text : String)
  | MerkleRootMismatch (root canonicalRoot : Word 32)

inductive ModuleBuildOutcome (R : Type) where
  | Refused (reason : R)
  | AwaitingSignatures
  | Failed
  | Verified (entry : SubModuleMetadata) (gas : ℕ)

/-- a sub-module's future: its build, and the dry run of what it built -/
abbrev SubBuild (R : Type) := Except (MetadataBuildError R) (List UInt8 × Except Unit (Option ℕ))

/-- the outcome of the sub-module at `index` -/
def moduleOutcome {R : Type} (index : ℕ) : SubBuild R → ModuleBuildOutcome R
  | .error (.Refused reason) => .Refused reason
  | .error .AwaitingValidatorSignatures => .AwaitingSignatures
  | .error _ => .Failed
  | .ok (metadata, .ok (some gas)) => .Verified ⟨index, metadata⟩ gas
  | .ok _ => .Failed

/-- what the slow path collects -/
structure Collected where
  metasAndGas : List (SubModuleMetadata × ℕ)
  hasAnyError : Bool
  allErrorsAwaiting : Bool

/-- the loop of the slow path over the outcomes, in order of completion -/
def collect {R : Type} (threshold : ℕ) : Collected → List (ModuleBuildOutcome R) → Except (MetadataBuildError R) Collected
  | s, [] => .ok s
  | _, .Refused reason :: _ => .error (.Refused reason)
  | s, .AwaitingSignatures :: rest => collect threshold { s with hasAnyError := true } rest
  | s, .Failed :: rest => collect threshold { s with hasAnyError := true, allErrorsAwaiting := false } rest
  | s, .Verified entry gas :: rest =>
    let s := { s with metasAndGas := s.metasAndGas ++ [(entry, gas)] }
    if threshold ≤ s.metasAndGas.length then .ok s else collect threshold s rest

/-- the slow path of `build`; `none` is a panic in `format_metadata` -/
def slowPath {R : Type} (threshold ismCount : ℕ) (outcomes : List (ModuleBuildOutcome R)) :
    Option (Except (MetadataBuildError R) (List UInt8)) :=
  match collect threshold ⟨[], false, true⟩ outcomes with
  | .error e => some (.error e)
  | .ok s =>
    if s.metasAndGas.length < threshold then
      if s.hasAnyError && s.allErrorsAwaiting then some (.error .AwaitingValidatorSignatures)
      else some (.error (.AggregationThresholdNotMet (threshold % 2 ^ 32)))
    else
      let valid := (s.metasAndGas.insertionSort fun a b => a.1.index ≤ b.1.index).map Prod.fst
      (formatMetadata valid ismCount).map .ok

/-- the orders in which the sub-modules can complete -/
def Completes {R : Type} (builds : List (SubBuild R)) (outcomes : List (ModuleBuildOutcome R)) : Prop :=
  outcomes.Perm (builds.zipIdx.map fun x => moduleOutcome x.2 x.1)

/-! ## The contract -/

namespace AggregationIsmMetadata

/-- `_metadataRange` -/
def metadataRange (metadata : List UInt8) (index : ℕ) : Option (UInt32 × UInt32) :=
  let start := index * 4 * 2
  match uint32At metadata start, uint32At metadata (start + 4) with
  | some s, some e => some (s, e)
  | _, _ => none

def hasMetadata (metadata : List UInt8) (index : ℕ) : Option Bool :=
  (metadataRange metadata index).map fun r => decide (0 < r.1)

def metadataAt (metadata : List UInt8) (index : ℕ) : Option (List UInt8) :=
  (metadataRange metadata index).bind fun r => slice metadata r.1.toNat r.2.toNat

end AggregationIsmMetadata

/-- the loop of `verify` from the sub-module `i` on: the threshold that is left. The counters are `uint8` -/
def aggregationLoop (metadata : List UInt8) : List (List UInt8 → Option Bool) → ℕ → ℕ → Option ℕ
  | [], _, threshold => some threshold
  | ism :: isms, i, threshold =>
    let next (threshold : ℕ) : Option ℕ := if i < 255 then aggregationLoop metadata isms (i + 1) threshold else none
    match AggregationIsmMetadata.hasMetadata metadata i with
    | none => none
    | some false => next threshold
    | some true =>
      match AggregationIsmMetadata.metadataAt metadata i with
      | none => none
      | some sub =>
        match ism sub with
        | some true => if threshold = 0 then none else next (threshold - 1)
        | _ => none

/-- `AbstractAggregationIsm.verify`, with the sub-modules' `verify` on the message -/
def aggregationVerify (isms : List (List UInt8 → Option Bool)) (threshold : ℕ) (metadata : List UInt8) : Option Bool :=
  match aggregationLoop metadata isms 0 threshold with
  | some 0 => some true
  | _ => none

/-! ## The table of ranges -/

/-- the buffer after some entries: every one of them is found at its range, and the other ranges are zero -/
structure Table (n : ℕ) (entries : List SubModuleMetadata) (buffer : List UInt8) : Prop where
  size : buffer.length = 8 * n + (entries.map fun m => m.metadata.length).sum
  entry : ∀ m ∈ entries, ∃ start, 8 * n ≤ start ∧ start + m.metadata.length ≤ buffer.length ∧
    slice buffer (8 * m.index) (8 * m.index + 8) =
      some (encodeByteIndex start ++ encodeByteIndex (start + m.metadata.length)) ∧
    slice buffer start (start + m.metadata.length) = some m.metadata
  absent : ∀ i < n, i ∉ entries.map SubModuleMetadata.index →
    slice buffer (8 * i) (8 * i + 8) = some (encodeByteIndex 0 ++ encodeByteIndex 0)

@[simp]
theorem encodeByteIndex_length (i : ℕ) : (encodeByteIndex i).length = 4 := be_length _ _

theorem table_nil (n : ℕ) : Table n [] (List.replicate (8 * n) 0) := by
  refine ⟨by simp, by simp, ?_⟩
  intro i hi _
  have hsplit : List.replicate (8 * n) (0 : UInt8) =
      List.replicate (8 * i) 0 ++ (List.replicate 8 0 ++ List.replicate (8 * n - 8 * i - 8) 0) := by
    rw [← List.replicate_add, ← List.replicate_add]
    congr 1
    omega
  rw [hsplit]
  exact slice_segment _ (List.replicate 8 0) _ (by simp) (by simp)

/-- one round: the entry's range and its bytes are written, and all else of the buffer stays -/
theorem formatEntry_spec {buffer : List UInt8} {m : SubModuleMetadata} (h : 8 * m.index + 8 ≤ buffer.length) :
    ∃ buffer', formatEntry buffer m = some buffer' ∧ buffer'.length = buffer.length + m.metadata.length ∧
      slice buffer' (8 * m.index) (8 * m.index + 8) =
        some (encodeByteIndex buffer.length ++ encodeByteIndex (buffer.length + m.metadata.length)) ∧
      slice buffer' buffer.length (buffer.length + m.metadata.length) = some m.metadata ∧
      ∀ a b, b ≤ buffer.length → b ≤ 8 * m.index ∨ 8 * m.index + 8 ≤ a → slice buffer' a b = slice buffer a b := by
  have hlen : (buffer ++ m.metadata).length = buffer.length + m.metadata.length := List.length_append
  have hwrite : (encodeByteIndex buffer.length ++ encodeByteIndex (buffer ++ m.metadata).length).length = 8 := by simp
  have hroom : 8 * m.index + (encodeByteIndex buffer.length ++ encodeByteIndex (buffer ++ m.metadata).length).length ≤
      (buffer ++ m.metadata).length := by
    rw [hwrite, hlen]
    exact h.trans (Nat.le_add_right _ _)
  refine ⟨overwrite (buffer ++ m.metadata) (8 * m.index)
    (encodeByteIndex buffer.length ++ encodeByteIndex (buffer ++ m.metadata).length), ?_, ?_, ?_, ?_, ?_⟩
  · rw [hwrite] at hroom
    exact if_pos hroom
  · rw [overwrite_length hroom, hlen]
  · have hself := slice_overwrite_self hroom
    rw [hwrite] at hself
    rw [hself, hlen]
  · have happend := slice_segment buffer m.metadata [] rfl rfl
    rw [List.append_nil] at happend
    rw [slice_overwrite_disjoint hroom (by rw [hwrite]; exact Or.inr h), happend]
  · intro a b hb hout
    rw [slice_overwrite_disjoint hroom (by rw [hwrite]; exact hout), slice_append_left hb]

theorem formatEntry_table {n : ℕ} {entries : List SubModuleMetadata} {buffer : List UInt8} (h : Table n entries buffer)
    {m : SubModuleMetadata} (hm : m.index < n) (hnew : m.index ∉ entries.map SubModuleMetadata.index) :
    ∃ buffer', formatEntry buffer m = some buffer' ∧ Table n (entries ++ [m]) buffer' := by
  have hsize := h.size
  obtain ⟨buffer', hf, hlen, hrange, hdata, hframe⟩ := formatEntry_spec (show 8 * m.index + 8 ≤ buffer.length by omega)
  refine ⟨buffer', hf, ?_, ?_, ?_⟩
  · rw [hlen, hsize]
    simp only [List.map_append, List.sum_append, List.map_cons, List.map_nil, List.sum_cons, List.sum_nil]
    omega
  · intro m' hm'
    rcases List.mem_append.1 hm' with hold | hself
    · -- an earlier entry: its range and its bytes are elsewhere
      obtain ⟨start, hge, hle, hrange', hdata'⟩ := h.entry m' hold
      have hne : m'.index ≠ m.index := by
        intro he
        exact hnew (he ▸ List.mem_map_of_mem hold)
      have hb : 8 * m'.index + 8 ≤ buffer.length := by
        obtain ⟨pre, post, hbuf, hpre, hpost⟩ := slice_some hrange'
        rw [hpost, hbuf]
        simp only [List.length_append]
        omega
      refine ⟨start, hge, by omega, ?_, ?_⟩
      · rw [hframe _ _ hb (by omega)]
        exact hrange'
      · rw [hframe _ _ hle (by omega)]
        exact hdata'
    · rw [List.mem_singleton] at hself
      subst hself
      exact ⟨buffer.length, by omega, hlen.ge, hrange, hdata⟩
  · intro i hi habs
    rw [List.map_append, List.mem_append, not_or] at habs
    have hne : i ≠ m.index := by simpa using habs.2
    rw [hframe _ _ (by omega) (by omega)]
    exact h.absent i hi habs.1

theorem foldlM_table {n : ℕ} {entries more : List SubModuleMetadata} {buffer : List UInt8} (h : Table n entries buffer)
    (hlt : ∀ m ∈ more, m.index < n) (hnodup : ((entries ++ more).map SubModuleMetadata.index).Nodup) :
    ∃ buffer', more.foldlM formatEntry buffer = some buffer' ∧ Table n (entries ++ more) buffer' := by
  induction more generalizing entries buffer with
  | nil => exact ⟨buffer, rfl, by simpa using h⟩
  | cons m more ih =>
    have hnew : m.index ∉ entries.map SubModuleMetadata.index := by
      rw [List.map_append, List.nodup_append] at hnodup
      intro hmem
      exact hnodup.2.2 _ hmem _ (List.mem_map_of_mem List.mem_cons_self) rfl
    obtain ⟨buffer', hb, htable⟩ := formatEntry_table h (hlt m List.mem_cons_self) hnew
    rw [List.append_cons] at hnodup ⊢
    obtain ⟨final, hf, hfinal⟩ := ih htable (fun m' hm' => hlt m' (List.mem_cons_of_mem _ hm')) hnodup
    refine ⟨final, ?_, hfinal⟩
    rw [List.foldlM_cons, hb]
    exact hf

theorem uint32At_range {buffer : List UInt8} {i start stop : ℕ}
    (h : slice buffer (8 * i) (8 * i + 8) = some (encodeByteIndex start ++ encodeByteIndex stop)) :
    AggregationIsmMetadata.metadataRange buffer i = some (UInt32.ofNat start, UInt32.ofNat stop) := by
  have hword : ∀ (x a : ℕ), slice buffer a (a + 4) = some (encodeByteIndex x) → uint32At buffer a = some (UInt32.ofNat x) := by
    intro x a hx
    have hlt : x % 2 ^ 32 < 256 ^ 4 := Nat.mod_lt _ (by decide)
    rw [uint32At, hx, Option.map_some, encodeByteIndex, ofBe_be hlt]
    congr 1
    apply UInt32.toNat_inj.1
    simp
  obtain ⟨hfirst, hsecond⟩ := slice_split h
  rw [encodeByteIndex_length] at hfirst hsecond
  have hstart : i * 4 * 2 = 8 * i := by ring
  unfold AggregationIsmMetadata.metadataRange
  simp only [hstart, hword start (8 * i) hfirst, hword stop (8 * i + 4) hsecond]

/-- what the contract reads from a table: present exactly for the entries, with their bytes -/
structure Decodes (n : ℕ) (entries : List SubModuleMetadata) (metadata : List UInt8) : Prop where
  present : ∀ i < n, AggregationIsmMetadata.hasMetadata metadata i =
    some (decide (i ∈ entries.map SubModuleMetadata.index))
  bytes : ∀ m ∈ entries, AggregationIsmMetadata.metadataAt metadata m.index = some m.metadata

theorem Table.decodes {n : ℕ} {entries : List SubModuleMetadata} {buffer : List UInt8} (h : Table n entries buffer)
    (hsize : buffer.length < 2 ^ 32) : Decodes n entries buffer := by
  refine ⟨?_, ?_⟩
  · intro i hi
    unfold AggregationIsmMetadata.hasMetadata
    by_cases hmem : i ∈ entries.map SubModuleMetadata.index
    · obtain ⟨m, hm, rfl⟩ := List.mem_map.1 hmem
      obtain ⟨start, hge, hle, hrange, -⟩ := h.entry m hm
      -- the ranges start after the table, so not at zero
      have hpos : 0 < UInt32.ofNat start := by
        rw [UInt32.lt_iff_toNat_lt, UInt32.toNat_ofNat_of_lt' (by simp [UInt32.size]; omega)]
        exact lt_of_lt_of_le (by simp; omega) hge
      rw [uint32At_range hrange, Option.map_some, decide_eq_true hpos, decide_eq_true hmem]
    · rw [uint32At_range (h.absent i hi hmem), Option.map_some, decide_eq_false hmem]
      rfl
  · intro m hm
    obtain ⟨start, hge, hle, hrange, hdata⟩ := h.entry m hm
    unfold AggregationIsmMetadata.metadataAt
    rw [uint32At_range hrange, Option.bind_some, UInt32.toNat_ofNat_of_lt' (by simp [UInt32.size]; omega),
      UInt32.toNat_ofNat_of_lt' (by simp [UInt32.size]; omega), hdata]

/-- every supplied entry is found at its range, and no other index has one -/
theorem format_decodes {n : ℕ} {entries : List SubModuleMetadata} (hlt : ∀ m ∈ entries, m.index < n)
    (hnodup : (entries.map SubModuleMetadata.index).Nodup)
    (hsize : 8 * n + (entries.map fun m => m.metadata.length).sum < 2 ^ 32) :
    ∃ metadata, formatMetadata entries n = some metadata ∧ Decodes n entries metadata := by
  obtain ⟨metadata, hf, htable⟩ := foldlM_table (table_nil n) hlt hnodup
  refine ⟨metadata, hf, htable.decodes ?_⟩
  rw [htable.size]
  exact hsize

/-! ## The count of the threshold -/

/-- from sub-module `i` on, the threshold goes down once for every entry -/
theorem aggregationLoop_decodes {n : ℕ} {entries : List SubModuleMetadata} {metadata : List UInt8}
    (hd : Decodes n entries metadata) (hn : n ≤ 255) {isms : List (List UInt8 → Option Bool)} {i : ℕ}
    (hi : i + isms.length = n)
    (haccept : ∀ m ∈ entries, ∀ j (hj : j < isms.length), m.index = i + j → isms[j] m.metadata = some true)
    {threshold : ℕ}
    (ht : (List.range' i isms.length).countP (fun j => j ∈ entries.map SubModuleMetadata.index) ≤ threshold) :
    aggregationLoop metadata isms i threshold =
      some (threshold - (List.range' i isms.length).countP fun j => j ∈ entries.map SubModuleMetadata.index) := by
  induction isms generalizing i threshold with
  | nil => rfl
  | cons ism isms ih =>
    rw [List.length_cons] at hi
    rw [List.length_cons, List.range'_succ, List.countP_cons] at ht ⊢
    have hnext : ∀ m ∈ entries, ∀ j (hj : j < isms.length), m.index = i + 1 + j → isms[j] m.metadata = some true := by
      intro m hm j hj he
      have := haccept m hm (j + 1) (by simpa using hj) (by omega)
      rwa [List.getElem_cons_succ] at this
    unfold aggregationLoop
    simp only [hd.present i (by omega)]
    by_cases hmem : i ∈ entries.map SubModuleMetadata.index
    · obtain ⟨m, hm, rfl⟩ := List.mem_map.1 hmem
      have hism : ism m.metadata = some true := haccept m hm 0 (by simp) rfl
      simp only [hmem, decide_true, if_true] at ht ⊢
      simp only [hd.bytes m hm, hism]
      rw [if_neg (by omega), if_pos (by omega), ih (by omega) hnext (by omega)]
      congr 1
      omega
    · simp only [hmem, decide_false, Bool.false_eq_true, if_false, Nat.add_zero] at ht ⊢
      rw [if_pos (by omega), ih (by omega) hnext ht]

theorem countP_indices {n : ℕ} {entries : List SubModuleMetadata} (hlt : ∀ m ∈ entries, m.index < n)
    (hnodup : (entries.map SubModuleMetadata.index).Nodup) :
    (List.range' 0 n).countP (fun j => j ∈ entries.map SubModuleMetadata.index) = entries.length := by
  rw [List.countP_eq_length_filter, ← List.length_map SubModuleMetadata.index]
  apply List.Perm.length_eq
  rw [List.perm_ext_iff_of_nodup (List.Nodup.filter _ List.nodup_range') hnodup]
  intro j
  rw [List.mem_filter, decide_eq_true_eq, List.mem_range'_1]
  constructor
  · exact fun h => h.2
  · intro hj
    obtain ⟨m, hm, rfl⟩ := List.mem_map.1 hj
    exact ⟨⟨Nat.zero_le _, by simpa using hlt m hm⟩, hj⟩

/-- metadata of exactly `threshold` sub-modules that accept it is accepted -/
theorem aggregationVerify_decodes {entries : List SubModuleMetadata} {metadata : List UInt8}
    {isms : List (List UInt8 → Option Bool)} (hd : Decodes isms.length entries metadata) (hn : isms.length ≤ 255)
    (hlt : ∀ m ∈ entries, m.index < isms.length) (hnodup : (entries.map SubModuleMetadata.index).Nodup)
    (haccept : ∀ m ∈ entries, ∀ (h : m.index < isms.length), isms[m.index] m.metadata = some true) :
    aggregationVerify isms entries.length metadata = some true := by
  have hcount := countP_indices hlt hnodup
  have hloop := aggregationLoop_decodes hd hn (i := 0) (Nat.zero_add _)
    (fun m hm j hj he => by
      obtain rfl : m.index = j := by omega
      exact haccept m hm hj) hcount.le
  rw [hcount, Nat.sub_self] at hloop
  simp only [aggregationVerify, hloop]

/-! ## The slow path -/

section SlowPath

variable {R : Type}

def ModuleBuildOutcome.entry : ModuleBuildOutcome R → Option SubModuleMetadata
  | .Verified entry _ => some entry
  | _ => none

/-- the loop takes verified sub-modules in order of completion, and stops at `threshold` of them -/
theorem collect_spec {threshold : ℕ} {outcomes : List (ModuleBuildOutcome R)} {s s' : Collected}
    (hs : s.metasAndGas.length < threshold) (h : collect threshold s outcomes = .ok s') :
    s'.metasAndGas.length ≤ threshold ∧ ∃ taken, taken.Sublist (outcomes.filterMap ModuleBuildOutcome.entry) ∧
      s'.metasAndGas.map Prod.fst = s.metasAndGas.map Prod.fst ++ taken := by
  induction outcomes generalizing s with
  | nil =>
    obtain rfl : s = s' := Except.ok.inj h
    exact ⟨hs.le, [], List.Sublist.refl _, (List.append_nil _).symm⟩
  | cons o outcomes ih =>
    cases o with
    | Refused reason => cases h
    | AwaitingSignatures => exact ih (s := { s with hasAnyError := true }) hs h
    | Failed => exact ih (s := { s with hasAnyError := true, allErrorsAwaiting := false }) hs h
    | Verified entry gas =>
      have hlen : (s.metasAndGas ++ [(entry, gas)]).length = s.metasAndGas.length + 1 := List.length_append
      have hverified : (ModuleBuildOutcome.Verified entry gas :: outcomes).filterMap ModuleBuildOutcome.entry =
          entry :: outcomes.filterMap (ModuleBuildOutcome.entry (R := R)) := rfl
      rw [collect] at h
      rw [hverified]
      simp only at h
      split_ifs at h with hfull
      · obtain rfl := Except.ok.inj h
        refine ⟨by rw [hlen]; exact hs, [entry], ?_, List.map_append⟩
        exact (List.nil_sublist _).cons_cons entry
      · obtain ⟨hle, taken, hsub, heq⟩ := ih (not_le.1 hfull) h
        refine ⟨hle, entry :: taken, hsub.cons_cons entry, ?_⟩
        rw [heq, List.map_append, List.append_assoc]
        rfl

theorem moduleOutcome_index {index : ℕ} {build : SubBuild R} {m : SubModuleMetadata}
    (h : (moduleOutcome index build).entry = some m) : m.index = index := by
  unfold moduleOutcome at h
  split at h <;> simp only [ModuleBuildOutcome.entry, Option.some.injEq, reduceCtorEq] at h
  exact h ▸ rfl

theorem verified_indices (builds : List (SubBuild R)) :
    (((builds.zipIdx.map fun x => moduleOutcome x.2 x.1).filterMap ModuleBuildOutcome.entry).map
      SubModuleMetadata.index).Sublist (List.range' 0 builds.length) := by
  rw [List.filterMap_map, ← List.zipIdx_map_snd 0 builds]
  apply Tally.filterMap_keys_sublist
  intro x m hm
  exact moduleOutcome_index hm

/-- the verified sub-modules have their own indices, whatever the order of completion -/
theorem Completes.indices {builds : List (SubBuild R)} {outcomes : List (ModuleBuildOutcome R)}
    (h : Completes builds outcomes) :
    ((outcomes.filterMap ModuleBuildOutcome.entry).map SubModuleMetadata.index).Nodup ∧
      ∀ m ∈ outcomes.filterMap ModuleBuildOutcome.entry, m.index < builds.length := by
  have hperm := (h.filterMap ModuleBuildOutcome.entry).map SubModuleMetadata.index
  have hsub := verified_indices builds
  refine ⟨hperm.nodup_iff.2 (List.Nodup.sublist hsub List.nodup_range'), ?_⟩
  intro m hm
  have hmem := hsub.subset (hperm.subset (List.mem_map_of_mem hm))
  simpa using (List.mem_range'_1.1 hmem).2

/-- the entries that a completed loop hands to `format_metadata` -/
def Collected.valid (s : Collected) : List SubModuleMetadata :=
  (s.metasAndGas.insertionSort fun a b => a.1.index ≤ b.1.index).map Prod.fst

theorem Collected.valid_perm (s : Collected) : s.valid.Perm (s.metasAndGas.map Prod.fst) :=
  (List.perm_insertionSort _ _).map Prod.fst

theorem Collected.valid_length (s : Collected) : s.valid.length = s.metasAndGas.length := by
  rw [s.valid_perm.length_eq, List.length_map]

theorem entry_eq_some {o : ModuleBuildOutcome R} {m : SubModuleMetadata} (h : o.entry = some m) :
    ∃ gas, o = .Verified m gas := by
  cases o with
  | Verified entry gas => exact ⟨gas, by rw [Option.some.inj h]⟩
  | Refused reason => cases h
  | AwaitingSignatures => cases h
  | Failed => cases h

/-- what is handed on was verified, has distinct indices, and is not more than `threshold` entries -/
theorem collect_valid {builds : List (SubBuild R)} {outcomes : List (ModuleBuildOutcome R)}
    (hdone : Completes builds outcomes) {threshold : ℕ} (ht : 1 ≤ threshold) {s : Collected}
    (h : collect threshold ⟨[], false, true⟩ outcomes = .ok s) :
    (s.valid.map SubModuleMetadata.index).Nodup ∧ (∀ m ∈ s.valid, m.index < builds.length) ∧
      s.valid.length ≤ threshold ∧ ∀ m ∈ s.valid, ∃ gas, ModuleBuildOutcome.Verified m gas ∈ outcomes := by
  obtain ⟨hle, taken, hsub, heq⟩ := collect_spec (s := ⟨[], false, true⟩) ht h
  obtain ⟨hnodup, hlt⟩ := hdone.indices
  have hperm : s.valid.Perm taken := by
    have := s.valid_perm
    rwa [heq] at this
  refine ⟨?_, ?_, s.valid_length.trans_le hle, ?_⟩
  · exact (hperm.map _).nodup_iff.2 (hnodup.sublist (hsub.map _))
  · intro m hm
    exact hlt m (hsub.subset (hperm.subset hm))
  · intro m hm
    obtain ⟨o, ho, he⟩ := List.mem_filterMap.1 (hsub.subset (hperm.subset hm))
    obtain ⟨gas, rfl⟩ := entry_eq_some he
    exact ⟨gas, ho⟩

theorem slowPath_reached {threshold ismCount : ℕ} {outcomes : List (ModuleBuildOutcome R)} {s : Collected}
    (h : collect threshold ⟨[], false, true⟩ outcomes = .ok s) (hs : threshold ≤ s.metasAndGas.length) :
    slowPath threshold ismCount outcomes = (formatMetadata s.valid ismCount).map .ok := by
  simp only [slowPath, h, if_neg (not_lt.2 hs)]
  rfl

theorem slowPath_ok {threshold ismCount : ℕ} {outcomes : List (ModuleBuildOutcome R)} {metadata : List UInt8}
    (h : slowPath threshold ismCount outcomes = some (.ok metadata)) :
    ∃ s, collect threshold ⟨[], false, true⟩ outcomes = .ok s ∧ threshold ≤ s.metasAndGas.length ∧
      formatMetadata s.valid ismCount = some metadata := by
  cases hc : collect threshold ⟨[], false, true⟩ outcomes with
  | error e => simp [slowPath, hc] at h
  | ok s =>
    by_cases hs : threshold ≤ s.metasAndGas.length
    · rw [slowPath_reached hc hs, Option.map_eq_some_iff] at h
      obtain ⟨metadata', hf, he⟩ := h
      exact ⟨s, rfl, hs, hf.trans (congrArg some (Except.ok.inj he))⟩
    · simp only [slowPath, hc, if_pos (not_le.1 hs)] at h
      split_ifs at h <;> simp at h

/-- exactly `threshold` collected sub-modules that accept their own metadata -/
theorem slowPath_accepted {builds : List (SubBuild R)} (hn : builds.length ≤ 255) {outcomes : List (ModuleBuildOutcome R)}
    (hdone : Completes builds outcomes) {s : Collected} (ht : 1 ≤ s.metasAndGas.length)
    (hc : collect s.metasAndGas.length ⟨[], false, true⟩ outcomes = .ok s) {isms : List (List UInt8 → Option Bool)}
    (hisms : isms.length = builds.length)
    (hsize : 8 * builds.length + (s.metasAndGas.map fun x => x.1.metadata.length).sum < 2 ^ 32)
    (haccept : ∀ x ∈ s.metasAndGas, ∀ h : x.1.index < isms.length, isms[x.1.index] x.1.metadata = some true) :
    ∃ metadata, slowPath s.metasAndGas.length builds.length outcomes = some (.ok metadata) ∧
      aggregationVerify isms s.metasAndGas.length metadata = some true := by
  obtain ⟨hnodup, hlt, -, -⟩ := collect_valid hdone ht hc
  have hsum : (s.valid.map fun m => m.metadata.length).sum = (s.metasAndGas.map fun x => x.1.metadata.length).sum :=
    calc (s.valid.map fun m => m.metadata.length).sum
      _ = ((s.metasAndGas.map Prod.fst).map fun m => m.metadata.length).sum := (s.valid_perm.map _).sum_eq
      _ = (s.metasAndGas.map fun x => x.1.metadata.length).sum := by rw [List.map_map]; rfl
  rw [← hsum] at hsize
  obtain ⟨metadata, hf, hd⟩ := format_decodes hlt hnodup hsize
  refine ⟨metadata, ?_, ?_⟩
  · rw [slowPath_reached hc le_rfl, hf]
    rfl
  · rw [← hisms] at hd hn hlt
    rw [← s.valid_length]
    apply aggregationVerify_decodes hd hn hlt hnodup
    intro m hm h
    obtain ⟨x, hx, rfl⟩ := List.mem_map.1 (s.valid_perm.subset hm)
    exact haccept x hx h

/-- **The table round trip and the slow path's acceptance.** Entries of distinct sub-modules, in any order, decode to
themselves and to no other index; in every order of completion the slow path emits exactly `threshold` entries, and when
each of their sub-modules accepts its own metadata the contract returns true. -/
theorem aggregation_accepted {n : ℕ} (hn : n ≤ 255) :
    (∀ entries : List SubModuleMetadata, (∀ m ∈ entries, m.index < n) → (entries.map SubModuleMetadata.index).Nodup →
      8 * n + (entries.map fun m => m.metadata.length).sum < 2 ^ 32 →
      ∃ metadata, formatMetadata entries n = some metadata ∧
        (∀ i < n, AggregationIsmMetadata.hasMetadata metadata i =
          some (decide (i ∈ entries.map SubModuleMetadata.index))) ∧
        ∀ m ∈ entries, AggregationIsmMetadata.metadataAt metadata m.index = some m.metadata) ∧
    ∀ (R : Type) (builds : List (SubBuild R)) (outcomes : List (ModuleBuildOutcome R)) (threshold : ℕ)
      (isms : List (List UInt8 → Option Bool)),
      builds.length = n → isms.length = n → Completes builds outcomes → 1 ≤ threshold →
      (∀ metadata, slowPath threshold n outcomes = some (.ok metadata) →
        ∃ entries : List SubModuleMetadata, entries.length = threshold ∧ (entries.map SubModuleMetadata.index).Nodup ∧
          (∀ m ∈ entries, ∃ gas, ModuleBuildOutcome.Verified m gas ∈ outcomes) ∧
          formatMetadata entries n = some metadata) ∧
      ∀ s, collect threshold ⟨[], false, true⟩ outcomes = .ok s →
        s.metasAndGas.length ≤ threshold ∧
        (s.metasAndGas.length = threshold →
          8 * n + (s.metasAndGas.map fun x => x.1.metadata.length).sum < 2 ^ 32 →
          (∀ x ∈ s.metasAndGas, ∀ h : x.1.index < isms.length, isms[x.1.index] x.1.metadata = some true) →
          ∃ metadata, slowPath threshold n outcomes = some (.ok metadata) ∧
            aggregationVerify isms threshold metadata = some true) := by
  refine ⟨?_, ?_⟩
  · intro entries hlt hnodup hsize
    obtain ⟨metadata, hf, hd⟩ := format_decodes hlt hnodup hsize
    exact ⟨metadata, hf, hd.present, hd.bytes⟩
  · intro R builds outcomes threshold isms hbuilds hisms hdone ht
    subst hbuilds
    refine ⟨?_, ?_⟩
    · intro metadata h
      obtain ⟨s, hc, hge, hf⟩ := slowPath_ok h
      obtain ⟨hnodup, -, hle, hverified⟩ := collect_valid hdone ht hc
      exact ⟨s.valid, le_antisymm hle (s.valid_length ▸ hge), hnodup, hverified, hf⟩
    · intro s hc
      refine ⟨s.valid_length ▸ (collect_valid hdone ht hc).2.2.1, ?_⟩
      intro hs hsize haccept
      subst hs
      exact slowPath_accepted hn hdone ht hc hisms hsize haccept

/-- three sub-modules at threshold two: the last completes first with empty metadata, and the second awaits signatures -/
theorem aggregation_accepted_two :
    ∃ metadata, slowPath (R := Unit) 2 3 [.Verified ⟨2, []⟩ 9, .AwaitingSignatures, .Verified ⟨0, [7, 7]⟩ 5] =
        some (.ok metadata) ∧
      aggregationVerify [fun sub => some (sub == [7, 7]), fun _ => none, fun sub => some (sub == [])] 2 metadata =
        some true := by
  have hdone : Completes (R := Unit) [.ok ([7, 7], .ok (some 5)), .error .AwaitingValidatorSignatures, .ok ([], .ok (some 9))]
      [.Verified ⟨2, []⟩ 9, .AwaitingSignatures, .Verified ⟨0, [7, 7]⟩ 5] := by
    exact (List.reverse_perm [_, _, _]).symm
  refine (((aggregation_accepted (n := 3) (by decide)).2 Unit _ _ 2 _ rfl rfl hdone (by decide)).2 _ rfl).2 rfl
    (by decide) ?_
  intro x hx h
  simp only [List.nil_append, List.cons_append, List.mem_cons, List.not_mem_nil, or_false] at hx
  rcases hx with rfl | rfl <;> rfl

end SlowPath

end Hyperlane.Relayer
