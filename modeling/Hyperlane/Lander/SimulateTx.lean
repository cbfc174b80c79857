/-
Simulation of a batched EVM transaction: `EthereumAdapter::simulate_tx`
(lander/src/adapter/chains/ethereum/adapter.rs, with `multicall::filter` of chains/hyperlane-ethereum/src/contracts/multicall.rs).

The multicall of the batch is called once. Its results are read by position: the payloads of the successful calls are built
into a transaction anew, the details of the failed ones are returned. When the new batch cannot be built, one transaction is
built for each payload, and the first of them is taken.

- `filter_positions`: filtering by the positions of results is filtering the payloads paired with them.
- `Loses`: results are missing, or the new batch cannot be built and more than one payload is left.
- `simulateTx_partition_iff`: the payloads are partitioned unless `Loses`.
-/
import Mathlib.Tactic

namespace Hyperlane.Lander.EthereumAdapter

/-! ## Model -/

structure PayloadDetails where
  uuid : ℕ
  metadata : String
  successCriteria : Option (List UInt8)
deriving DecidableEq

structure FullPayload where
  details : PayloadDetails
  data : List UInt8
deriving DecidableEq

/-- `vmSpecificData` is the precursor: the typed transaction and its function -/
structure Transaction (P : Type) where
  vmSpecificData : P
  payloadDetails : List PayloadDetails
deriving DecidableEq

structure TxBuildingResult (P : Type) where
  payloads : List PayloadDetails
  maybeTx : Option (Transaction P)

/-- the errors of `simulate_tx` -/
inductive SimulateError (E : Type) where
  | DbError
  | PayloadNotFound
  | ChainCommunicationError (error : E)
  | SimulationFailed (reasons : List String)
deriving DecidableEq

structure MulticallResult where
  success : Bool
  returnData : List UInt8
deriving DecidableEq

/-- what the adapter calls: the payload database, the two RPC calls, and two functions of libraries -/
structure Adapter (P E : Type) where
  retrievePayloadByUuid : ℕ → Except Unit (Option FullPayload)
  /-- the `eth_call` of the multicall -/
  call : P → Except E (List MulticallResult)
  /-- `provider.batch` -/
  batch : List P → Except E P
  /-- `EthereumTxPrecursor::from_payload` for the adapter's signer -/
  fromPayload : FullPayload → P
  abiDecodeString : List UInt8 → Option String

namespace Adapter

variable {P E : Type}

def ERROR_SELECTOR : List UInt8 := [0x08, 0xc3, 0x79, 0xa0]

/-- `decode_revert_reason` -/
def decodeRevertReason (a : Adapter P E) (returnData : List UInt8) : Option String :=
  if 4 ≤ returnData.length ∧ returnData.take 4 = ERROR_SELECTOR then a.abiDecodeString (returnData.drop 4) else none

/-- `multicall::filter`: the positions of the successful results, and those of the failed ones with their reasons -/
def multicallFilter (a : Adapter P E) (results : List MulticallResult) : List ℕ × List (ℕ × String) :=
  (results.zipIdx.filterMap fun x => if x.1.success then some x.2 else none,
    results.zipIdx.filterMap fun x => if x.1.success then none else
      some (x.2, (a.decodeRevertReason x.1.returnData).getD "No revert reason provided"))

/-- `simulate_batch` -/
def simulateBatch (a : Adapter P E) (multiPrecursor : P) : Except E (List ℕ × List (ℕ × String)) :=
  match a.call multiPrecursor with
  | .error e => .error e
  | .ok results => .ok (a.multicallFilter results)

/-- the reads of all payloads, or the error of one -/
def retrieveAll (a : Adapter P E) : List PayloadDetails → Except Unit (List (Option FullPayload))
  | [] => .ok []
  | d :: ds =>
    match a.retrievePayloadByUuid d.uuid, a.retrieveAll ds with
    | .ok payload, .ok payloads => .ok (payload :: payloads)
    | _, _ => .error ()

/-- `load_payloads` -/
def loadPayloads (a : Adapter P E) (tx : Transaction P) : Except (SimulateError E) (List FullPayload) :=
  match a.retrieveAll tx.payloadDetails with
  | .error _ => .error .DbError
  | .ok payloads => if payloads.any Option.isNone then .error .PayloadNotFound else .ok (payloads.filterMap id)

/-- `build_single_transaction` -/
def buildSingleTransaction (precursor : P) (payloadDetails : List PayloadDetails) : TxBuildingResult P :=
  ⟨payloadDetails, some ⟨precursor, payloadDetails⟩⟩

/-- `build_batched_transaction` -/
def buildBatchedTransaction (a : Adapter P E) (precursors : List P) (payloadDetails : List PayloadDetails) :
    Except E (List (TxBuildingResult P)) :=
  match a.batch precursors with
  | .error e => .error e
  | .ok multiPrecursor => .ok [⟨payloadDetails, some ⟨multiPrecursor, payloadDetails⟩⟩]

/-- `build_transactions` -/
def buildTransactions (a : Adapter P E) (payloads : List FullPayload) : List (TxBuildingResult P) :=
  match payloads with
  | [] => []
  | [payload] => [buildSingleTransaction (a.fromPayload payload) [payload.details]]
  | payloads =>
    match a.buildBatchedTransaction (payloads.map a.fromPayload) (payloads.map (·.details)) with
    | .ok results => results
    | .error _ => payloads.map fun payload => buildSingleTransaction (a.fromPayload payload) [payload.details]

/-- `filter`: the items at the given positions -/
def filter {I : Type} (items : List I) (indices : List ℕ) : List I :=
  (items.zipIdx.filter fun x => decide (x.2 ∈ indices)).map Prod.fst

/-- `simulate_tx`: the transaction after the call and what the call returns -/
def simulateTx (a : Adapter P E) (tx : Transaction P) :
    Transaction P × Except (SimulateError E) (List PayloadDetails) :=
  if tx.payloadDetails.length = 1 then (tx, .ok [])
  else
    match a.loadPayloads tx with
    | .error e => (tx, .error e)
    | .ok payloads =>
      match a.simulateBatch tx.vmSpecificData with
      | .error e => (tx, .error (.ChainCommunicationError e))
      | .ok (successful, failed) =>
        let payloadsSuccessful := filter payloads successful
        let payloadsDetailsFailed := filter tx.payloadDetails (failed.map Prod.fst)
        if payloadsSuccessful.isEmpty then (tx, .error (.SimulationFailed (failed.map Prod.snd)))
        else
          match (a.buildTransactions payloadsSuccessful).head? with
          | none => (tx, .error (.SimulationFailed ["no transaction building result"]))
          | some txBuildingResult =>
            match txBuildingResult.maybeTx with
            | none => (tx, .error (.SimulationFailed ["transaction was not built"]))
            | some transaction =>
              ({ tx with payloadDetails := transaction.payloadDetails, vmSpecificData := transaction.vmSpecificData },
                .ok payloadsDetailsFailed)

/-! ## Positions -/

theorem filter_cons {I : Type} (x : I) (xs : List I) (k : ℕ) (indices : List ℕ) :
    (((x :: xs).zipIdx k).filter fun y => decide (y.2 ∈ indices)).map Prod.fst =
      (if k ∈ indices then [x] else []) ++ ((xs.zipIdx (k + 1)).filter fun y => decide (y.2 ∈ indices)).map Prod.fst := by
  rw [List.zipIdx_cons, List.filter_cons]
  by_cases hk : k ∈ indices
  · simp [hk]
  · simp [hk]

/-- filtering by the positions of some results is filtering the items paired with these results -/
theorem filter_positions {I R : Type} (keep : R → Bool) (items : List I) (rs : List R) :
    filter items (rs.zipIdx.filterMap fun x => if keep x.1 then some x.2 else none) =
      ((items.zip rs).filter fun x => keep x.2).map Prod.fst := by
  have hfrom : ∀ k, ((items.zipIdx k).filter fun y => decide (y.2 ∈ (rs.zipIdx k).filterMap fun x =>
      if keep x.1 then some x.2 else none)).map Prod.fst = ((items.zip rs).filter fun x => keep x.2).map Prod.fst := by
    induction items generalizing rs with
    | nil =>
      intro k
      simp
    | cons item items ih =>
      intro k
      cases rs with
      | nil => simp
      | cons r rs =>
        have hlater : ∀ y ∈ items.zipIdx (k + 1), y.2 ≠ k := by
          intro y hy
          have := List.le_snd_of_mem_zipIdx hy
          omega
        have hhead : k ∈ ((r :: rs).zipIdx k).filterMap (fun x => if keep x.1 then some x.2 else none) ↔ keep r = true := by
          constructor
          · intro hmem
            obtain ⟨y, hy, hsome⟩ := List.mem_filterMap.1 hmem
            rw [List.zipIdx_cons, List.mem_cons] at hy
            rcases hy with rfl | hy
            · by_contra hr
              simp [hr] at hsome
            · exfalso
              have := List.le_snd_of_mem_zipIdx hy
              split at hsome
              · cases hsome
                omega
              · cases hsome
          · intro hr
            exact List.mem_filterMap.2 ⟨(r, k), by simp [List.zipIdx_cons], by simp [hr]⟩
        have htail : ((items.zipIdx (k + 1)).filter fun y => decide (y.2 ∈ ((r :: rs).zipIdx k).filterMap
            fun x => if keep x.1 then some x.2 else none)) = (items.zipIdx (k + 1)).filter fun y =>
              decide (y.2 ∈ (rs.zipIdx (k + 1)).filterMap fun x => if keep x.1 then some x.2 else none) := by
          apply List.filter_congr
          intro y hy
          rw [List.zipIdx_cons, List.filterMap_cons]
          split
          · rfl
          · rename_i z hz
            have hzk : z = k := by
              by_cases hr : keep r = true
              · simpa [hr] using hz.symm
              · simp [hr] at hz
            simp [hzk, hlater y hy]
        rw [filter_cons, htail, ih rs (k + 1), List.zip_cons_cons, List.filter_cons]
        by_cases hr : keep r = true
        · rw [if_pos (hhead.2 hr), if_pos hr]
          rfl
        · rw [if_neg (mt hhead.1 hr), if_neg hr]
          rfl
  exact hfrom 0

theorem map_fst_zip_take {I R : Type} (items : List I) (rs : List R) :
    (items.zip rs).map Prod.fst = items.take rs.length := by
  induction items generalizing rs with
  | nil => simp
  | cons item items ih =>
    cases rs with
    | nil => rfl
    | cons r rs => simp [ih rs]

/-- what is kept and what is not make up the items that have a result -/
theorem filter_partition {I R : Type} (keep : R → Bool) (items : List I) (rs : List R) :
    (((items.zip rs).filter fun x => !keep x.2).map Prod.fst ++ ((items.zip rs).filter fun x => keep x.2).map Prod.fst).Perm
      (items.take rs.length) := by
  rw [← List.map_append, ← map_fst_zip_take]
  apply List.Perm.map
  have hperm := List.filter_append_perm (fun x : I × R => !keep x.2) (items.zip rs)
  simpa only [Bool.not_not] using hperm

/-! ## What one simulation does -/

section Simulation

variable {a : Adapter P E} {tx : Transaction P} {payloads : List FullPayload} {results : List MulticallResult}

/-- the payloads of the calls that succeeded -/
def successful (payloads : List FullPayload) (results : List MulticallResult) : List FullPayload :=
  ((payloads.zip results).filter fun x => x.2.success).map Prod.fst

/-- no single transaction can be built for the payloads -/
def Splits (a : Adapter P E) (payloads : List FullPayload) : Prop :=
  1 < payloads.length ∧ ∃ e, a.batch (payloads.map a.fromPayload) = .error e

/-- the database has each payload of the transaction with the details the transaction carries -/
def Carries (a : Adapter P E) (tx : Transaction P) : Prop :=
  ∀ d ∈ tx.payloadDetails, ∀ payload, a.retrievePayloadByUuid d.uuid = .ok (some payload) → payload.details = d

theorem retrieveAll_details {ds : List PayloadDetails}
    (hdb : ∀ d ∈ ds, ∀ payload, a.retrievePayloadByUuid d.uuid = .ok (some payload) → payload.details = d)
    {found : List (Option FullPayload)} (h : a.retrieveAll ds = .ok found) (hall : found.any Option.isNone = false) :
    (found.filterMap id).map (·.details) = ds := by
  induction ds generalizing found with
  | nil =>
    cases h
    rfl
  | cons d ds ih =>
    rw [retrieveAll] at h
    split at h
    · rename_i payload rest hp hrest
      cases h
      rw [List.any_cons, Bool.or_eq_false_iff] at hall
      cases payload with
      | none => cases hall.1
      | some p =>
        have hcons : (some p :: rest).filterMap id = p :: rest.filterMap id := rfl
        rw [hcons, List.map_cons, hdb d List.mem_cons_self p hp,
          ih (fun d' hd' => hdb d' (List.mem_cons_of_mem _ hd')) hrest hall.2]
    · cases h

theorem loadPayloads_details (hdb : a.Carries tx) (h : a.loadPayloads tx = .ok payloads) :
    payloads.map (·.details) = tx.payloadDetails := by
  unfold loadPayloads at h
  split at h
  · cases h
  · rename_i found hfound
    split at h
    · cases h
    · rename_i hall
      cases h
      exact retrieveAll_details hdb hfound (Bool.eq_false_iff.2 hall)

/-- the transaction that is taken carries all payloads, or one of them when no single transaction can be built -/
theorem buildTransactions_first (a : Adapter P E) (hne : payloads ≠ []) :
    ∃ r transaction, (a.buildTransactions payloads).head? = some r ∧ r.maybeTx = some transaction ∧
      (¬ a.Splits payloads → transaction.payloadDetails = payloads.map (·.details)) ∧
      (a.Splits payloads → transaction.payloadDetails.length = 1) := by
  match payloads, hne with
  | [payload], _ => exact ⟨_, _, rfl, rfl, fun _ => rfl, fun h => absurd h.1 (lt_irrefl 1)⟩
  | p :: q :: rest, _ =>
    unfold buildTransactions buildBatchedTransaction
    dsimp only
    cases hbatch : a.batch ((p :: q :: rest).map a.fromPayload) with
    | ok multi =>
      refine ⟨_, _, rfl, rfl, fun _ => rfl, ?_⟩
      rintro ⟨-, e, he⟩
      rw [hbatch] at he
      cases he
    | error e =>
      refine ⟨_, _, rfl, rfl, ?_, fun _ => rfl⟩
      intro hsplits
      exact absurd ⟨by simp, e, hbatch⟩ hsplits

/-- one simulation whose reads succeed, on a batch -/
theorem simulateTx_loaded (hlen : tx.payloadDetails.length ≠ 1) (hload : a.loadPayloads tx = .ok payloads)
    (hcall : a.call tx.vmSpecificData = .ok results) :
    (successful payloads results = [] ∧ ∃ e, (a.simulateTx tx).2 = .error e) ∨
      successful payloads results ≠ [] ∧
        (a.simulateTx tx).2 = .ok (((tx.payloadDetails.zip results).filter fun x => !x.2.success).map Prod.fst) ∧
        (¬ a.Splits (successful payloads results) →
          (a.simulateTx tx).1.payloadDetails = (successful payloads results).map (·.details)) ∧
        (a.Splits (successful payloads results) → (a.simulateTx tx).1.payloadDetails.length = 1) := by
  have hsuccessful : filter payloads (a.multicallFilter results).1 = successful payloads results :=
    filter_positions (fun r : MulticallResult => r.success) payloads results
  have hfailed : filter tx.payloadDetails ((a.multicallFilter results).2.map Prod.fst) =
      ((tx.payloadDetails.zip results).filter fun x => !x.2.success).map Prod.fst := by
    have hpositions : (a.multicallFilter results).2.map Prod.fst =
        results.zipIdx.filterMap fun x => if !x.1.success then some x.2 else none := by
      rw [multicallFilter, List.map_filterMap]
      apply List.filterMap_congr
      intro x _
      by_cases hx : x.1.success
      · simp [hx]
      · simp [hx]
    rw [hpositions]
    exact filter_positions (fun r : MulticallResult => !r.success) tx.payloadDetails results
  unfold simulateTx simulateBatch
  rw [if_neg hlen, hload, hcall]
  dsimp only
  rw [hsuccessful, hfailed]
  by_cases hne : successful payloads results = []
  · left
    rw [hne]
    exact ⟨rfl, _, rfl⟩
  · right
    obtain ⟨r, transaction, hfirst, hbuilt, hwhole, hsplit⟩ := buildTransactions_first a hne
    rw [if_neg (by simpa using hne), hfirst]
    dsimp only
    rw [hbuilt]
    exact ⟨hne, rfl, hwhole, hsplit⟩

end Simulation

/-! ## No payload is lost -/

/-- payloads get lost: some calls succeed, and either results are missing, or more than one payload is left and the new
batch cannot be built -/
def Loses (a : Adapter P E) (tx : Transaction P) : Prop :=
  tx.payloadDetails.length ≠ 1 ∧ ∃ payloads results, a.loadPayloads tx = .ok payloads ∧
    a.call tx.vmSpecificData = .ok results ∧ successful payloads results ≠ [] ∧
      (results.length < payloads.length ∨ a.Splits (successful payloads results))

/-- **When a simulation loses no payload.** For every transaction, database and outcome of the calls: if `simulate_tx`
returns `Ok(failed)`, then `failed` and the payloads of the transaction after the call are a partition of its payloads
before, if and only if not `Loses`. -/
theorem simulateTx_partition_iff (a : Adapter P E) (tx : Transaction P) (hdb : a.Carries tx) :
    (∀ failed, (a.simulateTx tx).2 = .ok failed →
      (failed ++ (a.simulateTx tx).1.payloadDetails).Perm tx.payloadDetails) ↔ ¬ a.Loses tx := by
  constructor
  · rintro hpartition ⟨hlen, payloads, results, hload, hcall, hne, hlost⟩
    rcases simulateTx_loaded hlen hload hcall with ⟨hempty, -⟩ | ⟨-, hfailed, hwhole, hsplit⟩
    · exact hne hempty
    have hperm := (hpartition _ hfailed).length_eq
    have hdetails := congrArg List.length (loadPayloads_details hdb hload)
    rw [List.length_map] at hdetails
    -- failed and successful results together are as many as the payloads that have a result
    have hboth : (((tx.payloadDetails.zip results).filter fun x => !x.2.success).map Prod.fst).length +
        (successful payloads results).length = min payloads.length results.length := by
      have hpart := (filter_partition (fun r : MulticallResult => r.success) payloads results).length_eq
      have hzip : ((tx.payloadDetails.zip results).filter fun x => !x.2.success).length =
          ((payloads.zip results).filter fun x => !x.2.success).length := by
        rw [← loadPayloads_details hdb hload, List.zip_map_left, List.filter_map, List.length_map]
        rfl
      rw [List.length_append, List.length_map, List.length_take, min_comm] at hpart
      rw [List.length_map, hzip]
      exact hpart
    rw [List.length_append] at hperm
    by_cases hsplits : a.Splits (successful payloads results)
    · have hone := hsplit hsplits
      have hmany := hsplits.1
      omega
    · have hshort := hlost.resolve_right hsplits
      have hkept : ((successful payloads results).map (·.details)).length = (successful payloads results).length :=
        List.length_map _
      rw [hwhole hsplits] at hperm
      omega
  · intro hloses failed hok
    by_cases hlen : tx.payloadDetails.length = 1
    · have hsame : a.simulateTx tx = (tx, .ok []) := if_pos hlen
      rw [hsame] at hok ⊢
      cases hok
      exact .refl _
    cases hload : a.loadPayloads tx with
    | error e =>
      simp only [simulateTx, if_neg hlen, hload] at hok
      cases hok
    | ok payloads =>
      cases hcall : a.call tx.vmSpecificData with
      | error e =>
        simp only [simulateTx, simulateBatch, if_neg hlen, hload, hcall] at hok
        cases hok
      | ok results =>
        rcases simulateTx_loaded hlen hload hcall with ⟨-, e, he⟩ | ⟨hne, hfailed, hwhole, -⟩
        · rw [he] at hok
          cases hok
        · rw [hfailed] at hok
          cases hok
          have hkept : ¬ (results.length < payloads.length ∨ a.Splits (successful payloads results)) :=
            fun hlost => hloses ⟨hlen, payloads, results, hload, hcall, hne, hlost⟩
          obtain ⟨hall, hsplits⟩ := not_or.1 hkept
          have hdetails := loadPayloads_details hdb hload
          have hmapped : (successful payloads results).map (·.details) =
              ((tx.payloadDetails.zip results).filter fun x => x.2.success).map Prod.fst := by
            rw [← hdetails, List.zip_map_left, List.filter_map, List.map_map, successful, List.map_map]
            rfl
          rw [hwhole hsplits, hmapped]
          have hperm := filter_partition (fun r : MulticallResult => r.success) tx.payloadDetails results
          rwa [List.take_of_length_le (by rw [← hdetails, List.length_map]; omega)] at hperm

/-! ## A batch of three -/

/-- the database of three payloads; the second call fails -/
def threePayloads (batch : List ℕ → Except Unit ℕ) : Adapter ℕ Unit where
  retrievePayloadByUuid uuid := .ok (if uuid < 3 then some ⟨⟨uuid, "", none⟩, []⟩ else none)
  call _ := .ok [⟨true, []⟩, ⟨false, []⟩, ⟨true, []⟩]
  batch := batch
  fromPayload payload := payload.details.uuid
  abiDecodeString _ := none

def threeDetails : Transaction ℕ := ⟨9, [⟨0, "", none⟩, ⟨1, "", none⟩, ⟨2, "", none⟩]⟩

theorem threePayloads_carries (batch : List ℕ → Except Unit ℕ) : (threePayloads batch).Carries threeDetails := by
  intro d hd payload h
  simp only [threeDetails, List.mem_cons, List.not_mem_nil, or_false] at hd
  rcases hd with rfl | rfl | rfl <;> cases h <;> rfl

/-- the rebuilt batch keeps payloads 0 and 2 -/
theorem simulateTx_partition_three :
    ([(⟨1, "", none⟩ : PayloadDetails)] ++ ((threePayloads fun _ => .ok 5).simulateTx threeDetails).1.payloadDetails).Perm
      threeDetails.payloadDetails := by
  refine (simulateTx_partition_iff (threePayloads fun _ => .ok 5) threeDetails (threePayloads_carries _)).2 ?_ _ rfl
  rintro ⟨-, payloads, results, hload, hcall, -, hshort | ⟨-, e, he⟩⟩
  · cases hload
    cases hcall
    revert hshort
    decide
  · cases he

/-- the new batch cannot be built: payload 2 is in neither set -/
theorem simulateTx_loses : ¬ ∀ (a : Adapter ℕ Unit) (tx : Transaction ℕ), a.Carries tx → ∀ failed,
    (a.simulateTx tx).2 = .ok failed → (failed ++ (a.simulateTx tx).1.payloadDetails).Perm tx.payloadDetails := by
  intro hall
  have hperm := hall (threePayloads fun _ => .error ()) threeDetails (threePayloads_carries _) [⟨1, "", none⟩] rfl
  have hlength := hperm.length_eq
  revert hlength
  decide

end Adapter

end Hyperlane.Lander.EthereumAdapter
