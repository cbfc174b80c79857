/-
The transaction that a helper has announced (hyperlane-dusk/src/tx_sender.rs, mailbox.rs): what becomes of it when the
helper ends.

The hash of the line `Prepared TX <hash>;` is kept for the deadline only. Any other ending goes by the output of the
helper, and the hash is lost where that says nothing of it.

- `readBoundedStream_prepared`: the hash that is sent depends on the bytes read, not on how they come.
- `reconciles_iff`, `rejects_iff`: what a process comes to, by what its submission comes to.
- `prepared_transaction_kept_iff`: when the announced transaction is waited for, or known to be rejected.
-/
import Hyperlane.Dusk.TxSender

namespace Hyperlane.Dusk.TxSender

open Bytes Text Utf8

/-! ## Hashes -/

abbrev TxHash := Word 32

theorem hexDigit_toLower (c : Char) : hexDigit c.toLower = hexDigit c := by
  by_cases h : c.toNat < 128
  · have hall : ∀ n < 128, hexDigit (Char.ofNat n).toLower = hexDigit (Char.ofNat n) := by decide
    have hc := hall c.toNat h
    rwa [Char.ofNat_toNat] at hc
  · have hlower : c.toLower = c := dif_neg fun hbig => h (lt_of_le_of_lt (UInt32.le_iff_toNat_le.1 hbig.2) (by decide))
    rw [hlower]

theorem hexDecode_toAsciiLowercase (text : List Char) : hexDecode (toAsciiLowercase text) = hexDecode text := by
  induction text using hexDecode.induct with
  | case1 => rfl
  | case2 c => rfl
  | case3 high low rest ih =>
    rw [toAsciiLowercase] at ih ⊢
    rw [List.map_cons, List.map_cons, hexDecode, hexDecode, hexDigit_toLower, hexDigit_toLower, ih]

theorem hexDecode_digits {text : List Char} {bytes : List UInt8} (h : hexDecode text = some bytes) :
    text.length = 2 * bytes.length ∧ ∀ c ∈ text, hexDigit c ≠ none := by
  induction text using hexDecode.induct generalizing bytes with
  | case1 =>
    obtain rfl := Option.some.inj h
    exact ⟨rfl, fun c hc => absurd hc List.not_mem_nil⟩
  | case2 c => nomatch h
  | case3 high low rest ih =>
    rw [hexDecode] at h
    obtain ⟨x, hx, h⟩ := Option.bind_eq_some_iff.1 h
    obtain ⟨y, hy, h⟩ := Option.bind_eq_some_iff.1 h
    obtain ⟨tail, htail, h⟩ := Option.bind_eq_some_iff.1 h
    obtain rfl := Option.some.inj h
    obtain ⟨hlen, hdigits⟩ := ih htail
    refine ⟨by rw [List.length_cons, List.length_cons, List.length_cons, hlen]; omega, ?_⟩
    refine List.forall_mem_cons.2 ⟨by rw [hx]; exact Option.some_ne_none x, ?_⟩
    exact List.forall_mem_cons.2 ⟨by rw [hy]; exact Option.some_ne_none y, hdigits⟩

/-- a text that stands for a hash -/
def Denotes (text : List Char) (id : TxHash) : Prop := hexDecode text = some id.1

theorem Denotes.isHash {text : List Char} {id : TxHash} (h : Denotes text id) : IsHash text := by
  obtain ⟨hlen, hdigits⟩ := hexDecode_digits h
  exact ⟨by rw [hlen, id.2], hdigits⟩

theorem Denotes.lowercase {text : List Char} {id : TxHash} (h : Denotes text id) : Denotes (toAsciiLowercase text) id :=
  (hexDecode_toAsciiLowercase text).trans h

theorem Denotes.ascii {text : List Char} {id : TxHash} (h : Denotes text id) : ∀ c ∈ text, c.toNat < 0x80 := by
  intro c hc
  by_contra hbig
  have hnone : hexDigit c = none := by
    have hlarge {d : Char} (hd : d.toNat < 0x80) : ¬c ≤ d := fun hle => hbig (lt_of_le_of_lt hle hd)
    rw [hexDigit, if_neg fun h => hlarge (by decide) h.2, if_neg fun h => hlarge (by decide) h.2,
      if_neg fun h => hlarge (by decide) h.2]
  exact (hexDecode_digits h).2 c hc hnone

theorem Denotes.not_mem {text : List Char} {id : TxHash} (h : Denotes text id) {c : Char} (hc : hexDigit c = none) :
    c ∉ text := fun hmem => (hexDecode_digits h).2 c hmem hc

/-- the 64 bytes for a hash -/
def paddedHash (id : TxHash) : Word 64 :=
  ⟨List.replicate 32 0 ++ id.1, by rw [List.length_append, List.length_replicate, id.2]⟩

theorem duskTxIdToH512_denotes {text : List Char} {id : TxHash} (h : Denotes text id) :
    duskTxIdToH512 text = .ok (paddedHash id) := by
  have hlead {lead : List Char} {x : Char} (hx : x ∈ lead) (hdigit : hexDigit x = none) : stripPrefix lead text = none :=
    if_neg fun hp => h.not_mem hdigit (hp.subset hx)
  have hstrip : stripHexPrefix text = text := by
    rw [stripHexPrefix, hlead (x := 'x') (by decide) (by decide), hlead (x := 'X') (by decide) (by decide)]
    rfl
  unfold Denotes at h
  rw [duskTxIdToH512, hstrip, h]
  exact dif_pos id.2

theorem duskTxIdToH512_fails {text : List Char} {e : HyperlaneDuskError} (h : duskTxIdToH512 text = .error e)
    (fnName err : List Char) : e ≠ .callFailed fnName err := by
  rintro rfl
  rw [duskTxIdToH512] at h
  split at h
  · nomatch h
  · split at h
    · nomatch h
    · nomatch h

/-! ## The line of the helper -/

theorem lineTxId_saysBefore : SaysBefore 0x3B lineTxId := by
  refine ⟨fun before => (stripPrefix "Prepared TX ".toList (trimStart before)).bind fun txId =>
    if IsHash txId then some (toAsciiLowercase txId) else none, fun line => ?_⟩
  change _ = (splitOnce ';' line).bind _
  by_cases hmem : ';' ∈ line
  · obtain ⟨u, v, rfl, hu⟩ := List.eq_append_cons_of_mem hmem
    rw [splitOnce_delimiter hu, Option.bind_some, lineTxId, trimStart_delimiter (by decide),
      stripPrefix_delimiter (by decide)]
    dsimp only
    cases hrest : stripPrefix "Prepared TX ".toList (trimStart u) with
    | none => rfl
    | some rest =>
      have hnot : ';' ∉ rest := fun hin => hu (mem_of_trimStart (mem_of_stripPrefix hrest hin))
      change (splitOnce ';' (rest ++ ';' :: v)).bind _ = _
      rw [splitOnce_delimiter hnot]
      rfl
  · rw [splitOnce_eq_none hmem, lineTxId]
    cases hrest : stripPrefix "Prepared TX ".toList (trimStart line) with
    | none => rfl
    | some rest =>
      change (splitOnce ';' rest).bind _ = _
      rw [splitOnce_eq_none fun hin => hmem (mem_of_trimStart (mem_of_stripPrefix hrest hin))]
      rfl

/-- once a hash has been announced, what comes later does not change it -/
theorem preparedTxId_append {bytes : List UInt8} {txId : List Char} (h : preparedTxId bytes = some txId) (more : List UInt8) :
    preparedTxId (bytes ++ more) = some txId :=
  firstInLines_append lineTxId_saysBefore (by decide) (by decide) h more

/-- a line of the helper for a hash -/
def PreparedLine (id : TxHash) (line : List UInt8) : Prop :=
  ∃ indent hash rest, Denotes hash id ∧ 0x0A ∉ rest ∧
    line = asciiBytes (List.replicate indent ' ' ++ "Prepared TX ".toList ++ hash ++ [';']) ++ rest

/-- the first such line among complete lines is for this hash -/
def Prepares (stderr : List UInt8) (id : TxHash) : Prop :=
  ∃ before line after, stderr = before ++ line ++ 0x0A :: after ∧ (before = [] ∨ before.getLast? = some 0x0A) ∧
    preparedTxId before = none ∧ PreparedLine id line

theorem lineTxId_prepared {id : TxHash} {line : List UInt8} (h : PreparedLine id line) :
    0x0A ∉ line ∧ ∃ txId, Denotes txId id ∧ lineTxId (fromUtf8Lossy line) = some txId := by
  obtain ⟨indent, hash, rest, hhash, hrest, rfl⟩ := h
  have hascii : ∀ c ∈ List.replicate indent ' ' ++ "Prepared TX ".toList ++ hash ++ [';'], c.toNat < 0x80 ∧ c ≠ '\n' := by
    have hlead : ∀ c ∈ "Prepared TX ".toList, c.toNat < 0x80 ∧ c ≠ '\n' := by simp
    intro c hc
    rw [List.mem_append, List.mem_append, List.mem_append, List.mem_singleton] at hc
    rcases hc with ((hc | hc) | hc) | rfl
    · rw [List.eq_of_mem_replicate hc]
      decide
    · exact hlead c hc
    · exact ⟨hhash.ascii c hc, fun heq => hhash.not_mem (by decide) (heq ▸ hc)⟩
    · decide
  have hdecoded := fromUtf8Lossy_asciiBytes fun c hc => (hascii c hc).1
  constructor
  · intro hin
    rcases List.mem_append.1 hin with hlead | hin
    · have hmem := (mem_fromUtf8Lossy (b := 0x0A) (by decide)).2 hlead
      have hwhole := hdecoded []
      rw [List.append_nil] at hwhole
      rw [hwhole, List.mem_append] at hmem
      exact (hascii '\n' (hmem.resolve_right List.not_mem_nil)).2 rfl
    · exact hrest hin
  · refine ⟨toAsciiLowercase hash, hhash.lowercase, ?_⟩
    have hline : fromUtf8Lossy (asciiBytes (List.replicate indent ' ' ++ "Prepared TX ".toList ++ hash ++ [';']) ++ rest) =
        List.replicate indent ' ' ++ 'P' :: ("repared TX ".toList ++ (hash ++ ';' :: fromUtf8Lossy rest)) := by
      rw [hdecoded, List.append_assoc, List.append_assoc, List.append_assoc]
      rfl
    rw [hline, lineTxId, trimStart_spaces (by decide)]
    change ((stripPrefix "Prepared TX ".toList ("Prepared TX ".toList ++ (hash ++ ';' :: fromUtf8Lossy rest))).bind _) = _
    rw [stripPrefix_self, Option.bind_some]
    change (splitOnce ';' (hash ++ ';' :: fromUtf8Lossy rest)).bind _ = _
    rw [splitOnce_delimiter (hhash.not_mem (by decide)), Option.bind_some]
    exact if_pos hhash.isHash

theorem preparedTxId_of_prepares {stderr : List UInt8} {id : TxHash} (h : Prepares stderr id) :
    ∃ txId, Denotes txId id ∧ preparedTxId stderr = some txId := by
  obtain ⟨before, line, after, rfl, hend, hbefore, hline⟩ := h
  obtain ⟨hopen, txId, hid, hsays⟩ := lineTxId_prepared hline
  refine ⟨txId, hid, ?_⟩
  rw [List.append_assoc, preparedTxId, firstInLines_skip lineTxId_saysBefore (by decide) hend hbefore]
  exact firstInLines_line lineTxId_saysBefore (by decide) (by decide) hsays hopen _

/-! ## Reading -/

/-- the bytes that are taken from a stream -/
def Stream.read (s : Stream) : List UInt8 := s.bytes.take (MAX_DUSK_TX_STREAM_BYTES + 1)

/-- what the channel holds once some bytes have been read -/
def received (bytes : List UInt8) : PreparedTx :=
  match preparedTxId bytes with
  | some txId => .sent txId
  | none => .awaited

theorem offer_received (bytes more : List UInt8) : (received bytes).offer (bytes ++ more) = received (bytes ++ more) := by
  cases h : preparedTxId bytes with
  | none =>
    rw [received, h]
    rfl
  | some txId =>
    rw [received, received, h, preparedTxId_append h more]
    rfl

/-- a stream that is closed within the limit -/
def Stream.Whole (s : Stream) : Prop := s.failure = none ∧ s.bytes.length ≤ MAX_DUSK_TX_STREAM_BYTES

theorem append_take {bytes : List UInt8} {limit : ℕ} (h : bytes.length ≤ limit) (chunk : List UInt8) :
    bytes ++ chunk.take (limit + 1 - bytes.length) = (bytes ++ chunk).take (limit + 1) := by
  rw [List.take_append, List.take_of_length_le (h.trans (Nat.le_succ limit))]

/-- the channel after the loop -/
theorem readLoop_received (streamName : List Char) (failure : Option String) {bytes : List UInt8}
    (h : bytes.length ≤ MAX_DUSK_TX_STREAM_BYTES) (chunks : List { chunk : List UInt8 // chunk ≠ [] }) :
    (readLoop streamName failure bytes (received bytes) chunks).2 =
      received ((bytes ++ chunks.flatMap Subtype.val).take (MAX_DUSK_TX_STREAM_BYTES + 1)) := by
  induction chunks generalizing bytes with
  | nil =>
    rw [List.flatMap_nil, List.append_nil, List.take_of_length_le (h.trans (Nat.le_succ _))]
    cases failure with
    | none => rfl
    | some e => rfl
  | cons chunk chunks ih =>
    have htaken := append_take h chunk.1
    rw [readLoop, offer_received, List.flatMap_cons, ← List.append_assoc, htaken]
    split
    next hlong =>
      rw [List.length_take] at hlong
      have hfull : MAX_DUSK_TX_STREAM_BYTES + 1 ≤ (bytes ++ chunk.1).length := by omega
      rw [List.take_append_of_le_length hfull]
    next hshort =>
      rw [List.length_take] at hshort
      have hwhole : (bytes ++ chunk.1).take (MAX_DUSK_TX_STREAM_BYTES + 1) = bytes ++ chunk.1 :=
        List.take_of_length_le (by omega)
      rw [hwhole, ih (by omega)]

/-- the result of the loop -/
theorem readLoop_result (streamName : List Char) (failure : Option String) {bytes : List UInt8}
    (h : bytes.length ≤ MAX_DUSK_TX_STREAM_BYTES) (preparedTx : PreparedTx)
    (chunks : List { chunk : List UInt8 // chunk ≠ [] }) :
    (readLoop streamName failure bytes preparedTx chunks).1 =
      if MAX_DUSK_TX_STREAM_BYTES < (bytes ++ chunks.flatMap Subtype.val).length then .error (.streamTooLong streamName)
      else match failure with
        | some e => .error (.readFailed streamName e)
        | none => .ok (bytes ++ chunks.flatMap Subtype.val) := by
  induction chunks generalizing bytes preparedTx with
  | nil =>
    rw [List.flatMap_nil, List.append_nil, if_neg (not_lt.2 h)]
    cases failure with
    | none => rfl
    | some e => rfl
  | cons chunk chunks ih =>
    have htaken := append_take h chunk.1
    rw [readLoop, List.flatMap_cons, ← List.append_assoc, htaken]
    split
    next hlong =>
      rw [List.length_take] at hlong
      rw [if_pos (by rw [List.length_append]; omega)]
    next hshort =>
      rw [List.length_take] at hshort
      have hwhole : (bytes ++ chunk.1).take (MAX_DUSK_TX_STREAM_BYTES + 1) = bytes ++ chunk.1 :=
        List.take_of_length_le (by omega)
      rw [hwhole, ih (by omega)]

/-- **The hash that is sent depends on the bytes read, not on how they come** -/
theorem readBoundedStream_prepared (s : Stream) (streamName : List Char) :
    (readBoundedStream s streamName .awaited).2 = received s.read :=
  readLoop_received streamName s.failure (Nat.zero_le _) s.chunks

theorem readBoundedStream_result (s : Stream) (streamName : List Char) (preparedTx : PreparedTx) :
    (readBoundedStream s streamName preparedTx).1 =
      if MAX_DUSK_TX_STREAM_BYTES < s.bytes.length then .error (.streamTooLong streamName)
      else match s.failure with
        | some e => .error (.readFailed streamName e)
        | none => .ok s.bytes :=
  @readLoop_result streamName s.failure [] (Nat.zero_le _) preparedTx s.chunks

theorem readBoundedStream_whole {s : Stream} (h : s.Whole) (streamName : List Char) (preparedTx : PreparedTx) :
    (readBoundedStream s streamName preparedTx).1 = .ok s.bytes := by
  rw [readBoundedStream_result, if_neg (not_lt.2 h.2), h.1]

/-- an error of a stream -/
def StreamError (e : HyperlaneDuskError) : Prop :=
  (∃ streamName, e = .streamTooLong streamName) ∨ ∃ streamName reason, e = .readFailed streamName reason

theorem readBoundedStream_fails {s : Stream} (h : ¬s.Whole) (streamName : List Char) (preparedTx : PreparedTx) :
    ∃ e, (readBoundedStream s streamName preparedTx).1 = .error e ∧ StreamError e := by
  rw [readBoundedStream_result]
  split
  next => exact ⟨_, rfl, Or.inl ⟨streamName, rfl⟩⟩
  next hshort =>
    cases hfailure : s.failure with
    | none => exact absurd ⟨hfailure, not_lt.1 hshort⟩ h
    | some reason => exact ⟨_, rfl, Or.inr ⟨streamName, reason, rfl⟩⟩

/-! ## What a submission comes to -/

section Outcomes

variable {crates : Crates} {mailbox : DuskMailbox} {encoded metadata : List UInt8} {txGasLimit : Option ℕ}
  {helper : HelperCall → Invoked} {call : HelperCall} {run : HelperRun} {id : TxHash}

/-- the transaction is waited for, under its own hash, whatever the endpoint answers -/
def Reconciles (crates : Crates) (mailbox : DuskMailbox) (encoded metadata : List UInt8) (txGasLimit : Option ℕ)
    (helper : HelperCall → Invoked) (id : TxHash) : Prop :=
  ∃ txId, Denotes txId id ∧ ∀ endpoint, process crates mailbox encoded metadata txGasLimit helper endpoint = do
    let confirmed ← waitForTx endpoint txId
    return ⟨paddedHash id, confirmed.error.isNone, confirmed.gasSpent, mailbox.gasPrice⟩

/-- an error of the helper that says that the propagation was rejected -/
def SaysRejected (err : List Char) : Prop := "submission failed: Propagation rejected".toList <:+: err

/-- the helper's own error says that the propagation was rejected, and that is the error -/
def Rejects (crates : Crates) (mailbox : DuskMailbox) (encoded metadata : List UInt8) (txGasLimit : Option ℕ)
    (helper : HelperCall → Invoked) (run : HelperRun) : Prop :=
  ∃ fnName err, helperError crates (fromUtf8Lossy run.stdout.bytes) = some err ∧ SaysRejected err ∧
    ∀ endpoint, process crates mailbox encoded metadata txGasLimit helper endpoint = .error (.callFailed fnName err)

/-- a ledger with one transaction -/
def oneConfirmed (txId : List Char) : Endpoint := fun asked =>
  if asked = txId then
    [.data (.object [("tx".toList, .object [("gasSpent".toList, .natural 0), ("err".toList, .null)])])]
  else []

/-- an endpoint that does not answer -/
def silent : Endpoint := fun _ => []

theorem waitForTx_oneConfirmed {txId : List Char} (h : IsHash txId) : waitForTx (oneConfirmed txId) txId = .ok ⟨0, none⟩ := by
  rw [waitForTx, if_pos h, oneConfirmed, if_pos rfl]
  rfl

theorem waitForTx_fails {endpoint : Endpoint} {txId : List Char} (h : endpoint txId = []) :
    waitForTx endpoint txId = .error (.confirmationTimeout txId none) ∨
      waitForTx endpoint txId = .error (.invalidTransactionId txId) := by
  rw [waitForTx, h]
  split
  · exact Or.inl rfl
  · exact Or.inr rfl

theorem process_eq (hcall : helperCall crates mailbox encoded metadata txGasLimit = .ok call) (endpoint : Endpoint) :
    process crates mailbox encoded metadata txGasLimit helper endpoint = do
      let txId ← submittedTxId (duskTxCall crates call helper)
      let transactionId ← duskTxIdToH512 txId
      let confirmed ← waitForTx endpoint txId
      return ⟨transactionId, confirmed.error.isNone, confirmed.gasSpent, mailbox.gasPrice⟩ := by
  rw [process, hcall, Outcome.ok_bind]

/-- a process that does not get a transaction fails -/
theorem process_error (hcall : helperCall crates mailbox encoded metadata txGasLimit = .ok call) {e : HyperlaneDuskError}
    (h : submittedTxId (duskTxCall crates call helper) = .error e) (endpoint : Endpoint) :
    process crates mailbox encoded metadata txGasLimit helper endpoint = .error e := by
  rw [process_eq hcall, h]
  rfl

/-- a transaction that is not on the ledger gives no outcome, and no error of the helper -/
theorem process_unconfirmed (hcall : helperCall crates mailbox encoded metadata txGasLimit = .ok call) {txId : List Char}
    (h : submittedTxId (duskTxCall crates call helper) = .ok txId) {endpoint : Endpoint} (hend : endpoint txId = []) :
    ∃ e, process crates mailbox encoded metadata txGasLimit helper endpoint = .error e ∧
      ∀ fnName err, e ≠ .callFailed fnName err := by
  rw [process_eq hcall, h, Outcome.ok_bind]
  cases hpadded : duskTxIdToH512 txId with
  | error e => exact ⟨e, rfl, duskTxIdToH512_fails hpadded⟩
  | ok transactionId =>
    rw [Outcome.ok_bind]
    rcases waitForTx_fails hend with hwait | hwait
    · rw [hwait]
      exact ⟨_, rfl, fun _ _ heq => nomatch heq⟩
    · rw [hwait]
      exact ⟨_, rfl, fun _ _ heq => nomatch heq⟩

theorem reconciles_iff (hcall : helperCall crates mailbox encoded metadata txGasLimit = .ok call) :
    Reconciles crates mailbox encoded metadata txGasLimit helper id ↔
      ∃ txId, submittedTxId (duskTxCall crates call helper) = .ok txId ∧ Denotes txId id := by
  constructor
  · rintro ⟨txId, hid, hall⟩
    have hconfirmed := hall (oneConfirmed txId)
    rw [waitForTx_oneConfirmed hid.isHash, Outcome.ok_bind] at hconfirmed
    cases hsubmitted : submittedTxId (duskTxCall crates call helper) with
    | error e =>
      rw [process_error hcall hsubmitted] at hconfirmed
      nomatch hconfirmed
    | ok asked =>
      by_cases heq : asked = txId
      · exact ⟨asked, rfl, heq ▸ hid⟩
      · have hnone : oneConfirmed txId asked = [] := if_neg heq
        obtain ⟨e, hfails, -⟩ := process_unconfirmed hcall hsubmitted hnone
        rw [hfails] at hconfirmed
        nomatch hconfirmed
  · rintro ⟨txId, hsubmitted, hid⟩
    refine ⟨txId, hid, fun endpoint => ?_⟩
    rw [process_eq hcall, hsubmitted, Outcome.ok_bind, duskTxIdToH512_denotes hid, Outcome.ok_bind]

theorem rejects_iff (hcall : helperCall crates mailbox encoded metadata txGasLimit = .ok call) :
    Rejects crates mailbox encoded metadata txGasLimit helper run ↔
      ∃ fnName err, helperError crates (fromUtf8Lossy run.stdout.bytes) = some err ∧ SaysRejected err ∧
        submittedTxId (duskTxCall crates call helper) = .error (.callFailed fnName err) := by
  constructor
  · rintro ⟨fnName, err, herr, hrejected, hall⟩
    refine ⟨fnName, err, herr, hrejected, ?_⟩
    have hempty := hall silent
    cases hsubmitted : submittedTxId (duskTxCall crates call helper) with
    | error e =>
      rw [process_error hcall hsubmitted] at hempty
      exact congrArg Except.error (Except.error.inj hempty)
    | ok txId =>
      obtain ⟨e, hfails, hother⟩ := process_unconfirmed hcall hsubmitted (rfl : silent txId = [])
      rw [hfails] at hempty
      exact absurd (Except.error.inj hempty) (hother fnName err)
  · rintro ⟨fnName, err, herr, hrejected, hsubmitted⟩
    exact ⟨fnName, err, herr, hrejected, process_error hcall hsubmitted⟩

/-- the announced transaction is waited for or known to be rejected -/
def Kept (crates : Crates) (mailbox : DuskMailbox) (encoded metadata : List UInt8) (txGasLimit : Option ℕ)
    (helper : HelperCall → Invoked) (run : HelperRun) (id : TxHash) : Prop :=
  Reconciles crates mailbox encoded metadata txGasLimit helper id ∨ Rejects crates mailbox encoded metadata txGasLimit helper run

/-- the output of a run tells what became of a transaction -/
def ToldByOutput (crates : Crates) (code : Option ℤ) (stdout : List Char) (id : TxHash) : Prop :=
  if code = some 0 then
    ∃ json txId, crates.fromStr stdout = .ok json ∧ (json.get "tx_id".toList).bind Value.asStr = some txId ∧ Denotes txId id
  else
    ∃ err, helperError crates stdout = some err ∧ ((∃ txId, outcomeUnknownTxId err = some txId ∧ Denotes txId id) ∨
      (outcomeUnknownTxId err = none ∧ SaysRejected err))

/-- the runs that do not lose the transaction: those that the deadline ends, and those with both streams within their
limit whose output tells what became of it -/
def KeepsTransaction (crates : Crates) (run : HelperRun) (id : TxHash) : Prop :=
  match run.ending with
  | .deadline => True
  | .waitFailed _ => False
  | .exited code => run.stdout.Whole ∧ run.stderr.Whole ∧ ToldByOutput crates code (fromUtf8Lossy run.stdout.bytes) id

theorem kept_of_submitted (hcall : helperCall crates mailbox encoded metadata txGasLimit = .ok call) {txId : List Char}
    (h : submittedTxId (duskTxCall crates call helper) = .ok txId) :
    Kept crates mailbox encoded metadata txGasLimit helper run id ↔ Denotes txId id := by
  rw [Kept, reconciles_iff hcall, rejects_iff hcall, h]
  constructor
  · rintro (⟨_, heq, hid⟩ | ⟨_, _, _, _, heq⟩)
    · exact Except.ok.inj heq ▸ hid
    · nomatch heq
  · exact fun hid => Or.inl ⟨txId, rfl, hid⟩

theorem not_kept_of_error (hcall : helperCall crates mailbox encoded metadata txGasLimit = .ok call) {e : HyperlaneDuskError}
    (h : submittedTxId (duskTxCall crates call helper) = .error e) (he : ∀ fnName err, e ≠ .callFailed fnName err) :
    ¬Kept crates mailbox encoded metadata txGasLimit helper run id := by
  rw [Kept, reconciles_iff hcall, rejects_iff hcall, h]
  rintro (⟨_, heq, _⟩ | ⟨fnName, err, _, _, heq⟩)
  · nomatch heq
  · exact he fnName err (Except.error.inj heq)

theorem kept_of_callFailed (hcall : helperCall crates mailbox encoded metadata txGasLimit = .ok call) {fnName err : List Char}
    (h : submittedTxId (duskTxCall crates call helper) = .error (.callFailed fnName err))
    (herr : helperError crates (fromUtf8Lossy run.stdout.bytes) = some err) :
    Kept crates mailbox encoded metadata txGasLimit helper run id ↔ SaysRejected err := by
  rw [Kept, reconciles_iff hcall, rejects_iff hcall, h]
  constructor
  · rintro (⟨_, heq, _⟩ | ⟨_, said, hsaid, hrejected, _⟩)
    · nomatch heq
    · rw [herr] at hsaid
      exact Option.some.inj hsaid ▸ hrejected
  · exact fun hrejected => Or.inr ⟨fnName, err, herr, hrejected, rfl⟩

/-! ## The endings of the helper -/

theorem processArgs_length {args : List UInt8} (h : processArgs crates metadata encoded = .ok args) :
    args.length ≤ MAX_DUSK_TX_ARGS_BYTES := by
  rw [processArgs] at h
  split at h
  · nomatch h
  · split at h
    · nomatch h
    · split at h
      next => nomatch h
      next hshort => exact Except.ok.inj h ▸ not_lt.1 hshort

theorem helperCall_length (hcall : helperCall crates mailbox encoded metadata txGasLimit = .ok call) :
    call.argsBytes.length ≤ MAX_DUSK_TX_ARGS_BYTES := by
  rw [helperCall] at hcall
  cases hsigner : mailbox.signer with
  | none =>
    rw [hsigner] at hcall
    nomatch hcall
  | some signer =>
    rw [hsigner] at hcall
    obtain ⟨args, hargs, hcall⟩ := Outcome.bind_eq_ok.1 hcall
    obtain ⟨gas, -, hcall⟩ := Outcome.bind_eq_ok.1 hcall
    obtain rfl := Except.ok.inj hcall
    exact processArgs_length hargs

theorem duskTxCall_ran (hcall : helperCall crates mailbox encoded metadata txGasLimit = .ok call)
    (hrun : helper call = .ran run) :
    duskTxCall crates call helper = waitForChildOutput run call.fnName >>= helperResponse crates call.fnName := by
  rw [duskTxCall, if_neg (not_lt.2 (helperCall_length hcall)), hrun]

theorem waitForChildOutput_deadline (hending : run.ending = .deadline) {txId : List Char}
    (hprepared : preparedTxId run.stderr.read = some txId) (fnName : List Char) :
    waitForChildOutput run fnName = .error (.SubmissionOutcomeUnknown txId (.deadline fnName)) := by
  rw [waitForChildOutput, hending]
  dsimp only
  rw [readBoundedStream_prepared, received, hprepared]
  rfl

theorem waitForChildOutput_whole {code : Option ℤ} (hending : run.ending = .exited code) (hstdout : run.stdout.Whole)
    (hstderr : run.stderr.Whole) (fnName : List Char) :
    waitForChildOutput run fnName = .ok ⟨code, run.stdout.bytes, run.stderr.bytes⟩ := by
  rw [waitForChildOutput, hending]
  dsimp only
  rw [readBoundedStream_whole hstdout, Outcome.ok_bind, readBoundedStream_whole hstderr]
  rfl

theorem waitForChildOutput_streams {code : Option ℤ} (hending : run.ending = .exited code)
    (hstreams : ¬(run.stdout.Whole ∧ run.stderr.Whole)) (fnName : List Char) :
    ∃ e, waitForChildOutput run fnName = .error e ∧ StreamError e := by
  rw [waitForChildOutput, hending]
  dsimp only
  by_cases hstdout : run.stdout.Whole
  · obtain ⟨e, hfails, herror⟩ := readBoundedStream_fails (fun h => hstreams ⟨hstdout, h⟩) "stderr".toList .awaited
    rw [readBoundedStream_whole hstdout, Outcome.ok_bind, hfails]
    exact ⟨e, rfl, herror⟩
  · obtain ⟨e, hfails, herror⟩ := readBoundedStream_fails hstdout "stdout".toList .absent
    rw [hfails]
    exact ⟨e, rfl, herror⟩

/-- a helper that has succeeded: the transaction of its response decides -/
theorem kept_iff_response (hcall : helperCall crates mailbox encoded metadata txGasLimit = .ok call) {stderr : List UInt8}
    (hresponse : duskTxCall crates call helper = helperResponse crates call.fnName ⟨some 0, run.stdout.bytes, stderr⟩) :
    Kept crates mailbox encoded metadata txGasLimit helper run id ↔
      ToldByOutput crates (some 0) (fromUtf8Lossy run.stdout.bytes) id := by
  rw [helperResponse] at hresponse
  dsimp only at hresponse
  rw [if_neg (not_not.2 rfl)] at hresponse
  rw [ToldByOutput, if_pos rfl]
  have hsubmitted := congrArg submittedTxId hresponse
  cases hjson : crates.fromStr (fromUtf8Lossy run.stdout.bytes) with
  | error e =>
    rw [hjson] at hsubmitted
    refine iff_of_false (not_kept_of_error hcall hsubmitted fun _ _ heq => nomatch heq) ?_
    rintro ⟨_, _, heq, _⟩
    nomatch heq
  | ok json =>
    rw [hjson] at hsubmitted
    dsimp only [submittedTxId] at hsubmitted
    cases htxId : (json.get "tx_id".toList).bind Value.asStr with
    | none =>
      rw [htxId] at hsubmitted
      refine iff_of_false (not_kept_of_error hcall hsubmitted fun _ _ heq => nomatch heq) ?_
      rintro ⟨_, _, heq, hsome, _⟩
      rw [← Except.ok.inj heq, htxId] at hsome
      nomatch hsome
    | some txId =>
      rw [htxId] at hsubmitted
      rw [kept_of_submitted hcall hsubmitted]
      constructor
      · exact fun hid => ⟨json, txId, rfl, htxId, hid⟩
      · rintro ⟨_, _, heq, hsome, hid⟩
        rw [← Except.ok.inj heq, htxId] at hsome
        exact Option.some.inj hsome ▸ hid

/-- a helper that has failed: its error decides -/
theorem kept_iff_error (hcall : helperCall crates mailbox encoded metadata txGasLimit = .ok call) {code : Option ℤ}
    (hcode : code ≠ some 0) {stderr : List UInt8}
    (hresponse : duskTxCall crates call helper = helperResponse crates call.fnName ⟨code, run.stdout.bytes, stderr⟩) :
    Kept crates mailbox encoded metadata txGasLimit helper run id ↔
      ToldByOutput crates code (fromUtf8Lossy run.stdout.bytes) id := by
  rw [helperResponse] at hresponse
  dsimp only at hresponse
  rw [if_pos hcode] at hresponse
  rw [ToldByOutput, if_neg hcode]
  have hsubmitted := congrArg submittedTxId hresponse
  cases herr : helperError crates (fromUtf8Lossy run.stdout.bytes) with
  | none =>
    rw [herr] at hsubmitted
    refine iff_of_false (not_kept_of_error hcall hsubmitted fun _ _ heq => nomatch heq) ?_
    rintro ⟨_, heq, _⟩
    nomatch heq
  | some err =>
    rw [herr] at hsubmitted
    dsimp only at hsubmitted
    cases hunknown : outcomeUnknownTxId err with
    | none =>
      rw [hunknown] at hsubmitted
      rw [kept_of_callFailed hcall hsubmitted herr]
      constructor
      · exact fun hrejected => ⟨err, rfl, Or.inr ⟨hunknown, hrejected⟩⟩
      · rintro ⟨_, heq, hsays⟩
        obtain rfl := Option.some.inj heq
        rcases hsays with ⟨_, hsome, _⟩ | ⟨_, hrejected⟩
        · rw [hunknown] at hsome
          nomatch hsome
        · exact hrejected
    | some txId =>
      rw [hunknown] at hsubmitted
      rw [kept_of_submitted hcall hsubmitted]
      constructor
      · exact fun hid => ⟨err, rfl, Or.inl ⟨txId, hunknown, hid⟩⟩
      · rintro ⟨_, heq, hsays⟩
        obtain rfl := Option.some.inj heq
        rcases hsays with ⟨_, hsome, hid⟩ | ⟨hnone, _⟩
        · rw [hunknown] at hsome
          exact Option.some.inj hsome ▸ hid
        · rw [hunknown] at hnone
          nomatch hnone

theorem submitted_streamError {e : HyperlaneDuskError} (h : StreamError e) :
    submittedTxId (.error e) = .error e ∧ ∀ fnName err, e ≠ .callFailed fnName err := by
  rcases h with ⟨_, rfl⟩ | ⟨_, _, rfl⟩
  · exact ⟨rfl, fun _ _ heq => nomatch heq⟩
  · exact ⟨rfl, fun _ _ heq => nomatch heq⟩

theorem kept_iff (hcall : helperCall crates mailbox encoded metadata txGasLimit = .ok call) (hrun : helper call = .ran run)
    (hprepares : Prepares run.stderr.read id) :
    Kept crates mailbox encoded metadata txGasLimit helper run id ↔ KeepsTransaction crates run id := by
  have hcalled := duskTxCall_ran hcall hrun
  rw [KeepsTransaction]
  cases hending : run.ending with
  | deadline =>
    obtain ⟨txId, hid, hprepared⟩ := preparedTxId_of_prepares hprepares
    rw [waitForChildOutput_deadline hending hprepared] at hcalled
    rw [kept_of_submitted hcall (congrArg submittedTxId hcalled)]
    exact iff_of_true hid trivial
  | waitFailed e =>
    rw [waitForChildOutput, hending] at hcalled
    exact iff_of_false (not_kept_of_error hcall (congrArg submittedTxId hcalled) fun _ _ heq => nomatch heq) not_false
  | exited code =>
    by_cases hstreams : run.stdout.Whole ∧ run.stderr.Whole
    · rw [waitForChildOutput_whole hending hstreams.1 hstreams.2, Outcome.ok_bind] at hcalled
      dsimp only
      rw [← and_assoc, and_iff_right hstreams]
      by_cases hcode : code = some 0
      · subst hcode
        exact kept_iff_response hcall hcalled
      · exact kept_iff_error hcall hcode hcalled
    · obtain ⟨e, hfails, herror⟩ := waitForChildOutput_streams hending hstreams call.fnName
      obtain ⟨hsame, hother⟩ := submitted_streamError herror
      rw [hfails] at hcalled
      refine iff_of_false (not_kept_of_error hcall ((congrArg submittedTxId hcalled).trans hsame) hother) ?_
      exact fun htold => hstreams ⟨htold.1, htold.2.1⟩

/-- **When an announced transaction is kept**: it is waited for, or the helper's error says that its propagation was
rejected, if and only if the deadline ends the helper, or its streams end and its output tells what became of it; and the
hash that is sent is the announced one, however the bytes come -/
theorem prepared_transaction_kept_iff (hcall : helperCall crates mailbox encoded metadata txGasLimit = .ok call)
    (hrun : helper call = .ran run) (hprepares : Prepares run.stderr.read id) :
    (Kept crates mailbox encoded metadata txGasLimit helper run id ↔ KeepsTransaction crates run id) ∧
      ∃ txId, Denotes txId id ∧ ∀ stderr : Stream, stderr.read = run.stderr.read →
        (readBoundedStream stderr "stderr".toList .awaited).2 = .sent txId := by
  obtain ⟨txId, hid, hprepared⟩ := preparedTxId_of_prepares hprepares
  refine ⟨kept_iff hcall hrun hprepares, txId, hid, fun stderr hsame => ?_⟩
  rw [readBoundedStream_prepared, hsame, received, hprepared]

end Outcomes

/-- the hash that repeats one byte -/
def sampleHash : TxHash := ⟨List.replicate 32 0xAA, List.length_replicate ..⟩

/-- the line that announces it -/
def sampleLine : List UInt8 := asciiBytes (List.replicate 2 ' ' ++ "Prepared TX ".toList ++ List.replicate 64 'a' ++ [';'])

/-- a helper that announces a transaction and writes nothing else -/
def sampleRun (ending : Ending) : HelperRun := ⟨⟨[], none⟩, ⟨[⟨sampleLine ++ [0x0A], by decide⟩], none⟩, ending⟩

/-- no output is no JSON -/
def sampleCrates : Crates := ⟨fun _ => .ok [], fun _ => .error "EOF while parsing a value at line 1 column 0"⟩

def sampleMailbox : DuskMailbox := ⟨some [1], [], 1, 1⟩

theorem sampleRun_prepares (ending : Ending) : Prepares (sampleRun ending).stderr.read sampleHash := by
  have hbytes : (sampleRun ending).stderr.bytes = [] ++ sampleLine ++ 0x0A :: [] := rfl
  have hread : (sampleRun ending).stderr.read = [] ++ sampleLine ++ 0x0A :: [] := by
    rw [Stream.read, hbytes]
    exact List.take_of_length_le (by decide)
  have hid : Denotes (List.replicate 64 'a') sampleHash := rfl
  exact ⟨[], sampleLine, [], hread, Or.inl rfl, rfl, 2, List.replicate 64 'a', [], hid, List.not_mem_nil,
    (List.append_nil _).symm⟩

theorem deadline_keeps : Kept sampleCrates sampleMailbox [] [] none (fun _ => .ran (sampleRun .deadline)) (sampleRun .deadline)
    sampleHash :=
  (prepared_transaction_kept_iff rfl rfl (sampleRun_prepares .deadline)).1.2 trivial

/-- a helper that is killed after the announcement: the transaction is lost -/
theorem killed_helper_loses : ¬ ∀ (crates : Crates) (mailbox : DuskMailbox) (encoded metadata : List UInt8)
    (txGasLimit : Option ℕ) (helper : HelperCall → Invoked) (call : HelperCall) (run : HelperRun) (id : TxHash),
    helperCall crates mailbox encoded metadata txGasLimit = .ok call → helper call = .ran run →
      Prepares run.stderr.read id → Kept crates mailbox encoded metadata txGasLimit helper run id := by
  intro hall
  have hkept := hall sampleCrates sampleMailbox [] [] none (fun _ => .ran (sampleRun (.exited none))) _
    (sampleRun (.exited none)) sampleHash rfl rfl (sampleRun_prepares _)
  obtain ⟨-, -, err, herr, -⟩ := (kept_iff rfl rfl (sampleRun_prepares _)).1 hkept
  nomatch herr

end Hyperlane.Dusk.TxSender
