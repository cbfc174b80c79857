/-
Sending a Dusk transaction (hyperlane-dusk/src/tx_sender.rs, `DuskMailbox::process` in mailbox.rs, `wait_for_tx` in
rues.rs): the run of the `dusk-tx` helper, what its output says, and the wait for the transaction on the ledger.

The helper and the endpoint are not part of the repository: a run of the helper is any pair of streams, read in any
pieces, with any ending, and the endpoint answers each hash with any list of answers until the deadline of the wait.
-/
import Mathlib.Data.List.DropRight
import Hyperlane.Core.Bytes
import Hyperlane.Core.Outcome
import Hyperlane.Core.Text
import Hyperlane.Core.Utf8

namespace Hyperlane.Dusk.TxSender

open Bytes Text Utf8

def MAX_DUSK_TX_STREAM_BYTES : ℕ := 1024 * 1024

def MAX_DUSK_TX_ARGS_BYTES : ℕ := 60 * 1024

def MAX_PROCESS_PAYLOAD_BYTES : ℕ := MAX_DUSK_TX_ARGS_BYTES - 1024

def u64Max : ℕ := 2 ^ 64 - 1

/-- a value of `serde_json`; a `natural` fits in a `u64` -/
inductive Value where
  | null
  | bool (b : Bool)
  | natural (n : ℕ)
  | number (text : List Char)
  | string (s : List Char)
  | array (values : List Value)
  | object (fields : List (List Char × Value))

def Value.get (key : List Char) : Value → Option Value
  | .object fields => (fields.find? fun field => field.1 = key).map Prod.snd
  | _ => none

def Value.asStr : Value → Option (List Char)
  | .string s => some s
  | _ => none

def Value.asU64 : Value → Option ℕ
  | .natural n => some n
  | _ => none

/-- why the outcome of a submission is unknown -/
inductive Detail where
  | deadline (fnName : List Char)
  | helper (err : List Char)

/-- an error, by its variant, and by its message where the variant is `Other` -/
inductive HyperlaneDuskError where
  | SignerUnavailable
  | SubmissionOutcomeUnknown (txId : List Char) (detail : Detail)
  | gasLimitExceedsU64 (limit : ℕ)
  | payloadTooLong
  | rkyv (e : String)
  | serializedArgsTooLong
  | argumentsTooLong (fnName : List Char)
  | notInvoked (e : String)
  | stdinNotWritten (e : String)
  | waitFailed (fnName : List Char) (e : String)
  | deadlineExceeded (fnName : List Char)
  | readFailed (streamName : List Char) (e : String)
  | streamTooLong (streamName : List Char)
  | callFailed (fnName err : List Char)
  | exitedWithoutError (fnName : List Char) (code : ℤ) (stderr : List Char)
  | outputUnparsable (e : String) (stdout : List Char)
  | missingTxId (response : Value)
  | invalidTxIdHex (txId : List Char)
  | txIdLength (bytes : ℕ)
  | invalidTransactionId (txId : List Char)
  | confirmationTimeout (txId : List Char) (lastObservationError : Option String)
  | missingGasSpent (txId : List Char) (transaction : Value)
  | missingErr (txId : List Char) (transaction : Value)
  | invalidErr (txId : List Char) (err : Value)

/-- what the crates compute -/
structure Crates where
  rkyvSerialize : List UInt8 × List UInt8 → Except String (List UInt8)
  fromStr : List Char → Except String Value

/-! ## Transaction hashes -/

/-- 64 hexadecimal digits -/
def IsHash (text : List Char) : Prop := text.length = 64 ∧ ∀ c ∈ text, hexDigit c ≠ none

instance (text : List Char) : Decidable (IsHash text) := inferInstanceAs (Decidable (_ ∧ _))

def toAsciiLowercase (text : List Char) : List Char := text.map Char.toLower

/-- the hash of a line of `prepared_tx_id` -/
def lineTxId (line : List Char) : Option (List Char) := do
  let rest ← stripPrefix "Prepared TX ".toList (trimStart line)
  let (txId, _) ← splitOnce ';' rest
  if IsHash txId then some (toAsciiLowercase txId) else none

/-- `prepared_tx_id` -/
def preparedTxId (stderr : List UInt8) : Option (List Char) := firstInLines lineTxId stderr

/-- the text before and after the first occurrence of a needle -/
def breakOn (needle : List Char) : List Char → Option (List Char × List Char)
  | [] => none
  | c :: cs =>
    if needle <+: c :: cs then some ([], (c :: cs).drop needle.length)
    else (breakOn needle cs).map fun parts => (c :: parts.1, parts.2)

/-- the second part of a text split at a needle -/
def secondPart (needle text : List Char) : Option (List Char) := do
  let (_, rest) ← breakOn needle text
  match breakOn needle rest with
  | some (part, _) => some part
  | none => some rest

def firstWord (text : List Char) : Option (List Char) :=
  let word := (trimStart text).takeWhile fun c => !isWhitespace c
  if word = [] then none else some word

def outcomeUnknownTxId (error : List Char) : Option (List Char) :=
  if ¬ "submission failed: Propagation outcome unknown".toList <:+: error ∧ ¬ "confirmation outcome unknown".toList <:+: error then
    none
  else do
    let rest ← secondPart "tx_id=".toList error
    let word ← firstWord rest
    let txId := word.rdropWhile fun c => hexDigit c = none
    if IsHash txId then some (toAsciiLowercase txId) else none

def stripHexPrefix (text : List Char) : List Char :=
  match stripPrefix "0x".toList text with
  | some rest => rest
  | none => (stripPrefix "0X".toList text).getD text

def duskTxIdToH512 (txIdHex : List Char) : Except HyperlaneDuskError (Word 64) :=
  let txIdHex := stripHexPrefix txIdHex
  match hexDecode txIdHex with
  | none => .error (.invalidTxIdHex txIdHex)
  | some bytes =>
    if h : bytes.length = 32 then .ok ⟨List.replicate 32 0 ++ bytes, by rw [List.length_append, List.length_replicate, h]⟩
    else .error (.txIdLength bytes.length)

/-! ## The run of the helper -/

/-- a stream: what each read gives, and the error that the last read fails with, unless the stream is closed -/
structure Stream where
  chunks : List { chunk : List UInt8 // chunk ≠ [] }
  failure : Option String

def Stream.bytes (s : Stream) : List UInt8 := s.chunks.flatMap Subtype.val

inductive Ending where
  /-- the exit code, if no signal ended the helper -/
  | exited (code : Option ℤ)
  | waitFailed (e : String)
  | deadline

/-- a run of the helper; at the deadline, the streams are what has been read of them -/
structure HelperRun where
  stdout : Stream
  stderr : Stream
  ending : Ending

/-- what becomes of an invocation -/
inductive Invoked where
  | notStarted (e : String)
  | stdinFailed (e : String)
  | ran (run : HelperRun)

/-- the channel for the hash of the prepared transaction -/
inductive PreparedTx where
  | absent
  | awaited
  | sent (txId : List Char)

def PreparedTx.offer (bytes : List UInt8) : PreparedTx → PreparedTx
  | .awaited =>
    match preparedTxId bytes with
    | some txId => .sent txId
    | none => .awaited
  | channel => channel

def PreparedTx.tryRecv : PreparedTx → Option (List Char)
  | .sent txId => some txId
  | _ => none

/-- the loop of `read_bounded_stream`; no more than one byte above the limit is taken from the stream -/
def readLoop (streamName : List Char) (failure : Option String) (bytes : List UInt8) (preparedTx : PreparedTx) :
    List { chunk : List UInt8 // chunk ≠ [] } → Except HyperlaneDuskError (List UInt8) × PreparedTx
  | [] =>
    match failure with
    | some e => (.error (.readFailed streamName e), preparedTx)
    | none => (.ok bytes, preparedTx)
  | chunk :: chunks =>
    let bytes := bytes ++ chunk.1.take (MAX_DUSK_TX_STREAM_BYTES + 1 - bytes.length)
    let preparedTx := preparedTx.offer bytes
    if MAX_DUSK_TX_STREAM_BYTES < bytes.length then (.error (.streamTooLong streamName), preparedTx)
    else readLoop streamName failure bytes preparedTx chunks

def readBoundedStream (stream : Stream) (streamName : List Char) (preparedTx : PreparedTx) :
    Except HyperlaneDuskError (List UInt8) × PreparedTx :=
  readLoop streamName stream.failure [] preparedTx stream.chunks

structure Output where
  code : Option ℤ
  stdout : List UInt8
  stderr : List UInt8

def waitForChildOutput (run : HelperRun) (fnName : List Char) : Except HyperlaneDuskError Output :=
  let stdoutTask := readBoundedStream run.stdout "stdout".toList .absent
  let stderrTask := readBoundedStream run.stderr "stderr".toList .awaited
  match run.ending with
  | .deadline =>
    match stderrTask.2.tryRecv with
    | some txId => .error (.SubmissionOutcomeUnknown txId (.deadline fnName))
    | none => .error (.deadlineExceeded fnName)
  | .waitFailed e => .error (.waitFailed fnName e)
  | .exited code => do
    let stdout ← stdoutTask.1
    let stderr ← stderrTask.1
    return ⟨code, stdout, stderr⟩

/-- the arguments of `dusk_tx_call` -/
structure HelperCall where
  secretKey : List UInt8
  contractId : List UInt8
  fnName : List Char
  argsBytes : List UInt8
  gasLimit : ℕ
  gasPrice : ℕ

section Sending

variable (crates : Crates)

/-- the error in the output of a helper that has failed -/
def helperError (stdout : List Char) : Option (List Char) :=
  match crates.fromStr stdout with
  | .ok json => (json.get "error".toList).bind Value.asStr
  | .error _ => none

/-- `dusk_tx_call`, from the output of the helper on -/
def helperResponse (fnName : List Char) (output : Output) : Except HyperlaneDuskError Value :=
  let stdout := fromUtf8Lossy output.stdout
  let stderr := fromUtf8Lossy output.stderr
  if output.code ≠ some 0 then
    match helperError crates stdout with
    | some err =>
      match outcomeUnknownTxId err with
      | some txId => .error (.SubmissionOutcomeUnknown txId (.helper err))
      | none => .error (.callFailed fnName err)
    | none => .error (.exitedWithoutError fnName (output.code.getD (-1)) stderr)
  else
    match crates.fromStr stdout with
    | .ok json => .ok json
    | .error e => .error (.outputUnparsable e stdout)

def duskTxCall (call : HelperCall) (helper : HelperCall → Invoked) : Except HyperlaneDuskError Value :=
  if MAX_DUSK_TX_ARGS_BYTES < call.argsBytes.length then .error (.argumentsTooLong call.fnName)
  else
    match helper call with
    | .notStarted e => .error (.notInvoked e)
    | .stdinFailed e => .error (.stdinNotWritten e)
    | .ran run => do
      let output ← waitForChildOutput run call.fnName
      helperResponse crates call.fnName output

/-! ## The wait for the transaction -/

structure ConfirmedTransaction where
  gasSpent : ℕ
  error : Option (List Char)

/-- an answer of the endpoint to the query for a transaction -/
inductive Answer where
  | data (data : Value)
  | failed (e : String)

/-- the transaction of an answer, unless it is null -/
def foundTx (data : Value) : Option Value :=
  match data.get "tx".toList with
  | some .null => none
  | tx => tx

def parseConfirmedTransaction (txId : List Char) (transaction : Value) : Except HyperlaneDuskError ConfirmedTransaction :=
  match (transaction.get "gasSpent".toList).bind Value.asU64 with
  | none => .error (.missingGasSpent txId transaction)
  | some gasSpent =>
    match transaction.get "err".toList with
    | some .null => .ok ⟨gasSpent, none⟩
    | some (.string error) => .ok ⟨gasSpent, some error⟩
    | none => .error (.missingErr txId transaction)
    | some other => .error (.invalidErr txId other)

/-- the loop of `wait_for_tx_with_poll_interval`; the deadline comes after the last answer -/
def pollTx (txId : List Char) (lastObservationError : Option String) :
    List Answer → Except HyperlaneDuskError ConfirmedTransaction
  | [] => .error (.confirmationTimeout txId lastObservationError)
  | .failed e :: answers => pollTx txId (some e) answers
  | .data data :: answers =>
    match foundTx data with
    | some tx => parseConfirmedTransaction txId tx
    | none => pollTx txId none answers

/-- the endpoint's answers to the query for each hash -/
abbrev Endpoint := List Char → List Answer

def waitForTx (endpoint : Endpoint) (txId : List Char) : Except HyperlaneDuskError ConfirmedTransaction :=
  if IsHash txId then pollTx txId none (endpoint txId) else .error (.invalidTransactionId txId)

/-! ## The mailbox -/

structure DuskMailbox where
  signer : Option (List UInt8)
  mailboxId : List UInt8
  gasLimit : ℕ
  gasPrice : ℕ

structure TxOutcome where
  transactionId : Word 64
  executed : Bool
  gasUsed : ℕ
  gasPrice : ℕ

def processArgs (metadata encodedMessage : List UInt8) : Except HyperlaneDuskError (List UInt8) :=
  if MAX_PROCESS_PAYLOAD_BYTES < metadata.length + encodedMessage.length then .error .payloadTooLong
  else
    match crates.rkyvSerialize (metadata, encodedMessage) with
    | .error e => .error (.rkyv e)
    | .ok args => if MAX_DUSK_TX_ARGS_BYTES < args.length then .error .serializedArgsTooLong else .ok args

/-- the gas limit of `process`, if it fits in a `u64` -/
def gasLimitU64 : Option ℕ → Except HyperlaneDuskError (Option ℕ)
  | some limit => if u64Max < limit then .error (.gasLimitExceedsU64 limit) else .ok (some limit)
  | none => .ok none

variable (mailbox : DuskMailbox)

/-- `DuskMailbox::process`, up to the call of the helper -/
def helperCall (encoded metadata : List UInt8) (txGasLimit : Option ℕ) : Except HyperlaneDuskError HelperCall := do
  let some signer := mailbox.signer | throw .SignerUnavailable
  let args ← processArgs crates metadata encoded
  let gasLimit ← gasLimitU64 txGasLimit
  return ⟨signer, mailbox.mailboxId, "process".toList, args, gasLimit.getD mailbox.gasLimit, mailbox.gasPrice⟩

/-- the transaction to wait for -/
def submittedTxId : Except HyperlaneDuskError Value → Except HyperlaneDuskError (List Char)
  | .ok response =>
    match (response.get "tx_id".toList).bind Value.asStr with
    | some txId => .ok txId
    | none => .error (.missingTxId response)
  | .error (.SubmissionOutcomeUnknown txId _) => .ok txId
  | .error error => .error error

def process (encoded metadata : List UInt8) (txGasLimit : Option ℕ) (helper : HelperCall → Invoked) (endpoint : Endpoint) :
    Except HyperlaneDuskError TxOutcome := do
  let call ← helperCall crates mailbox encoded metadata txGasLimit
  let txId ← submittedTxId (duskTxCall crates call helper)
  let transactionId ← duskTxIdToH512 txId
  let confirmed ← waitForTx endpoint txId
  return ⟨transactionId, confirmed.error.isNone, confirmed.gasSpent, mailbox.gasPrice⟩

end Sending

end Hyperlane.Dusk.TxSender
