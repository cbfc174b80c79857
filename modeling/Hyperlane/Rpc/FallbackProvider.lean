/-
The fallback provider of the agents (hyperlane-core/src/rpc_clients/fallback.rs): several RPC providers behind one, in an
order that calls change while they run.

A call is a program over the shared store, with one access for each time it takes the `priorities` lock, asks a provider
or reads the clock; other calls and the world go on in between. What a provider answers, how high its chain is and what
the clock shows belong to the store and may change at any time. A provider may also never answer. The timeout of a call
drops what runs under it at any of its accesses, as `expired` decides; the pause between two rounds is no access. Logs
are left out.

The `errors` of a call come with the provider that gave each of them, and a call puts its outcome down at its end.
-/
import Hyperlane.Core.Interleaving

namespace Hyperlane.Rpc

open Hyperlane.Interleaving

/-! ## Model -/

/-- two minutes, in milliseconds -/
def MAX_BLOCK_TIME : ℕ := 2 * 60 * 1000

def FAILED_REQUEST_THRESHOLD : ℕ := 10

structure PrioritizedProviderInner where
  index : ℕ
  /-- a `u32`, of which only saturating additions are made -/
  lastFailedCount : ℕ
  /-- a block number, and when it was seen -/
  lastBlockHeight : ℕ × ℕ
deriving DecidableEq

namespace PrioritizedProviderInner

def new (index lastFailedCount now : ℕ) : PrioritizedProviderInner := ⟨index, lastFailedCount, (0, now)⟩

def fromBlockHeight (index blockHeight now : ℕ) : PrioritizedProviderInner := ⟨index, 0, (blockHeight, now)⟩

def resetFailedCount (p : PrioritizedProviderInner) : PrioritizedProviderInner := { p with lastFailedCount := 0 }

end PrioritizedProviderInner

open PrioritizedProviderInner

/-- `u32::saturating_add` -/
def saturatingAdd (a b : ℕ) : ℕ := min (a + b) (2 ^ 32 - 1)

inductive ChainCommunicationError (E : Type) where
  | provider (e : E)
  | fromOtherStr (message : String)
  | fallbackProvidersFailed (errors : List (ChainCommunicationError E))

abbrev ChainResult (E V : Type) := Except (ChainCommunicationError E) V

/-- what comes of a request: an answer, which may be an error of the provider, or none before the timeout -/
inductive Reply (E V : Type) where
  | answer (response : Except E V)
  | stalled

/-- what a retrying call got: errors, and at last a value or `FallbackProvidersFailed(errors)` -/
structure Retried (E V : Type) where
  errors : List (ℕ × ChainCommunicationError E)
  value : Option (ℕ × V)

inductive Outcome (E V : Type) where
  | retried (shouldRetry : ChainCommunicationError E → Bool) (r : Option (Retried E V))
  | gathered (isComplete : List (ChainResult E V) → Bool) (responses : List (ℕ × ChainResult E V))
  | optional (responses : List (ℕ × ChainResult E (Option V))) (result : ChainResult E (Option V))

/-- `Request` stands for the closure that makes a request to a provider -/
structure Store (Request E V : Type) where
  priorities : List PrioritizedProviderInner
  /-- the block height probe locks that are taken -/
  probing : List ℕ
  now : ℕ
  /-- whether the timeout of a call drops what waits now -/
  expired : Bool
  reply : Request → ℕ → Reply E V
  replyOptional : Request → ℕ → Reply E (Option V)
  getBlockNumber : ℕ → Reply E ℕ
  outcomes : List (Outcome E V)

variable {Request E V W α : Type}

abbrev Program (Request E V α : Type) := Prog (Store Request E V) α

/-- how many providers there are, and `max_block_time` -/
structure FallbackProvider where
  len : ℕ
  maxBlockTime : ℕ

section Model

variable (F : FallbackProvider)

def setPriorities (f : List PrioritizedProviderInner → List PrioritizedProviderInner) : Program Request E V Unit :=
  .write fun s => { s with priorities := f s.priorities }

def instantNow : Program Request E V ℕ := .read (·.now)

/-- `tokio::time::timeout` over what has no locks -/
def timeout : Program Request E V α → Program Request E V (Option α)
  | .pure a => .pure (some a)
  | .access change next =>
    .access (fun s => if s.expired then s else change s) fun s => if s.expired then .pure none else timeout (next s)
  | .acquire _ => .pure none
  | .release _ => .pure none

def deprioritizeProvider (priority : PrioritizedProviderInner) : Program Request E V Unit :=
  setPriorities fun priorities => priorities.filter (fun p => p.index ≠ priority.index) ++ [priority]

/-- the first entry of a provider is changed -/
def modifyFirst (index : ℕ) (f : PrioritizedProviderInner → PrioritizedProviderInner) :
    List PrioritizedProviderInner → List PrioritizedProviderInner
  | [] => []
  | p :: ps => if p.index = index then f p :: ps else p :: modifyFirst index f ps

/-- the time is taken under the lock -/
def updateLastSeenBlock (providerIndex currentBlockHeight : ℕ) : Program Request E V Unit :=
  .write fun s => { s with
    priorities := modifyFirst providerIndex (fun _ => fromBlockHeight providerIndex currentBlockHeight s.now) s.priorities }

def priorityForProvider (providerIndex : ℕ) : Program Request E V (Option PrioritizedProviderInner) :=
  .read fun s => s.priorities.find? fun priority => priority.index = providerIndex

def takePrioritiesSnapshot : Program Request E V (List PrioritizedProviderInner) := .read (·.priorities)

def timedOut : ChainCommunicationError E := .fromOtherStr "fallback provider call timed out"

def priorityMissing : ChainCommunicationError E := .fromOtherStr "fallback provider priority is missing"

/-- whether the lock was free; it is taken then -/
def tryLockProbe (index : ℕ) : Program Request E V Bool :=
  .access (fun s => if index ∈ s.probing then s else { s with probing := index :: s.probing })
    fun s => .pure (decide (index ∉ s.probing))

def unlockProbe (index : ℕ) : Program Request E V Unit := .write fun s => { s with probing := s.probing.erase index }

/-- `handle_stalled_provider` under the probe lock -/
def probe (index : ℕ) : Program Request E V (ChainResult E Unit) := do
  match ← priorityForProvider index with
  | none => pure (.error priorityMissing)
  | some currentPriority =>
    let now ← instantNow
    if now - currentPriority.lastBlockHeight.2 ≤ F.maxBlockTime then pure (.ok ())
    else match ← Prog.read fun s => s.getBlockNumber index with
      | .stalled => pure (.error timedOut)
      | .answer result =>
        let currentBlockHeight := result.toOption.getD currentPriority.lastBlockHeight.1
        if currentBlockHeight ≤ currentPriority.lastBlockHeight.1 then
          let now ← instantNow
          deprioritizeProvider (fromBlockHeight currentPriority.index currentPriority.lastBlockHeight.1 now)
        else updateLastSeenBlock currentPriority.index currentBlockHeight
        pure (.ok ())

/-- `none`: dropped by the timeout of the call, with the probe lock if it was held -/
def handleStalledProvider (priority : PrioritizedProviderInner) :
    Program Request E V (Option (ChainResult E Unit)) := do
  if F.len = 1 then pure (some (.ok ()))
  else
    let now ← instantNow
    if now - priority.lastBlockHeight.2 ≤ F.maxBlockTime then pure (some (.ok ()))
    else
      let free ← tryLockProbe priority.index
      if free then
        let result ← timeout (probe F priority.index)
        unlockProbe priority.index
        pure result
      else pure (some (.ok ()))

def incrementFailedCount (index : ℕ) : Program Request E V Unit :=
  setPriorities (modifyFirst index fun p => { p with lastFailedCount := saturatingAdd p.lastFailedCount 1 })

/-- the count of the snapshot decides -/
def handleFailedProvider (priority : PrioritizedProviderInner) : Program Request E V Unit := do
  incrementFailedCount priority.index
  if saturatingAdd priority.lastFailedCount 1 ≥ FAILED_REQUEST_THRESHOLD then
    deprioritizeProvider priority.resetFailedCount
  else pure ()

/-- the part of a call to a provider that has a timeout; `f` is what the request comes to -/
def underTimeout (f : Store Request E V → ℕ → Reply E W) (priority : PrioritizedProviderInner) :
    Program Request E V (ChainResult E W) := do
  match ← Prog.read fun s => f s priority.index with
  | .stalled => pure (.error timedOut)
  | .answer (.error e) => pure (.error (.provider e))
  | .answer (.ok v) =>
    match ← handleStalledProvider F priority with
    | none => pure (.error timedOut)
    | some (.error e) => pure (.error e)
    | some (.ok ()) => pure (.ok v)

def callProvider (f : Store Request E V → ℕ → Reply E W) (priority : PrioritizedProviderInner) :
    Program Request E V (ChainResult E W) := do
  let response ← underTimeout F f priority
  match response with
  | .ok _ => pure ()
  | .error _ => handleFailedProvider priority
  pure response

/-! ## Calls -/

/-- one pass over a snapshot; stops with a value, or gives the errors and who may be asked again -/
def retryRound (f : Store Request E V → ℕ → Reply E V) (shouldRetry : ChainCommunicationError E → Bool) :
    List PrioritizedProviderInner → List (ℕ × ChainCommunicationError E) → (ℕ → Bool) →
      Program Request E V (Retried E V × (ℕ → Bool))
  | [], errors, retryable => pure (⟨errors, none⟩, retryable)
  | priority :: rest, errors, retryable =>
    if retryable priority.index then do
      match ← callProvider F f priority with
      | .ok v => pure (⟨errors, some (priority.index, v)⟩, retryable)
      | .error e =>
        retryRound f shouldRetry rest (errors ++ [(priority.index, e)])
          (Function.update retryable priority.index (shouldRetry e))
    else retryRound f shouldRetry rest errors retryable

/-- `none`: more rounds than there is fuel -/
def retryRounds (f : Store Request E V → ℕ → Reply E V) (shouldRetry : ChainCommunicationError E → Bool) (fuel : ℕ)
    (errors : List (ℕ × ChainCommunicationError E)) (retryable : ℕ → Bool) :
    Program Request E V (Option (Retried E V)) :=
  if errors.length ≤ 3 ∧ (List.range F.len).any retryable = true then
    match fuel with
    | 0 => pure none
    | fuel + 1 => do
      let snapshot ← takePrioritiesSnapshot
      let (r, retryable) ← retryRound F f shouldRetry snapshot errors retryable
      if r.value.isSome then pure (some r) else retryRounds f shouldRetry fuel r.errors retryable
  else pure (some ⟨errors, none⟩)

def callWithRetryPredicate (f : Store Request E V → ℕ → Reply E V) (shouldRetry : ChainCommunicationError E → Bool) :
    Program Request E V (Option (Retried E V)) :=
  retryRounds F f shouldRetry 4 [] fun _ => true

def call (f : Store Request E V → ℕ → Reply E V) : Program Request E V (Option (Retried E V)) :=
  callWithRetryPredicate F f fun _ => true

def untilLoop (f : Store Request E V → ℕ → Reply E V) (isComplete : List (ChainResult E V) → Bool) :
    List PrioritizedProviderInner → List (ℕ × ChainResult E V) →
      Program Request E V (List (ℕ × ChainResult E V))
  | [], responses => pure responses
  | priority :: rest, responses => do
    let response ← callProvider F f priority
    let responses := responses ++ [(priority.index, response)]
    if isComplete (responses.map Prod.snd) then pure responses else untilLoop f isComplete rest responses

def callUntil (f : Store Request E V → ℕ → Reply E V) (isComplete : List (ChainResult E V) → Bool) :
    Program Request E V (List (ℕ × ChainResult E V)) := do
  let snapshot ← takePrioritiesSnapshot
  untilLoop F f isComplete snapshot []

/-- the errors among some responses -/
def errorsOf (responses : List (ℕ × ChainResult E W)) : List (ChainCommunicationError E) :=
  responses.filterMap fun r => match r.2 with
    | .error e => some e
    | .ok _ => none

/-- also says what was answered -/
def optionalLoop (f : Store Request E V → ℕ → Reply E (Option V)) :
    List PrioritizedProviderInner → List (ℕ × ChainResult E (Option V)) →
      Program Request E V (List (ℕ × ChainResult E (Option V)) × ChainResult E (Option V))
  | [], responses =>
    if (errorsOf responses).isEmpty then pure (responses, .ok none)
    else pure (responses, .error (.fallbackProvidersFailed (errorsOf responses)))
  | priority :: rest, responses => do
    let response ← callProvider F f priority
    match response with
    | .ok (some value) => pure (responses ++ [(priority.index, response)], .ok (some value))
    | .ok none => optionalLoop f rest (responses ++ [(priority.index, response)])
    | .error _ => optionalLoop f rest (responses ++ [(priority.index, response)])

def callOptional (f : Store Request E V → ℕ → Reply E (Option V)) :
    Program Request E V (List (ℕ × ChainResult E (Option V)) × ChainResult E (Option V)) := do
  let snapshot ← takePrioritiesSnapshot
  if snapshot.isEmpty then pure ([], .error (.fallbackProvidersFailed []))
  else optionalLoop F f snapshot []

/-! ## Tasks -/

inductive Op (Request E V : Type) where
  | call (request : Request)
  | callWithRetryPredicate (request : Request) (shouldRetry : ChainCommunicationError E → Bool)
  | callUntil (request : Request) (isComplete : List (ChainResult E V) → Bool)
  | callOptional (request : Request)

def putDown (o : Outcome E V) : Program Request E V Unit := .write fun s => { s with outcomes := s.outcomes ++ [o] }

def Op.program : Op Request E V → Program Request E V Unit
  | .call request => do
    let r ← Rpc.call F fun s => s.reply request
    putDown (.retried (fun _ => true) r)
  | .callWithRetryPredicate request shouldRetry => do
    let r ← Rpc.callWithRetryPredicate F (fun s => s.reply request) shouldRetry
    putDown (.retried shouldRetry r)
  | .callUntil request isComplete => do
    let r ← Rpc.callUntil F (fun s => s.reply request) isComplete
    putDown (.gathered isComplete r)
  | .callOptional request => do
    let r ← Rpc.callOptional F fun s => s.replyOptional request
    putDown (.optional r.1 r.2)

/-- what the world may change at any time -/
structure World (Request E V : Type) where
  now : ℕ
  expired : Bool
  reply : Request → ℕ → Reply E V
  replyOptional : Request → ℕ → Reply E (Option V)
  getBlockNumber : ℕ → Reply E ℕ

def machine : Machine (Op Request E V) (World Request E V) (Store Request E V) where
  program op := op.program F
  ready _ _ := true
  bare _ := false
  interfere w s := { s with
    now := w.now
    expired := w.expired
    reply := w.reply
    replyOptional := w.replyOptional
    getBlockNumber := w.getBlockNumber }

/-- `FallbackProviderBuilder::build` -/
def build (w : World Request E V) : System (Op Request E V) (Store Request E V) where
  store := {
    priorities := (List.range F.len).map fun i => .new i 0 w.now
    probing := []
    now := w.now
    expired := w.expired
    reply := w.reply
    replyOptional := w.replyOptional
    getBlockNumber := w.getBlockNumber
    outcomes := [] }
  lock := none
  tasks := []

end Model

end Hyperlane.Rpc
