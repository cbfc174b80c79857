/-
Rate limits on messages: `RateLimitedIsm` (contracts/isms/warp-route/RateLimitedIsm.sol) and
`NetFlowRateLimitedHookIsm` (contracts/hooks/warp-route/NetFlowRateLimitedHookIsm.sol).

Both move their bucket by the amount of a token message, and mark the message's id. Anybody may call them with any
bytes, at any time and in any state of the mailbox, so the mailbox and the clock are data of the call. A revert undoes
the mark.

- `RateLimitedIsm.gate`, `NetFlowRateLimitedHookIsm.gate`: the mark is a one-shot gate.
- `rate_limit_holds`: the window bound, the calls that go through, and one move for each message id.
-/
import Hyperlane.Core.OneShot
import Hyperlane.Mailbox.Operations
import Hyperlane.RateLimit.Window

namespace Hyperlane.RateLimit

open Hyperlane.Bytes Hyperlane.Mailbox Hyperlane.OneShot Hyperlane.Outcome Hyperlane.TokenBucket

variable {Hash : Type} [DecidableEq Hash]

/-- `TokenMessage.amount` of the body -/
def messageAmount (message : List UInt8) : Except String ℕ := do
  let body ← calldata (Message.body message)
  let word ← calldata (slice body 32 64)
  .ok (ofBe word)

/-- `Message.senderAddress` -/
def senderAddress (message : List UInt8) : Except String Address := do
  TypeCasts.bytes32ToAddress (← calldata (Message.sender message))

/-- what a call sees of the chain -/
structure Chain (Hash : Type) where
  mailbox : Storage Hash
  timestamp : ℕ
  blockNumber : ℕ
  /-- `localCollateral()` -/
  localCollateral : ℕ

/-- a mark stays when another one is made -/
theorem update_marked {marks : Hash → Bool} {k : Hash} (h : marks k = true) (id : Hash) :
    Function.update marks id true k = true := by
  by_cases hid : k = id
  · rw [hid, Function.update_self]
  · rw [Function.update_of_ne hid, h]

/-! ## RateLimitedIsm -/

namespace RateLimitedIsm

structure Config (Hash : Type) where
  keccak : List UInt8 → Hash
  DURATION : ℕ
  recipient : Address

structure State (Hash : Type) where
  owner : Address
  refillRate : ℕ
  bucket : Bucket
  messageValidated : Hash → Bool

inductive Call (Hash : Type) where
  | verify (chain : Chain Hash) (metadata message : List UInt8)
  | setRefillRate (sender : Address) (capacity : ℕ)

/-- the id of a call's message -/
def messageId (cfg : Config Hash) : Call Hash → Option Hash
  | .verify _ _ message => some (cfg.keccak message)
  | .setRefillRate _ _ => none

/-- the constructor -/
def deployed (cfg : Config Hash) (owner : Address) (maxCapacity timestamp : ℕ) : State Hash :=
  ⟨owner, RateLimited.refillRate cfg.DURATION maxCapacity, RateLimited.deployed maxCapacity timestamp, fun _ => false⟩

def verify (cfg : Config Hash) (chain : Chain Hash) (message : List UInt8) (s : State Hash) :
    Except String (State Hash) := do
  let recipient ← Message.recipientAddress message
  require (decide (recipient = cfg.recipient)) "InvalidRecipient"
  let id := cfg.keccak message
  require (!s.messageValidated id) "MessageAlreadyValidated"
  let messageValidated := Function.update s.messageValidated id true
  require (chain.mailbox.delivered id) "InvalidDeliveredMessage"
  let newAmount ← messageAmount message
  let c ← RateLimited.context cfg.DURATION s.refillRate chain.timestamp
  let (bucket, _) ← validateAndConsumeFilledLevel RateLimited cfg.DURATION c newAmount s.bucket
  .ok { s with bucket := bucket, messageValidated := messageValidated }

def setRefillRate (cfg : Config Hash) (sender : Address) (capacity : ℕ) (s : State Hash) :
    Except String (State Hash) := do
  require (decide (sender = s.owner)) "Ownable: caller is not the owner"
  .ok { s with refillRate := RateLimited.refillRate cfg.DURATION capacity }

def step (cfg : Config Hash) (s : State Hash) : Call Hash → Except String (State Hash)
  | .verify chain _ message => verify cfg chain message s
  | .setRefillRate sender capacity => setRefillRate cfg sender capacity s

theorem verify_marks {cfg : Config Hash} {chain : Chain Hash} {message : List UInt8} {s s' : State Hash}
    (h : verify cfg chain message s = .ok s') :
    s.messageValidated (cfg.keccak message) = false ∧
      s'.messageValidated = Function.update s.messageValidated (cfg.keccak message) true := by
  unfold verify at h
  simp only [bind_eq_ok, require_eq_ok, Bool.not_eq_true'] at h
  obtain ⟨_, -, _, -, _, hfresh, _, -, _, -, _, -, _, -, hs'⟩ := h
  obtain rfl := Except.ok.inj hs'
  exact ⟨hfresh, rfl⟩

omit [DecidableEq Hash] in
theorem setRefillRate_keeps {cfg : Config Hash} {sender : Address} {capacity : ℕ} {s s' : State Hash}
    (h : setRefillRate cfg sender capacity s = .ok s') :
    s'.bucket = s.bucket ∧ s'.messageValidated = s.messageValidated := by
  obtain ⟨-, -, hs'⟩ := bind_eq_ok.1 h
  obtain rfl := Except.ok.inj hs'
  exact ⟨rfl, rfl⟩

theorem gate (cfg : Config Hash) : Gate (step cfg) (messageId cfg) fun s id => s.messageValidated id = true where
  unused {s c s' k} h hkey := by
    cases c with
    | verify chain metadata message =>
      obtain rfl := Option.some.inj hkey
      simp [(verify_marks h).1]
    | setRefillRate sender capacity => exact nomatch hkey
  uses {s c s' k} h hkey := by
    cases c with
    | verify chain metadata message =>
      obtain rfl := Option.some.inj hkey
      simp [(verify_marks h).2]
    | setRefillRate sender capacity => exact nomatch hkey
  keeps {s c s' k} h hused := by
    cases c with
    | verify chain metadata message =>
      rw [(verify_marks h).2]
      exact update_marked hused _
    | setRefillRate sender capacity =>
      rw [(setRefillRate_keeps h).2]
      exact hused

end RateLimitedIsm

/-! ## NetFlowRateLimitedHookIsm -/

namespace NetFlowRateLimitedHookIsm

inductive FlowDirection where
  | CREDIT
  | CONSUME
deriving DecidableEq

structure Config (Hash : Type) where
  keccak : List UInt8 → Hash
  DURATION : ℕ
  thresholdBps : ℕ
  warpRouter : Address
  /-- `capacityToken == _router` -/
  synthetic : Bool
  minOutboundNonce : UInt32
  scaleNumerator : ℕ
  scaleDenominator : ℕ
  numerator_pos : 0 < scaleNumerator

def outboundFlow (cfg : Config Hash) : FlowDirection := if cfg.synthetic then .CONSUME else .CREDIT

structure State (Hash : Type) where
  bucket : Bucket
  messageValidated : Hash → Bool

inductive Call (Hash : Type) where
  | verify (chain : Chain Hash) (metadata message : List UInt8)
  | postDispatch (chain : Chain Hash) (metadata message : List UInt8)

def messageId (cfg : Config Hash) : Call Hash → Option Hash
  | .verify _ _ message => some (cfg.keccak message)
  | .postDispatch _ _ message => some (cfg.keccak message)

def deployed (timestamp : ℕ) : State Hash := ⟨TvlRateLimited.deployed timestamp, fun _ => false⟩

/-- `_toLocalAmount` of the message's amount, moved in the bucket -/
def meter (cfg : Config Hash) (chain : Chain Hash) (consumes : Bool) (message : List UInt8) (b : Bucket) :
    Except String Bucket := do
  let amount ← messageAmount message
  let localAmount ← mulDiv amount cfg.scaleDenominator cfg.scaleNumerator
  let c ← TvlRateLimited.context cfg.thresholdBps chain.localCollateral chain.timestamp
  let (bucket, _) ← if consumes then validateAndConsumeFilledLevel TvlRateLimited cfg.DURATION c localAmount b
    else credit TvlRateLimited cfg.DURATION c localAmount b
  .ok bucket

/-- `validateMessageOnce` -/
def validateMessageOnce (cfg : Config Hash) (message : List UInt8) (s : State Hash) : Except String (State Hash) := do
  require (!s.messageValidated (cfg.keccak message)) "MessageAlreadyValidated"
  .ok { s with messageValidated := Function.update s.messageValidated (cfg.keccak message) true }

def verify (cfg : Config Hash) (chain : Chain Hash) (message : List UInt8) (s : State Hash) :
    Except String (State Hash) := do
  let recipient ← Message.recipientAddress message
  require (decide (recipient = cfg.warpRouter)) "WrongRecipient"
  let s ← validateMessageOnce cfg message s
  -- `_isProcessing`
  let processedAt := (chain.mailbox.deliveries (cfg.keccak message)).blockNumber
  require (decide (processedAt = chain.blockNumber)) "InvalidDeliveredMessage"
  let bucket ← meter cfg chain (decide (outboundFlow cfg = .CREDIT)) message s.bucket
  .ok { s with bucket := bucket }

/-- `StandardHookMetadata.variant` -/
def variant (metadata : List UInt8) : ℕ := if metadata.length < 2 then 0 else ofBe (metadata.take 2)

def supportsMetadata (metadata : List UInt8) : Bool := metadata.length == 0 || variant metadata == 1

def postDispatch (cfg : Config Hash) (chain : Chain Hash) (metadata message : List UInt8) (s : State Hash) :
    Except String (State Hash) := do
  require (supportsMetadata metadata) "AbstractPostDispatchHook: invalid metadata variant"
  let sender ← senderAddress message
  require (decide (sender = cfg.warpRouter)) "WrongSender"
  let s ← validateMessageOnce cfg message s
  -- `_isLatestDispatched`
  require (decide (chain.mailbox.latestDispatchedId = some (cfg.keccak message))) "InvalidDispatchedMessage"
  let nonce ← calldata (Message.nonce message)
  require (decide (cfg.minOutboundNonce ≤ nonce)) "InvalidDispatchedMessage"
  let bucket ← meter cfg chain (decide (outboundFlow cfg = .CONSUME)) message s.bucket
  .ok { s with bucket := bucket }

def step (cfg : Config Hash) (s : State Hash) : Call Hash → Except String (State Hash)
  | .verify chain _ message => verify cfg chain message s
  | .postDispatch chain metadata message => postDispatch cfg chain metadata message s

theorem validateMessageOnce_ok {cfg : Config Hash} {message : List UInt8} {s s' : State Hash}
    (h : validateMessageOnce cfg message s = .ok s') :
    s.messageValidated (cfg.keccak message) = false ∧
      s'.messageValidated = Function.update s.messageValidated (cfg.keccak message) true := by
  unfold validateMessageOnce at h
  simp only [bind_eq_ok, require_eq_ok, Bool.not_eq_true'] at h
  obtain ⟨_, hfresh, hs'⟩ := h
  obtain rfl := Except.ok.inj hs'
  exact ⟨hfresh, rfl⟩

/-- both directions go through the gate -/
theorem step_marks {cfg : Config Hash} {s s' : State Hash} {c : Call Hash} (h : step cfg s c = .ok s') :
    ∃ id, messageId cfg c = some id ∧ s.messageValidated id = false ∧
      s'.messageValidated = Function.update s.messageValidated id true := by
  cases c with
  | verify chain metadata message =>
    refine ⟨cfg.keccak message, rfl, ?_⟩
    unfold step verify at h
    simp only [bind_eq_ok] at h
    obtain ⟨_, -, _, -, s₁, hs₁, _, -, _, -, hs'⟩ := h
    obtain rfl := Except.ok.inj hs'
    obtain ⟨hfresh, hmarks⟩ := validateMessageOnce_ok hs₁
    exact ⟨hfresh, hmarks⟩
  | postDispatch chain metadata message =>
    refine ⟨cfg.keccak message, rfl, ?_⟩
    unfold step postDispatch at h
    simp only [bind_eq_ok] at h
    obtain ⟨_, -, _, -, _, -, s₁, hs₁, _, -, _, -, _, -, _, -, hs'⟩ := h
    obtain rfl := Except.ok.inj hs'
    obtain ⟨hfresh, hmarks⟩ := validateMessageOnce_ok hs₁
    exact ⟨hfresh, hmarks⟩

theorem gate (cfg : Config Hash) : Gate (step cfg) (messageId cfg) fun s id => s.messageValidated id = true where
  unused {s c s' k} h hkey := by
    obtain ⟨id, hid, hfresh, -⟩ := step_marks h
    obtain rfl := Option.some.inj (hid.symm.trans hkey)
    simp [hfresh]
  uses {s c s' k} h hkey := by
    obtain ⟨id, hid, -, hmarks⟩ := step_marks h
    obtain rfl := Option.some.inj (hid.symm.trans hkey)
    simp [hmarks]
  keeps {s c s' k} h hused := by
    obtain ⟨id, -, -, hmarks⟩ := step_marks h
    rw [hmarks]
    exact update_marked hused id

end NetFlowRateLimitedHookIsm

/-! ## The limit -/

/-- **Rate limits hold.** In any window the amounts consumed are at most the capacity, its refill in the window, and
what was credited in it; a consumption within the reported level reverts only if the bucket was never used and its
refill does not fit into 256 bits; and in both contracts a message id moves the bucket at most once in any run. -/
theorem rate_limit_holds :
    (∀ (V : Limiter) (DURATION : ℕ) (capacity : { C : ℕ // C < 2 ^ 256 }) (ops : List (ℕ × Operation)) (b : Bucket),
      0 < capacity.1 → b.debt = 0 →
      (∀ s e, spentIn s e (meteredRun V DURATION capacity b ops).2 ≤
        capacity.1 + (e - s) * capacity.1 / DURATION + gainedIn s e (meteredRun V DURATION capacity b ops).2) ∧
      ∀ timestamp amount level, let b' := (meteredRun V DURATION capacity b ops).1
        let c : Context := ⟨timestamp, capacity.1, capacity.2⟩
        b'.lastUpdated ≤ timestamp → calculateCurrentLevel V.virtuals DURATION c b' = .ok level → amount ≤ level →
          ((∀ r, validateAndConsumeFilledLevel V.virtuals DURATION c amount b' ≠ .ok r) ↔
            V.virtuals.isInitialized b' = false ∧ 2 ^ 256 ≤ (timestamp - b'.lastUpdated) * capacity.1)) ∧
    (∀ {Hash : Type} [DecidableEq Hash] (cfg : RateLimitedIsm.Config Hash) (s : RateLimitedIsm.State Hash)
      (calls : List (RateLimitedIsm.Call Hash)),
      (∀ entry ∈ accepted (RateLimitedIsm.step cfg) s calls, RateLimitedIsm.messageId cfg entry.1 = none →
        entry.2.1.bucket = entry.2.2.bucket) ∧
      ∀ id, (accepted (RateLimitedIsm.step cfg) s calls).countP (fun entry =>
        decide (RateLimitedIsm.messageId cfg entry.1 = some id) && decide (entry.2.1.bucket ≠ entry.2.2.bucket)) ≤ 1) ∧
    ∀ {Hash : Type} [DecidableEq Hash] (cfg : NetFlowRateLimitedHookIsm.Config Hash)
      (s : NetFlowRateLimitedHookIsm.State Hash) (calls : List (NetFlowRateLimitedHookIsm.Call Hash)),
      (∀ entry ∈ accepted (NetFlowRateLimitedHookIsm.step cfg) s calls,
        NetFlowRateLimitedHookIsm.messageId cfg entry.1 ≠ none) ∧
      ∀ id, (accepted (NetFlowRateLimitedHookIsm.step cfg) s calls).countP (fun entry =>
        decide (NetFlowRateLimitedHookIsm.messageId cfg entry.1 = some id) &&
          decide (entry.2.1.bucket ≠ entry.2.2.bucket)) ≤ 1 := by
  refine ⟨fun V DURATION capacity ops b hcap hdebt => ⟨fun s e => ?_, ?_⟩, fun cfg s calls => ⟨?_, fun id => ?_⟩,
    fun cfg s calls => ⟨?_, fun id => ?_⟩⟩
  · exact window_bound V DURATION capacity hcap.ne' ops b hdebt s e
  · intro timestamp amount level b' c htime hlevel hle
    exact consume_reverts_iff (run_metered V DURATION capacity hcap.ne' ops b hdebt 0).1 htime hcap hlevel hle
  · have hkeep : ∀ s c s', RateLimitedIsm.step cfg s c = .ok s' → RateLimitedIsm.messageId cfg c = none →
        s.bucket = s'.bucket := by
      intro s c s' h hnone
      cases c with
      | verify chain metadata message => exact nomatch hnone
      | setRefillRate sender capacity => exact (RateLimitedIsm.setRefillRate_keeps h).1.symm
    exact forall_accepted hkeep s calls
  · exact (RateLimitedIsm.gate cfg).countP_le_one s calls id _
  · intro entry _
    cases entry.1 <;> exact Option.some_ne_none _
  · exact (NetFlowRateLimitedHookIsm.gate cfg).countP_le_one s calls id _

/-- a full bucket that was never used, of a route with 2^243 units of collateral: after 2^14 seconds a consumption
within the reported level reverts -/
theorem unused_bucket_reverts :
    ∃ c : Context, TvlRateLimited.context 5000 (2 ^ 243) (2 ^ 14) = .ok c ∧
      calculateCurrentLevel TvlRateLimited 86400 c (TvlRateLimited.deployed 0) = .ok (2 ^ 242) ∧
      validateAndConsumeFilledLevel TvlRateLimited 86400 c 1 (TvlRateLimited.deployed 0) = .error "Panic(0x11)" := by
  refine ⟨⟨2 ^ 14, 2 ^ 242, by norm_num⟩, ?_, ?_, ?_⟩
  · decide +kernel
  · decide +kernel
  · decide +kernel

end Hyperlane.RateLimit
