/-
The Sealevel fee program (programs/hyperlane-sealevel-fee, libraries/quote-verifier): signed quotes that are submitted,
pruned and revoked, and the fee of a transfer.

The accounts are those of one fee account: its PDAs are found by the domain, router or salt they are derived from. The
accounts passed to an instruction are the ones it derives, as it refuses all others.

- `processInitFee`, `processSubmitQuote`, `processPruneExpiredQuotes`, `processSetMinIssuedAt`, `processQuoteFee`: the
  instructions.
- `cascade`: the standing quote that QuoteFee applies.
-/
import Std.Data.TreeMap
import Hyperlane.Core.Bytes

namespace Hyperlane.Fee

open Hyperlane.Bytes

abbrev H256 := BitVec 256
abbrev H160 := Word 20
abbrev Pubkey := Word 32

inductive ProgramError where
  | invalidArgument | invalidInstructionData | incorrectProgramId | accountAlreadyInitialized
  | feeComputationOverflow | zeroFeeParams | notRoutingFeeData | notCrossCollateralRoutingFeeData | routeNotFound
  | invalidTransientData | standingQuoteAmountNotWildcard | invalidStandingQuoteContext | invalidStandingQuoteData
  | zeroTargetRouterNotAllowed | offchainQuotingNotConfigured | minIssuedAtMustBeMonotonic | curveVariantMismatch
  | invalidTransientSlot
  | staleQuote | quoteExpired | invalidExpiry | issuedAtTooFarInFuture | fullyWildcardedQuote | transientPayerMismatch
  | transientContextMismatch
  | invalidSignature | unauthorizedSigner | noAuthorizedSigners
deriving DecidableEq

def WILDCARD_RECIPIENT : H256 := BitVec.allOnes 256

def WILDCARD_DOMAIN : UInt32 := 0xFFFFFFFF

def WILDCARD_AMOUNT : UInt64 := 0xFFFFFFFFFFFFFFFF

/-- `keccak256("RoutingFee.DEFAULT_ROUTER")` -/
def DEFAULT_ROUTER : H256 := 0x6e086cd647d6eb8b516856666e2c1465fb8a6a58d3a75938362acc674eacaf47

/-- the number a byte string encodes, least significant byte first -/
def ofLe (bs : List UInt8) : ℕ := ofBe bs.reverse

/-! ## Curves -/

structure FeeParams where
  maxFee : UInt64
  halfAmount : UInt64
deriving DecidableEq

inductive FeeDataStrategy where
  | linear (p : FeeParams)
  | regressive (p : FeeParams)
  | progressive (p : FeeParams)
deriving DecidableEq

/-- a `U256` product or sum -/
def checked (n : ℕ) : Except ProgramError ℕ := if n < 2 ^ 256 then .ok n else .error .feeComputationOverflow

def checkedDiv (a b : ℕ) : Except ProgramError ℕ := if b = 0 then .error .feeComputationOverflow else .ok (a / b)

def toU64 (n : ℕ) : Except ProgramError UInt64 :=
  if n < 2 ^ 64 then .ok (UInt64.ofNat n) else .error .feeComputationOverflow

/-- `fee = min(max_fee, amount * max_fee / (2 * half_amount))` -/
def computeLinear (maxFee halfAmount amount : ℕ) : Except ProgramError UInt64 :=
  if maxFee = 0 ∨ halfAmount = 0 then .ok 0
  else do
    let denominator ← checked (2 * halfAmount)
    let product ← checked (amount * maxFee)
    let fee ← checkedDiv product denominator
    toU64 (min fee maxFee)

/-- `fee = max_fee * amount / (half_amount + amount)` -/
def computeRegressive (maxFee halfAmount amount : ℕ) : Except ProgramError UInt64 :=
  if maxFee = 0 ∨ halfAmount = 0 then .ok 0
  else do
    let numerator ← checked (maxFee * amount)
    let denominator ← checked (halfAmount + amount)
    let fee ← checkedDiv numerator denominator
    toU64 fee

/-- `fee = max_fee * amount^2 / (half_amount^2 + amount^2)` -/
def computeProgressive (maxFee halfAmount amount : ℕ) : Except ProgramError UInt64 :=
  if maxFee = 0 ∨ halfAmount = 0 then .ok 0
  else do
    let amountSq ← checked (amount * amount)
    let halfSq ← checked (halfAmount * halfAmount)
    let denominator ← checked (halfSq + amountSq)
    if denominator = 0 then .ok 0
    else do
      let product ← checked (maxFee * amountSq)
      let fee ← checkedDiv product denominator
      toU64 fee

namespace FeeDataStrategy

def computeFee (amount : UInt64) : FeeDataStrategy → Except ProgramError UInt64
  | .linear p => computeLinear p.maxFee.toNat p.halfAmount.toNat amount.toNat
  | .regressive p => computeRegressive p.maxFee.toNat p.halfAmount.toNat amount.toNat
  | .progressive p => computeProgressive p.maxFee.toNat p.halfAmount.toNat amount.toNat

def variantTag : FeeDataStrategy → UInt8
  | .linear _ => 0
  | .regressive _ => 1
  | .progressive _ => 2

def sameVariant (a b : FeeDataStrategy) : Bool := a.variantTag == b.variantTag

def params : FeeDataStrategy → FeeParams
  | .linear p => p
  | .regressive p => p
  | .progressive p => p

def validateParams (a : FeeDataStrategy) : Except ProgramError Unit :=
  if a.params.maxFee = 0 ∨ a.params.halfAmount = 0 then .error .zeroFeeParams else .ok ()

/-- Borsh: the tag of the variant, then its two parameters, and nothing after them -/
def tryFrom (bs : List UInt8) : Option FeeDataStrategy :=
  if bs.length = 17 then
    let p : FeeParams := ⟨UInt64.ofNat (ofLe ((bs.drop 1).take 8)), UInt64.ofNat (ofLe ((bs.drop 9).take 8))⟩
    match bs.head? with
    | some 0 => some (.linear p)
    | some 1 => some (.regressive p)
    | some 2 => some (.progressive p)
    | _ => none
  else none

end FeeDataStrategy

/-! ## Accounts -/

structure LeafFeeConfig where
  strategy : FeeDataStrategy
  signers : Option (List H160)

structure RoutingFeeConfig where
  wildcardSigners : List H160

structure CrossCollateralRoutingFeeConfig where
  wildcardSigners : List H160

inductive FeeData where
  | leaf (cfg : LeafFeeConfig)
  | routing (cfg : RoutingFeeConfig)
  | crossCollateralRouting (cfg : CrossCollateralRoutingFeeConfig)

structure FeeAccount where
  owner : Option Pubkey
  domainId : UInt32
  minIssuedAt : ℤ
  feeData : FeeData

structure RouteDomain where
  feeData : FeeDataStrategy
  signers : Option (List H160)

structure CrossCollateralRoute where
  feeData : FeeDataStrategy
  signers : Option (List H160)

structure TransientQuote where
  payer : Pubkey
  context : List UInt8
  data : List UInt8
  expiry : ℤ

structure FeeStandingQuoteValue where
  issuedAt : ℤ
  expiry : ℤ
  feeData : FeeDataStrategy
deriving DecidableEq

abbrev FeeStandingQuotePda := Std.TreeMap H256 FeeStandingQuoteValue

/-- a fee account and its PDAs: routes, transient quotes by salt, standing quotes by domain and target router -/
structure Accounts where
  key : Pubkey
  feeAccount : FeeAccount
  routeDomain : UInt32 → Option RouteDomain
  crossCollateralRoute : UInt32 × H256 → Option CrossCollateralRoute
  transient : H256 → Option TransientQuote
  standing : UInt32 × H256 → Option FeeStandingQuotePda

/-! ## Signed quotes -/

/-- `keccak` and the recovery of an address from a hash and a signature -/
structure Crypto where
  keccak : List UInt8 → H256
  recover : H256 → Word 65 → Option H160

structure SvmSignedQuote where
  context : List UInt8
  data : List UInt8
  issuedAt : Word 6
  expiry : Word 6
  clientSalt : H256
  signature : Word 65

namespace SvmSignedQuote

def isTransient (q : SvmSignedQuote) : Prop := q.expiry = q.issuedAt

instance (q : SvmSignedQuote) : Decidable q.isTransient := inferInstanceAs (Decidable (q.expiry = q.issuedAt))

def issuedAtTimestamp (q : SvmSignedQuote) : ℤ := ofBe q.issuedAt.1

def expiryTimestamp (q : SvmSignedQuote) : ℤ := ofBe q.expiry.1

def computeScopedSalt (C : Crypto) (q : SvmSignedQuote) (payer : Pubkey) : H256 :=
  C.keccak (payer.1 ++ be 32 q.clientSalt.toNat)

/-- `HyperlaneSvmQuote` -/
def DOMAIN_TAG : List UInt8 := [72, 121, 112, 101, 114, 108, 97, 110, 101, 83, 118, 109, 81, 117, 111, 116, 101]

def buildMessageHash (C : Crypto) (q : SvmSignedQuote) (feeAccount : Pubkey) (domainId : UInt32) (scopedSalt : H256) : H256 :=
  C.keccak (DOMAIN_TAG ++ feeAccount.1 ++ (be 4 domainId.toNat).reverse ++ be 32 (C.keccak q.context).toNat ++
    be 32 (C.keccak q.data).toNat ++ q.issuedAt.1 ++ q.expiry.1 ++ be 32 scopedSalt.toNat)

def verifySigner (C : Crypto) (q : SvmSignedQuote) (feeAccount : Pubkey) (domainId : UInt32) (payer : Pubkey)
    (authorizedSigners : List H160) : Except ProgramError H160 :=
  if authorizedSigners.isEmpty then .error .noAuthorizedSigners
  else
    match C.recover (q.buildMessageHash C feeAccount domainId (q.computeScopedSalt C payer)) q.signature with
    | none => .error .invalidSignature
    | some signer => if signer ∈ authorizedSigners then .ok signer else .error .unauthorizedSigner

end SvmSignedQuote

def MAX_QUOTE_ISSUED_AT_FUTURE_SKEW_SECS : ℤ := 300

/-- `ValidatableQuote::validate_quote` -/
def validateQuote (issuedAt expiry minIssuedAt now : ℤ) : Except ProgramError Unit :=
  if issuedAt < minIssuedAt then .error .staleQuote
  else if expiry < now then .error .quoteExpired
  else .ok ()

/-- `ValidatableQuote::validate_quote_submission` -/
def validateQuoteSubmission (issuedAt expiry minIssuedAt now : ℤ) : Except ProgramError Unit :=
  if expiry < issuedAt then .error .invalidExpiry
  else if expiry < now then .error .quoteExpired
  else if now + MAX_QUOTE_ISSUED_AT_FUTURE_SKEW_SECS < issuedAt then .error .issuedAtTooFarInFuture
  else if issuedAt < minIssuedAt then .error .staleQuote
  else .ok ()

structure FeeQuoteContext where
  destinationDomain : UInt32
  recipient : H256
  amount : UInt64
deriving DecidableEq

structure CcFeeQuoteContext extends FeeQuoteContext where
  targetRouter : H256
deriving DecidableEq

/-- the first 44 bytes of a context -/
def FeeQuoteContext.read (bs : List UInt8) : FeeQuoteContext :=
  ⟨UInt32.ofNat (ofLe (bs.take 4)), BitVec.ofNat 256 (ofBe ((bs.drop 4).take 32)),
    UInt64.ofNat (ofLe ((bs.drop 36).take 8))⟩

def FeeQuoteContext.tryFromBytes (bs : List UInt8) : Except ProgramError FeeQuoteContext :=
  if bs.length = 44 then .ok (FeeQuoteContext.read bs) else .error .invalidInstructionData

def CcFeeQuoteContext.tryFromBytes (bs : List UInt8) : Except ProgramError CcFeeQuoteContext :=
  if bs.length = 76 then .ok ⟨FeeQuoteContext.read bs, BitVec.ofNat 256 (ofBe ((bs.drop 44).take 32))⟩
  else .error .invalidInstructionData

structure QuoteFee where
  destinationDomain : UInt32
  recipient : H256
  amount : UInt64
  targetRouter : H256

/-- the fields of a context that are not wildcards are those of the transfer -/
def FeeQuoteContext.validate (ctx : FeeQuoteContext) (data : QuoteFee) : Except ProgramError Unit :=
  if ctx.destinationDomain ≠ WILDCARD_DOMAIN ∧ ctx.destinationDomain ≠ data.destinationDomain then
    .error .transientContextMismatch
  else if ctx.recipient ≠ WILDCARD_RECIPIENT ∧ ctx.recipient ≠ data.recipient then .error .transientContextMismatch
  else if ctx.amount ≠ WILDCARD_AMOUNT ∧ ctx.amount ≠ data.amount then .error .transientContextMismatch
  else .ok ()

/-- the router of the active scope is that of the context -/
def CcFeeQuoteContext.validate (ctx : CcFeeQuoteContext) (specific : Bool) (data : QuoteFee) : Except ProgramError Unit :=
  if ctx.targetRouter = (if specific then data.targetRouter else DEFAULT_ROUTER) then ctx.toFeeQuoteContext.validate data
  else .error .transientContextMismatch

/-- an error of another kind in place of any error -/
def mapErr {α : Type} (e : ProgramError) : Except ProgramError α → Except ProgramError α
  | .ok a => .ok a
  | .error _ => .error e

namespace Accounts

def processInitFee (key payer : Pubkey) (domainId : UInt32) (feeData : FeeData) : Except ProgramError Accounts := do
  match feeData with
  | .leaf cfg => cfg.strategy.validateParams
  | _ => .ok ()
  .ok ⟨key, ⟨some payer, domainId, 0, feeData⟩, fun _ => none, fun _ => none, fun _ => none, fun _ => none⟩

/-! ## SubmitQuote -/

/-- the signers of a quote: those of the leaf, of the route that its context names, or of all domains -/
def resolveSigners (s : Accounts) (quote : SvmSignedQuote) : Except ProgramError (Option (List H160)) :=
  match s.feeAccount.feeData with
  | .leaf cfg => .ok cfg.signers
  | .routing cfg => do
    let ctx ← FeeQuoteContext.tryFromBytes quote.context
    if ctx.destinationDomain = WILDCARD_DOMAIN then .ok (some cfg.wildcardSigners)
    else
      match s.routeDomain ctx.destinationDomain with
      | none => .error .incorrectProgramId
      | some route => .ok route.signers
  | .crossCollateralRouting cfg => do
    let ctx ← CcFeeQuoteContext.tryFromBytes quote.context
    if ctx.targetRouter = 0 then .error .zeroTargetRouterNotAllowed
    else if ctx.destinationDomain = WILDCARD_DOMAIN then .ok (some cfg.wildcardSigners)
    else
      match s.crossCollateralRoute (ctx.destinationDomain, ctx.targetRouter) with
      | none => .error .routeNotFound
      | some route => .ok route.signers

end Accounts

/-- where a standing quote is stored: its PDA, and the recipient within it -/
structure StandingKey where
  domain : UInt32
  targetRouter : H256
  recipient : H256
deriving DecidableEq

def StandingKey.pda (k : StandingKey) : UInt32 × H256 := (k.domain, k.targetRouter)

/-- the key that a context names -/
def contextKey (feeData : FeeData) (context : List UInt8) : Except ProgramError StandingKey :=
  match feeData with
  | .crossCollateralRouting _ => do
    let ctx ← mapErr .invalidStandingQuoteContext (CcFeeQuoteContext.tryFromBytes context)
    if ctx.amount ≠ WILDCARD_AMOUNT then .error .standingQuoteAmountNotWildcard
    else if ctx.targetRouter = 0 then .error .zeroTargetRouterNotAllowed
    else .ok ⟨ctx.destinationDomain, ctx.targetRouter, ctx.recipient⟩
  | _ => do
    let ctx ← mapErr .invalidStandingQuoteContext (FeeQuoteContext.tryFromBytes context)
    if ctx.amount ≠ WILDCARD_AMOUNT then .error .standingQuoteAmountNotWildcard
    else .ok ⟨ctx.destinationDomain, 0, ctx.recipient⟩

/-- the key of a standing quote: not of all domains and all recipients -/
def standingKey (feeData : FeeData) (context : List UInt8) : Except ProgramError StandingKey := do
  let k ← contextKey feeData context
  if k.domain = WILDCARD_DOMAIN ∧ k.recipient = WILDCARD_RECIPIENT then .error .fullyWildcardedQuote else .ok k

/-- the value that is stored for a quote -/
def SvmSignedQuote.value (q : SvmSignedQuote) : Except ProgramError FeeStandingQuoteValue :=
  match FeeDataStrategy.tryFrom q.data with
  | none => .error .invalidStandingQuoteData
  | some strategy => .ok ⟨q.issuedAtTimestamp, q.expiryTimestamp, strategy⟩

namespace Accounts

/-- the quote of a recipient is replaced by a newer one -/
def upsert (s : Accounts) (k : StandingKey) (value : FeeStandingQuoteValue) : Except ProgramError Accounts :=
  let quotes := (s.standing k.pda).getD ∅
  let inserted : Accounts := { s with standing := Function.update s.standing k.pda (some (quotes.insert k.recipient value)) }
  match quotes[k.recipient]? with
  | some existing =>
    if value.issuedAt < existing.issuedAt then .error .staleQuote
    else if value.issuedAt = existing.issuedAt then .ok s
    else .ok inserted
  | none => .ok inserted

def submitTransient (C : Crypto) (s : Accounts) (payer : Pubkey) (quote : SvmSignedQuote) : Except ProgramError Accounts :=
  let scopedSalt := quote.computeScopedSalt C payer
  match s.transient scopedSalt with
  | some _ => .error .accountAlreadyInitialized
  | none =>
    .ok { s with
      transient := Function.update s.transient scopedSalt
        (some ⟨payer, quote.context, quote.data, quote.expiryTimestamp⟩) }

def submitStanding (s : Accounts) (quote : SvmSignedQuote) : Except ProgramError Accounts := do
  let k ← standingKey s.feeAccount.feeData quote.context
  let value ← quote.value
  s.upsert k value

/-- the checks that a quote passes before it is stored -/
def checkQuote (C : Crypto) (s : Accounts) (now : ℤ) (payer : Pubkey) (quote : SvmSignedQuote) : Except ProgramError Unit := do
  validateQuoteSubmission quote.issuedAtTimestamp quote.expiryTimestamp s.feeAccount.minIssuedAt now
  match ← s.resolveSigners quote with
  | none => .error .offchainQuotingNotConfigured
  | some signers => do
    let _ ← quote.verifySigner C s.key s.feeAccount.domainId payer signers
    .ok ()

def processSubmitQuote (C : Crypto) (s : Accounts) (now : ℤ) (payer : Pubkey) (quote : SvmSignedQuote) :
    Except ProgramError Accounts := do
  s.checkQuote C now payer quote
  if quote.isTransient then s.submitTransient C payer quote else s.submitStanding quote

/-! ## PruneExpiredQuotes and SetMinIssuedAt -/

def ensureOwnerSigner (s : Accounts) (signer : Pubkey) : Except ProgramError Unit :=
  if s.feeAccount.owner = some signer then .ok () else .error .invalidArgument

/-- the router of the PDA to prune -/
def resolvedRouter : FeeData → Option H256 → Except ProgramError H256
  | .crossCollateralRouting _, some router => .ok router
  | .crossCollateralRouting _, none => .error .notRoutingFeeData
  | _, none => .ok 0
  | _, some _ => .error .notCrossCollateralRoutingFeeData

/-- an entry that is neither expired nor revoked -/
def retained (minIssuedAt now : ℤ) (value : FeeStandingQuoteValue) : Bool :=
  decide (now ≤ value.expiry) && decide (minIssuedAt ≤ value.issuedAt)

def processPruneExpiredQuotes (s : Accounts) (now : ℤ) (signer : Pubkey) (domain : UInt32) (targetRouter : Option H256) :
    Except ProgramError Accounts := do
  s.ensureOwnerSigner signer
  let router ← resolvedRouter s.feeAccount.feeData targetRouter
  match s.standing (domain, router) with
  | none => .error .routeNotFound
  | some quotes =>
    let kept := quotes.filter fun _ value => retained s.feeAccount.minIssuedAt now value
    .ok { s with standing := Function.update s.standing (domain, router) (if kept.isEmpty then none else some kept) }

def processSetMinIssuedAt (s : Accounts) (signer : Pubkey) (minIssuedAt : ℤ) : Except ProgramError Accounts := do
  s.ensureOwnerSigner signer
  if minIssuedAt < s.feeAccount.minIssuedAt then .error .minIssuedAtMustBeMonotonic
  else .ok { s with feeAccount := { s.feeAccount with minIssuedAt := minIssuedAt } }

/-! ## QuoteFee -/

/-- the curve of a transfer, and whether it is that of the route to its target router: no curve for a domain without a
route -/
def resolveStrategy (s : Accounts) (data : QuoteFee) : Except ProgramError (Option (FeeDataStrategy × Bool)) :=
  match s.feeAccount.feeData with
  | .leaf cfg => .ok (some (cfg.strategy, false))
  | .routing _ => .ok ((s.routeDomain data.destinationDomain).map fun route => (route.feeData, false))
  | .crossCollateralRouting _ =>
    match s.crossCollateralRoute (data.destinationDomain, data.targetRouter) with
    | some route => .ok (some (route.feeData, true))
    | none =>
      match s.crossCollateralRoute (data.destinationDomain, DEFAULT_ROUTER) with
      | some route => .ok (some (route.feeData, false))
      | none => .error .routeNotFound

/-- the context of a transient quote, against the transfer -/
def validateContext (s : Accounts) (specific : Bool) (data : QuoteFee) (context : List UInt8) : Except ProgramError Unit :=
  match s.feeAccount.feeData with
  | .crossCollateralRouting _ => do
    let ctx ← mapErr .transientContextMismatch (CcFeeQuoteContext.tryFromBytes context)
    ctx.validate specific data
  | _ => do
    let ctx ← mapErr .transientContextMismatch (FeeQuoteContext.tryFromBytes context)
    ctx.validate data

/-- `try_consume_transient_quote` -/
def tryConsumeTransientQuote (s : Accounts) (now : ℤ) (payer : Pubkey) (scopedSalt : H256) (strategy : FeeDataStrategy)
    (specific : Bool) (data : QuoteFee) : Except ProgramError (Accounts × UInt64) :=
  match s.transient scopedSalt with
  | none => .error .invalidTransientSlot
  | some transient => do
    if transient.payer ≠ payer then .error .transientPayerMismatch
    else do
      validateQuote transient.expiry transient.expiry s.feeAccount.minIssuedAt now
      s.validateContext specific data transient.context
      match FeeDataStrategy.tryFrom transient.data with
      | none => .error .invalidTransientData
      | some quoted =>
        if quoted.sameVariant strategy then do
          let fee ← quoted.computeFee data.amount
          .ok ({ s with transient := Function.update s.transient scopedSalt none }, fee)
        else .error .curveVariantMismatch

/-- the quote that is stored for a key -/
def entry (s : Accounts) (k : StandingKey) : Option FeeStandingQuoteValue :=
  (s.standing k.pda).bind fun quotes => quotes[k.recipient]?

/-- the quote of a key is usable: neither revoked nor expired, and of the on-chain curve -/
def usable (s : Accounts) (now : ℤ) (strategy : FeeDataStrategy) (value : FeeStandingQuoteValue) : Bool :=
  (validateQuote value.issuedAt value.expiry s.feeAccount.minIssuedAt now).isOk && value.feeData.sameVariant strategy

/-- the router of the standing quotes of all domains -/
def standingTargetRouter (s : Accounts) (data : QuoteFee) : H256 :=
  match s.feeAccount.feeData with
  | .crossCollateralRouting _ => data.targetRouter
  | _ => 0

/-- the router of the standing quotes of the destination -/
def activeTargetRouter (s : Accounts) (specific : Bool) (data : QuoteFee) : H256 :=
  match s.feeAccount.feeData with
  | .crossCollateralRouting _ => if specific then data.targetRouter else DEFAULT_ROUTER
  | _ => 0

/-- the keys that are tried, in order: of the domain, then of all domains, and in each of the recipient, then of all -/
def cascadeKeys (s : Accounts) (specific : Bool) (data : QuoteFee) : List StandingKey :=
  [(data.destinationDomain, s.activeTargetRouter specific data), (WILDCARD_DOMAIN, s.standingTargetRouter data)].flatMap
    fun pda => [data.recipient, WILDCARD_RECIPIENT].map fun recipient => ⟨pda.1, pda.2, recipient⟩

/-- the standing quote that is applied: `try_resolve_standing_quote` for each PDA -/
def cascade (s : Accounts) (now : ℤ) (strategy : FeeDataStrategy) (specific : Bool) (data : QuoteFee) :
    Option (StandingKey × FeeStandingQuoteValue) :=
  (s.cascadeKeys specific data).findSome? fun k => ((s.entry k).filter (s.usable now strategy)).map fun value => (k, value)

/-- the fee that is returned, and the standing quote that was applied -/
structure Quoted where
  fee : UInt64
  applied : Option (StandingKey × FeeStandingQuoteValue)
deriving DecidableEq

/-- a slot for a transient quote holds one -/
def verifySlot (s : Accounts) : Option H256 → Except ProgramError Unit
  | some scopedSalt => if (s.transient scopedSalt).isNone then .error .invalidTransientSlot else .ok ()
  | none => .ok ()

/-- `slot` is the transient quote that the payer passes -/
def processQuoteFee (s : Accounts) (now : ℤ) (payer : Pubkey) (slot : Option H256) (data : QuoteFee) :
    Except ProgramError (Accounts × Quoted) := do
  s.verifySlot slot
  match ← s.resolveStrategy data with
  | none => .ok (s, ⟨0, none⟩)
  | some (strategy, specific) =>
    match slot with
    | some scopedSalt => do
      let (s', fee) ← s.tryConsumeTransientQuote now payer scopedSalt strategy specific data
      .ok (s', ⟨fee, none⟩)
    | none =>
      match s.cascade now strategy specific data with
      | some (k, value) => do
        let fee ← value.feeData.computeFee data.amount
        .ok (s, ⟨fee, some (k, value)⟩)
      | none => do
        let fee ← strategy.computeFee data.amount
        .ok (s, ⟨fee, none⟩)

end Accounts

/-! ## Runs -/

inductive Instruction where
  | submitQuote (payer : Pubkey) (quote : SvmSignedQuote)
  | pruneExpiredQuotes (signer : Pubkey) (domain : UInt32) (targetRouter : Option H256)
  | setMinIssuedAt (signer : Pubkey) (minIssuedAt : ℤ)
  | quoteFee (payer : Pubkey) (slot : Option H256) (data : QuoteFee)

namespace Accounts

/-- an instruction of a transaction, and the standing quote that it applied -/
def exec (C : Crypto) (s : Accounts) (now : ℤ) : Instruction →
    Except ProgramError (Accounts × Option (StandingKey × FeeStandingQuoteValue))
  | .submitQuote payer quote => (s.processSubmitQuote C now payer quote).map fun s' => (s', none)
  | .pruneExpiredQuotes signer domain targetRouter =>
    (s.processPruneExpiredQuotes now signer domain targetRouter).map fun s' => (s', none)
  | .setMinIssuedAt signer minIssuedAt => (s.processSetMinIssuedAt signer minIssuedAt).map fun s' => (s', none)
  | .quoteFee payer slot data => (s.processQuoteFee now payer slot data).map fun r => (r.1, r.2.applied)

/-- a transaction that fails changes nothing -/
def step (C : Crypto) (s : Accounts) (now : ℤ) (i : Instruction) : Accounts :=
  match s.exec C now i with
  | .ok (s', _) => s'
  | .error _ => s

end Accounts

end Hyperlane.Fee
