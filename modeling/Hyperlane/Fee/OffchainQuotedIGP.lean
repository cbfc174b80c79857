/-
The mixin AbstractOffchainQuoter (solidity/contracts/libs), and the contract OffchainQuotedIGP
(solidity/contracts/hooks/igp): signed gas quotes in a mapping by fee token, destination and sender, and the exchange rate
and gas price of a dispatch.

- `AbstractOffchainQuoter.checkQuote`, `AbstractOffchainQuoter.storeStanding`: what the contracts with signed quotes share.
- `submitQuote`, `resolveOffchainQuote`, `resolveExchangeRateAndGasPrice`: the contract.

Left out: how a payment is computed from the rate and the price, and the owner's other settings.
-/
import Hyperlane.Fee.OffchainQuotedLinearFee

namespace Hyperlane.Fee

open Hyperlane.Bytes Hyperlane.Outcome

/-! ## AbstractOffchainQuoter -/

namespace AbstractOffchainQuoter

variable {K V : Type} [DecidableEq K]

/-- the checks that a quote passes before it is stored -/
def checkQuote (recover : SignedQuote → List UInt8 → Option Address) (signers : List Address) (timestamp : ℕ)
    (sender : Address) (sq : SignedQuote) (signature : List UInt8) : Except Revert Unit :=
  if sq.expiry < sq.issuedAt then .error .invalidQuote
  else if sq.expiry < BitVec.ofNat 48 timestamp then .error .quoteExpired
  else if sq.expiry ≠ sq.issuedAt ∧ BitVec.ofNat 48 timestamp < sq.issuedAt then .error .invalidQuote
  else if sq.submitter.1 ≠ List.replicate 20 0 ∧ sender ≠ sq.submitter then .error .invalidSubmitter
  else
    match recover sq signature with
    | some signer => if signer ∈ signers then .ok () else .error .invalidSigner
    | none => .error .invalidSigner

/-- `_storeStanding` of a contract whose quotes have these keys and values -/
def storeStanding (issuedAt : V → BitVec 48) (storageKey : SignedQuote → Except Revert K)
    (storedQuote : SignedQuote → Except Revert V) (quotes : K → V) (sq : SignedQuote) : Except Revert ((K → V) × Bool) := do
  let key ← storageKey sq
  let existing := quotes key
  if sq.issuedAt < issuedAt existing then .error .staleQuote
  else if sq.issuedAt = issuedAt existing then .ok (quotes, false)
  else do
    let stored ← storedQuote sq
    .ok (Function.update quotes key stored, true)

/-- the standing quote of a submission that is valid, whether it is then stored or rejected as stale -/
def offered (check : Except Revert Unit) (storageKey : SignedQuote → Except Revert K)
    (storedQuote : SignedQuote → Except Revert V) (sq : SignedQuote) : Option (K × V) :=
  if sq.expiry = sq.issuedAt then none
  else
    match check, storageKey sq, storedQuote sq with
    | .ok _, .ok key, .ok stored => some (key, stored)
    | _, _, _ => none

end AbstractOffchainQuoter

/-! ## OffchainQuotedIGP -/

/-- the values of a gas quote are `uint128` -/
structure StoredGasQuote where
  tokenExchangeRate : ℕ
  gasPrice : ℕ
  issuedAt : BitVec 48
  expiry : BitVec 48
deriving DecidableEq

/-- a slot that was never written -/
def StoredGasQuote.blank : StoredGasQuote := ⟨0, 0, 0, 0⟩

structure TransientGasQuote where
  feeToken : Address
  destination : UInt32
  sender : Address
  exchangeRate : ℕ
  gasPrice : ℕ

/-- the fee token, the destination and the sender of a gas quote -/
abbrev GasKey := Address × UInt32 × Address

structure OffchainQuotedIGP where
  signers : List Address
  offchainQuotes : GasKey → StoredGasQuote
  transient : Option TransientGasQuote
  /-- the oracle of a fee token and a destination: `getExchangeRateAndGasPrice` of the destination -/
  tokenGasOracles : Address × UInt32 → Option (UInt32 → Except String (ℕ × ℕ))

namespace OffchainQuotedIGP

/-- `address(type(uint160).max)` -/
def WILDCARD_SENDER : Address := ⟨List.replicate 20 255, rfl⟩

/-- a contract without quotes -/
def deployed (signers : List Address) : OffchainQuotedIGP := ⟨signers, fun _ => .blank, none, fun _ => none⟩

/-- `IGPQuoteContext.decode` -/
def decodeContext (ctx : List UInt8) : Except Revert GasKey :=
  if h : ctx.length = 44 then
    .ok (⟨ctx.take 20, by rw [List.length_take, h]; rfl⟩, UInt32.ofNat (ofBe ((ctx.drop 20).take 4)),
      ⟨(ctx.drop 24).take 20, by rw [List.length_take, List.length_drop, h]; rfl⟩)
  else .error .badLength

/-- `IGPQuoteData.decode` -/
def decodeData (data : List UInt8) : Except Revert (ℕ × ℕ) :=
  if data.length = 32 then .ok (ofBe (data.take 16), ofBe ((data.drop 16).take 16)) else .error .badLength

def storeTransient (c : OffchainQuotedIGP) (sq : SignedQuote) : Except Revert OffchainQuotedIGP := do
  let (feeToken, destination, sender) ← decodeContext sq.context
  let (rate, gasPrice) ← decodeData sq.data
  .ok { c with transient := some ⟨feeToken, destination, sender, rate, gasPrice⟩ }

/-- the value of a standing quote -/
def storedQuote (sq : SignedQuote) : Except Revert StoredGasQuote := do
  let (rate, gasPrice) ← decodeData sq.data
  .ok ⟨rate, gasPrice, sq.issuedAt, sq.expiry⟩

def storeStanding (c : OffchainQuotedIGP) (sq : SignedQuote) : Except Revert (OffchainQuotedIGP × Bool) := do
  let (quotes, updated) ← AbstractOffchainQuoter.storeStanding StoredGasQuote.issuedAt (fun sq => decodeContext sq.context)
    storedQuote c.offchainQuotes sq
  .ok ({ c with offchainQuotes := quotes }, updated)

def submitQuote (recover : SignedQuote → List UInt8 → Option Address) (c : OffchainQuotedIGP) (timestamp : ℕ)
    (sender : Address) (sq : SignedQuote) (signature : List UInt8) : Except Revert OffchainQuotedIGP := do
  AbstractOffchainQuoter.checkQuote recover c.signers timestamp sender sq signature
  if sq.expiry = sq.issuedAt then c.storeTransient sq
  else do
    let (c', _) ← c.storeStanding sq
    .ok c'

/-! ## Resolution -/

/-- the fee token has no wildcard -/
def matchesTransient (t : TransientGasQuote) (feeToken : Address) (destination : UInt32) (sender : Address) : Bool :=
  t.feeToken == feeToken && (t.destination == WILDCARD_DOMAIN || t.destination == destination) &&
    (t.sender == WILDCARD_SENDER || t.sender == sender)

def isActive (sq : StoredGasQuote) (timestamp : ℕ) : Bool :=
  decide (0 < sq.expiry) && decide (BitVec.ofNat 48 timestamp ≤ sq.expiry)

/-- the exchange rate and the gas price, if a quote is found -/
def resolveOffchainQuote (c : OffchainQuotedIGP) (timestamp : ℕ) (feeToken : Address) (destination : UInt32)
    (sender : Address) : Option (ℕ × ℕ) :=
  match c.transient.filter (matchesTransient · feeToken destination sender) with
  | some t => some (t.exchangeRate, t.gasPrice)
  | none =>
    (([(feeToken, destination, sender), (feeToken, destination, WILDCARD_SENDER),
        (feeToken, WILDCARD_DOMAIN, sender)].map c.offchainQuotes).find? (isActive · timestamp)).map
      fun sq => (sq.tokenExchangeRate, sq.gasPrice)

/-- `_getExchangeRateAndGasPrice`: the on-chain configuration -/
def getExchangeRateAndGasPrice (c : OffchainQuotedIGP) (feeToken : Address) (destination : UInt32) : Except String (ℕ × ℕ) :=
  match c.tokenGasOracles (feeToken, destination) with
  | some oracle => oracle destination
  | none => .error ("IGP: no gas oracle for domain " ++ toString destination.toNat)

def resolveExchangeRateAndGasPrice (c : OffchainQuotedIGP) (timestamp : ℕ) (feeToken : Address) (destination : UInt32)
    (sender : Address) : Except String (ℕ × ℕ) :=
  match c.resolveOffchainQuote timestamp feeToken destination sender with
  | some found => .ok found
  | none => c.getExchangeRateAndGasPrice feeToken destination

/-! ## Runs -/

inductive Call where
  | submitQuote (sender : Address) (sq : SignedQuote) (signature : List UInt8)
  | addQuoteSigner (signer : Address)
  | removeQuoteSigner (signer : Address)
  | setTokenGasOracle (feeToken : Address) (destination : UInt32) (oracle : Option (UInt32 → Except String (ℕ × ℕ)))

variable (recover : SignedQuote → List UInt8 → Option Address)

/-- a transaction: it changes nothing when it reverts, and the transient storage ends with it -/
def step (c : OffchainQuotedIGP) (timestamp : ℕ) : Call → OffchainQuotedIGP
  | .submitQuote sender sq signature =>
    match c.submitQuote recover timestamp sender sq signature with
    | .ok c' => { c' with transient := none }
    | .error _ => c
  | .addQuoteSigner signer => { c with signers := c.signers.insert signer }
  | .removeQuoteSigner signer => { c with signers := c.signers.erase signer }
  | .setTokenGasOracle feeToken destination oracle =>
    { c with tokenGasOracles := Function.update c.tokenGasOracles (feeToken, destination) oracle }

def run (c : OffchainQuotedIGP) (calls : List (ℕ × Call)) : OffchainQuotedIGP :=
  calls.foldl (fun c e => c.step recover e.1 e.2) c

end OffchainQuotedIGP

end Hyperlane.Fee
