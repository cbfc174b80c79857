/-
Token routers: `TokenRouter` (contracts/token/libs/TokenRouter.sol) with its native, collateral and synthetic variants
(HypNative.sol, HypERC20Collateral.sol, HypERC20.sol, libs/TokenCollateral.sol) and the liquidity of
libs/LpCollateralRouter.sol.

The routers of a route live on several chains; `Bank` holds the ledgers of all their tokens, also of the chains' native
currencies, of the synthetic tokens and of the liquidity shares. A router never calls another contract on its own, so
callers are users. What view calls of foreign contracts answer (fee quotes, the hooks' gas quote) is data of the call;
the hooks take what they take.
-/
import Hyperlane.Core.Ledger

namespace Hyperlane.Warp

open Hyperlane.Tokens

variable {R U E C : Type}

/-! ## Routers and tokens -/

/-- routers, and everybody else -/
inductive Account (R U : Type) where
  | router (r : R)
  | user (u : U)
deriving DecidableEq

inductive Erc20 (R E : Type) where
  | external (e : E)
  /-- the token that a synthetic router is -/
  | synthetic (r : R)
  /-- the liquidity shares that a collateral router is -/
  | lpShare (r : R)
deriving DecidableEq

inductive Token (R E C : Type) where
  | native (chain : C)
  | erc20 (t : Erc20 R E)
deriving DecidableEq

inductive Kind (R E : Type) where
  | HypNative
  | HypERC20Collateral (wrappedToken : Erc20 R E)
  | HypERC20
deriving DecidableEq

/-- what is fixed about the routers. A fee hook needs an ERC20 token -/
structure Config (R U E C : Type) where
  chain : R → C
  kind : R → Kind R E
  scaleNumerator : R → ℕ
  scaleDenominator : R → ℕ
  /-- the hook that is paid in the router's token, and where it sends the payment -/
  feeHook : R → Option (U × U)
  numerator_pos : ∀ r, 0 < scaleNumerator r
  denominator_pos : ∀ r, 0 < scaleDenominator r
  feeHook_erc20 : ∀ r, kind r = .HypNative → feeHook r = none

namespace Config

variable (c : Config R U E C)

def token (r : R) : Token R E C :=
  match c.kind r with
  | .HypNative => .native (c.chain r)
  | .HypERC20Collateral t => .erc20 t
  | .HypERC20 => .erc20 (.synthetic r)

def currency (r : R) : Token R E C := .native (c.chain r)

/-- `token() == address(this)` -/
def isSynthetic (r : R) : Bool :=
  match c.kind r with
  | .HypERC20 => true
  | _ => false

def feeToken (r : R) : Token R E C :=
  match c.feeHook r with
  | some _ => c.token r
  | none => c.currency r

end Config

/-! ## Amounts -/

/-- `Math.mulDiv`, rounding down -/
def mulDiv (x y d : ℕ) : Except Reason ℕ := checked (x * y / d)

def outboundAmount (c : Config R U E C) (r : R) (localAmount : ℕ) : Except Reason ℕ :=
  mulDiv localAmount (c.scaleNumerator r) (c.scaleDenominator r)

def inboundAmount (c : Config R U E C) (r : R) (messageAmount : ℕ) : Except Reason ℕ :=
  mulDiv messageAmount (c.scaleDenominator r) (c.scaleNumerator r)

/-! ## Tokens -/

variable [DecidableEq R] [DecidableEq U] [DecidableEq E] [DecidableEq C]

abbrev World (R U E C : Type) := Bank (Token R E C) (Account R U)

/-- `_transferFromSender`; the value of the call has already arrived -/
def transferFromSender (c : Config R U E C) (r : R) (sender : U) (value amount : ℕ) (w : World R U E C) :
    Except Reason (World R U E C) :=
  match c.kind r with
  | .HypNative => if amount ≤ value then .ok w else .error .value
  | .HypERC20Collateral t => w.on (.erc20 t) fun l => l.transferFrom (.router r) (.user sender) (.router r) amount
  | .HypERC20 => w.on (.erc20 (.synthetic r)) fun l => l.burn (.user sender) amount

/-- `_transferTo` -/
def transferTo (c : Config R U E C) (r : R) (recipient : Account R U) (amount : ℕ) (w : World R U E C) :
    Except Reason (World R U E C) :=
  match c.kind r with
  | .HypNative => w.on (.native (c.chain r)) fun l => l.transfer (.router r) recipient amount
  | .HypERC20Collateral t => w.on (.erc20 t) fun l => l.transfer (.router r) recipient amount
  | .HypERC20 => w.on (.erc20 (.synthetic r)) fun l => l.mint recipient amount

/-- the value of a payable call -/
def payValue (c : Config R U E C) (r : R) (sender : U) (value : ℕ) (w : World R U E C) : Except Reason (World R U E C) :=
  w.on (c.currency r) fun l => l.transfer (.user sender) (.router r) value

/-! ## Fees -/

structure Quote (T : Type) where
  token : T
  amount : ℕ
deriving DecidableEq

/-- what the view calls of a transfer answer -/
structure Views (R U E C : Type) where
  /-- `none` is the zero address -/
  feeRecipient : Option (Account R U)
  /-- the quotes of the fee recipient -/
  feeQuotes : List (Quote (Token R E C))
  externalFee : ℕ
  /-- `_quoteGasPayment`, in a fee token -/
  gasPayment : Token R E C → ℕ

/-- the fee recipient quotes nothing or one fee in the router's token -/
def feeRecipientAndAmount (token : Token R E C) (mismatch : String) (v : Views R U E C) :
    Except Reason (Option (Account R U) × ℕ) :=
  match v.feeRecipient, v.feeQuotes with
  | none, _ => .ok (none, 0)
  | some recipient, [] => .ok (some recipient, 0)
  | some recipient, [q] => if q.token = token then .ok (some recipient, q.amount) else .error (.other mismatch)
  | some _, _ => .error (.other mismatch)

/-- the payment for a fee hook: added to the charge, or pulled apart if the charge is burned. The hook is approved -/
def chargeHook (c : Config R U E C) (r : R) (sender : U) (charge hookFee : ℕ) (w : World R U E C) :
    Except Reason (World R U E C × ℕ) :=
  match c.feeHook r with
  | none => .ok (w, charge)
  | some (hook, _) =>
    if c.isSynthetic r then do
      let w ← w.on (c.token r) fun l => l.transferFrom (.router r) (.user sender) (.router r) hookFee
      let w ← w.on (c.token r) fun l => .ok (l.approve (.router r) (.user hook) hookFee)
      pure (w, charge)
    else do
      let charge ← checked (charge + hookFee)
      let w ← w.on (c.token r) fun l => .ok (l.approve (.router r) (.user hook) hookFee)
      pure (w, charge)

/-- the value that is left for the other hooks -/
def remainingValue (c : Config R U E C) (r : R) (value charge : ℕ) : Except Reason ℕ :=
  match c.kind r with
  | .HypNative => checkedSub value charge
  | _ => .ok value

/-- `_transferFee` -/
def transferFee (c : Config R U E C) (r : R) (recipient : Option (Account R U)) (fee : ℕ) (w : World R U E C) :
    Except Reason (World R U E C) :=
  match recipient with
  | some a => if 0 < fee then transferTo c r a fee w else .ok w
  | none => .ok w

def calculateFeesAndCharge (c : Config R U E C) (r : R) (sender : U) (amount value : ℕ) (v : Views R U E C)
    (w : World R U E C) : Except Reason (World R U E C × ℕ) := do
  let (recipient, fee) ← feeRecipientAndAmount (c.token r) "FungibleTokenRouter: fee must match token" v
  let charge ← checked (amount + fee + v.externalFee)
  let (w, charge) ← chargeHook c r sender charge (v.gasPayment (c.token r)) w
  let w ← transferFromSender c r sender value charge w
  let w ← transferFee c r recipient fee w
  let remaining ← remainingValue c r value charge
  pure (w, remaining)

/-! ## Dispatch -/

/-- what the hooks of a dispatch take: of the value sent along, and of the router's token -/
structure Taken (U : Type) where
  native : ℕ
  hooks : U
  token : ℕ

/-- what is left of a value -/
def valueLeft (value x : ℕ) : Except Reason ℕ := if x ≤ value then .ok (value - x) else .error .value

/-- the value leaves the router, and what the hooks do not take returns to the sender; a fee hook pulls its payment -/
def dispatch (c : Config R U E C) (r : R) (sender : U) (value : ℕ) (taken : Taken U) (w : World R U E C) :
    Except Reason (World R U E C) := do
  let refund ← valueLeft value taken.native
  let w ← w.on (c.currency r) fun l => l.transfer (.router r) (.user taken.hooks) taken.native
  let w ← w.on (c.currency r) fun l => l.transfer (.router r) (.user sender) refund
  match c.feeHook r with
  | none => pure w
  | some (hook, beneficiary) =>
    w.on (c.token r) fun l => l.transferFrom (.user hook) (.router r) (.user beneficiary) taken.token

end Hyperlane.Warp
