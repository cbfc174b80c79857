/-
A yield-bearing route: one `HypERC4626Collateral` and any number of `HypERC4626` synthetics
(contracts/token/extensions), with scale 1/1.

The collateral router keeps vault shares. Messages and the balances of the synthetics are in shares, what users say is in
assets, and a synthetic converts with the exchange rate it was last told. The vault is foreign: the shares it reports for
a deposit, the assets it pays for a redemption and its rate are data of the call; it moves exactly the shares it reports.
`HypERC4626` inherits `_transferTo` from `HypERC20`, which mints its argument as it is. Native value, which no share
depends on, is left out.
-/
import Hyperlane.Core.Ledger

namespace Hyperlane.Warp.Yield

open Hyperlane.Tokens

variable {S U : Type}

inductive Holder (S U : Type) where
  | collateral
  | vault
  | synthetic (s : S)
  | user (u : U)
deriving DecidableEq

inductive Domain (S : Type) where
  | collateral
  | synthetic (s : S)
deriving DecidableEq

structure RateUpdate where
  exchangeRate : ℕ
  rateUpdateNonce : ℕ
deriving DecidableEq

/-- a token message; those of the collateral domain carry a rate update -/
structure Message (S U : Type) where
  destination : Domain S
  recipient : Holder S U
  amount : ℕ
  metadata : Option RateUpdate

structure Synthetic (S U : Type) where
  /-- balances in shares, allowances in assets -/
  ledger : Ledger (Holder S U)
  exchangeRate : ℕ
  previousNonce : ℕ

structure Route (S U : Type) where
  wrappedToken : Ledger (Holder S U)
  /-- the vault shares of the collateral router -/
  vaultShares : ℕ
  rateUpdateNonce : ℕ
  synthetics : S → Synthetic S U
  messages : List (Message S U)
  /-- the rate updates that were delivered to each synthetic -/
  delivered : S → List RateUpdate

/-- a route over a wrapped token, with the rates that the synthetics start with -/
def Route.start (wrappedToken : Ledger (Holder S U)) (vaultShares : ℕ) (exchangeRate : S → ℕ) : Route S U :=
  ⟨wrappedToken, vaultShares, 0, fun s => ⟨.empty, exchangeRate s, 0⟩, [], fun _ => []⟩

def PRECISION : ℕ := 10 ^ 10

variable [DecidableEq S] [DecidableEq U]

/-! ## Collateral -/

/-- the fee is paid in the wrapped token, not by a redemption -/
def payFee (feeRecipient : Holder S U) (feeAmount : ℕ) (token : Ledger (Holder S U)) :
    Except Reason (Ledger (Holder S U)) :=
  if 0 < feeAmount then token.transfer .collateral feeRecipient feeAmount else .ok token

/-- `rateUpdateNonce++`, a checked `uint32` -/
def nextNonce (nonce : ℕ) : Except Reason ℕ := if nonce + 1 < 2 ^ 32 then .ok (nonce + 1) else .error .overflow

/-- `HypERC4626Collateral.transferRemote`: the fee is paid in the wrapped token, the amount goes to the vault. A rebase is
a transfer of nothing to the null recipient -/
def collateralTransfer (sender : U) (destination : S) (recipient : Holder S U) (amount : ℕ)
    (feeRecipient : Holder S U) (feeAmount shares vaultRate : ℕ) (r : Route S U) : Except Reason (Route S U) := do
  let charge ← checked (amount + feeAmount)
  let token ← r.wrappedToken.transferFrom .collateral (.user sender) .collateral charge
  let token ← payFee feeRecipient feeAmount token
  let token ← token.transfer .collateral .vault amount
  let rateUpdateNonce ← nextNonce r.rateUpdateNonce
  pure { r with
    wrappedToken := token
    vaultShares := r.vaultShares + shares
    rateUpdateNonce := rateUpdateNonce
    messages := r.messages ++ [⟨.synthetic destination, recipient, shares, some ⟨vaultRate, rateUpdateNonce⟩⟩] }

/-- `_transferTo` of the collateral router: `vault.redeem` -/
def redeem (shares assets : ℕ) (recipient : Holder S U) (r : Route S U) : Except Reason (Route S U) := do
  let vaultShares ← checkedSub r.vaultShares shares
  let token ← r.wrappedToken.transfer .vault recipient assets
  pure { r with wrappedToken := token, vaultShares := vaultShares }

/-! ## Synthetics -/

namespace Synthetic

variable (t : Synthetic S U)

/-- a division by zero reverts -/
def assetsToShares (amount : ℕ) : Except Reason ℕ :=
  if t.exchangeRate = 0 then .error .overflow else checked (amount * PRECISION / t.exchangeRate)

/-- `_transfer` -/
def transfer (src dst : Holder S U) (amount : ℕ) : Except Reason (Synthetic S U) := do
  let shares ← t.assetsToShares amount
  pure { t with ledger := ← t.ledger.transfer src dst shares }

def approve (owner spender : Holder S U) (amount : ℕ) : Synthetic S U :=
  { t with ledger := t.ledger.approve owner spender amount }

/-- allowances are in assets -/
def transferFrom (spender src dst : Holder S U) (amount : ℕ) : Except Reason (Synthetic S U) := do
  let ledger ← t.ledger.spendAllowance src spender amount
  transfer { t with ledger := ledger } src dst amount

/-- `_transferFromSender` -/
def transferFromSender (sender : U) (amount : ℕ) : Except Reason (Synthetic S U) := do
  let shares ← t.assetsToShares amount
  pure { t with ledger := ← t.ledger.burn (.user sender) shares }

/-- `_transferTo`, inherited from `HypERC20` -/
def transferTo (recipient : Holder S U) (amount : ℕ) : Except Reason (Synthetic S U) := do
  pure { t with ledger := ← t.ledger.mint recipient amount }

/-- `_transferFee` -/
def transferFee (recipient : Holder S U) (amount : ℕ) : Except Reason (Synthetic S U) :=
  if 0 < amount then t.transferTo recipient amount else .ok t

/-- what a fee hook is paid: pulled from the sender and approved -/
def chargeHook (s : S) (sender : U) (feeHook : Option (U × U)) (hookFee : ℕ) : Except Reason (Synthetic S U) :=
  match feeHook with
  | none => .ok t
  | some (hook, _) => do
    let t ← t.transferFrom (.synthetic s) (.user sender) (.synthetic s) hookFee
    pure (t.approve (.synthetic s) (.user hook) hookFee)

/-- what the fee hook pulls during the dispatch -/
def payHook (s : S) (feeHook : Option (U × U)) (taken : ℕ) : Except Reason (Synthetic S U) :=
  match feeHook with
  | none => .ok t
  | some (hook, beneficiary) => t.transferFrom (.user hook) (.synthetic s) (.user beneficiary) taken

/-- `_handle` of a rate update -/
def updateRate (metadata : Option RateUpdate) : Synthetic S U :=
  match metadata with
  | some u =>
    if t.previousNonce < u.rateUpdateNonce then
      { t with exchangeRate := u.exchangeRate, previousNonce := u.rateUpdateNonce }
    else t
  | none => t

end Synthetic

def Route.setSynthetic (r : Route S U) (s : S) (t : Synthetic S U) : Route S U :=
  { r with synthetics := Function.update r.synthetics s t }

/-- what a transfer from a synthetic is told -/
structure SyntheticTransfer (S U : Type) where
  sender : U
  destination : Domain S
  recipient : Holder S U
  amount : ℕ
  feeRecipient : Holder S U
  feeAmount : ℕ
  feeHook : Option (U × U)
  hookFee : ℕ
  /-- what the fee hook takes of its payment -/
  taken : ℕ

/-- `TokenRouter._transferRemote` on a synthetic -/
def syntheticTransfer (s : S) (x : SyntheticTransfer S U) (r : Route S U) : Except Reason (Route S U) := do
  let charge ← checked (x.amount + x.feeAmount)
  let t ← (r.synthetics s).chargeHook s x.sender x.feeHook x.hookFee
  let t ← t.transferFromSender x.sender charge
  let t ← t.transferFee x.feeRecipient x.feeAmount
  let scaledAmount ← t.assetsToShares x.amount
  let t ← t.payHook s x.feeHook x.taken
  pure { r.setSynthetic s t with messages := r.messages ++ [⟨x.destination, x.recipient, scaledAmount, none⟩] }

/-! ## Runs -/

/-- a message is delivered; a redemption pays `assets` -/
def deliver (i assets : ℕ) (r : Route S U) : Except Reason (Route S U) :=
  match r.messages[i]? with
  | none => .error (.other "Mailbox: already delivered")
  | some m =>
    match m.destination with
    | .collateral => do
      let r ← redeem m.amount assets m.recipient r
      pure { r with messages := r.messages.eraseIdx i }
    | .synthetic s => do
      let t ← ((r.synthetics s).updateRate m.metadata).transferTo m.recipient m.amount
      pure { r.setSynthetic s t with
        messages := r.messages.eraseIdx i
        delivered := Function.update r.delivered s (r.delivered s ++ m.metadata.toList) }

inductive Op (S U : Type) where
  | collateralTransfer (sender : U) (destination : S) (recipient : Holder S U) (amount : ℕ) (feeRecipient : Holder S U)
      (feeAmount shares vaultRate : ℕ)
  | syntheticTransfer (s : S) (x : SyntheticTransfer S U)
  | deliver (i assets : ℕ)
  | transfer (s : S) (sender : U) (dst : Holder S U) (amount : ℕ)
  | transferFrom (s : S) (spender : U) (src dst : Holder S U) (amount : ℕ)
  | approve (s : S) (owner : U) (spender : Holder S U) (amount : ℕ)
  /-- somebody sends vault shares to the collateral router -/
  | giveShares (shares : ℕ)
  /-- anything that others do with the wrapped token -/
  | wrappedToken (ledger : Ledger (Holder S U))

def Op.run (r : Route S U) : Op S U → Except Reason (Route S U)
  | .collateralTransfer sender destination recipient amount feeRecipient feeAmount shares vaultRate =>
    Yield.collateralTransfer sender destination recipient amount feeRecipient feeAmount shares vaultRate r
  | .syntheticTransfer s x => Yield.syntheticTransfer s x r
  | .deliver i assets => Yield.deliver i assets r
  | .transfer s sender dst amount => do
    pure (r.setSynthetic s (← (r.synthetics s).transfer (.user sender) dst amount))
  | .transferFrom s spender src dst amount => do
    pure (r.setSynthetic s (← (r.synthetics s).transferFrom (.user spender) src dst amount))
  | .approve s owner spender amount => .ok (r.setSynthetic s ((r.synthetics s).approve (.user owner) spender amount))
  | .giveShares shares => .ok { r with vaultShares := r.vaultShares + shares }
  | .wrappedToken ledger => .ok { r with wrappedToken := ledger }

/-- an operation that reverts changes nothing -/
def step (r : Route S U) (op : Op S U) : Route S U :=
  match op.run r with
  | .ok r' => r'
  | .error _ => r

def run (r : Route S U) (ops : List (Op S U)) : Route S U := ops.foldl step r

end Hyperlane.Warp.Yield
