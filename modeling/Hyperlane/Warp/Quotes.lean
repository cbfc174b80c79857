/-
Quotes and charges of token routers: `quoteTransferRemote` and `transferRemote` of `TokenRouter`
(contracts/token/libs/TokenRouter.sol), of its overrides with an external fee (TokenBridgeCctpBase.sol and
TokenBridgeCctpV2.sol, bridge/EverclearTokenBridge.sol), of CrossCollateralRouter.sol and of
extensions/HypERC4626Collateral.sol.

Quote and charge see one state, so what view calls of foreign contracts answer is data of both (`Answers`). The hooks take
exactly what `quoteDispatch` says for the message that is dispatched. Bridge, adapter and vault have a standing approval;
an `EverclearEthBridge` keeps its currency wrapped, and a wrapped coin counts as a coin.
-/
import Hyperlane.Core.Bytes
import Hyperlane.Warp.YieldRoute
import Hyperlane.Warp.Route

namespace Hyperlane.Warp.Quoting

open Hyperlane.Tokens

variable {R U E C : Type}

/-! ## Routers -/

inductive Bridge where
  | circle
  | everclear
deriving DecidableEq

/-- which `transferRemote` a router has, and who takes the amount if it does not stay in the router -/
inductive Flow (U : Type) where
  | transferRemote
  | bridge (kind : Bridge) (taker : U)
  | crossCollateral
  | vault (vault : U)

/-- bridges are no synthetic tokens; the cross-collateral and the vault router are collateral routers -/
def Flow.Fits (f : Flow U) (k : Kind R E) : Prop :=
  match f with
  | .transferRemote => True
  | .bridge _ _ => k ≠ .HypERC20
  | .crossCollateral => ∃ t, k = .HypERC20Collateral t
  | .vault _ => ∃ t, k = .HypERC20Collateral t

structure Routers (R U E C : Type) extends Config R U E C where
  flow : R → Flow U
  /-- `none` is the zero address -/
  feeRecipient : R → Option (Account R U)
  /-- the router that is enrolled for a domain -/
  isRemoteRouter : R → R → Bool
  crossCollateralRouters : R → R → Bool
  flow_fits : ∀ r, (flow r).Fits (kind r)
  /-- `setFeeRecipient` -/
  feeRecipient_ne_self : ∀ r, feeRecipient r ≠ some (.router r)

/-! ## Calls -/

structure TokenMessage (R U : Type) where
  recipient : Account R U
  amount : ℕ
  metadata : List UInt8

/-- a transfer to a router of another domain, or of the same one -/
structure Call (R U : Type) where
  target : R
  recipient : Account R U
  amount : ℕ

/-- what foreign contracts answer, and the storage that a message shows -/
structure Answers (R U E C : Type) where
  feeQuotes : List (Quote (Token R E C))
  externalFee : ℕ
  /-- `mailbox.quoteDispatch`, to a router and in a fee token -/
  quoteDispatch : R → TokenMessage R U → Token R E C → ℕ
  /-- who takes native payments for the hooks -/
  hooks : U
  /-- the answers of the vault -/
  shares : ℕ
  exchangeRate : ℕ
  rateUpdateNonce : ℕ
  /-- the encoded intent of the adapter -/
  intent : List UInt8

variable (c : Routers R U E C) (r : R) (a : Answers R U E C) (x : Call R U)

/-- `_externalFeeAmount`: zero, but for the bridges -/
def externalFeeAmount : ℕ :=
  match c.flow r with
  | .bridge _ _ => a.externalFee
  | _ => 0

/-- the message that `_quoteGasPayment` asks for -/
def quotedMessage : Except Reason (TokenMessage R U) := do
  let scaledAmount ← outboundAmount c.toConfig r x.amount
  pure ⟨x.recipient, scaledAmount, []⟩

/-- `_quoteGasPayment`, and `_quoteGasPaymentTo` -/
def quoteGasPayment (feeToken : Token R E C) : Except Reason ℕ := do
  let m ← quotedMessage c r x
  pure (a.quoteDispatch x.target m feeToken)

/-- an amount that cannot be scaled reverts the call when the message is made -/
def views : Views R U E C :=
  ⟨c.feeRecipient r, a.feeQuotes, externalFeeAmount c r a, fun t => (quoteGasPayment c r a x t).toOption.getD 0⟩

/-- the message that is dispatched -/
def message : Except Reason (TokenMessage R U) :=
  match c.flow r with
  | .transferRemote | .crossCollateral => quotedMessage c r x
  -- no scaling for CCTP, and the external fee is burned with the amount
  | .bridge .circle _ => .ok ⟨x.recipient, x.amount + externalFeeAmount c r a, []⟩
  | .bridge .everclear _ => do
    let scaledAmount ← outboundAmount c.toConfig r x.amount
    pure ⟨x.recipient, scaledAmount, a.intent⟩
  | .vault _ => do
    let nonce ← Yield.nextNonce a.rateUpdateNonce
    let scaledAmount ← outboundAmount c.toConfig r a.shares
    pure ⟨x.recipient, scaledAmount, Bytes.be 32 a.exchangeRate ++ Bytes.be 32 nonce⟩

/-- the hooks take what they quote, in the fee token -/
def taken (m : TokenMessage R U) : Taken U :=
  match c.feeHook r with
  | none => ⟨a.quoteDispatch x.target m (c.currency r), a.hooks, 0⟩
  | some _ => ⟨0, a.hooks, a.quoteDispatch x.target m (c.token r)⟩

variable [DecidableEq R] [DecidableEq U] [DecidableEq E] [DecidableEq C]

/-! ## Quotes -/

def quoteTransferRemote : Except Reason (List (Quote (Token R E C))) := do
  let gas ← quoteGasPayment c r a x (c.feeToken r)
  let (_, feeAmount) ←
    feeRecipientAndAmount (c.token r) "FungibleTokenRouter: fee must match token" (views c r a x)
  let charge ← checked (x.amount + feeAmount)
  pure [⟨c.feeToken r, gas⟩, ⟨c.token r, charge⟩, ⟨c.token r, externalFeeAmount c r a⟩]

def isLocal (target : R) : Bool := c.chain target = c.chain r

def requireAuthorizedRouter (target : R) : Except Reason Unit :=
  if c.isRemoteRouter r target || c.crossCollateralRouters r target then .ok ()
  else .error (.other "CCR: unauthorized router")

/-- a local transfer is not dispatched -/
def gasQuoteTo : Except Reason ℕ :=
  if isLocal c r x.target then .ok 0 else quoteGasPayment c r a x (c.feeToken r)

def quoteTransferRemoteTo : Except Reason (List (Quote (Token R E C))) := do
  requireAuthorizedRouter c r x.target
  let gas ← gasQuoteTo c r a x
  let (_, feeAmount) ← feeRecipientAndAmount (c.token r) "CCR: fee must match token" (views c r a x)
  let charge ← checked (x.amount + feeAmount)
  pure [⟨c.feeToken r, gas⟩, ⟨c.token r, charge⟩, ⟨c.token r, externalFeeAmount c r a⟩]

/-- what a sender asks -/
def quote : Except Reason (List (Quote (Token R E C))) :=
  match c.flow r with
  | .crossCollateral => quoteTransferRemoteTo c r a x
  | _ => quoteTransferRemote c r a x

/-- `Quotes.extract` -/
def extract {T : Type} [DecidableEq T] (quotes : List (Quote T)) (token : T) : Except Reason ℕ :=
  quotes.foldlM (fun sum q => if q.token = token then checked (sum + q.amount) else .ok sum) 0

/-! ## Transfers -/

/-- `TokenRouter._transferRemote` -/
def transferRemote (sender : U) (value : ℕ) (w : World R U E C) : Except Reason (World R U E C) := do
  let w ← payValue c.toConfig r sender value w
  let (w, remaining) ← calculateFeesAndCharge c.toConfig r sender x.amount value (views c r a x) w
  let m ← message c r a x
  dispatch c.toConfig r sender remaining (taken c r a x m) w

/-- the amount and the external fee leave with the bridge -/
def bridgeTransferRemote (taker sender : U) (value : ℕ) (w : World R U E C) : Except Reason (World R U E C) := do
  let w ← payValue c.toConfig r sender value w
  let (w, remaining) ← calculateFeesAndCharge c.toConfig r sender x.amount value (views c r a x) w
  let w ← w.on (c.token r) fun l => l.transfer (.router r) (.user taker) (x.amount + externalFeeAmount c r a)
  let m ← message c r a x
  dispatch c.toConfig r sender remaining (taken c r a x m) w

/-- hook fees only for transfers that are dispatched, and only if there are any -/
def chargeHookForRouter (sender : U) (charge hookFee : ℕ) (w : World R U E C) : Except Reason (World R U E C × ℕ) :=
  if isLocal c r x.target ∨ hookFee = 0 then .ok (w, charge) else chargeHook c.toConfig r sender charge hookFee w

def calculateFeesAndChargeForRouter (sender : U) (value : ℕ) (w : World R U E C) :
    Except Reason (World R U E C × ℕ) := do
  let (recipient, fee) ← feeRecipientAndAmount (c.token r) "CCR: fee must match token" (views c r a x)
  let charge ← checked (x.amount + fee + externalFeeAmount c r a)
  let (w, charge) ← chargeHookForRouter c r x sender charge ((views c r a x).gasPayment (c.token r)) w
  let w ← transferFromSender c.toConfig r sender value charge w
  let w ← transferFee c.toConfig r recipient fee w
  let remaining ← remainingValue c.toConfig r value charge
  pure (w, remaining)

/-- value of a local transfer would be stuck -/
def requireNoValue (target : R) (value : ℕ) : Except Reason Unit :=
  if isLocal c r target ∧ value ≠ 0 then .error (.other "CCR: local transfer no msg.value") else .ok ()

/-- `handle` of a router of the same domain, called by `r`; other routers only let the mailbox call -/
def handle (m : TokenMessage R U) (w : World R U E C) : Except Reason (World R U E C) :=
  match c.flow x.target with
  | .crossCollateral =>
    if c.crossCollateralRouters x.target r then do
      let amount ← inboundAmount c.toConfig x.target m.amount
      transferTo c.toConfig x.target m.recipient amount w
    else .error (.other "CCR: unauthorized router")
  | _ => .error (.other "MailboxClient: sender not mailbox")

def transferRemoteTo (sender : U) (value : ℕ) (w : World R U E C) : Except Reason (World R U E C) := do
  let w ← payValue c.toConfig r sender value w
  requireAuthorizedRouter c r x.target
  requireNoValue c r x.target value
  let (w, remaining) ← calculateFeesAndChargeForRouter c r a x sender value w
  let m ← message c r a x
  if isLocal c r x.target then handle c r x m w
  else dispatch c.toConfig r sender remaining (taken c r a x m) w

/-- `HypERC4626Collateral.transferRemote`: amount and fee are pulled, a fee hook is not charged for -/
def vaultTransferRemote (vault sender : U) (value : ℕ) (w : World R U E C) : Except Reason (World R U E C) := do
  let w ← payValue c.toConfig r sender value w
  let (recipient, feeAmount) ←
    feeRecipientAndAmount (c.token r) "FungibleTokenRouter: fee must match token" (views c r a x)
  let charge ← checked (x.amount + feeAmount)
  let w ← transferFromSender c.toConfig r sender value charge w
  let w ← transferFee c.toConfig r recipient feeAmount w
  let w ← w.on (c.token r) fun l => l.transfer (.router r) (.user vault) x.amount
  let m ← message c r a x
  dispatch c.toConfig r sender value (taken c r a x m) w

/-- what a sender calls -/
def transfer (sender : U) (value : ℕ) (w : World R U E C) : Except Reason (World R U E C) :=
  match c.flow r with
  | .transferRemote => transferRemote c r a x sender value w
  | .bridge _ taker => bridgeTransferRemote c r a x taker sender value w
  | .crossCollateral => transferRemoteTo c r a x sender value w
  | .vault vault => vaultTransferRemote c r a x vault sender value w

/-- the transfers of a route are those of its routers -/
theorem transferRemote_world {c : Routers R U E C} {r : R} {a : Answers R U E C} {x : Call R U} {m : TokenMessage R U}
    (hflow : c.flow r = .transferRemote) (hm : quotedMessage c r x = .ok m) (sender : U) (value : ℕ) (s : Route R U E C) :
    (Warp.transferRemote c.toConfig r sender value x.target x.recipient x.amount (views c r a x) (taken c r a x m) s).map
        Route.world = transfer c r a x sender value s.world := by
  obtain ⟨scaledAmount, hscaled, hm'⟩ := Outcome.bind_eq_ok.1 hm
  unfold transfer transferRemote Warp.transferRemote message
  rw [hflow]
  dsimp only
  rw [hm, hscaled]
  cases payValue c.toConfig r sender value s.world with
  | error e => rfl
  | ok w =>
    change (calculateFeesAndCharge c.toConfig r sender x.amount value (views c r a x) w >>= _).map _ =
      (calculateFeesAndCharge c.toConfig r sender x.amount value (views c r a x) w >>= _)
    cases calculateFeesAndCharge c.toConfig r sender x.amount value (views c r a x) w with
    | error e => rfl
    | ok p =>
      change (dispatch c.toConfig r sender p.2 (taken c r a x m) p.1 >>= _).map _ =
        dispatch c.toConfig r sender p.2 (taken c r a x m) p.1
      cases dispatch c.toConfig r sender p.2 (taken c r a x m) p.1 with
      | error e => rfl
      | ok w' => rfl

end Hyperlane.Warp.Quoting
