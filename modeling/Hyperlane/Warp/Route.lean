/-
A route: routers on several chains, the messages between them, and the operations of their users.

Messages are delivered at most once and in any order: a delivered message leaves the list of those on their way. The
shares of the liquidity providers are computed by the vault library that `LpCollateralRouter` extends, so any shares are
taken; what the router itself does with assets and shares is below.
-/
import Hyperlane.Warp.TokenRouter

namespace Hyperlane.Warp

open Hyperlane.Tokens

variable {R U E C : Type} [DecidableEq R] [DecidableEq U] [DecidableEq E] [DecidableEq C]

structure Message (R U : Type) where
  destination : R
  recipient : Account R U
  amount : ℕ

structure Route (R U E C : Type) where
  world : World R U E C
  lpAssets : R → ℕ
  /-- dispatched and not delivered -/
  messages : List (Message R U)

/-- `transferRemote` -/
def transferRemote (c : Config R U E C) (r : R) (sender : U) (value : ℕ) (destination : R) (recipient : Account R U)
    (amount : ℕ) (v : Views R U E C) (taken : Taken U) (s : Route R U E C) : Except Reason (Route R U E C) := do
  let w ← payValue c r sender value s.world
  let (w, remaining) ← calculateFeesAndCharge c r sender amount value v w
  let scaledAmount ← outboundAmount c r amount
  let w ← dispatch c r sender remaining taken w
  pure { s with world := w, messages := s.messages ++ [⟨destination, recipient, scaledAmount⟩] }

/-- `_handle`, for a message that is delivered -/
def handle (c : Config R U E C) (i : ℕ) (s : Route R U E C) : Except Reason (Route R U E C) :=
  match s.messages[i]? with
  | none => .error (.other "Mailbox: already delivered")
  | some m => do
    let amount ← inboundAmount c m.destination m.amount
    let w ← transferTo c m.destination m.recipient amount s.world
    pure { s with world := w, messages := s.messages.eraseIdx i }

/-- a synthetic router has no liquidity functions -/
def onlyCollateral (c : Config R U E C) (r : R) : Except Reason Unit := if c.isSynthetic r then .error (.other "") else .ok ()

/-- `_deposit` of the liquidity; the shares are the vault's -/
def deposit (c : Config R U E C) (r : R) (sender : U) (value : ℕ) (receiver : Account R U) (assets shares : ℕ)
    (s : Route R U E C) : Except Reason (Route R U E C) := do
  onlyCollateral c r
  let w ← payValue c r sender value s.world
  let w ← transferFromSender c r sender value assets w
  let lpAssets ← checked (s.lpAssets r + assets)
  let w ← w.on (.erc20 (.lpShare r)) fun l => l.mint receiver shares
  pure { s with world := w, lpAssets := Function.update s.lpAssets r lpAssets }

/-- `_withdraw` of the liquidity -/
def withdraw (c : Config R U E C) (r : R) (caller : U) (receiver owner : Account R U) (assets shares : ℕ)
    (s : Route R U E C) : Except Reason (Route R U E C) := do
  onlyCollateral c r
  let w ← s.world.on (.erc20 (.lpShare r)) fun l =>
    if .user caller = owner then .ok l else l.spendAllowance owner (.user caller) shares
  let w ← w.on (.erc20 (.lpShare r)) fun l => l.burn owner shares
  let lpAssets ← checkedSub (s.lpAssets r) assets
  let w ← transferTo c r receiver assets w
  pure { s with world := w, lpAssets := Function.update s.lpAssets r lpAssets }

def donate (c : Config R U E C) (r : R) (sender : U) (value amount : ℕ) (s : Route R U E C) :
    Except Reason (Route R U E C) := do
  onlyCollateral c r
  let w ← payValue c r sender value s.world
  let w ← transferFromSender c r sender value amount w
  let lpAssets ← checked (s.lpAssets r + amount)
  pure { s with world := w, lpAssets := Function.update s.lpAssets r lpAssets }

inductive Op (R U E C : Type) where
  | transferRemote (r : R) (sender : U) (value : ℕ) (destination : R) (recipient : Account R U) (amount : ℕ)
      (views : Views R U E C) (taken : Taken U)
  | deliver (i : ℕ)
  | deposit (r : R) (sender : U) (value : ℕ) (receiver : Account R U) (assets shares : ℕ)
  | withdraw (r : R) (caller : U) (receiver owner : Account R U) (assets shares : ℕ)
  | donate (r : R) (sender : U) (value amount : ℕ)
  | transfer (t : Token R E C) (sender : U) (dst : Account R U) (x : ℕ)
  | transferFrom (t : Token R E C) (spender : U) (src dst : Account R U) (x : ℕ)
  | approve (t : Token R E C) (owner : U) (spender : Account R U) (x : ℕ)

/-- a plain operation on a token -/
def onToken (t : Token R E C) (f : Ledger (Account R U) → Except Reason (Ledger (Account R U))) (s : Route R U E C) :
    Except Reason (Route R U E C) := do
  pure { s with world := ← s.world.on t f }

def Op.run (c : Config R U E C) (s : Route R U E C) : Op R U E C → Except Reason (Route R U E C)
  | .transferRemote r sender value destination recipient amount v taken =>
    Warp.transferRemote c r sender value destination recipient amount v taken s
  | .deliver i => handle c i s
  | .deposit r sender value receiver assets shares => Warp.deposit c r sender value receiver assets shares s
  | .withdraw r caller receiver owner assets shares => Warp.withdraw c r caller receiver owner assets shares s
  | .donate r sender value amount => Warp.donate c r sender value amount s
  | .transfer t sender dst x => onToken t (fun l => l.transfer (.user sender) dst x) s
  | .transferFrom t spender src dst x => onToken t (fun l => l.transferFrom (.user spender) src dst x) s
  | .approve t owner spender x => onToken t (fun l => .ok (l.approve (.user owner) spender x)) s

/-- an operation that reverts changes nothing -/
def step (c : Config R U E C) (s : Route R U E C) (op : Op R U E C) : Route R U E C :=
  match op.run c s with
  | .ok s' => s'
  | .error _ => s

def run (c : Config R U E C) (s : Route R U E C) (ops : List (Op R U E C)) : Route R U E C := ops.foldl (step c) s

/-- native currencies and foreign tokens as they are, without approvals by routers, and no synthetic supply and no shares -/
def startWorld (foreign : World R U E C) : World R U E C
  | .erc20 (.synthetic _) => .empty
  | .erc20 (.lpShare _) => .empty
  | t => { foreign t with
      allowance := fun owner spender =>
        match owner with
        | .router _ => 0
        | .user u => (foreign t).allowance (.user u) spender }

/-- nothing is on its way, and there is no liquidity -/
def Route.start (foreign : World R U E C) : Route R U E C := ⟨startWorld foreign, fun _ => 0, []⟩

end Hyperlane.Warp
