/-
The accounts that the Sealevel token and fee programs store (libraries/hyperlane-sealevel-token/src/accounts.rs,
programs/hyperlane-sealevel-fee/src/accounts.rs), with the sizes the programs compute for them.

Fee accounts are stored behind their discriminators; the fee configuration of a token comes last, and takes no bytes when
there is none.

- `HyperlaneToken.sized`, `FeeAccount.sized` and their like: the size of a value is no smaller than its encoding.
-/
import Hyperlane.Fee.FeeProgram
import Hyperlane.Sealevel.AccountData

namespace Hyperlane.AccountUtils

open Hyperlane.Bytes
open Hyperlane.Borsh
open Hyperlane.Fee (H160 Pubkey FeeParams FeeDataStrategy)
open Std (ExtTreeMap ExtTreeSet)

abbrev H256 := Word 32

instance {n : ℕ} : Inhabited (Word n) := ⟨⟨List.replicate n 0, List.length_replicate⟩⟩

def ascii (text : List Char) : List UInt8 := text.map fun c => UInt8.ofNat c.toNat

/-! ## Tokens -/

structure FeeConfig where
  feeProgram : Pubkey
  feeAccount : Pubkey

instance : DiscriminatorData FeeConfig := ⟨⟨ascii ['T', 'O', 'K', 'F', 'E', 'E', 'V', '1'], rfl⟩⟩

instance : SizedData FeeConfig := ⟨fun _ => 32 + 32⟩

instance : Serial FeeConfig where
  serialize config := serialize config.feeProgram ++ serialize config.feeAccount
  deserialize := do
    let feeProgram ← deserialize
    let feeAccount ← deserialize
    pure { feeProgram, feeAccount }

inductive InterchainGasPaymasterType where
  | Igp (key : Pubkey)
  | OverheadIgp (key : Pubkey)

instance : Serial InterchainGasPaymasterType where
  serialize
    | .Igp key => serialize (0 : UInt8) ++ serialize key
    | .OverheadIgp key => serialize (1 : UInt8) ++ serialize key
  deserialize := do
    let tag : UInt8 ← deserialize
    if tag = 0 then do
      let key ← deserialize
      pure (.Igp key)
    else if tag = 1 then do
      let key ← deserialize
      pure (.OverheadIgp key)
    else throw .InvalidData

structure HyperlaneToken (T : Type) where
  bump : UInt8
  mailbox : Pubkey
  mailboxProcessAuthority : Pubkey
  dispatchAuthorityBump : UInt8
  decimals : UInt8
  remoteDecimals : UInt8
  owner : Option Pubkey
  interchainSecurityModule : Option Pubkey
  /-- (IGP program, IGP account) -/
  interchainGasPaymaster : Option (Pubkey × InterchainGasPaymasterType)
  destinationGas : ExtTreeMap UInt32 UInt64
  remoteRouters : ExtTreeMap UInt32 H256
  pluginData : T
  feeConfig : OptionalDiscriminatedData FeeConfig
deriving Inhabited

structure SyntheticPlugin where
  mint : Pubkey
  mintBump : UInt8
  ataPayerBump : UInt8
deriving Inhabited

structure CollateralPlugin where
  splTokenProgram : Pubkey
  mint : Pubkey
  escrow : Pubkey
  escrowBump : UInt8
  ataPayerBump : UInt8
deriving Inhabited

structure NativePlugin where
  nativeCollateralBump : UInt8
deriving Inhabited

instance : SizedData SyntheticPlugin := ⟨fun _ => 32 + 1 + 1⟩

instance : SizedData CollateralPlugin := ⟨fun _ => 32 + 32 + 32 + 1 + 1⟩

instance : SizedData NativePlugin := ⟨fun _ => 1⟩

instance : Serial SyntheticPlugin where
  serialize p := serialize p.mint ++ (serialize p.mintBump ++ serialize p.ataPayerBump)
  deserialize := do
    let mint ← deserialize
    let mintBump ← deserialize
    let ataPayerBump ← deserialize
    pure { mint, mintBump, ataPayerBump }

instance : Serial CollateralPlugin where
  serialize p := serialize p.splTokenProgram ++ (serialize p.mint ++ (serialize p.escrow ++ (serialize p.escrowBump ++
    serialize p.ataPayerBump)))
  deserialize := do
    let splTokenProgram ← deserialize
    let mint ← deserialize
    let escrow ← deserialize
    let escrowBump ← deserialize
    let ataPayerBump ← deserialize
    pure { splTokenProgram, mint, escrow, escrowBump, ataPayerBump }

instance : Serial NativePlugin where
  serialize p := serialize p.nativeCollateralBump
  deserialize := do
    let nativeCollateralBump ← deserialize
    pure { nativeCollateralBump }

section

variable {T : Type}

/-- options count in full -/
instance [SizedData T] : SizedData (HyperlaneToken T) where
  size t := 1 + 32 + 32 + 1 + 1 + 1 + (1 + 32) + (1 + 32) + (1 + 32 + 1 + 32) + 4 + t.destinationGas.size * (4 + 8) + 4 +
    t.remoteRouters.size * (4 + 32) + size t.pluginData + size t.feeConfig

instance [Serial T] : Serial (HyperlaneToken T) where
  serialize t := serialize t.bump ++ (serialize t.mailbox ++ (serialize t.mailboxProcessAuthority ++
    (serialize t.dispatchAuthorityBump ++ (serialize t.decimals ++ (serialize t.remoteDecimals ++ (serialize t.owner ++
    (serialize t.interchainSecurityModule ++ (serialize t.interchainGasPaymaster ++ (serialize t.destinationGas ++
    (serialize t.remoteRouters ++ (serialize t.pluginData ++ serialize t.feeConfig)))))))))))
  deserialize := do
    let bump ← deserialize
    let mailbox ← deserialize
    let mailboxProcessAuthority ← deserialize
    let dispatchAuthorityBump ← deserialize
    let decimals ← deserialize
    let remoteDecimals ← deserialize
    let owner ← deserialize
    let interchainSecurityModule ← deserialize
    let interchainGasPaymaster ← deserialize
    let destinationGas ← deserialize
    let remoteRouters ← deserialize
    let pluginData ← deserialize
    let feeConfig ← deserialize
    pure ⟨bump, mailbox, mailboxProcessAuthority, dispatchAuthorityBump, decimals, remoteDecimals, owner,
      interchainSecurityModule, interchainGasPaymaster, destinationGas, remoteRouters, pluginData, feeConfig⟩

end

/-! ## Fee accounts -/

instance : Inhabited FeeDataStrategy := ⟨.linear ⟨0, 0⟩⟩

instance : SizedData FeeParams := ⟨fun _ => 8 + 8⟩

instance : SizedData FeeDataStrategy := ⟨fun strategy => 1 + size strategy.params⟩

instance : Serial FeeParams where
  serialize p := serialize p.maxFee ++ serialize p.halfAmount
  deserialize := do
    let maxFee ← deserialize
    let halfAmount ← deserialize
    pure ⟨maxFee, halfAmount⟩

instance : Serial FeeDataStrategy where
  serialize strategy := serialize strategy.variantTag ++ serialize strategy.params
  deserialize := do
    let tag : UInt8 ← deserialize
    if tag = 0 then do
      let p ← deserialize
      pure (.linear p)
    else if tag = 1 then do
      let p ← deserialize
      pure (.regressive p)
    else if tag = 2 then do
      let p ← deserialize
      pure (.progressive p)
    else throw .InvalidData

def optionPubkeySize (opt : Option Pubkey) : ℕ := 1 + if opt.isSome then 32 else 0

def optionSignersSize (opt : Option (ExtTreeSet H160)) : ℕ :=
  1 + match opt with
    | some set => 4 + set.size * 20
    | none => 0

structure LeafFeeConfig where
  strategy : FeeDataStrategy
  signers : Option (ExtTreeSet H160)
deriving Inhabited

structure RoutingFeeConfig where
  wildcardSigners : ExtTreeSet H160

structure CrossCollateralRoutingFeeConfig where
  wildcardSigners : ExtTreeSet H160

inductive FeeData where
  | Leaf (cfg : LeafFeeConfig)
  | Routing (cfg : RoutingFeeConfig)
  | CrossCollateralRouting (cfg : CrossCollateralRoutingFeeConfig)

instance : Inhabited FeeData := ⟨.Leaf default⟩

instance : SizedData LeafFeeConfig := ⟨fun cfg => size cfg.strategy + optionSignersSize cfg.signers⟩

instance : SizedData RoutingFeeConfig := ⟨fun cfg => 4 + cfg.wildcardSigners.size * 20⟩

instance : SizedData CrossCollateralRoutingFeeConfig := ⟨fun cfg => 4 + cfg.wildcardSigners.size * 20⟩

instance : SizedData FeeData where
  size feeData :=
    1 + match feeData with
      | .Leaf cfg => size cfg
      | .Routing cfg => size cfg
      | .CrossCollateralRouting cfg => size cfg

instance : Serial LeafFeeConfig where
  serialize cfg := serialize cfg.strategy ++ serialize cfg.signers
  deserialize := do
    let strategy ← deserialize
    let signers ← deserialize
    pure ⟨strategy, signers⟩

instance : Serial RoutingFeeConfig where
  serialize cfg := serialize cfg.wildcardSigners
  deserialize := do
    let wildcardSigners ← deserialize
    pure ⟨wildcardSigners⟩

instance : Serial CrossCollateralRoutingFeeConfig where
  serialize cfg := serialize cfg.wildcardSigners
  deserialize := do
    let wildcardSigners ← deserialize
    pure ⟨wildcardSigners⟩

instance : Serial FeeData where
  serialize
    | .Leaf cfg => serialize (0 : UInt8) ++ serialize cfg
    | .Routing cfg => serialize (1 : UInt8) ++ serialize cfg
    | .CrossCollateralRouting cfg => serialize (2 : UInt8) ++ serialize cfg
  deserialize := do
    let tag : UInt8 ← deserialize
    if tag = 0 then do
      let cfg ← deserialize
      pure (.Leaf cfg)
    else if tag = 1 then do
      let cfg ← deserialize
      pure (.Routing cfg)
    else if tag = 2 then do
      let cfg ← deserialize
      pure (.CrossCollateralRouting cfg)
    else throw .InvalidData

structure FeeAccount where
  bumpSeed : UInt8
  owner : Option Pubkey
  beneficiary : Pubkey
  domainId : UInt32
  minIssuedAt : Int64
  feeData : FeeData
deriving Inhabited

structure RouteDomain where
  bumpSeed : UInt8
  feeData : FeeDataStrategy
  signers : Option (ExtTreeSet H160)
deriving Inhabited

structure CrossCollateralRoute where
  bumpSeed : UInt8
  feeData : FeeDataStrategy
  signers : Option (ExtTreeSet H160)
deriving Inhabited

structure TransientQuote where
  bumpSeed : UInt8
  payer : Pubkey
  scopedSalt : H256
  context : List UInt8
  data : List UInt8
  expiry : Int64
deriving Inhabited

instance : DiscriminatorData FeeAccount := ⟨⟨ascii ['F', 'E', 'E', '_', 'A', 'C', 'C', 'T'], rfl⟩⟩

instance : DiscriminatorData RouteDomain := ⟨⟨ascii ['R', 'O', 'U', 'T', 'E', 'D', 'O', 'M'], rfl⟩⟩

instance : DiscriminatorData CrossCollateralRoute := ⟨⟨ascii ['C', 'C', '_', 'R', 'O', 'U', 'T', 'E'], rfl⟩⟩

instance : DiscriminatorData TransientQuote := ⟨⟨ascii ['T', 'R', 'N', 'Q', 'U', 'O', 'T', 'E'], rfl⟩⟩

instance : SizedData FeeAccount where
  size a := 1 + optionPubkeySize a.owner + 32 + 4 + 8 + size a.feeData

instance : SizedData RouteDomain where
  size a := 1 + size a.feeData + optionSignersSize a.signers

instance : SizedData CrossCollateralRoute where
  size a := 1 + size a.feeData + optionSignersSize a.signers

instance : SizedData TransientQuote where
  size a := 1 + 32 + 32 + 4 + a.context.length + 4 + a.data.length + 8

instance : Serial FeeAccount where
  serialize a := serialize a.bumpSeed ++ (serialize a.owner ++ (serialize a.beneficiary ++ (serialize a.domainId ++
    (serialize a.minIssuedAt ++ serialize a.feeData))))
  deserialize := do
    let bumpSeed ← deserialize
    let owner ← deserialize
    let beneficiary ← deserialize
    let domainId ← deserialize
    let minIssuedAt ← deserialize
    let feeData ← deserialize
    pure ⟨bumpSeed, owner, beneficiary, domainId, minIssuedAt, feeData⟩

instance : Serial RouteDomain where
  serialize a := serialize a.bumpSeed ++ (serialize a.feeData ++ serialize a.signers)
  deserialize := do
    let bumpSeed ← deserialize
    let feeData ← deserialize
    let signers ← deserialize
    pure ⟨bumpSeed, feeData, signers⟩

instance : Serial CrossCollateralRoute where
  serialize a := serialize a.bumpSeed ++ (serialize a.feeData ++ serialize a.signers)
  deserialize := do
    let bumpSeed ← deserialize
    let feeData ← deserialize
    let signers ← deserialize
    pure ⟨bumpSeed, feeData, signers⟩

instance : Serial TransientQuote where
  serialize a := serialize a.bumpSeed ++ (serialize a.payer ++ (serialize a.scopedSalt ++ (serialize a.context ++
    (serialize a.data ++ serialize a.expiry))))
  deserialize := do
    let bumpSeed ← deserialize
    let payer ← deserialize
    let scopedSalt ← deserialize
    let context ← deserialize
    let data ← deserialize
    let expiry ← deserialize
    pure ⟨bumpSeed, payer, scopedSalt, context, data, expiry⟩

/-! ## Sizes -/

theorem coded_feeConfig (config : FeeConfig) : Coded (serialize config) deserialize config (32 + 32) :=
  (coded_fixed config.feeProgram).append ((coded_fixed config.feeAccount).map rfl)

theorem coded_igpType (igp : InterchainGasPaymasterType) : Coded (serialize igp) deserialize igp (1 + 32) := by
  cases igp with
  | Igp key => exact (coded_u8 0).append ((coded_fixed key).map rfl)
  | OverheadIgp key => exact (coded_u8 1).append ((coded_fixed key).map rfl)

theorem coded_synthetic (p : SyntheticPlugin) : Coded (serialize p) deserialize p (32 + (1 + 1)) :=
  (coded_fixed p.mint).append ((coded_u8 p.mintBump).append ((coded_u8 p.ataPayerBump).map rfl))

theorem coded_collateral (p : CollateralPlugin) : Coded (serialize p) deserialize p (32 + (32 + (32 + (1 + 1)))) :=
  (coded_fixed p.splTokenProgram).append ((coded_fixed p.mint).append ((coded_fixed p.escrow).append
    ((coded_u8 p.escrowBump).append ((coded_u8 p.ataPayerBump).map rfl))))

theorem coded_native (p : NativePlugin) : Coded (serialize p) deserialize p (size p) :=
  (coded_u8 p.nativeCollateralBump).map rfl

/-- the token, for a plugin that fits its size -/
theorem HyperlaneToken.sized {T : Type} [Serial T] [SizedData T]
    (hplugin : ∀ p : T, ∃ n ≤ size p, Coded (serialize p) deserialize p n) : AccountData.Sized (HyperlaneToken T) := by
  intro t
  obtain ⟨plugin, hplugin_le, hplugin⟩ := hplugin t.pluginData
  obtain ⟨owner, howner_le, howner⟩ := coded_option_le coded_fixed t.owner
  obtain ⟨ism, hism_le, hism⟩ := coded_option_le coded_fixed t.interchainSecurityModule
  obtain ⟨igp, higp_le, higp⟩ := coded_option_le
    (fun igp : Pubkey × InterchainGasPaymasterType => coded_pair (coded_fixed igp.1) (coded_igpType igp.2))
    t.interchainGasPaymaster
  have hgas := coded_map t.destinationGas (by decide) coded_u32 coded_u64
  have hrouters := coded_map t.remoteRouters (by decide) coded_u32 coded_fixed
  have hfee := codedLast_optional (by decide) coded_feeConfig t.feeConfig
  refine ⟨_, ?_, (coded_u8 t.bump).appendLast ((coded_fixed t.mailbox).appendLast
    ((coded_fixed t.mailboxProcessAuthority).appendLast ((coded_u8 t.dispatchAuthorityBump).appendLast
    ((coded_u8 t.decimals).appendLast ((coded_u8 t.remoteDecimals).appendLast (howner.appendLast (hism.appendLast
    (higp.appendLast (hgas.appendLast (hrouters.appendLast (hplugin.appendLast
    (hfee.map rfl))))))))))))⟩
  change _ ≤ 1 + 32 + 32 + 1 + 1 + 1 + (1 + 32) + (1 + 32) + (1 + 32 + 1 + 32) + 4 + t.destinationGas.size * (4 + 8) + 4 +
    t.remoteRouters.size * (4 + 32) + size t.pluginData + size t.feeConfig
  omega

theorem coded_params (p : FeeParams) : Coded (serialize p) deserialize p (8 + 8) :=
  (coded_u64 p.maxFee).append ((coded_u64 p.halfAmount).map rfl)

theorem coded_strategy (strategy : FeeDataStrategy) : Coded (serialize strategy) deserialize strategy (1 + (8 + 8)) := by
  cases strategy with
  | linear p => exact (coded_u8 0).append ((coded_params p).map rfl)
  | regressive p => exact (coded_u8 1).append ((coded_params p).map rfl)
  | progressive p => exact (coded_u8 2).append ((coded_params p).map rfl)

theorem coded_signers (set : ExtTreeSet H160) : Coded (serialize set) deserialize set (4 + set.size * 20) :=
  coded_set set (by decide) coded_fixed

theorem coded_optionSigners (opt : Option (ExtTreeSet H160)) :
    Coded (serialize opt) deserialize opt (optionSignersSize opt) := by
  cases opt with
  | none => exact coded_option coded_signers none
  | some set => exact coded_option coded_signers (some set)

theorem coded_optionPubkey (opt : Option Pubkey) : Coded (serialize opt) deserialize opt (optionPubkeySize opt) := by
  cases opt with
  | none => exact coded_option coded_fixed (none : Option Pubkey)
  | some key => exact coded_option coded_fixed (some key)

theorem coded_leaf (cfg : LeafFeeConfig) :
    Coded (serialize cfg) deserialize cfg (1 + (8 + 8) + optionSignersSize cfg.signers) :=
  (coded_strategy cfg.strategy).append ((coded_optionSigners cfg.signers).map rfl)

theorem coded_routing (cfg : RoutingFeeConfig) :
    Coded (serialize cfg) deserialize cfg (4 + cfg.wildcardSigners.size * 20) := (coded_signers cfg.wildcardSigners).map rfl

theorem coded_crossCollateralRouting (cfg : CrossCollateralRoutingFeeConfig) :
    Coded (serialize cfg) deserialize cfg (4 + cfg.wildcardSigners.size * 20) := (coded_signers cfg.wildcardSigners).map rfl

theorem coded_feeData (feeData : FeeData) : Coded (serialize feeData) deserialize feeData (size feeData) := by
  cases feeData with
  | Leaf cfg => exact (coded_u8 0).append ((coded_leaf cfg).map rfl)
  | Routing cfg => exact (coded_u8 1).append ((coded_routing cfg).map rfl)
  | CrossCollateralRouting cfg => exact (coded_u8 2).append ((coded_crossCollateralRouting cfg).map rfl)

theorem coded_bytes (bytes : List UInt8) : Coded (serialize bytes) deserialize bytes (4 + bytes.length * 1) :=
  coded_list (by decide) fun byte _ => coded_u8 byte

/-- what is written behind a discriminator fits, where the size is that of the encoding -/
theorem prefixed_sized {T : Type} [Serial T] [SizedData T] [DiscriminatorData T]
    (h : ∀ data : T, ∃ n, n = size data ∧ Coded (serialize data) deserialize data n) :
    AccountData.Sized (DiscriminatorPrefixed T) := by
  intro p
  obtain ⟨n, rfl, hcoded⟩ := h p.data
  exact ⟨_, le_rfl, (coded_prefixed hcoded).last⟩

theorem FeeAccount.sized : AccountData.Sized (DiscriminatorPrefixed FeeAccount) := prefixed_sized fun a =>
  ⟨_, by change _ = 1 + optionPubkeySize a.owner + 32 + 4 + 8 + size a.feeData; omega,
    (coded_u8 a.bumpSeed).append ((coded_optionPubkey a.owner).append ((coded_fixed a.beneficiary).append
      ((coded_u32 a.domainId).append ((coded_i64 a.minIssuedAt).append ((coded_feeData a.feeData).map rfl)))))⟩

theorem RouteDomain.sized : AccountData.Sized (DiscriminatorPrefixed RouteDomain) := prefixed_sized fun a =>
  ⟨_, (Nat.add_assoc 1 (1 + (8 + 8)) (optionSignersSize a.signers)).symm,
    (coded_u8 a.bumpSeed).append ((coded_strategy a.feeData).append ((coded_optionSigners a.signers).map rfl))⟩

theorem CrossCollateralRoute.sized : AccountData.Sized (DiscriminatorPrefixed CrossCollateralRoute) := prefixed_sized fun a =>
  ⟨_, (Nat.add_assoc 1 (1 + (8 + 8)) (optionSignersSize a.signers)).symm,
    (coded_u8 a.bumpSeed).append ((coded_strategy a.feeData).append ((coded_optionSigners a.signers).map rfl))⟩

theorem TransientQuote.sized : AccountData.Sized (DiscriminatorPrefixed TransientQuote) := prefixed_sized fun a =>
  ⟨_, by change _ = 1 + 32 + 32 + 4 + a.context.length + 4 + a.data.length + 8; omega,
    (coded_u8 a.bumpSeed).append ((coded_fixed a.payer).append ((coded_fixed a.scopedSalt).append
      ((coded_bytes a.context).append ((coded_bytes a.data).append ((coded_i64 a.expiry).map rfl)))))⟩

/-! ## Round trips -/

/-- data of this type is stored in every account with room for it, and fetched from it again, over whatever the account held;
and no slice, however large, takes more than the size -/
def RoundTrips (T : Type) [Serial T] [SizedData T] [Inhabited T] : Prop :=
  ∀ a : AccountData T,
    (∀ (account : AccountInfo) (allowRealloc : Bool), account.Storable → size a ≤ account.data.length →
      ∃ account', a.store account allowRealloc = .ok account' ∧ AccountData.fetch account'.data = .ok a ∧
        account'.data.length = account.data.length) ∧
    (∀ (room : ℕ) (bytes : { bytes : List UInt8 // bytes.length ≤ room }),
      (serialize true ++ serialize a.data) room = .ok bytes → bytes.1.length ≤ size a)

theorem RoundTrips.of_sized {T : Type} [Serial T] [SizedData T] [Inhabited T] (h : AccountData.Sized T) : RoundTrips T :=
  fun a => ⟨fun _ allowRealloc haccount hlen => AccountData.store_fetch h a haccount hlen allowRealloc,
    fun _ _ hok => AccountData.serialized_le_size h a hok⟩

/-- tokens with any plugin that fits its own size, those of the programs, and the accounts of the fee program -/
theorem stored_accounts_round_trip :
    (∀ (T : Type) [Serial T] [SizedData T] [Inhabited T],
      (∀ p : T, ∃ n ≤ size p, Coded (serialize p) deserialize p n) → RoundTrips (HyperlaneToken T)) ∧
    RoundTrips (HyperlaneToken SyntheticPlugin) ∧ RoundTrips (HyperlaneToken CollateralPlugin) ∧
    RoundTrips (HyperlaneToken NativePlugin) ∧ RoundTrips (DiscriminatorPrefixed FeeAccount) ∧
    RoundTrips (DiscriminatorPrefixed RouteDomain) ∧ RoundTrips (DiscriminatorPrefixed CrossCollateralRoute) ∧
    RoundTrips (DiscriminatorPrefixed TransientQuote) := by
  have htoken : ∀ (T : Type) [Serial T] [SizedData T] [Inhabited T],
      (∀ p : T, ∃ n ≤ size p, Coded (serialize p) deserialize p n) → RoundTrips (HyperlaneToken T) :=
    fun _ _ _ _ hplugin => .of_sized (HyperlaneToken.sized hplugin)
  refine ⟨htoken, htoken _ fun p => ⟨_, le_rfl, coded_synthetic p⟩, htoken _ fun p => ⟨_, le_rfl, coded_collateral p⟩,
    htoken _ fun p => ⟨_, le_rfl, coded_native p⟩, ?_, ?_, ?_, ?_⟩
  · exact .of_sized FeeAccount.sized
  · exact .of_sized RouteDomain.sized
  · exact .of_sized CrossCollateralRoute.sized
  · exact .of_sized TransientQuote.sized

-- three stale bytes: the flag, the plugin, and a zero
example : (AccountData.mk (NativePlugin.mk 7)).storeInSlice [9, 9, 9] = .ok [1, 7, 0] := rfl

end Hyperlane.AccountUtils
