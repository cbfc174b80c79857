/-
The rate limit of the composite ISM: `calculate_current_level` (rust/sealevel/programs/ism/composite-ism/src/rate_limit.rs)
and the `RateLimited` arm of `verify_node` (verify.rs).

Additions, products and subtractions are checked, as the programs are built with overflow checks; `as` casts wrap. Where a
node stands in a tree, the rest of the instruction decides whether its new state is written back, so a run has for each
call whether that was done.

- `calculateCurrentLevel_ok`, `calculateCurrentLevel_overflow`: the level, and the one check that can fail.
- `verifyRateLimited_cases`: all that the arm can do.
- `rate_limited`: over every run, the level, the overflow checks and the window bound, and that the Solidity level agrees.
-/
import Hyperlane.Composite.IsmNode
import Hyperlane.RateLimit.Window

namespace Hyperlane.Composite

open Hyperlane.Bytes Hyperlane.Outcome Hyperlane.Sealevel Hyperlane.TokenBucket
open Hyperlane.Relayer (H256 HyperlaneMessage)

/-! ## Machine integers -/

/-- a panic of an overflow check, or an error of the program -/
inductive Fault where
  | Overflow
  | Program (e : ProgramError)
deriving DecidableEq

/-- an `i64` difference -/
def Fits (x : ℤ) : Prop := -2 ^ 63 ≤ x ∧ x < 2 ^ 63

instance (x : ℤ) : Decidable (Fits x) := inferInstanceAs (Decidable (_ ∧ _))

def subI64 (x y : ℤ) : Except Fault ℤ := if Fits (x - y) then .ok (x - y) else .error .Overflow

def checkedU128 (x : ℕ) : Except Fault ℕ := if x < 2 ^ 128 then .ok x else .error .Overflow

def subU64 (x y : UInt64) : Except Fault UInt64 := if y ≤ x then .ok (x - y) else .error .Overflow

/-- `as u128` of an `i64` -/
def asU128 (x : ℤ) : ℕ := (x % 2 ^ 128).toNat

/-! ## The level -/

def DURATION_SECS : ℤ := 86400

def calculateCurrentLevel (filledLevel : UInt64) (lastUpdated now : ℤ) (maxCapacity : UInt64) : Except Fault UInt64 := do
  let difference ← subI64 now lastUpdated
  let elapsed := max difference 0
  if DURATION_SECS ≤ elapsed then .ok maxCapacity
  else do
    let product ← checkedU128 (asU128 elapsed * maxCapacity.toNat)
    let refill := product / asU128 DURATION_SECS
    let sum ← checkedU128 (filledLevel.toNat + refill)
    .ok (UInt64.ofNat (min sum maxCapacity.toNat))

/-- what refills in a time -/
def refill (maxCapacity : UInt64) (elapsed : ℕ) : ℕ := elapsed * maxCapacity.toNat / 86400

/-- the level, in numbers without bounds -/
def level (filledLevel : UInt64) (lastUpdated now : ℤ) (maxCapacity : UInt64) : ℕ :=
  min maxCapacity.toNat (filledLevel.toNat + refill maxCapacity (now - lastUpdated).toNat)

section Level

variable {filledLevel maxCapacity : UInt64} {lastUpdated now : ℤ}

theorem asU128_of_lt {x : ℤ} (h : 0 ≤ x) (hx : x < 2 ^ 63) : asU128 x = x.toNat := by
  unfold asU128
  rw [Int.emod_eq_of_lt h (by omega)]

theorem checkedU128_of_lt {x : ℕ} (h : x < 2 ^ 128) : checkedU128 x = .ok x := if_pos h

/-- a day refills the bucket -/
theorem le_refill {elapsed : ℕ} (h : 86400 ≤ elapsed) : maxCapacity.toNat ≤ refill maxCapacity elapsed := by
  unfold refill
  calc maxCapacity.toNat = 86400 * maxCapacity.toNat / 86400 := (Nat.mul_div_cancel_left _ (by norm_num)).symm
    _ ≤ elapsed * maxCapacity.toNat / 86400 := Nat.div_le_div_right (Nat.mul_le_mul_right _ h)

/-- **The level** is computed without loss if the difference of the times is an `i64`. -/
theorem calculateCurrentLevel_ok (filledLevel maxCapacity : UInt64) (h : Fits (now - lastUpdated)) : ∃ r,
    calculateCurrentLevel filledLevel lastUpdated now maxCapacity = .ok r ∧
      r.toNat = level filledLevel lastUpdated now maxCapacity := by
  have hcap : maxCapacity.toNat < 2 ^ 64 := maxCapacity.toNat_lt
  have hfilled : filledLevel.toNat < 2 ^ 64 := filledLevel.toNat_lt
  have helapsed : (max (now - lastUpdated) 0).toNat = (now - lastUpdated).toNat := by omega
  unfold calculateCurrentLevel
  rw [subI64, if_pos h, ok_bind]
  by_cases hstale : DURATION_SECS ≤ max (now - lastUpdated) 0
  · rw [if_pos hstale]
    refine ⟨maxCapacity, rfl, ?_⟩
    have hday : 86400 ≤ (now - lastUpdated).toNat := by
      unfold DURATION_SECS at hstale
      omega
    exact (min_eq_left ((le_refill hday).trans (Nat.le_add_left _ _))).symm
  · have hshort : (now - lastUpdated).toNat < 86400 := by
      unfold DURATION_SECS at hstale
      omega
    have hcast : asU128 (max (now - lastUpdated) 0) = (now - lastUpdated).toNat := by
      rw [asU128_of_lt (le_max_right _ _) (by omega), helapsed]
    have hproduct : (now - lastUpdated).toNat * maxCapacity.toNat < 2 ^ 128 := by
      calc (now - lastUpdated).toNat * maxCapacity.toNat ≤ 86400 * 2 ^ 64 := Nat.mul_le_mul hshort.le hcap.le
        _ < 2 ^ 128 := by norm_num
    have hrefill : refill maxCapacity (now - lastUpdated).toNat ≤ maxCapacity.toNat := by
      calc refill maxCapacity (now - lastUpdated).toNat ≤ 86400 * maxCapacity.toNat / 86400 :=
            Nat.div_le_div_right (Nat.mul_le_mul_right _ hshort.le)
        _ = maxCapacity.toNat := Nat.mul_div_cancel_left _ (by norm_num)
    rw [if_neg hstale, hcast, checkedU128_of_lt hproduct, ok_bind]
    change ∃ r, (checkedU128 (filledLevel.toNat + refill maxCapacity (now - lastUpdated).toNat) >>= _) = _ ∧ _
    rw [checkedU128_of_lt (by omega), ok_bind]
    refine ⟨_, rfl, ?_⟩
    rw [UInt64.toNat_ofNat_of_lt' (lt_of_le_of_lt (min_le_right _ _) hcap), min_comm]
    rfl

/-- the one check that can fail -/
theorem calculateCurrentLevel_overflow :
    calculateCurrentLevel filledLevel lastUpdated now maxCapacity = .error .Overflow ↔ ¬Fits (now - lastUpdated) := by
  constructor
  · intro hoverflow hfits
    obtain ⟨r, hr, -⟩ := calculateCurrentLevel_ok filledLevel maxCapacity hfits
    rw [hoverflow] at hr
    cases hr
  · intro hfits
    rw [calculateCurrentLevel, subI64, if_neg hfits, error_bind]

end Level

/-! ## The node -/

/-- what an owner configures of an `IsmNode.RateLimited` -/
structure RateLimitedNode where
  maxCapacity : UInt64
  recipient : Option H256
  mailbox : Pubkey

/-- what `Verify` changes of it -/
structure Filled where
  filledLevel : UInt64
  lastUpdated : ℤ

/-- `normalize_node`, on every new config -/
def RateLimitedNode.normalized (n : RateLimitedNode) : Filled := ⟨n.maxCapacity, 0⟩

def PROCESS_AUTHORITY_SEED : List UInt8 := "process_authority".toUTF8.toList

/-- `derive_process_authority`; the derivation is the runtime's -/
def deriveProcessAuthority (rt : Runtime) (mailbox ismProgramId : Pubkey) : Pubkey × UInt8 :=
  rt.findProgramAddress [PROCESS_AUTHORITY_SEED, ismProgramId.1] mailbox

/-- the amount of a token message, as far as it is a `u64` -/
def tokenAmount (body : List UInt8) : Except Fault UInt64 :=
  if body.length < 64 then .error (.Program Error.InvalidMessageBody.into)
  else if ((body.drop 32).take 24).any fun b => b != 0 then .error (.Program Error.RateLimitExceeded.into)
  else .ok (UInt64.ofNat (ofBe ((body.drop 56).take 8)))

/-- the recipient and the process authority; the rest of the accounts -/
def checkProcess (rt : Runtime) (programId : Pubkey) (n : RateLimitedNode) (message : HyperlaneMessage) (accounts : List AccountMeta) :
    Except Fault (List AccountMeta) :=
  if n.recipient.any fun r => message.recipient ≠ r then .error (.Program Error.RecipientMismatch.into)
  else
    match nextAccountInfo accounts with
    | .error e => .error (.Program e)
    | .ok (authority, rest) =>
      if authority.pubkey ≠ (deriveProcessAuthority rt n.mailbox programId).1 then
        .error (.Program Error.InvalidProcessAuthority.into)
      else if authority.isSigner = false then .error (.Program Error.ProcessAuthorityNotSigner.into)
      else .ok rest

/-- `Clock::get`, its `unix_timestamp` -/
def clockGet : Option ℤ → Except Fault ℤ
  | some now => .ok now
  | none => .error (.Program .UnsupportedSysvar)

/-- the `RateLimited` arm of `verify_node`: the new state, `did_mutate`, and the rest of the accounts -/
def verifyRateLimited (rt : Runtime) (programId : Pubkey) (n : RateLimitedNode) (f : Filled) (message : HyperlaneMessage)
    (accounts : List AccountMeta) (clock : Option ℤ) : Except Fault (Filled × Bool × List AccountMeta) := do
  let rest ← checkProcess rt programId n message accounts
  let amount ← tokenAmount message.body
  let now ← clockGet clock
  let adjusted ← calculateCurrentLevel f.filledLevel f.lastUpdated now n.maxCapacity
  if adjusted < amount then .error (.Program Error.RateLimitExceeded.into)
  else if amount = 0 then .ok (f, false, rest)
  else do
    let filledLevel ← subU64 adjusted amount
    .ok (⟨filledLevel, now⟩, true, rest)

/-! ## Runs -/

/-- a `Verify` that reaches the node; `committed` is whether the rest of the instruction goes through -/
structure VerifyCall where
  message : HyperlaneMessage
  accounts : List AccountMeta
  clock : Option ℤ
  committed : Bool

variable (rt : Runtime) (programId : Pubkey) (n : RateLimitedNode)

def VerifyCall.verify (c : VerifyCall) (f : Filled) : Except Fault (Filled × Bool × List AccountMeta) :=
  verifyRateLimited rt programId n f c.message c.accounts c.clock

/-- the state that is stored after a call -/
def VerifyCall.step (f : Filled) (c : VerifyCall) : Filled :=
  match c.verify rt programId n f with
  | .ok (f', _) => if c.committed then f' else f
  | .error _ => f

/-- the time and the amount of a call that is accepted -/
def VerifyCall.accepted (f : Filled) (c : VerifyCall) : Option (ℤ × ℕ) :=
  match c.verify rt programId n f, c.clock, tokenAmount c.message.body with
  | .ok _, some now, .ok amount => if c.committed then some (now, amount.toNat) else none
  | _, _, _ => none

/-- the state before the first call and after each one -/
def filledStates (f : Filled) (calls : List VerifyCall) : List Filled := calls.scanl (VerifyCall.step rt programId n) f

def acceptedAll (f : Filled) : List VerifyCall → List (ℤ × ℕ)
  | [] => []
  | c :: calls => (c.accepted rt programId n f).toList ++ acceptedAll (c.step rt programId n f) calls

/-- the amount that is accepted from `s` to `t` -/
def acceptedIn (s t : ℤ) (f : Filled) (calls : List VerifyCall) : ℕ :=
  (((acceptedAll rt programId n f calls).filter fun a => s ≤ a.1 ∧ a.1 ≤ t).map Prod.snd).sum

section Arm

variable {rt} {programId} {n} {f f' : Filled} {message : HyperlaneMessage} {accounts rest : List AccountMeta}
  {clock : Option ℤ} {mutated : Bool}

theorem clockGet_ok {now : ℤ} : clockGet clock = .ok now ↔ clock = some now := by
  cases clock with
  | none => exact iff_of_false nofun nofun
  | some t => rw [clockGet, Except.ok.injEq, Option.some.injEq]

/-- **What the arm accepts**: an amount within the level, which it takes. -/
theorem verifyRateLimited_ok
    (h : verifyRateLimited rt programId n f message accounts clock = .ok (f', mutated, rest)) :
    ∃ now amount, clock = some now ∧ tokenAmount message.body = .ok amount ∧
      ((amount = 0 ∧ f' = f) ∨ (amount ≠ 0 ∧ f'.lastUpdated = now ∧
        f'.filledLevel.toNat + amount.toNat = level f.filledLevel f.lastUpdated now n.maxCapacity)) := by
  obtain ⟨accounts', -, h⟩ := bind_eq_ok.1 h
  obtain ⟨amount, hamount, h⟩ := bind_eq_ok.1 h
  obtain ⟨now, hnow, h⟩ := bind_eq_ok.1 h
  obtain ⟨adjusted, hadjusted, h⟩ := bind_eq_ok.1 h
  refine ⟨now, amount, clockGet_ok.1 hnow, hamount, ?_⟩
  split at h
  · cases h
  rename_i hwithin
  split at h
  · rename_i hzero
    cases h
    exact .inl ⟨hzero, rfl⟩
  · rename_i hne
    rw [subU64, if_pos (UInt64.not_lt.1 hwithin), ok_bind] at h
    cases h
    refine .inr ⟨hne, rfl, ?_⟩
    have hfits : Fits (now - f.lastUpdated) := by
      by_contra hnot
      rw [calculateCurrentLevel_overflow.2 hnot] at hadjusted
      cases hadjusted
    obtain ⟨r, hr, hlevel⟩ := calculateCurrentLevel_ok f.filledLevel n.maxCapacity hfits
    rw [hr] at hadjusted
    cases hadjusted
    have hle : amount.toNat ≤ adjusted.toNat := UInt64.le_iff_toNat_le.1 (UInt64.not_lt.1 hwithin)
    rw [← hlevel, UInt64.toNat_sub_of_le _ _ (UInt64.not_lt.1 hwithin)]
    exact Nat.sub_add_cancel hle

/-- the only overflow is that of the difference of the times -/
theorem verifyRateLimited_overflow (h : verifyRateLimited rt programId n f message accounts clock = .error .Overflow) :
    ∃ now, clock = some now ∧ ¬Fits (now - f.lastUpdated) := by
  unfold verifyRateLimited at h
  cases hcheck : checkProcess rt programId n message accounts with
  | error e =>
    rw [hcheck, error_bind] at h
    cases h
    unfold checkProcess at hcheck
    split at hcheck
    · cases hcheck
    · split at hcheck
      · cases hcheck
      · split at hcheck
        · cases hcheck
        · split at hcheck <;> cases hcheck
  | ok rest =>
    rw [hcheck, ok_bind] at h
    cases hamount : tokenAmount message.body with
    | error e =>
      rw [hamount, error_bind] at h
      cases h
      unfold tokenAmount at hamount
      split at hamount
      · cases hamount
      · split at hamount <;> cases hamount
    | ok amount =>
      rw [hamount, ok_bind] at h
      cases clock with
      | none => cases h
      | some now =>
        refine ⟨now, rfl, fun hfits => ?_⟩
        obtain ⟨r, hr, -⟩ := calculateCurrentLevel_ok f.filledLevel n.maxCapacity hfits
        rw [clockGet, ok_bind, hr, ok_bind] at h
        split at h
        · cases h
        · rename_i hwithin
          split at h
          · cases h
          · rw [subU64, if_pos (UInt64.not_lt.1 hwithin)] at h
            cases h

variable (rt programId n) in
/-- **All that a call can do**: it leaves the node as it is, or it takes an amount within the level. -/
theorem step_cases (f : Filled) (c : VerifyCall) :
    (c.step rt programId n f = f ∧ ∀ a, c.accepted rt programId n f = some a → a.2 = 0) ∨
      ∃ now amount, amount ≠ 0 ∧ c.clock = some now ∧ c.accepted rt programId n f = some (now, amount) ∧
        (c.step rt programId n f).lastUpdated = now ∧
        (c.step rt programId n f).filledLevel.toNat + amount = level f.filledLevel f.lastUpdated now n.maxCapacity := by
  unfold VerifyCall.step VerifyCall.accepted
  cases hverify : c.verify rt programId n f with
  | error e => exact .inl ⟨rfl, nofun⟩
  | ok r =>
    obtain ⟨f', mutated, rest⟩ := r
    obtain ⟨now, amount, hclock, hamount, heffect⟩ := verifyRateLimited_ok hverify
    rw [hclock, hamount]
    cases c.committed with
    | false => exact .inl ⟨rfl, nofun⟩
    | true =>
      rcases heffect with ⟨rfl, rfl⟩ | ⟨hne, hlast, hlevel⟩
      · refine .inl ⟨rfl, fun a ha => ?_⟩
        cases ha
        rfl
      · have hpos : amount.toNat ≠ 0 := fun hzero => hne (UInt64.toNat_inj.1 hzero)
        exact .inr ⟨now, amount.toNat, hpos, rfl, rfl, hlast, hlevel⟩

theorem accepted_clock {c : VerifyCall} {a : ℤ × ℕ} (h : c.accepted rt programId n f = some a) : c.clock = some a.1 := by
  unfold VerifyCall.accepted at h
  split at h
  · rename_i hclock _
    split at h
    · cases h
      exact hclock
    · cases h
  · cases h

theorem level_le (f : Filled) (now : ℤ) (cap : UInt64) : level f.filledLevel f.lastUpdated now cap ≤ cap.toNat := min_le_left _ _

/-- a level within the capacity stays within it -/
theorem step_le (h : f.filledLevel ≤ n.maxCapacity) (c : VerifyCall) :
    (c.step rt programId n f).filledLevel ≤ n.maxCapacity := by
  rcases step_cases rt programId n f c with ⟨hsame, -⟩ | ⟨now, amount, -, -, -, -, hlevel⟩
  · rw [hsame]
    exact h
  · have hle := level_le f now n.maxCapacity
    rw [UInt64.le_iff_toNat_le]
    omega

theorem states_le (h : f.filledLevel ≤ n.maxCapacity) (calls : List VerifyCall) :
    ∀ f' ∈ filledStates rt programId n f calls, f'.filledLevel ≤ n.maxCapacity := by
  induction calls generalizing f with
  | nil => simpa [filledStates] using h
  | cons c calls ih =>
    intro f' hf'
    rw [filledStates, List.scanl_cons, List.mem_cons] at hf'
    rcases hf' with rfl | hf'
    · exact h
    · exact ih (step_le h c) f' hf'

end Arm

/-! ## The window bound -/

/-- the clock of a run does not go back -/
def NonDecreasing (calls : List VerifyCall) : Prop := (calls.filterMap VerifyCall.clock).Pairwise (· ≤ ·)

/-- what is accepted, as touches of the bucket; an amount of zero does not touch it -/
def touches (origin : ℤ) (accepted : List (ℤ × ℕ)) : List Touch :=
  (accepted.filter fun a => a.2 ≠ 0).map fun a => ⟨(a.1 - origin).toNat, a.2, 0⟩

section Window

variable {rt} {programId} {n} {f : Filled} {origin since : ℤ} {L : ℕ}

theorem refill_add (cap : UInt64) (a b : ℕ) : refill cap a + refill cap b ≤ refill cap (a + b) := by
  unfold refill
  rw [Nat.add_mul]
  exact Nat.div_add_div_le_add_div

/-- every later level is what a bucket of level `L` at time `since` could have -/
def Dominated (n : RateLimitedNode) (f : Filled) (L : ℕ) (since : ℤ) : Prop :=
  ∀ now, since ≤ now → level f.filledLevel f.lastUpdated now n.maxCapacity ≤ L + refill n.maxCapacity (now - since).toNat

theorem Dominated.self (n : RateLimitedNode) (f : Filled) : Dominated n f f.filledLevel.toNat f.lastUpdated :=
  fun _ _ => min_le_right _ _

variable (rt programId) in
/-- **A run is metered**, from any level that dominates the node's. -/
theorem run_metered {calls : List VerifyCall} (horigin : origin ≤ since) (hdominated : Dominated n f L since)
    (hsince : ∀ now ∈ calls.filterMap VerifyCall.clock, since ≤ now) (hclock : NonDecreasing calls) :
    Metered n.maxCapacity.toNat (refill n.maxCapacity) L (since - origin).toNat
      (touches origin (acceptedAll rt programId n f calls)) := by
  induction calls generalizing f since L with
  | nil => exact .nil _ _
  | cons c calls ih =>
    rw [acceptedAll]
    unfold NonDecreasing at hclock
    rcases step_cases rt programId n f c with
      ⟨hsame, hzero⟩ | ⟨now, amount, hamount, hnow, haccepted, hlast, hlevel⟩
    · -- nothing is taken
      have hnone : touches origin ((c.accepted rt programId n f).toList ++
          acceptedAll rt programId n (c.step rt programId n f) calls) =
            touches origin (acceptedAll rt programId n f calls) := by
        rw [hsame]
        cases ha : c.accepted rt programId n f with
        | none => rfl
        | some a => simp [touches, hzero a ha]
      rw [hnone]
      refine ih horigin hdominated (fun now hnow => hsince now ?_) ?_
      · rw [List.filterMap_cons]
        cases c.clock with
        | none => exact hnow
        | some t => exact List.mem_cons_of_mem _ hnow
      · rw [List.filterMap_cons] at hclock
        cases hc : c.clock with
        | none =>
          rw [hc] at hclock
          exact hclock
        | some t =>
          rw [hc] at hclock
          exact hclock.of_cons
    · -- the amount comes from the level
      rw [List.filterMap_cons, hnow] at hclock hsince
      obtain ⟨hlater, hrest⟩ := List.pairwise_cons.1 hclock
      have hle := hsince now List.mem_cons_self
      have hlevelle := hdominated now hle
      have hcap := level_le f now n.maxCapacity
      have hrun : Metered n.maxCapacity.toNat (refill n.maxCapacity) (c.step rt programId n f).filledLevel.toNat
          (now - origin).toNat (touches origin (acceptedAll rt programId n (c.step rt programId n f) calls)) :=
        ih (horigin.trans hle) (hlast ▸ Dominated.self n (c.step rt programId n f)) hlater hrest
      have helapsed : (now - origin).toNat - (since - origin).toNat = (now - since).toNat := by omega
      rw [haccepted, Option.toList_some, List.singleton_append]
      have hcons : touches origin ((now, amount) :: acceptedAll rt programId n (c.step rt programId n f) calls) =
          ⟨(now - origin).toNat, amount, 0⟩ ::
            touches origin (acceptedAll rt programId n (c.step rt programId n f) calls) := by simp [touches, hamount]
      rw [hcons]
      refine .cons (by simp only; omega) ?_ hrun
      simp only [Nat.add_zero, helapsed]
      omega

/-- what is accepted, is accepted at the time of a call -/
theorem acceptedAll_clock {calls : List VerifyCall} {a : ℤ × ℕ} (h : a ∈ acceptedAll rt programId n f calls) :
    a.1 ∈ calls.filterMap VerifyCall.clock := by
  induction calls generalizing f with
  | nil => exact absurd h List.not_mem_nil
  | cons c calls ih =>
    rw [acceptedAll, List.mem_append, Option.mem_toList] at h
    rw [List.mem_filterMap]
    rcases h with hfirst | hrest
    · exact ⟨c, List.mem_cons_self, accepted_clock hfirst⟩
    · obtain ⟨c', hc', hclock⟩ := List.mem_filterMap.1 (ih hrest)
      exact ⟨c', List.mem_cons_of_mem _ hc', hclock⟩

/-- the touches of a window are the amounts of the window -/
theorem spentIn_touches {s t : ℤ} (ht : origin ≤ t) (accepted : List (ℤ × ℕ)) (haccepted : ∀ a ∈ accepted, origin ≤ a.1) :
    spentIn (s - origin).toNat (t - origin).toNat (touches origin accepted) =
      ((accepted.filter fun a => s ≤ a.1 ∧ a.1 ≤ t).map Prod.snd).sum := by
  induction accepted with
  | nil => rfl
  | cons a accepted ih =>
    obtain ⟨ha, hrest⟩ := List.forall_mem_cons.1 haccepted
    have hin : ((s - origin).toNat ≤ (a.1 - origin).toNat ∧ (a.1 - origin).toNat ≤ (t - origin).toNat) ↔
        (s ≤ a.1 ∧ a.1 ≤ t) := by omega
    have ih := ih hrest
    unfold spentIn at ih ⊢
    by_cases hzero : a.2 = 0
    · have hskip : touches origin (a :: accepted) = touches origin accepted := by simp [touches, hzero]
      rw [hskip, ih, List.filter_cons]
      split
      · rw [List.map_cons, List.sum_cons, hzero, Nat.zero_add]
      · rfl
    · have hcons : touches origin (a :: accepted) = ⟨(a.1 - origin).toNat, a.2, 0⟩ :: touches origin accepted := by
        simp [touches, hzero]
      rw [hcons]
      by_cases hwindow : s ≤ a.1 ∧ a.1 ≤ t
      · obtain ⟨hs, he⟩ := hin.2 hwindow
        rw [window_cons_in _ hs he, List.map_cons, List.sum_cons, ih, List.filter_cons_of_pos (by simpa using hwindow),
          List.map_cons, List.sum_cons]
      · rw [window_cons_out _ (by simp only; omega), ih, List.filter_cons_of_neg (by simpa using hwindow)]

/-- **The window bound**: the capacity, and what refills in the window. -/
theorem acceptedIn_le (calls : List VerifyCall) (hclock : NonDecreasing calls) {s t : ℤ} (hst : s ≤ t) :
    acceptedIn rt programId n s t f calls ≤ n.maxCapacity.toNat + refill n.maxCapacity (t - s).toNat := by
  cases hclocks : calls.filterMap VerifyCall.clock with
  | nil =>
    have hempty : acceptedAll rt programId n f calls = [] := by
      refine List.eq_nil_iff_forall_not_mem.2 fun a ha => ?_
      have hmem := acceptedAll_clock ha
      rw [hclocks] at hmem
      exact absurd hmem List.not_mem_nil
    rw [acceptedIn, hempty]
    exact Nat.zero_le _
  | cons origin clocks =>
    -- the first clock is the origin of time
    have hfrom : ∀ now ∈ calls.filterMap VerifyCall.clock, origin ≤ now := by
      have hsorted := hclock
      rw [NonDecreasing, hclocks, List.pairwise_cons] at hsorted
      rw [hclocks]
      exact List.forall_mem_cons.2 ⟨le_rfl, hsorted.1⟩
    have hdominated : Dominated n f n.maxCapacity.toNat origin :=
      fun now _ => (level_le f now n.maxCapacity).trans (Nat.le_add_right _ _)
    have hmetered := run_metered rt programId le_rfl hdominated hfrom hclock
    have htimes : ∀ a ∈ acceptedAll rt programId n f calls, origin ≤ a.1 := fun a ha => hfrom a.1 (acceptedAll_clock ha)
    by_cases ht : origin ≤ t
    · have hbound := hmetered.spentIn_le (refill_add n.maxCapacity) (s - origin).toNat (t - origin).toNat
      have hgained : gainedIn (s - origin).toNat (t - origin).toNat
          (touches origin (acceptedAll rt programId n f calls)) = 0 := by
        refine List.sum_eq_zero fun x hx => ?_
        obtain ⟨touch, htouch, rfl⟩ := List.mem_map.1 hx
        obtain ⟨a, -, rfl⟩ := List.mem_map.1 (List.mem_of_mem_filter htouch)
        rfl
      rw [spentIn_touches ht _ htimes, hgained, Nat.add_zero] at hbound
      refine hbound.trans (Nat.add_le_add_left (refill_mono (refill_add n.maxCapacity) ?_) _)
      omega
    · have hempty : (acceptedAll rt programId n f calls).filter (fun a => s ≤ a.1 ∧ a.1 ≤ t) = [] := by
        refine List.filter_eq_nil_iff.2 fun a ha => ?_
        have hle := htimes a ha
        simp only [decide_eq_true_eq]
        omega
      rw [acceptedIn, hempty]
      exact Nat.zero_le _

end Window

/-! ## Parity -/

section Parity

/-- **The Solidity level** is the same when the bucket was not touched after the clock. -/
theorem level_parity {filledLevel cap : UInt64} {lastUpdated now : ℕ} (htime : lastUpdated ≤ now) (hnow : now < 2 ^ 63)
    (hcap : 86400 ∣ cap.toNat) : ∃ context level,
      RateLimit.RateLimited.context 86400 (cap.toNat / 86400) now = .ok context ∧
      calculateCurrentLevel filledLevel lastUpdated now cap = .ok level ∧
      RateLimit.calculateCurrentLevel RateLimit.RateLimited 86400 context ⟨filledLevel.toNat, lastUpdated, false, 0⟩ =
        .ok level.toNat := by
  have hcap64 : cap.toNat < 2 ^ 64 := cap.toNat_lt
  have hfilled : filledLevel.toNat < 2 ^ 64 := filledLevel.toNat_lt
  have hmul : cap.toNat / 86400 * 86400 = cap.toNat := Nat.div_mul_cancel hcap
  have hlt : cap.toNat < 2 ^ 256 := by omega
  obtain ⟨level, hlevel, hvalue⟩ := calculateCurrentLevel_ok filledLevel cap
    (show Fits ((now : ℤ) - lastUpdated) from ⟨by omega, by omega⟩)
  refine ⟨⟨now, cap.toNat, hlt⟩, level, ?_, hlevel, ?_⟩
  · rw [RateLimit.RateLimited.context, RateLimit.Context.at]
    simp only [hmul]
    rw [dif_pos hlt]
  · rw [RateLimit.calculateCurrentLevel_eq_ok, hvalue]
    have hproduct : (now - lastUpdated) * cap.toNat ≤ 2 ^ 63 * 2 ^ 64 := Nat.mul_le_mul (by omega) hcap64.le
    have hquotient : (now - lastUpdated) * cap.toNat / 86400 ≤ (now - lastUpdated) * cap.toNat := Nat.div_le_self _ _
    have helapsed : ((now : ℤ) - lastUpdated).toNat = now - lastUpdated := by omega
    constructor
    · intro _ _
      refine ⟨⟨htime, by simp only; omega⟩, ?_⟩
      unfold RateLimit.refill
      simp only
      omega
    · unfold Composite.level RateLimit.currentLevel refill RateLimit.refill
      rw [helapsed]
      rfl

end Parity

/-! ## Times that are not negative -/

section Times

variable {rt} {programId} {n} {f : Filled}

/-- a time of a chain's clock -/
def Time (x : ℤ) : Prop := 0 ≤ x ∧ x < 2 ^ 63

theorem Time.fits {x y : ℤ} (hx : Time x) (hy : Time y) : Fits (x - y) := by
  unfold Time at hx hy
  exact ⟨by omega, by omega⟩

theorem step_time (hf : Time f.lastUpdated) {c : VerifyCall} (hc : ∀ now, c.clock = some now → Time now) :
    Time (c.step rt programId n f).lastUpdated := by
  rcases step_cases rt programId n f c with ⟨hsame, -⟩ | ⟨now, -, -, hnow, -, hlast, -⟩
  · rw [hsame]
    exact hf
  · rw [hlast]
    exact hc now hnow

/-- no call of a run overflows -/
theorem run_no_overflow {calls : List VerifyCall} (hf : Time f.lastUpdated)
    (hclock : ∀ c ∈ calls, ∀ now, c.clock = some now → Time now) :
    ∀ p ∈ (filledStates rt programId n f calls).zip calls, p.2.verify rt programId n p.1 ≠ .error .Overflow := by
  induction calls generalizing f with
  | nil => simp
  | cons c calls ih =>
    obtain ⟨hc, hrest⟩ := List.forall_mem_cons.1 hclock
    intro p hp
    rw [filledStates, List.scanl_cons, List.zip_cons_cons, List.mem_cons] at hp
    rcases hp with rfl | hp
    · intro hoverflow
      obtain ⟨now, hnow, hnot⟩ := verifyRateLimited_overflow hoverflow
      exact hnot ((hc now hnow).fits hf)
    · exact ih (step_time hf hc) hrest p hp

end Times

/-- **The rate limit.** Within the capacity, a level is computed without loss, and only the difference of the times can
overflow; over every run the level stays within the capacity, a window takes at most the capacity and what refills in it,
and nothing overflows when no time is negative; and the Solidity level is the same when the clock did not go back. -/
theorem rate_limited (rt : Runtime) (programId : Pubkey) (n : RateLimitedNode) :
    (∀ f : Filled, f.filledLevel ≤ n.maxCapacity →
      (∀ now, Fits (now - f.lastUpdated) → ∃ r,
        calculateCurrentLevel f.filledLevel f.lastUpdated now n.maxCapacity = .ok r ∧
          r.toNat = level f.filledLevel f.lastUpdated now n.maxCapacity) ∧
      (∀ c : VerifyCall, c.verify rt programId n f = .error .Overflow →
        ∃ now, c.clock = some now ∧ ¬Fits (now - f.lastUpdated)) ∧
      ∀ calls, NonDecreasing calls →
        (∀ f' ∈ filledStates rt programId n f calls, f'.filledLevel ≤ n.maxCapacity) ∧
        (∀ s t : ℤ, s ≤ t → acceptedIn rt programId n s t f calls ≤
          n.maxCapacity.toNat + (t - s).toNat * n.maxCapacity.toNat / 86400) ∧
        (Time f.lastUpdated → (∀ c ∈ calls, ∀ now, c.clock = some now → Time now) →
          ∀ p ∈ (filledStates rt programId n f calls).zip calls, p.2.verify rt programId n p.1 ≠ .error .Overflow)) ∧
    ∀ (filledLevel : UInt64) (lastUpdated now : ℕ), lastUpdated ≤ now → now < 2 ^ 63 → 86400 ∣ n.maxCapacity.toNat →
      ∃ context level, RateLimit.RateLimited.context 86400 (n.maxCapacity.toNat / 86400) now = .ok context ∧
        calculateCurrentLevel filledLevel lastUpdated now n.maxCapacity = .ok level ∧
        RateLimit.calculateCurrentLevel RateLimit.RateLimited 86400 context ⟨filledLevel.toNat, lastUpdated, false, 0⟩ =
          .ok level.toNat := by
  refine ⟨fun f hf => ⟨fun now hfits => calculateCurrentLevel_ok _ _ hfits, fun c h => verifyRateLimited_overflow h,
    fun calls hclock => ⟨states_le hf calls, fun s t hst => acceptedIn_le calls hclock hst,
      fun hlast hnow => run_no_overflow hlast hnow⟩⟩, ?_⟩
  intro filledLevel lastUpdated now htime hnow hdvd
  exact level_parity htime hnow hdvd

/-- the difference of the times overflows for a state dated `i64::MIN`; and where the clock is one second behind, the level
is unchanged here, and reverts there -/
theorem level_not_total : calculateCurrentLevel 5 (-2 ^ 63) 0 86400 = .error .Overflow ∧
    calculateCurrentLevel 5 1 0 86400 = .ok 5 ∧
    RateLimit.calculateCurrentLevel RateLimit.RateLimited 86400 ⟨0, 86400, by norm_num⟩ ⟨5, 1, false, 0⟩ =
      .error "Panic(0x11)" := by
  refine ⟨?_, ?_, rfl⟩
  · decide
  · decide

end Hyperlane.Composite
