/-
What a call moves between the accounts of several ledgers.

`Moved K n δ b b'` says that every balance changes by `δ`, that the allowances given by the accounts in `K` stay as they
are, and that no balance falls by more than `n`. Pieces of a call compose by addition, and an operation can only fail for
lack of balance (`Short`), so a call that starts from accounts that are rich enough does not fail for that reason.

- `on_transfer`, `on_transferFrom`, `on_mint`, `on_burn`: the operations of a ledger.
- `Moved.trans`: sequencing.
-/
import Hyperlane.Core.Ledger

namespace Hyperlane.Tokens

open Hyperlane.Outcome

variable {A T : Type}

/-- an amount of one token for one account -/
def gets [DecidableEq A] [DecidableEq T] (t : T) (a : A) (x : ℕ) : T → A → ℤ :=
  fun t' a' => if t' = t ∧ a' = a then x else 0

section Gets

variable [DecidableEq A] [DecidableEq T] (t : T) (a : A)

@[simp]
theorem gets_zero : gets t a 0 = 0 := by
  funext t' a'
  simp [gets]

theorem gets_add (x y : ℕ) : gets t a (x + y) = gets t a x + gets t a y := by
  funext t' a'
  by_cases h : t' = t ∧ a' = a
  · simp [gets, h]
  · simp [gets, h]

theorem gets_self (x : ℕ) : gets t a x t a = x := by simp [gets]

theorem gets_nonneg (x : ℕ) (t' : T) (a' : A) : 0 ≤ gets t a x t' a' := by
  unfold gets
  split
  · exact Int.natCast_nonneg x
  · exact le_rfl

theorem gets_le (x : ℕ) (t' : T) (a' : A) : gets t a x t' a' ≤ x := by
  unfold gets
  split
  · exact le_rfl
  · exact Int.natCast_nonneg x

end Gets

/-- everybody has at least `n` of every token -/
def Rich (n : ℕ) (b : Bank T A) : Prop := ∀ t a, n ≤ (b t).balance a

theorem Rich.mono {n m : ℕ} {b : Bank T A} (h : Rich m b) (hle : n ≤ m) : Rich n b := fun t a => hle.trans (h t a)

/-- a failure for lack of balance -/
def Short (n : ℕ) (b : Bank T A) (e : Reason) : Prop := e = .balance ∧ ¬ Rich n b

structure Moved (K : Set A) (n : ℕ) (δ : T → A → ℤ) (b b' : Bank T A) : Prop where
  funds : ∀ t a, ((b' t).balance a : ℤ) = (b t).balance a + δ t a
  allowance : ∀ t, ∀ a ∈ K, ∀ s, (b' t).allowance a s = (b t).allowance a s
  rich : ∀ m, Rich (m + n) b → Rich m b'

variable {K K' : Set A} {n n' : ℕ} {δ δ' : T → A → ℤ} {b b1 b' : Bank T A}

namespace Moved

theorem refl (K : Set A) (b : Bank T A) : Moved K 0 0 b b := ⟨by simp, fun _ _ _ _ => rfl, fun _ h => h⟩

theorem trans (h : Moved K n δ b b1) (h' : Moved K n' δ' b1 b') : Moved K (n + n') (δ + δ') b b' := by
  refine ⟨fun t a => ?_, fun t a ha s => ?_, fun m hm => ?_⟩
  · rw [h'.funds, h.funds, add_assoc]
    rfl
  · rw [h'.allowance t a ha, h.allowance t a ha]
  · exact h'.rich m (h.rich (m + n') (hm.mono (by omega)))

theorem mono (h : Moved K n δ b b') (hK : K' ⊆ K) (hn : n ≤ n') (hδ : δ = δ') : Moved K' n' δ' b b' :=
  ⟨hδ ▸ h.funds, fun t a ha => h.allowance t a (hK ha), fun m hm => h.rich m (hm.mono (by omega))⟩

theorem forget (h : Moved K n δ b b') : Moved ∅ n δ b b' := h.mono (Set.empty_subset K) le_rfl rfl

theorem only (h : Moved Set.univ n δ b b') (K : Set A) : Moved K n δ b b' := h.mono (Set.subset_univ K) le_rfl rfl

/-- a balance that falls and rises by amounts that are moved -/
theorem of_funds (hfunds : ∀ t a, ((b' t).balance a : ℤ) = (b t).balance a + δ t a)
    (hallow : ∀ t, ∀ a ∈ K, ∀ s, (b' t).allowance a s = (b t).allowance a s) (hδ : ∀ t a, -(n : ℤ) ≤ δ t a) :
    Moved K n δ b b' := by
  refine ⟨hfunds, hallow, fun m hm t a => ?_⟩
  have h1 := hfunds t a
  have h2 := hδ t a
  have h3 := hm t a
  omega

end Moved

variable [DecidableEq A] [DecidableEq T]

/-! ## Operations -/

variable {t : T} {src dst spender : A} {x : ℕ}

theorem gets_sub_ge (x : ℕ) (t' : T) (a : A) : -(x : ℤ) ≤ (gets t dst x - gets t src x) t' a := by
  have h1 := gets_nonneg t dst x t' a
  have h2 := gets_le t src x t' a
  simp only [Pi.sub_apply]
  omega

omit [DecidableEq A] in
/-- an operation on one ledger that fails, or is described on it, is described on all -/
theorem on_ends {f : Ledger A → Except Reason (Ledger A)} {E : Reason → Prop}
    (hf : Ends E (fun l => (∀ a, (l.balance a : ℤ) = (b t).balance a + δ t a) ∧
      ∀ a ∈ K, ∀ s, l.allowance a s = (b t).allowance a s) (f (b t)))
    (hother : ∀ t' a, t' ≠ t → δ t' a = 0) (hδ : ∀ t a, -(n : ℤ) ≤ δ t a) : Ends E (Moved K n δ b) (b.on t f) := by
  cases hl : f (b t) with
  | ok l =>
    obtain ⟨hfunds, hallow⟩ := hf.of_ok hl
    have hon : b.on t f = .ok (Function.update b t l) := Outcome.bind_eq_ok.2 ⟨l, hl, rfl⟩
    rw [hon]
    refine .of_funds (fun t' a => ?_) (fun t' a ha s => ?_) hδ
    · by_cases ht : t' = t
      · subst ht
        rw [Function.update_self]
        exact hfunds a
      · rw [Function.update_of_ne ht, hother t' a ht, add_zero]
    · by_cases ht : t' = t
      · subst ht
        rw [Function.update_self]
        exact hallow a ha s
      · rw [Function.update_of_ne ht]
  | error e =>
    have herror : b.on t f = .error e := by rw [Bank.on, hl]; rfl
    rw [herror]
    exact hf.of_error hl

theorem gets_other {t' : T} (ht : t' ≠ t) (a a' : A) : gets t a x t' a' = 0 := by simp [gets, ht]

theorem part_eq_gets (a a' : A) : Ledger.part (a' = a) x = gets t a x t a' := by simp [Ledger.part, gets]

theorem on_transfer (K : Set A) (b : Bank T A) (t : T) (src dst : A) (x : ℕ) :
    Ends (Short x b) (Moved K x (gets t dst x - gets t src x) b) (b.on t fun l => l.transfer src dst x) := by
  refine on_ends ?_ (fun t' a ht => by simp [gets_other ht]) (gets_sub_ge x)
  by_cases hx : x ≤ (b t).balance src
  · obtain ⟨l, hl⟩ : ∃ l, (b t).transfer src dst x = .ok l := ⟨_, if_pos hx⟩
    rw [hl]
    obtain ⟨-, hallow, -, hbalance⟩ := Ledger.transfer_ok hl
    refine ⟨fun a => ?_, fun a _ s => by rw [hallow]⟩
    rw [hbalance, part_eq_gets (t := t), part_eq_gets (t := t), Pi.sub_apply, Pi.sub_apply]
    ring
  · rw [Ledger.transfer, if_neg hx]
    exact ⟨rfl, fun hrich => hx (hrich t src)⟩

theorem on_transferFrom (dst : A) (hK : src ∉ K) (hx : x ≤ (b t).allowance src spender) :
    Ends (Short x b) (Moved K x (gets t dst x - gets t src x) b) (b.on t fun l => l.transferFrom spender src dst x) := by
  refine on_ends ?_ (fun t' a ht => by simp [gets_other ht]) (gets_sub_ge x)
  have hspend : (b t).spendAllowance src spender x =
      .ok ((b t).approve src spender ((b t).allowance src spender - x)) := if_pos hx
  have hpull : (b t).transferFrom spender src dst x =
      ((b t).approve src spender ((b t).allowance src spender - x)).transfer src dst x := by
    rw [Ledger.transferFrom, hspend]
    rfl
  by_cases hbal : x ≤ (b t).balance src
  · obtain ⟨l, hl⟩ : ∃ l, (b t).transferFrom spender src dst x = .ok l := by
      rw [hpull]
      exact ⟨_, if_pos hbal⟩
    obtain ⟨-, -, hallow, hbalance⟩ := Ledger.transferFrom_ok hl
    rw [hl]
    refine ⟨fun a => ?_, fun a ha s => ?_⟩
    · rw [hbalance, part_eq_gets (t := t), part_eq_gets (t := t), Pi.sub_apply, Pi.sub_apply]
      ring
    · have hne : ¬ (a = src ∧ s = spender) := fun h => hK (h.1 ▸ ha)
      rw [hallow]
      exact if_neg hne
  · have hshort : (b t).transferFrom spender src dst x = .error .balance := hpull.trans (if_neg hbal)
    rw [hshort]
    exact ⟨rfl, fun hrich => hbal (hrich t src)⟩

/-- without enough allowance nothing can be pulled -/
theorem on_transferFrom_allowance (hx : (b t).allowance src spender < x) :
    (b.on t fun l => l.transferFrom spender src dst x) = .error .allowance := by
  have hspend : (b t).spendAllowance src spender x = .error .allowance := if_neg hx.not_ge
  rw [Bank.on, Ledger.transferFrom, hspend]
  rfl

theorem on_approve {K : Set A} (b : Bank T A) (t : T) (owner spender : A) (x : ℕ) (hK : owner ∉ K) :
    ∃ b', (b.on t fun l => .ok (l.approve owner spender x)) = .ok b' ∧ Moved K 0 0 b b' ∧
      (b' t).allowance owner spender = x := by
  have hends : Ends (fun _ => False) (Moved K 0 0 b) (b.on t fun l => .ok (l.approve owner spender x)) := by
    refine on_ends ⟨fun a => (add_zero _).symm, fun a ha s => ?_⟩ (fun _ _ _ => rfl) fun _ _ => le_rfl
    have hne : ¬ (a = owner ∧ s = spender) := fun h => hK (h.1 ▸ ha)
    exact if_neg hne
  refine ⟨_, rfl, hends, ?_⟩
  rw [Function.update_self]
  exact if_pos ⟨rfl, rfl⟩

theorem on_burn (K : Set A) (b : Bank T A) (t : T) (src : A) (x : ℕ) :
    Ends (fun e => e = .balance ∨ e = .overflow) (Moved K x (-gets t src x) b) (b.on t fun l => l.burn src x) := by
  refine on_ends ?_ (fun t' a ht => by simp [gets_other ht]) fun t' a => neg_le_neg (gets_le t src x t' a)
  cases hl : (b t).burn src x with
  | ok l =>
    obtain ⟨-, hallow, -, hbalance⟩ := Ledger.burn_ok hl
    refine ⟨fun a => ?_, fun a _ s => by rw [hallow]⟩
    rw [hbalance, part_eq_gets (t := t)]
    rfl
  | error e =>
    unfold Ledger.burn checkedSub at hl
    split at hl
    · split at hl
      · exact nomatch hl
      · exact Or.inr (Except.error.inj hl).symm
    · exact Or.inl (Except.error.inj hl).symm

theorem on_mint (K : Set A) (b : Bank T A) (t : T) (dst : A) (x : ℕ) :
    Ends (fun e => e = .overflow) (Moved K 0 (gets t dst x) b) (b.on t fun l => l.mint dst x) := by
  refine on_ends ?_ (fun t' a ht => gets_other ht dst a) fun t' a => (by simpa using gets_nonneg t dst x t' a)
  cases hl : (b t).mint dst x with
  | ok l =>
    obtain ⟨hallow, -, hbalance⟩ := Ledger.mint_ok hl
    refine ⟨fun a => ?_, fun a _ s => by rw [hallow]⟩
    rw [hbalance, part_eq_gets (t := t)]
  | error e =>
    unfold Ledger.mint at hl
    split at hl
    · exact nomatch hl
    · exact (Except.error.inj hl).symm

end Hyperlane.Tokens
