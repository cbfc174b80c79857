/-
What the routes of `WeightedStrategy` and `MinAmountStrategy` do to the balances that the strategy expects, before any of
them is filtered out (typescript/rebalancer/src/strategy).

A chain with a surplus keeps its floor, its target or its minimum; a chain with a deficit is filled up to its target at most.
A total below zero makes the tolerance of `WeightedStrategy`, and the targets of `MinAmountStrategy`, work the other way:
deficits may then be negative, and in the loop such a deficit adds to the surplus it is matched with.

- `turns_end`: the loop ends, whatever the amounts are.
- `matchLoop_rule`: the induction over the loop.
- `positive_total_scaled`: what scaling down the deficits loses.
- `matching_exact`: what the routes do to the balances.
-/
import Hyperlane.Rebalancer.Commitments

namespace Hyperlane.Rebalancer

open Share

namespace Strategy

/-! ## The model -/

/-- one turn of the `while` loop: what it pushes, and the lists that it leaves; `none` when the loop is over -/
def turn : List Delta × List Delta → Option (List (Leg ℕ ℕ) × (List Delta × List Delta))
  | (surplus :: surpluses, deficit :: deficits) =>
    let transferAmount := if surplus.amount > deficit.amount then deficit.amount else surplus.amount
    let deficitLeft := deficit.amount - transferAmount
    let surplusLeft := surplus.amount - transferAmount
    some (if 0 < transferAmount then [⟨surplus.owner, deficit.owner, transferAmount⟩] else [],
      if surplusLeft ≤ 0 then surpluses else ⟨surplus.owner, surplusLeft⟩ :: surpluses,
      if deficitLeft ≤ 0 then deficits else ⟨deficit.owner, deficitLeft⟩ :: deficits)
  | _ => none

/-- the lists after some turns; `none` where the loop is over before -/
def turns : ℕ → List Delta × List Delta → Option (List Delta × List Delta)
  | 0, lists => some lists
  | n + 1, lists => (turn lists).bind fun next => turns n next.2

/-- `getRebalancingRoutes`, up to `filterRoutes` -/
def generatedRoutes (s : Strategy) (rawBalances : RawBalances) (ctx : InflightContext) :
    Except StrategyError (List StrategyRoute) := do
  s.validateRawBalances rawBalances
  let (surpluses, deficits) ← s.sortedDeltas rawBalances ctx
  s.createRoutes (matchLoop (surpluses.length + deficits.length) surpluses deficits)

/-- the balances that the strategy expects -/
def simulatedBalances (rawBalances : RawBalances) (ctx : InflightContext) : ℕ → ℤ :=
  simulateRebalances (reserveCollateral rawBalances.balance ctx.pendingTransfers) ctx.pendingRebalances
    ctx.proposedRebalances

/-- the part of a chain in the total -/
def weightedTarget (s : Strategy) (config : ℕ → WeightedConfig) (simulatedBalances : ℕ → ℤ) (chain : ℕ) : ℤ :=
  ((s.chains.map simulatedBalances).sum * (config chain).weight).tdiv (s.chains.map fun c => (config c).weight).sum

/-- what a chain keeps, and what it is filled up to -/
def floorAndTarget (s : Strategy) (simulatedBalances : ℕ → ℤ) (chain : ℕ) : Except StrategyError (ℤ × ℤ) :=
  match s.rule with
  | .weighted config =>
    .ok (s.weightedTarget config simulatedBalances chain, s.weightedTarget config simulatedBalances chain)
  | .minAmount config => s.minAndTarget (config chain) (s.chains.map simulatedBalances).sum chain
  | .collateralDeficit buffer => do
    let token ← s.getTokenByChainName chain
    let bufferWei ← normalizeConfiguredAmount (buffer chain) token
    return (0, bufferWei)

/-! ## The loop -/

theorem matchLoop_turn (n : ℕ) (surpluses deficits : List Delta) :
    matchLoop (n + 1) surpluses deficits =
      match turn (surpluses, deficits) with
      | none => []
      | some (legs, next) => legs ++ matchLoop n next.1 next.2 := by
  cases surpluses with
  | nil => rfl
  | cons s ss =>
    cases deficits with
    | nil => rfl
    | cons d ds => rfl

/-- each turn takes a surplus or a deficit off its list, and adds none -/
theorem turn_shorter {lists : List Delta × List Delta} {legs : List (Leg ℕ ℕ)} {next : List Delta × List Delta}
    (h : turn lists = some (legs, next)) : next.1.length + next.2.length < lists.1.length + lists.2.length := by
  obtain ⟨_ | ⟨s, ss⟩, _ | ⟨d, ds⟩⟩ := lists
  · exact nomatch h
  · exact nomatch h
  · exact nomatch h
  · obtain ⟨-, rfl⟩ := Prod.mk.inj (Option.some.inj h)
    simp only [List.length_cons]
    by_cases hlt : s.amount > d.amount
    · rw [if_pos hlt, if_neg (by omega), if_pos (by omega)]
      simp only [List.length_cons]
      omega
    · rw [if_neg hlt, if_pos (by omega)]
      split
      · omega
      · simp only [List.length_cons]
        omega

/-- **The loop ends**, whatever the amounts are -/
theorem turns_end {n : ℕ} {lists : List Delta × List Delta} (h : lists.1.length + lists.2.length < n) :
    turns n lists = none := by
  induction n generalizing lists with
  | zero => exact absurd h (Nat.not_lt_zero _)
  | succ n ih =>
    rw [turns]
    cases hturn : turn lists with
    | none => rfl
    | some next => exact ih (by have := turn_shorter hturn; omega)

theorem turn_eq_none {lists : List Delta × List Delta} (h : lists.1.length + lists.2.length = 0) : turn lists = none := by
  obtain ⟨_ | ⟨s, ss⟩, _ | ⟨d, ds⟩⟩ := lists
  · rfl
  · rfl
  · rfl
  · simp only [List.length_cons] at h
    omega

/-- turns beyond the end push nothing -/
theorem matchLoop_fuel {n m : ℕ} {surpluses deficits : List Delta} (hn : surpluses.length + deficits.length ≤ n)
    (hm : surpluses.length + deficits.length ≤ m) : matchLoop n surpluses deficits = matchLoop m surpluses deficits := by
  induction n generalizing m surpluses deficits with
  | zero =>
    cases m with
    | zero => rfl
    | succ m =>
      rw [matchLoop_turn, turn_eq_none (by dsimp only; omega)]
      rfl
  | succ n ih =>
    cases m with
    | zero =>
      rw [matchLoop_turn, turn_eq_none (by dsimp only; omega)]
      rfl
    | succ m =>
      rw [matchLoop_turn, matchLoop_turn]
      split
      · rfl
      next legs next hturn =>
        have hshorter := turn_shorter hturn
        dsimp only at hshorter
        exact congrArg _ (ih (by omega) (by omega))

/-- the induction over the loop, one case for each way in which a positive surplus meets a deficit -/
theorem matchLoop_rule {P : List Delta → List Delta → List (Leg ℕ ℕ) → Prop}
    (ends : ∀ ss ds, ss = [] ∨ ds = [] → P ss ds [])
    (passes : ∀ s ss d ds legs, 0 < s.amount → d.amount ≤ 0 →
      P (⟨s.owner, s.amount - d.amount⟩ :: ss) ds legs → P (s :: ss) (d :: ds) legs)
    (fills : ∀ s ss d ds legs, 0 < d.amount → d.amount < s.amount →
      P (⟨s.owner, s.amount - d.amount⟩ :: ss) ds legs → P (s :: ss) (d :: ds) (⟨s.owner, d.owner, d.amount⟩ :: legs))
    (meets : ∀ s ss d ds legs, 0 < s.amount → s.amount = d.amount →
      P ss ds legs → P (s :: ss) (d :: ds) (⟨s.owner, d.owner, s.amount⟩ :: legs))
    (drains : ∀ s ss d ds legs, 0 < s.amount → s.amount < d.amount →
      P ss (⟨d.owner, d.amount - s.amount⟩ :: ds) legs → P (s :: ss) (d :: ds) (⟨s.owner, d.owner, s.amount⟩ :: legs))
    {n : ℕ} {ss ds : List Delta} (hss : AllPositive ss) (hn : ss.length + ds.length ≤ n) : P ss ds (matchLoop n ss ds) := by
  induction n generalizing ss ds with
  | zero => exact ends ss ds (Or.inl (List.length_eq_zero_iff.1 (by omega)))
  | succ n ih =>
    rcases ss with _ | ⟨s, ss⟩
    · exact ends [] ds (Or.inl rfl)
    rcases ds with _ | ⟨d, ds⟩
    · exact ends (s :: ss) [] (Or.inr rfl)
    simp only [List.length_cons] at hn
    have hs := hss.head
    rw [matchLoop]
    by_cases hlt : d.amount < s.amount
    · have hleft : AllPositive (⟨s.owner, s.amount - d.amount⟩ :: ss) :=
        List.forall_mem_cons.2 ⟨sub_pos.2 hlt, hss.tail⟩
      have hrest := @ih (⟨s.owner, s.amount - d.amount⟩ :: ss) ds hleft (by simp only [List.length_cons]; omega)
      rw [if_pos hlt, if_neg (by omega : ¬ s.amount - d.amount ≤ 0), if_pos (by omega : d.amount - d.amount ≤ 0)]
      by_cases hd : 0 < d.amount
      · rw [if_pos hd]
        exact fills s ss d ds _ hd hlt hrest
      · rw [if_neg hd]
        exact passes s ss d ds _ hs (not_lt.1 hd) hrest
    · rw [if_neg hlt, if_pos hs, if_pos (by omega : s.amount - s.amount ≤ 0)]
      by_cases heq : s.amount = d.amount
      · rw [if_pos (by omega : d.amount - s.amount ≤ 0)]
        exact meets s ss d ds _ hs heq (ih hss.tail (by omega))
      · rw [if_neg (by omega : ¬ d.amount - s.amount ≤ 0)]
        exact drains s ss d ds _ hs (by omega) (ih hss.tail (by simp only [List.length_cons]; omega))

/-- the amounts that belong to an owner -/
def held (owner : ℕ) (deltas : List Delta) : ℤ := totalOf (deltas.filter fun d => d.owner = owner)

@[simp]
theorem totalOf_nil : totalOf [] = 0 := rfl

@[simp]
theorem totalOf_cons (d : Delta) (ds : List Delta) : totalOf (d :: ds) = d.amount + totalOf ds := by
  rw [totalOf, List.map_cons, List.sum_cons, totalOf]

theorem held_cons (owner : ℕ) (d : Delta) (ds : List Delta) :
    held owner (d :: ds) = (if d.owner = owner then d.amount else 0) + held owner ds := by
  rw [held, List.filter_cons]
  by_cases h : d.owner = owner
  · rw [if_pos (decide_eq_true h), if_pos h, totalOf_cons, held]
  · rw [if_neg (by simpa using h), if_neg h, zero_add, held]

theorem positive_of_pos {d : Delta} {ds : List Delta} (h : 0 < d.amount) : positive (d :: ds) = d :: positive ds :=
  positive_cons h

theorem positive_of_not_pos {d : Delta} {ds : List Delta} (h : d.amount ≤ 0) : positive (d :: ds) = positive ds :=
  List.filter_cons_of_neg (by simpa using h)

section Loop

variable {n : ℕ} {ss ds : List Delta}

/-- a leg goes from a surplus to a positive deficit -/
theorem of_mem_matchLoop (hss : AllPositive ss) (hn : ss.length + ds.length ≤ n) : ∀ leg ∈ matchLoop n ss ds,
    0 < leg.amount ∧ leg.source ∈ ss.map Share.owner ∧ leg.sink ∈ (positive ds).map Share.owner := by
  refine matchLoop_rule (P := fun ss ds legs => ∀ leg ∈ legs,
    0 < leg.amount ∧ leg.source ∈ ss.map Share.owner ∧ leg.sink ∈ (positive ds).map Share.owner) ?_ ?_ ?_ ?_ ?_ hss hn
  · exact fun _ _ _ leg hleg => absurd hleg List.not_mem_nil
  · intro s ss d ds legs hs hd ih
    rw [positive_of_not_pos hd]
    exact ih
  · intro s ss d ds legs hd hlt ih
    rw [positive_of_pos hd]
    refine List.forall_mem_cons.2 ⟨⟨hd, List.mem_cons_self, List.mem_cons_self⟩, fun leg hleg => ?_⟩
    obtain ⟨hpos, hsource, hsink⟩ := ih leg hleg
    exact ⟨hpos, hsource, List.mem_cons_of_mem _ hsink⟩
  · intro s ss d ds legs hs heq ih
    rw [positive_of_pos (heq ▸ hs)]
    refine List.forall_mem_cons.2 ⟨⟨hs, List.mem_cons_self, List.mem_cons_self⟩, fun leg hleg => ?_⟩
    obtain ⟨hpos, hsource, hsink⟩ := ih leg hleg
    exact ⟨hpos, List.mem_cons_of_mem _ hsource, List.mem_cons_of_mem _ hsink⟩
  · intro s ss d ds legs hs hlt ih
    rw [positive_of_pos (sub_pos.2 hlt)] at ih
    rw [positive_of_pos (hs.trans hlt)]
    refine List.forall_mem_cons.2 ⟨⟨hs, List.mem_cons_self, List.mem_cons_self⟩, fun leg hleg => ?_⟩
    obtain ⟨hpos, hsource, hsink⟩ := ih leg hleg
    exact ⟨hpos, List.mem_cons_of_mem _ hsource, hsink⟩

/-- what goes to a deficit is at most what it wants -/
theorem sum_sink_le (hss : AllPositive ss) (hn : ss.length + ds.length ≤ n) (chain : ℕ) :
    (((matchLoop n ss ds).filter fun leg => leg.sink = chain).map Leg.amount).sum ≤ held chain (positive ds) := by
  simp only [sum_map_filter]
  refine matchLoop_rule (P := fun ss ds legs =>
    (legs.map fun leg => if leg.sink = chain then leg.amount else 0).sum ≤ held chain (positive ds)) ?_ ?_ ?_ ?_ ?_ hss hn
  · intro ss ds _
    refine List.sum_nonneg fun x hx => ?_
    obtain ⟨d, hd, rfl⟩ := List.mem_map.1 hx
    exact (positive_allPositive ds d (List.mem_filter.1 hd).1).le
  · intro s ss d ds legs hs hd ih
    rw [positive_of_not_pos hd]
    exact ih
  · intro s ss d ds legs hd hlt ih
    rw [positive_of_pos hd, held_cons, List.map_cons, List.sum_cons]
    exact Int.add_le_add_left ih _
  · intro s ss d ds legs hs heq ih
    rw [positive_of_pos (heq ▸ hs), held_cons, List.map_cons, List.sum_cons, heq]
    exact Int.add_le_add_left ih _
  · intro s ss d ds legs hs hlt ih
    rw [positive_of_pos (sub_pos.2 hlt), held_cons] at ih
    rw [positive_of_pos (hs.trans hlt), held_cons, List.map_cons, List.sum_cons]
    dsimp only at ih ⊢
    split at ih <;> omega

/-- nothing is left over on both sides -/
theorem le_sum_matchLoop (hss : AllPositive ss) (hn : ss.length + ds.length ≤ n) :
    min (totalOf ss) (totalOf (positive ds)) ≤ ((matchLoop n ss ds).map Leg.amount).sum := by
  refine matchLoop_rule (P := fun ss ds legs =>
    min (totalOf ss) (totalOf (positive ds)) ≤ (legs.map Leg.amount).sum) ?_ ?_ ?_ ?_ ?_ hss hn
  · rintro ss ds (rfl | rfl)
    · exact min_le_left _ _
    · exact min_le_right _ _
  · intro s ss d ds legs hs hd ih
    rw [positive_of_not_pos hd]
    simp only [totalOf_cons] at ih ⊢
    omega
  · intro s ss d ds legs hd hlt ih
    rw [positive_of_pos hd]
    simp only [totalOf_cons, List.map_cons, List.sum_cons] at ih ⊢
    omega
  · intro s ss d ds legs hs heq ih
    rw [positive_of_pos (heq ▸ hs)]
    simp only [totalOf_cons, List.map_cons, List.sum_cons] at ih ⊢
    omega
  · intro s ss d ds legs hs hlt ih
    rw [positive_of_pos (sub_pos.2 hlt)] at ih
    rw [positive_of_pos (hs.trans hlt)]
    simp only [totalOf_cons, List.map_cons, List.sum_cons] at ih ⊢
    omega

/-- what comes from a surplus is at most the surplus: a deficit that adds to it comes after all that take from it -/
theorem sum_source_le (hss : AllPositive ss) (hds : PositiveFirst ds) (hn : ss.length + ds.length ≤ n) (chain : ℕ) :
    (((matchLoop n ss ds).filter fun leg => leg.source = chain).map Leg.amount).sum ≤ held chain ss := by
  rw [matchLoop_eq n 0 hss hds hn]
  exact sum_layout_le (positive_allPositive ds) hss

end Loop

/-! ## Deficits -/

theorem totalOf_perm {l l' : List Delta} (h : l.Perm l') : totalOf l = totalOf l' := (h.map Share.amount).sum_eq

theorem positive_perm {l l' : List Delta} (h : l.Perm l') : (positive l).Perm (positive l') := h.filter _

theorem totalOf_nonneg {l : List Delta} (h : AllPositive l) : 0 ≤ totalOf l := by
  refine List.sum_nonneg fun x hx => ?_
  obtain ⟨d, hd, rfl⟩ := List.mem_map.1 hx
  exact (h d hd).le

/-- dropping what is not positive loses nothing -/
theorem totalOf_le_positive (ds : List Delta) : totalOf ds ≤ totalOf (positive ds) := by
  induction ds with
  | nil => exact le_rfl
  | cons d ds ih =>
    by_cases hd : 0 < d.amount
    · rw [positive_of_pos hd, totalOf_cons, totalOf_cons]
      exact Int.add_le_add_left ih _
    · rw [positive_of_not_pos (not_lt.1 hd), totalOf_cons]
      omega

/-- a deficit that is scaled down -/
def scaled (part whole : ℤ) (d : Delta) : Delta := ⟨d.owner, (d.amount * part).tdiv whole⟩

theorem scaleDeficits_of_lt {ss ds : List Delta} (h : totalOf ss < totalOf ds) :
    scaleDeficits ss ds = ds.map (scaled (totalOf ss) (totalOf ds)) := if_pos h

theorem scaleDeficits_of_le {ss ds : List Delta} (h : totalOf ds ≤ totalOf ss) : scaleDeficits ss ds = ds :=
  if_neg (not_lt.2 h)

/-- scaling a positive deficit rounds it down, by less than one -/
theorem scaled_bounds {part whole : ℤ} (hpart : 0 ≤ part) (hwhole : part < whole) {d : Delta} (hd : 0 < d.amount) :
    (scaled part whole d).amount ≤ d.amount ∧
      d.amount * part - (whole - 1) ≤ whole * (scaled part whole d).amount := by
  have hpos : 0 < whole := hpart.trans_lt hwhole
  have hprod : 0 ≤ d.amount * part := mul_nonneg hd.le hpart
  have hquot : (scaled part whole d).amount = d.amount * part / whole := Int.tdiv_eq_ediv_of_nonneg hprod
  have hlt := Int.lt_ediv_add_one_mul_self (d.amount * part) hpos
  rw [hquot]
  constructor
  · calc d.amount * part / whole ≤ d.amount * whole / whole :=
          Int.ediv_le_ediv hpos (mul_le_mul_of_nonneg_left hwhole.le hd.le)
      _ = d.amount := Int.mul_ediv_cancel _ hpos.ne'
  · rw [add_mul, one_mul, mul_comm (d.amount * part / whole)] at hlt
    omega

theorem scaled_nonpos {part whole : ℤ} (hpart : 0 ≤ part) (hwhole : part < whole) {d : Delta} (hd : d.amount ≤ 0) :
    (scaled part whole d).amount ≤ 0 := by
  have hprod : d.amount * part ≤ 0 := mul_nonpos_of_nonpos_of_nonneg hd hpart
  have hneg : 0 ≤ (-(d.amount * part)).tdiv whole := Int.tdiv_nonneg (neg_nonneg.2 hprod) (hpart.trans hwhole.le)
  rw [Int.neg_tdiv] at hneg
  exact neg_nonneg.1 hneg

/-- the positive deficits after scaling, against the share of the surpluses that each deficit has -/
theorem sum_scaled {part whole : ℤ} (hpart : 0 ≤ part) (hwhole : part < whole) (ds : List Delta) :
    totalOf ds * part - ds.length * (whole - 1) ≤ whole * totalOf (positive (ds.map (scaled part whole))) := by
  induction ds with
  | nil => simp [positive]
  | cons d ds ih =>
    rw [List.map_cons, totalOf_cons, List.length_cons, Nat.cast_succ]
    by_cases hd : 0 < (scaled part whole d).amount
    · have hpos : 0 < d.amount := by
        by_contra hle
        exact absurd hd (not_lt.2 (scaled_nonpos hpart hwhole (not_lt.1 hle)))
      have hbound := (scaled_bounds hpart hwhole hpos).2
      rw [positive_of_pos hd, totalOf_cons]
      linarith
    · -- a deficit that is scaled to nothing was worth less than the whole
      have hbound : d.amount * part ≤ whole - 1 := by
        by_cases hpos : 0 < d.amount
        · have hbound := (scaled_bounds hpart hwhole hpos).2
          have hzero : whole * (scaled part whole d).amount ≤ 0 :=
            mul_nonpos_of_nonneg_of_nonpos (hpart.trans hwhole.le) (not_lt.1 hd)
          linarith
        · have := mul_nonpos_of_nonpos_of_nonneg (not_lt.1 hpos) hpart
          omega
      rw [positive_of_not_pos (not_lt.1 hd)]
      linarith

/-- scaling loses less than one for each deficit -/
theorem positive_total_scaled {ss : List Delta} (hss : AllPositive ss) (ds : List Delta) :
    min (totalOf ss) (totalOf ds) - ds.length ≤ min (totalOf ss) (totalOf (positive (scaleDeficits ss ds))) := by
  have hpart := totalOf_nonneg hss
  rcases lt_or_ge (totalOf ss) (totalOf ds) with hlt | hle
  · have hsum := sum_scaled hpart hlt ds
    have hwhole : 0 < totalOf ds := hpart.trans_lt hlt
    have hscaled : totalOf ss - ds.length ≤ totalOf (positive (ds.map (scaled (totalOf ss) (totalOf ds)))) := by
      refine le_of_mul_le_mul_left ?_ hwhole
      calc totalOf ds * (totalOf ss - ds.length) ≤ totalOf ds * totalOf ss - ds.length * (totalOf ds - 1) := by
            have : (0 : ℤ) ≤ ds.length := Int.natCast_nonneg _
            linarith
        _ ≤ _ := hsum
    rw [scaleDeficits_of_lt hlt, min_eq_left hlt.le]
    exact le_min (sub_le_self _ (Int.natCast_nonneg _)) hscaled
  · rw [scaleDeficits_of_le hle, min_eq_right hle]
    exact (sub_le_self _ (Int.natCast_nonneg _)).trans (le_min hle (totalOf_le_positive ds))

/-- what a deficit is scaled to, if that is positive, is at most the deficit -/
theorem of_mem_scaleDeficits {ss ds : List Delta} (hss : AllPositive ss) {x : Delta} (hx : x ∈ scaleDeficits ss ds)
    (hpos : 0 < x.amount) : ∃ d ∈ ds, d.owner = x.owner ∧ x.amount ≤ d.amount := by
  rcases lt_or_ge (totalOf ss) (totalOf ds) with hlt | hle
  · rw [scaleDeficits_of_lt hlt] at hx
    obtain ⟨d, hd, rfl⟩ := List.mem_map.1 hx
    have hdpos : 0 < d.amount := by
      by_contra hnot
      exact absurd hpos (not_lt.2 (scaled_nonpos (totalOf_nonneg hss) hlt (not_lt.1 hnot)))
    exact ⟨d, hd, rfl, (scaled_bounds (totalOf_nonneg hss) hlt hdpos).1⟩
  · rw [scaleDeficits_of_le hle] at hx
    exact ⟨x, hx, rfl, le_rfl⟩

theorem scaleDeficits_owners (ss ds : List Delta) : (scaleDeficits ss ds).map Share.owner = ds.map Share.owner := by
  rw [scaleDeficits]
  split
  · rw [List.map_map]
    rfl
  · rfl

/-- an owner with one amount holds that amount -/
theorem held_le {l : List Delta} (hnodup : (l.map Share.owner).Nodup) {chain : ℕ} {bound : ℤ} (hbound : 0 ≤ bound)
    (h : ∀ x ∈ l, x.owner = chain → x.amount ≤ bound) : held chain l ≤ bound := by
  induction l with
  | nil => exact hbound
  | cons x l ih =>
    rw [List.map_cons, List.nodup_cons] at hnodup
    rw [held_cons]
    by_cases hx : x.owner = chain
    · have hnone : held chain l = 0 := by
        rw [held, List.filter_eq_nil_iff.2]
        · rfl
        · intro y hy howner
          exact hnodup.1 (List.mem_map.2 ⟨y, hy, (of_decide_eq_true howner).trans hx.symm⟩)
      rw [if_pos hx, hnone, add_zero]
      exact h x List.mem_cons_self hx
    · rw [if_neg hx, zero_add]
      exact ih hnodup.2 fun y hy => h y (List.mem_cons_of_mem x hy)

/-! ## Surpluses and deficits -/

/-- what the strategy has found of a chain -/
def found (standing : ℕ → Except StrategyError Standing) (c : ℕ) : Standing := (standing c).toOption.getD .onTarget

theorem found_eq {standing : ℕ → Except StrategyError Standing} {c : ℕ} {here : Standing} (h : standing c = .ok here) :
    found standing c = here := by
  rw [found, h]
  rfl

theorem categorize_eq {standing : ℕ → Except StrategyError Standing} {chains : List ℕ} {ss ds : List Delta}
    (h : categorize standing chains = .ok (ss, ds)) : (∀ c ∈ chains, standing c = .ok (found standing c)) ∧
      ss = chains.filterMap (fun c => surplusOf (c, found standing c)) ∧
      ds = chains.filterMap fun c => deficitOf (c, found standing c) := by
  induction chains generalizing ss ds with
  | nil =>
    cases h
    exact ⟨fun _ hc => absurd hc List.not_mem_nil, rfl, rfl⟩
  | cons c chains ih =>
    obtain ⟨here, hhere, h⟩ := Outcome.bind_eq_ok.1 h
    obtain ⟨⟨surpluses, deficits⟩, hrest, h⟩ := Outcome.bind_eq_ok.1 h
    cases h
    obtain ⟨hall, hss, hds⟩ := ih hrest
    have hfound := found_eq hhere
    refine ⟨List.forall_mem_cons.2 ⟨hhere.trans (congrArg _ hfound.symm), hall⟩, ?_, ?_⟩
    · rw [List.filterMap_cons, hfound, ← hss]
      cases surplusOf (c, here) <;> rfl
    · rw [List.filterMap_cons, hfound, ← hds]
      cases deficitOf (c, here) <;> rfl

theorem surplusOf_eq_some {c : ℕ} {standing : Standing} {x : Delta} (h : surplusOf (c, standing) = some x) :
    x.owner = c ∧ standing = .surplus x.amount := by
  cases standing with
  | surplus amount => cases h; exact ⟨rfl, rfl⟩
  | deficit amount => exact nomatch h
  | onTarget => exact nomatch h

theorem deficitOf_eq_some {c : ℕ} {standing : Standing} {x : Delta} (h : deficitOf (c, standing) = some x) :
    x.owner = c ∧ standing = .deficit x.amount := by
  cases standing with
  | deficit amount => cases h; exact ⟨rfl, rfl⟩
  | surplus amount => exact nomatch h
  | onTarget => exact nomatch h

/-- a list with at most one entry for each chain -/
theorem owners_sublist {f : ℕ → Option Delta} (h : ∀ c x, f c = some x → x.owner = c) (chains : List ℕ) :
    ((chains.filterMap f).map Share.owner).Sublist chains := by
  induction chains with
  | nil => exact List.Sublist.refl _
  | cons c chains ih =>
    rw [List.filterMap_cons]
    cases hc : f c with
    | none => exact ih.cons c
    | some x =>
      rw [List.map_cons, h c x hc]
      exact ih.cons_cons c

/-- the surpluses over the floors and the deficits below the targets of some chains, each chain at most once -/
structure Categorized (chains : List ℕ) (b : ℕ → ℤ) (bounds : ℕ → Except StrategyError (ℤ × ℤ)) (ss ds : List Delta) :
    Prop where
  surplus : ∀ x ∈ ss, x.owner ∈ chains ∧ ∃ floor target, bounds x.owner = .ok (floor, target) ∧
    x.amount = b x.owner - floor
  deficit : ∀ x ∈ ds, x.owner ∈ chains ∧ ∃ floor target, bounds x.owner = .ok (floor, target) ∧
    x.amount = target - b x.owner
  surplus_nodup : (ss.map Share.owner).Nodup
  deficit_nodup : (ds.map Share.owner).Nodup
  apart : ∀ x ∈ ss, ∀ y ∈ ds, x.owner ≠ y.owner

/-- how a standing compares a balance with its floor and its target -/
def Measures (balance floor target : ℤ) : Standing → Prop
  | .surplus amount => amount = balance - floor
  | .deficit amount => amount = target - balance
  | .onTarget => True

theorem categorize_categorized {standing : ℕ → Except StrategyError Standing} {chains : List ℕ} {b : ℕ → ℤ}
    {bounds : ℕ → Except StrategyError (ℤ × ℤ)} {ss ds : List Delta} (hnodup : chains.Nodup)
    (hstanding : ∀ c here, standing c = .ok here → ∃ floor target, bounds c = .ok (floor, target) ∧
      Measures (b c) floor target here)
    (h : categorize standing chains = .ok (ss, ds)) : Categorized chains b bounds ss ds := by
  obtain ⟨hfound, rfl, rfl⟩ := categorize_eq h
  have hsurplus : ∀ x ∈ chains.filterMap (fun c => surplusOf (c, found standing c)),
      x.owner ∈ chains ∧ found standing x.owner = .surplus x.amount := by
    intro x hx
    obtain ⟨c, hc, hsome⟩ := List.mem_filterMap.1 hx
    obtain ⟨rfl, heq⟩ := surplusOf_eq_some hsome
    exact ⟨hc, heq⟩
  have hdeficit : ∀ x ∈ chains.filterMap (fun c => deficitOf (c, found standing c)),
      x.owner ∈ chains ∧ found standing x.owner = .deficit x.amount := by
    intro x hx
    obtain ⟨c, hc, hsome⟩ := List.mem_filterMap.1 hx
    obtain ⟨rfl, heq⟩ := deficitOf_eq_some hsome
    exact ⟨hc, heq⟩
  refine ⟨fun x hx => ?_, fun x hx => ?_, ?_, ?_, fun x hx y hy heq => ?_⟩
  · obtain ⟨hc, heq⟩ := hsurplus x hx
    obtain ⟨floor, target, hbounds, hmeasures⟩ := hstanding _ _ (hfound _ hc)
    rw [heq] at hmeasures
    exact ⟨hc, floor, target, hbounds, hmeasures⟩
  · obtain ⟨hc, heq⟩ := hdeficit x hx
    obtain ⟨floor, target, hbounds, hmeasures⟩ := hstanding _ _ (hfound _ hc)
    rw [heq] at hmeasures
    exact ⟨hc, floor, target, hbounds, hmeasures⟩
  · exact (owners_sublist (fun c x hx => (surplusOf_eq_some hx).1) chains).nodup hnodup
  · exact (owners_sublist (fun c x hx => (deficitOf_eq_some hx).1) chains).nodup hnodup
  · have hboth := (hsurplus x hx).2.symm.trans ((congrArg (found standing) heq).trans (hdeficit y hy).2)
    exact nomatch hboth

/-- `WeightedStrategy` and `MinAmountStrategy` measure against the floor and the target of a chain -/
theorem weightedStanding_measures (s : Strategy) (config : ℕ → WeightedConfig) (b : ℕ → ℤ) (c : ℕ) :
    Measures (b c) (s.weightedTarget config b c) (s.weightedTarget config b c) (s.weightedStanding config b c) := by
  rw [weightedStanding]
  split
  · exact rfl
  · split
    · exact rfl
    · trivial

theorem minAmountStanding_measures {s : Strategy} {config : ℕ → MinAmountConfig} {b : ℕ → ℤ} {c : ℕ} {here : Standing}
    (h : s.minAmountStanding config b c = .ok here) : ∃ floor target,
      s.minAndTarget (config c) (s.chains.map b).sum c = .ok (floor, target) ∧ Measures (b c) floor target here := by
  obtain ⟨⟨floor, target⟩, hbounds, h⟩ := Outcome.bind_eq_ok.1 h
  refine ⟨floor, target, hbounds, ?_⟩
  dsimp only at h
  split at h
  · cases h
    exact rfl
  · split at h
    · cases h
      exact rfl
    · cases h
      trivial

variable {s : Strategy} {rawBalances : RawBalances} {ctx : InflightContext}

/-- the rules of the two strategies -/
def Balances (s : Strategy) : Prop := ∀ buffer, s.rule ≠ .collateralDeficit buffer

theorem getCategorizedBalances_categorized (hs : s.Balances) {balances : ℕ → ℤ} {pending : List PendingRebalance}
    {proposed : List StrategyRoute} {ss ds : List Delta}
    (h : s.getCategorizedBalances balances pending proposed = .ok (ss, ds)) :
    Categorized s.chains (simulateRebalances balances pending proposed)
      (s.floorAndTarget (simulateRebalances balances pending proposed)) ss ds := by
  unfold getCategorizedBalances at h
  split at h
  next config hrule =>
    refine categorize_categorized s.nodup (fun c here hc => ?_) h
    refine ⟨_, _, by rw [floorAndTarget, hrule], ?_⟩
    rw [← Except.ok.inj hc]
    exact weightedStanding_measures s config _ c
  next config hrule =>
    refine categorize_categorized s.nodup (fun c here hc => ?_) h
    obtain ⟨floor, target, hbounds, hmeasures⟩ := minAmountStanding_measures hc
    exact ⟨floor, target, by rw [floorAndTarget, hrule]; exact hbounds, hmeasures⟩
  next buffer hrule => exact absurd hrule (hs buffer)

theorem sortedDeltas_eq (hs : s.Balances) {ss ds : List Delta} (h : s.sortedDeltas rawBalances ctx = .ok (ss, ds)) :
    ∃ surpluses deficits, s.getCategorizedBalances (reserveCollateral rawBalances.balance ctx.pendingTransfers)
        ctx.pendingRebalances ctx.proposedRebalances = .ok (surpluses, deficits) ∧
      ss = sortByAmount surpluses ∧ ds = sortByAmount (scaleDeficits surpluses deficits) := by
  unfold sortedDeltas at h
  dsimp only at h
  split at h
  next buffer hrule => exact absurd hrule (hs buffer)
  · obtain ⟨⟨surpluses, deficits⟩, hfound, h⟩ := Outcome.bind_eq_ok.1 h
    cases h
    exact ⟨surpluses, deficits, hfound, rfl, rfl⟩

theorem sortByAmount_perm (deltas : List Delta) : (sortByAmount deltas).Perm deltas := List.perm_insertionSort _ _

end Strategy

/-! ## Routes -/

/-- the sum of the amounts of the routes to a chain -/
def amountTo (chain : ℕ) (routes : List StrategyRoute) : ℤ :=
  ((routes.filter fun r => r.destination = chain).map fun r => r.amount).sum

theorem amountFrom_cons (chain : ℕ) (r : StrategyRoute) (routes : List StrategyRoute) :
    amountFrom chain (r :: routes) = onChain r.origin r.amount chain + amountFrom chain routes := by
  rw [amountFrom, amountFrom, sum_map_filter, sum_map_filter, List.map_cons, List.sum_cons, onChain]
  simp only [eq_comm]

theorem amountTo_cons (chain : ℕ) (r : StrategyRoute) (routes : List StrategyRoute) :
    amountTo chain (r :: routes) = onChain r.destination r.amount chain + amountTo chain routes := by
  rw [amountTo, amountTo, sum_map_filter, sum_map_filter, List.map_cons, List.sum_cons, onChain]
  simp only [eq_comm]

/-- what routes do to the balance of a chain -/
theorem simulateProposedRebalances_apply (b : ℕ → ℤ) (routes : List StrategyRoute) (chain : ℕ) :
    simulateProposedRebalances b routes chain = b chain - amountFrom chain routes + amountTo chain routes := by
  induction routes generalizing b with
  | nil => simp [simulateProposedRebalances, amountFrom, amountTo]
  | cons r routes ih =>
    rw [simulateProposedRebalances, List.foldl_cons, ← simulateProposedRebalances, ih, amountFrom_cons, amountTo_cons]
    have htaken := update_add b r.origin (-r.amount) chain
    rw [← sub_eq_add_neg] at htaken
    have hneg : onChain r.origin (-r.amount) chain = -onChain r.origin r.amount chain := by
      unfold onChain
      split
      · rfl
      · rw [neg_zero]
    rw [update_add, htaken, hneg]
    ring

theorem sum_onChain {chains : List ℕ} (hnodup : chains.Nodup) {chain : ℕ} (hmem : chain ∈ chains) (x : ℤ) :
    (chains.map fun c => onChain chain x c).sum = x := by
  induction chains with
  | nil => exact absurd hmem List.not_mem_nil
  | cons c chains ih =>
    rw [List.nodup_cons] at hnodup
    rw [List.map_cons, List.sum_cons]
    rcases List.mem_cons.1 hmem with rfl | hmem
    · have hnone : (chains.map fun c => onChain chain x c).sum = 0 := by
        refine List.sum_eq_zero fun y hy => ?_
        obtain ⟨c, hc, rfl⟩ := List.mem_map.1 hy
        exact if_neg (ne_of_mem_of_not_mem hc hnodup.1)
      rw [hnone, add_zero, onChain, if_pos rfl]
    · have hne : c ≠ chain := fun heq => hnodup.1 (heq ▸ hmem)
      rw [ih hnodup.2 hmem, onChain, if_neg hne, zero_add]

theorem sum_map_moved (chains : List ℕ) (b taken given : ℕ → ℤ) :
    (chains.map fun c => b c - taken c + given c).sum =
      (chains.map b).sum - (chains.map taken).sum + (chains.map given).sum := by
  induction chains with
  | nil => rfl
  | cons c chains ih =>
    simp only [List.map_cons, List.sum_cons, ih]
    ring

/-- routes between the chains leave the total as it is -/
theorem sum_simulateProposedRebalances {chains : List ℕ} (hnodup : chains.Nodup) {routes : List StrategyRoute}
    (h : ∀ r ∈ routes, r.origin ∈ chains ∧ r.destination ∈ chains) (b : ℕ → ℤ) :
    (chains.map (simulateProposedRebalances b routes)).sum = (chains.map b).sum := by
  have hsplit : (chains.map (simulateProposedRebalances b routes)).sum =
      (chains.map b).sum - (chains.map fun c => amountFrom c routes).sum + (chains.map fun c => amountTo c routes).sum := by
    rw [← sum_map_moved]
    exact congrArg List.sum (List.map_congr_left fun c _ => simulateProposedRebalances_apply b routes c)
  have hsame : (chains.map fun c => amountFrom c routes).sum = (chains.map fun c => amountTo c routes).sum := by
    clear hsplit
    induction routes with
    | nil => rfl
    | cons r routes ih =>
      obtain ⟨horigin, hdestination⟩ := h r List.mem_cons_self
      simp only [amountFrom_cons, amountTo_cons, List.sum_map_add]
      rw [sum_onChain hnodup horigin, sum_onChain hnodup hdestination,
        ih fun r' hr' => h r' (List.mem_cons_of_mem r hr')]
  rw [hsplit, hsame, sub_add_cancel]

namespace Strategy

variable {s : Strategy} {rawBalances : RawBalances} {ctx : InflightContext}

theorem createRoutes_routes {legs : List (Leg ℕ ℕ)} {routes : List StrategyRoute} (h : s.createRoutes legs = .ok routes) :
    routes.map StrategyRoute.toRoute = legs.map fun leg => ⟨leg.source, leg.sink, leg.amount⟩ := by
  induction legs generalizing routes with
  | nil =>
    cases h
    rfl
  | cons leg legs ih =>
    obtain ⟨route, hroute, h⟩ := Outcome.bind_eq_ok.1 h
    obtain ⟨rest, hrest, h⟩ := Outcome.bind_eq_ok.1 h
    cases h
    rw [List.map_cons, List.map_cons, createRoute_route hroute, ih hrest]

section Created

variable {legs : List (Leg ℕ ℕ)} {routes : List StrategyRoute}

theorem amountFrom_created (h : s.createRoutes legs = .ok routes) (chain : ℕ) :
    amountFrom chain routes = ((legs.filter fun leg => leg.source = chain).map Leg.amount).sum := by
  have hroutes := congrArg (List.map fun r : Route => if r.origin = chain then r.amount else 0) (createRoutes_routes h)
  rw [List.map_map, List.map_map] at hroutes
  rw [amountFrom, sum_map_filter, sum_map_filter]
  exact congrArg List.sum hroutes

theorem amountTo_created (h : s.createRoutes legs = .ok routes) (chain : ℕ) :
    amountTo chain routes = ((legs.filter fun leg => leg.sink = chain).map Leg.amount).sum := by
  have hroutes := congrArg (List.map fun r : Route => if r.destination = chain then r.amount else 0) (createRoutes_routes h)
  rw [List.map_map, List.map_map] at hroutes
  rw [amountTo, sum_map_filter, sum_map_filter]
  exact congrArg List.sum hroutes

theorem sum_created (h : s.createRoutes legs = .ok routes) :
    (routes.map fun r => r.amount).sum = (legs.map Leg.amount).sum := by
  have hroutes := congrArg (List.map Route.amount) (createRoutes_routes h)
  rw [List.map_map, List.map_map] at hroutes
  exact congrArg List.sum hroutes

theorem leg_of_created (h : s.createRoutes legs = .ok routes) {r : StrategyRoute} (hr : r ∈ routes) :
    ∃ leg ∈ legs, r.toRoute = ⟨leg.source, leg.sink, leg.amount⟩ := by
  have hmem : r.toRoute ∈ routes.map StrategyRoute.toRoute := List.mem_map_of_mem hr
  rw [createRoutes_routes h] at hmem
  obtain ⟨leg, hleg, heq⟩ := List.mem_map.1 hmem
  exact ⟨leg, hleg, heq.symm⟩

end Created

/-- what the legs of a strategy are made of: its surpluses and its positive, scaled deficits -/
structure Matched (s : Strategy) (b : ℕ → ℤ) (legs : List (Leg ℕ ℕ)) : Prop where
  pos : ∀ leg ∈ legs, 0 < leg.amount
  source : ∀ leg ∈ legs, leg.source ∈ s.chains ∧ ∃ floor target, s.floorAndTarget b leg.source = .ok (floor, target) ∧
    ((legs.filter fun l => l.source = leg.source).map Leg.amount).sum ≤ b leg.source - floor
  sink : ∀ leg ∈ legs, leg.sink ∈ s.chains ∧ ∃ floor target, s.floorAndTarget b leg.sink = .ok (floor, target) ∧
    ((legs.filter fun l => l.sink = leg.sink).map Leg.amount).sum ≤ target - b leg.sink
  apart : ∀ leg ∈ legs, leg.source ≠ leg.sink

/-- the loop over the surpluses and the deficits of a strategy, however each list is ordered among equal amounts -/
theorem Categorized.matched {b : ℕ → ℤ} {surpluses deficits ss ds : List Delta}
    (h : Categorized s.chains b (s.floorAndTarget b) surpluses deficits) (hpos : AllPositive surpluses)
    (hss : ss.Perm surpluses) (hds : ds.Perm (scaleDeficits surpluses deficits)) (hfirst : PositiveFirst ds) :
    Matched s b (matchLoop (ss.length + ds.length) ss ds) := by
  have hsspos : AllPositive ss := AllPositive.perm hpos hss
  have hmem : ∀ leg ∈ matchLoop (ss.length + ds.length) ss ds, _ := of_mem_matchLoop hsspos le_rfl
  have hdeficit : ∀ x ∈ positive ds, ∃ d ∈ deficits, d.owner = x.owner ∧ x.amount ≤ d.amount := fun x hx =>
    of_mem_scaleDeficits hpos (hds.mem_iff.1 (List.mem_filter.1 hx).1) (positive_allPositive ds x hx)
  refine ⟨fun leg hleg => (hmem leg hleg).1, fun leg hleg => ?_, fun leg hleg => ?_, fun leg hleg heq => ?_⟩
  · obtain ⟨x, hx, howner⟩ := List.mem_map.1 (hmem leg hleg).2.1
    have hfound := h.surplus x (hss.mem_iff.1 hx)
    rw [howner] at hfound
    obtain ⟨hchain, floor, target, hbounds, hamount⟩ := hfound
    refine ⟨hchain, floor, target, hbounds, (sum_source_le hsspos hfirst le_rfl leg.source).trans ?_⟩
    have hnodup : (ss.map Share.owner).Nodup := (hss.map Share.owner).nodup_iff.2 h.surplus_nodup
    refine held_le hnodup (hamount ▸ (hsspos x hx).le) fun y hy hyowner => ?_
    have hsame : y = x := List.inj_on_of_nodup_map hnodup hy hx (hyowner.trans howner.symm)
    rw [hsame, hamount]
  · obtain ⟨x, hx, howner⟩ := List.mem_map.1 (hmem leg hleg).2.2
    obtain ⟨d, hd, hdowner, hle⟩ := hdeficit x hx
    have hfound := h.deficit d hd
    rw [hdowner, howner] at hfound
    obtain ⟨hchain, floor, target, hbounds, hamount⟩ := hfound
    refine ⟨hchain, floor, target, hbounds, (sum_sink_le hsspos le_rfl leg.sink).trans ?_⟩
    have hnodup : (ds.map Share.owner).Nodup := by
      rw [(hds.map Share.owner).nodup_iff, scaleDeficits_owners]
      exact h.deficit_nodup
    have hsub : ((positive ds).map Share.owner).Nodup := ((List.filter_sublist).map Share.owner).nodup hnodup
    have hxpos := positive_allPositive ds x hx
    refine held_le hsub (by omega) fun y hy hyowner => ?_
    have hsame : y = x := List.inj_on_of_nodup_map hsub hy hx (hyowner.trans howner.symm)
    rw [hsame]
    omega
  · obtain ⟨x, hx, howner⟩ := List.mem_map.1 (hmem leg hleg).2.1
    obtain ⟨y, hy, hyowner⟩ := List.mem_map.1 (hmem leg hleg).2.2
    obtain ⟨d, hd, hdowner, -⟩ := hdeficit y hy
    exact h.apart x (hss.mem_iff.1 hx) d hd (howner.trans (heq.trans (hyowner.symm.trans hdowner.symm)))

theorem amountFrom_nonneg {routes : List StrategyRoute} (h : ∀ r ∈ routes, 0 < r.amount) (chain : ℕ) :
    0 ≤ amountFrom chain routes := by
  refine List.sum_nonneg fun x hx => ?_
  obtain ⟨r, hr, rfl⟩ := List.mem_map.1 hx
  exact (h r (List.mem_filter.1 hr).1).le

theorem amountTo_nonneg {routes : List StrategyRoute} (h : ∀ r ∈ routes, 0 < r.amount) (chain : ℕ) :
    0 ≤ amountTo chain routes := by
  refine List.sum_nonneg fun x hx => ?_
  obtain ⟨r, hr, rfl⟩ := List.mem_map.1 hx
  exact (h r (List.mem_filter.1 hr).1).le

/-- **Surpluses are matched to deficits exactly.** For `WeightedStrategy` and `MinAmountStrategy` and whatever they are
configured with and told: the routes have positive amounts and lead to other chains; applied to the balances that the
strategy expects, they keep the total, leave every origin its floor and no destination above its target; they move the
smaller of the two totals, less at most one for each chain with a deficit; and the loop ends, for all lists. -/
theorem matching_exact {routes : List StrategyRoute} (hs : s.Balances)
    (h : s.generatedRoutes rawBalances ctx = .ok routes) :
    let b := simulatedBalances rawBalances ctx
    let after := simulateProposedRebalances b routes
    (∀ r ∈ routes, 0 < r.amount ∧ r.origin ≠ r.destination) ∧
    (s.chains.map after).sum = (s.chains.map b).sum ∧
    (∀ r ∈ routes, ∃ floor target, s.floorAndTarget b r.origin = .ok (floor, target) ∧ floor ≤ after r.origin) ∧
    (∀ r ∈ routes, ∃ floor target, s.floorAndTarget b r.destination = .ok (floor, target) ∧
      after r.destination ≤ target) ∧
    (∃ surpluses deficits, s.getCategorizedBalances (reserveCollateral rawBalances.balance ctx.pendingTransfers)
        ctx.pendingRebalances ctx.proposedRebalances = .ok (surpluses, deficits) ∧
      min (totalOf surpluses) (totalOf deficits) - deficits.length ≤ (routes.map fun r => r.amount).sum) ∧
    ∀ surpluses deficits : List Delta, turns (surpluses.length + deficits.length + 1) (surpluses, deficits) = none ∧
      ∀ n, matchLoop (surpluses.length + deficits.length + n) surpluses deficits =
        matchLoop (surpluses.length + deficits.length) surpluses deficits := by
  intro b after
  obtain ⟨-, -, h⟩ := Outcome.bind_eq_ok.1 h
  obtain ⟨⟨ss, ds⟩, hsorted, hcreated⟩ := Outcome.bind_eq_ok.1 h
  obtain ⟨surpluses, deficits, hfound, rfl, rfl⟩ := sortedDeltas_eq hs hsorted
  have hpos := getCategorizedBalances_positive hfound
  have hcategorized : Categorized s.chains b (s.floorAndTarget b) surpluses deficits :=
    getCategorizedBalances_categorized hs hfound
  have hmatched := hcategorized.matched hpos (sortByAmount_perm _) (sortByAmount_perm _) (positiveFirst_sortByAmount _)
  have hroute : ∀ r ∈ routes, 0 < r.amount ∧ r.origin ≠ r.destination := by
    intro r hr
    obtain ⟨leg, hleg, heq⟩ := leg_of_created hcreated hr
    rw [heq]
    exact ⟨hmatched.pos leg hleg, hmatched.apart leg hleg⟩
  have hamounts : ∀ r ∈ routes, 0 < r.amount := fun r hr => (hroute r hr).1
  refine ⟨hroute, ?_, fun r hr => ?_, fun r hr => ?_, ⟨surpluses, deficits, hfound, ?_⟩, fun ss ds => ⟨?_, fun n => ?_⟩⟩
  · refine sum_simulateProposedRebalances s.nodup (fun r hr => ?_) b
    obtain ⟨leg, hleg, heq⟩ := leg_of_created hcreated hr
    rw [heq]
    exact ⟨(hmatched.source leg hleg).1, (hmatched.sink leg hleg).1⟩
  · obtain ⟨leg, hleg, heq⟩ := leg_of_created hcreated hr
    obtain ⟨-, floor, target, hbounds, hle⟩ := hmatched.source leg hleg
    rw [← amountFrom_created hcreated] at hle
    have hto := amountTo_nonneg hamounts leg.source
    have happly := simulateProposedRebalances_apply b routes leg.source
    rw [heq]
    exact ⟨floor, target, hbounds, by change _ ≤ simulateProposedRebalances b routes leg.source; omega⟩
  · obtain ⟨leg, hleg, heq⟩ := leg_of_created hcreated hr
    obtain ⟨-, floor, target, hbounds, hle⟩ := hmatched.sink leg hleg
    rw [← amountTo_created hcreated] at hle
    have hfrom := amountFrom_nonneg hamounts leg.sink
    have happly := simulateProposedRebalances_apply b routes leg.sink
    rw [heq]
    exact ⟨floor, target, hbounds, by change simulateProposedRebalances b routes leg.sink ≤ _; omega⟩
  · have hsspos : AllPositive (sortByAmount surpluses) := AllPositive.perm hpos (sortByAmount_perm surpluses)
    rw [sum_created hcreated]
    refine (positive_total_scaled hpos deficits).trans ?_
    rw [← totalOf_perm (sortByAmount_perm surpluses),
      ← totalOf_perm (positive_perm (sortByAmount_perm (scaleDeficits surpluses deficits)))]
    exact le_sum_matchLoop hsspos le_rfl
  · exact turns_end (Nat.lt_succ_self _)
  · exact matchLoop_fuel (Nat.le_add_right _ n) le_rfl

end Strategy

/-- the routes of even weights with 100 on the first chain -/
def thirds : List StrategyRoute :=
  [⟨⟨0, 1, 33⟩, .movableCollateral, some 7, none⟩, ⟨⟨0, 2, 33⟩, .movableCollateral, some 7, none⟩]

theorem thirds_exact : (∀ r ∈ thirds, 0 < r.amount ∧ r.origin ≠ r.destination) ∧
    ([0, 1, 2].map (simulateProposedRebalances (Strategy.simulatedBalances hundredOnFirst ⟨[], [], []⟩) thirds)).sum =
      ([0, 1, 2].map (Strategy.simulatedBalances hundredOnFirst ⟨[], [], []⟩)).sum := by
  have hs : evenWeights.Balances := fun buffer h => nomatch h
  obtain ⟨hroutes, htotal, -⟩ := Strategy.matching_exact hs (by rfl : evenWeights.generatedRoutes hundredOnFirst ⟨[], [], []⟩ = .ok thirds)
  exact ⟨hroutes, htotal⟩

end Hyperlane.Rebalancer
