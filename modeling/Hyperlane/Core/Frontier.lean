/-
The frontier of an append-only perfect tree: one slot per level, level 0 first.

Only the slots at the set bits of the leaf count mean anything; the others hold whatever an earlier append left there.
`Live f leaf i s bs` says that `bs` is such a frontier from level `i` upwards when `s` blocks of level `i` are complete.

- `carry`: the append loop. It joins the new block with the stored left neighbours while the count bits are zero and
  writes the result into the first slot whose bit is set.
- `climb`: the root loop. It joins the right edge with a stored slot or with a zero hash, level by level.
- `carry_live`: an append of the next leaf keeps the frontier live.
- `climb_live`: the root loop computes the root of the tree padded with zero leaves, whatever the dead slots hold.
- `Live.congr`: being live depends only on the leaves below the count.
- `Live.of_agree`: being live depends only on the slots at the set bits.
- `climb_injective`, `carry_injective`: under an injective pairing, equal roots at equal counts come from equal live
  slots, and equal live slots after an append come from equal leaves and equal live slots before it. Nothing is assumed
  about where the slots came from.
-/
import Hyperlane.Core.PerfectTree

namespace Hyperlane.Frontier

open Hyperlane.PerfectTree

variable {H : Type}

/-- the append loop; `none` when every slot is passed without a write -/
def carry (f : H → H → H) : List H → ℕ → H → Option (List H)
  | [], _, _ => none
  | b :: bs, size, x =>
    if size % 2 = 1 then some (x :: bs) else (carry f bs (size / 2) (f b x)).map (b :: ·)

/-- the root loop from level `i` -/
def climb (f : H → H → H) (zero : ℕ → H) : ℕ → List H → ℕ → H → H
  | _, [], _, x => x
  | i, b :: bs, size, x => climb f zero (i + 1) bs (size / 2) (if size % 2 = 1 then f b x else f x (zero i))

/-- each slot at a set bit of `s` holds the last complete block of its level -/
def Live (f : H → H → H) (leaf : ℕ → H) : ℕ → ℕ → List H → Prop
  | _, _, [] => True
  | i, s, b :: bs => (s % 2 = 1 → b = node f leaf i (s - 1)) ∧ Live f leaf (i + 1) (s / 2) bs

theorem pred_succ_of_odd {s : ℕ} (h : s % 2 = 1) : s - 1 + 1 = s := by omega

/-! ## Appending -/

theorem carry_length {f : H → H → H} {bs bs' : List H} {size : ℕ} {x : H} (h : carry f bs size x = some bs') :
    bs'.length = bs.length := by
  induction bs generalizing size x bs' with
  | nil => simp [carry] at h
  | cons b bs ih =>
    simp only [carry] at h
    split_ifs at h with ho
    · cases h; simp
    · obtain ⟨t, ht, rfl⟩ := Option.map_eq_some_iff.1 h
      simp [ih ht]

/-- with room left the append loop always writes a slot -/
theorem carry_some (f : H → H → H) (bs : List H) (x : H) {s : ℕ} (hs : 0 < s) (hroom : s < 2 ^ bs.length) :
    ∃ bs', carry f bs s x = some bs' := by
  induction bs generalizing s x with
  | nil => simp at hroom; omega
  | cons b bs ih =>
    simp only [carry]
    split_ifs with hodd
    · exact ⟨_, rfl⟩
    · rw [List.length_cons, pow_succ] at hroom
      obtain ⟨t, ht⟩ := ih (f b x) (s := s / 2) (by omega) (by omega)
      exact ⟨b :: t, by rw [ht]; rfl⟩

/-- **Append.** With room left, appending block `s` of level `i` writes one slot and leaves a live frontier. -/
theorem carry_live (f : H → H → H) (leaf : ℕ → H) {i s : ℕ} {bs : List H} (h : Live f leaf i s bs)
    (hroom : s + 1 < 2 ^ bs.length) :
    ∃ bs', carry f bs (s + 1) (node f leaf i s) = some bs' ∧ Live f leaf i (s + 1) bs' := by
  induction bs generalizing i s with
  | nil => simp at hroom
  | cons b bs ih =>
    obtain ⟨hb, ht⟩ := h
    simp only [carry]
    by_cases hodd : (s + 1) % 2 = 1
    · refine ⟨node f leaf i s :: bs, by rw [if_pos hodd], fun _ => rfl, ?_⟩
      rw [show (s + 1) / 2 = s / 2 by omega]
      exact ht
    · -- bit i of the count was set: the stored left neighbour joins the new block
      have hs : s % 2 = 1 := by omega
      rw [if_neg hodd, hb hs, node_parent_right f leaf i hs, show (s + 1) / 2 = s / 2 + 1 by omega]
      have hroom' : s / 2 + 1 < 2 ^ bs.length := by
        rw [List.length_cons, pow_succ] at hroom
        omega
      obtain ⟨t, ht', hl⟩ := ih ht hroom'
      refine ⟨node f leaf i (s - 1) :: t, by rw [ht']; rfl, fun ho => absurd ho hodd, ?_⟩
      rw [show (s + 1) / 2 = s / 2 + 1 by omega]
      exact hl

/-! ## The root -/

/-- **Root.** From the right-edge block of level `i`, the root loop reaches the right-edge block `bs.length` levels up. -/
theorem climb_live (f : H → H → H) (leaf : ℕ → H) (z : H) (n : ℕ) {i : ℕ} {bs : List H}
    (h : Live f leaf i (n / 2 ^ i) bs) :
    climb f (zeros f z) i bs (n / 2 ^ i) (node f (upTo leaf z n) i (n / 2 ^ i)) =
      node f (upTo leaf z n) (i + bs.length) (n / 2 ^ (i + bs.length)) := by
  induction bs generalizing i with
  | nil => rfl
  | cons b bs ih =>
    obtain ⟨hb, ht⟩ := h
    have hdiv : n / 2 ^ i / 2 = n / 2 ^ (i + 1) := by rw [Nat.div_div_eq_div_mul, pow_succ]
    have hle : n / 2 ^ i * 2 ^ i ≤ n := Nat.div_mul_le_self n _
    have hlt : n < (n / 2 ^ i + 1) * 2 ^ i := Nat.lt_mul_of_div_lt (Nat.lt_succ_self _) (by positivity)
    have hstep : (if n / 2 ^ i % 2 = 1 then f b (node f (upTo leaf z n) i (n / 2 ^ i))
        else f (node f (upTo leaf z n) i (n / 2 ^ i)) (zeros f z i)) =
        node f (upTo leaf z n) (i + 1) (n / 2 ^ (i + 1)) := by
      rw [← hdiv]
      split_ifs with ho
      · rw [hb ho, ← node_parent_right _ _ _ ho]
        congr 1
        rw [node_upTo_complete f leaf z (show (n / 2 ^ i - 1 + 1) * 2 ^ i ≤ n by
          rw [pred_succ_of_odd ho]; exact hle)]
      · rw [← node_parent_left _ _ _ (show n / 2 ^ i % 2 = 0 by omega)]
        rw [node_upTo_empty f leaf z (k := n / 2 ^ i + 1) hlt.le]
    rw [climb, hstep, hdiv, ih (by rw [← hdiv]; exact ht), List.length_cons,
      show i + 1 + bs.length = i + (bs.length + 1) by omega]

/-! ## Only the leaves below the count matter -/

theorem Live.congr {f : H → H → H} {leaf leaf' : ℕ → H} {n i : ℕ} {bs : List H} (hl : ∀ k < n, leaf k = leaf' k)
    (h : Live f leaf i (n / 2 ^ i) bs) : Live f leaf' i (n / 2 ^ i) bs := by
  induction bs generalizing i with
  | nil => trivial
  | cons b bs ih =>
    obtain ⟨hb, ht⟩ := h
    have hdiv : n / 2 ^ i / 2 = n / 2 ^ (i + 1) := by rw [Nat.div_div_eq_div_mul, pow_succ]
    refine ⟨fun ho => ?_, ?_⟩
    · rw [hb ho]
      apply node_congr
      intro k _ hk
      apply hl
      rw [pred_succ_of_odd ho] at hk
      exact lt_of_lt_of_le hk (Nat.div_mul_le_self n _)
    · rw [hdiv] at ht ⊢
      exact ih ht

theorem live_zero (f : H → H → H) (leaf : ℕ → H) (i : ℕ) (bs : List H) : Live f leaf i 0 bs := by
  induction bs generalizing i with
  | nil => trivial
  | cons b bs ih => exact ⟨by simp, ih (i + 1)⟩

/-! ## Injectivity -/

/-- two frontiers agree at the set bits of `s` -/
def Agree : ℕ → List H → List H → Prop
  | _, [], [] => True
  | s, b :: bs, c :: cs => (s % 2 = 1 → b = c) ∧ Agree (s / 2) bs cs
  | _, _, _ => False

theorem agree_zero {bs cs : List H} (hlen : bs.length = cs.length) : Agree 0 bs cs := by
  induction bs generalizing cs with
  | nil => cases cs with
    | nil => trivial
    | cons c cs => simp at hlen
  | cons b bs ih => cases cs with
    | nil => simp at hlen
    | cons c cs => exact ⟨by simp, ih (by simpa using hlen)⟩

/-- a frontier that agrees with a live one is live -/
theorem Live.of_agree {f : H → H → H} {leaf : ℕ → H} {i s : ℕ} {bs cs : List H} (h : Live f leaf i s cs)
    (hagree : Agree s bs cs) : Live f leaf i s bs := by
  induction bs generalizing i s cs with
  | nil => trivial
  | cons b bs ih =>
    cases cs with
    | nil => exact hagree.elim
    | cons c cs => exact ⟨fun ho => (hagree.1 ho).trans (h.1 ho), ih h.2 hagree.2⟩

/-- when the low `k` bits of the count are zero, only the slots from `k` on matter -/
theorem agree_of_drop {s k : ℕ} {bs cs : List H} (hlen : bs.length = cs.length) (hdvd : 2 ^ k ∣ s)
    (h : Agree (s / 2 ^ k) (bs.drop k) (cs.drop k)) : Agree s bs cs := by
  induction k generalizing s bs cs with
  | zero => simpa using h
  | succ k ih =>
    cases bs with
    | nil => cases cs with
      | nil => trivial
      | cons c cs => simp at hlen
    | cons b bs => cases cs with
      | nil => simp at hlen
      | cons c cs =>
        have h2 : 2 ∣ s := (dvd_pow_self 2 (Nat.succ_ne_zero k)).trans hdvd
        have hk : 2 ^ k ∣ s / 2 := by
          obtain ⟨m, rfl⟩ := hdvd
          rw [pow_succ', mul_assoc, Nat.mul_div_cancel_left _ (by norm_num)]
          exact dvd_mul_right _ _
        refine ⟨fun ho => by omega, ih (by simpa using hlen) hk ?_⟩
        rw [Nat.div_div_eq_div_mul, ← pow_succ']
        simpa using h

theorem climb_injective {f : H → H → H} (hf : Function.Injective2 f) (zero : ℕ → H) {i s : ℕ} {bs cs : List H} {x y : H}
    (hlen : bs.length = cs.length) (h : climb f zero i bs s x = climb f zero i cs s y) : x = y ∧ Agree s bs cs := by
  induction bs generalizing i s cs x y with
  | nil =>
    cases cs with
    | nil => exact ⟨h, trivial⟩
    | cons c cs => simp at hlen
  | cons b bs ih =>
    cases cs with
    | nil => simp at hlen
    | cons c cs =>
      simp only [climb] at h
      obtain ⟨hxy, hag⟩ := ih (by simpa using hlen) h
      split_ifs at hxy with hs
      · obtain ⟨hbc, hxy⟩ := hf hxy
        exact ⟨hxy, fun _ => hbc, hag⟩
      · exact ⟨(hf hxy).1, fun ho => absurd ho hs, hag⟩

theorem carry_injective {f : H → H → H} (hf : Function.Injective2 f) {s : ℕ} (hs : 0 < s) {bs cs bs' cs' : List H} {x y : H}
    (hb : carry f bs s x = some bs') (hc : carry f cs s y = some cs') (h : Agree s bs' cs') :
    x = y ∧ Agree (s - 1) bs cs := by
  induction bs generalizing s cs bs' cs' x y with
  | nil => simp [carry] at hb
  | cons b bs ih =>
    cases cs with
    | nil => simp [carry] at hc
    | cons c cs =>
      simp only [carry] at hb hc
      split_ifs at hb hc with hodd
      · cases hb
        cases hc
        refine ⟨h.1 hodd, fun ho => by omega, ?_⟩
        rw [show (s - 1) / 2 = s / 2 by omega]
        exact h.2
      · obtain ⟨bt, hbt, rfl⟩ := Option.map_eq_some_iff.1 hb
        obtain ⟨ct, hct, rfl⟩ := Option.map_eq_some_iff.1 hc
        obtain ⟨hxy, hag⟩ := ih (by omega) hbt hct h.2
        obtain ⟨hbc, hxy⟩ := hf hxy
        refine ⟨hxy, fun _ => hbc, ?_⟩
        rw [show (s - 1) / 2 = s / 2 - 1 by omega]
        exact hag

end Hyperlane.Frontier
