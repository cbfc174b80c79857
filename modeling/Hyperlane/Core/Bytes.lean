/-
Byte strings: fixed-width words, big-endian numbers, slices and writes in place.

A slice out of range is `none`, as a calldata slice that reverts.

- `ofBe_be`, `be_ofBe`: big-endian bytes decode to the number they encode, and back.
- `slice_append_left`, `slice_append_right`, `slice_flatten`: slices of concatenations.
- `slice_congr`, `getElem?_overwrite`: a slice depends on its own bytes only, and a write changes its own bytes only.
-/
import Mathlib.Tactic

namespace Hyperlane.Bytes

/-- a string of `n` bytes -/
abbrev Word (n : ℕ) := { bs : List UInt8 // bs.length = n }

/-- `n` times the same byte -/
def Word.filled (n : ℕ) (b : UInt8) : Word n := ⟨List.replicate n b, List.length_replicate⟩

instance lawfulBEq_word : LawfulBEq (Word 20) := inferInstance

instance neZero_two_pow : NeZero (2 ^ 256) := ⟨by decide⟩

/-- the `n` lowest bytes of `x`, most significant first -/
def be : ℕ → ℕ → List UInt8
  | 0, _ => []
  | n + 1, x => be n (x / 256) ++ [UInt8.ofNat x]

/-- the number a byte string encodes, most significant byte first -/
def ofBe (bs : List UInt8) : ℕ := bs.foldl (fun acc b => 256 * acc + b.toNat) 0

/-- the bytes from `a` up to `b` -/
def slice (bs : List UInt8) (a b : ℕ) : Option (List UInt8) :=
  if a ≤ b ∧ b ≤ bs.length then some ((bs.drop a).take (b - a)) else none

/-- the word of `n` bytes at `a` -/
def wordAt (n : ℕ) (bs : List UInt8) (a : ℕ) : Option (Word n) :=
  if h : a + n ≤ bs.length then some ⟨(bs.drop a).take n, by rw [List.length_take, List.length_drop]; omega⟩ else none

/-- `k` words of `n` bytes, one after the other -/
def words (n : ℕ) : ℕ → List UInt8 → Option (List (Word n))
  | 0, _ => some []
  | k + 1, bs =>
    match wordAt n bs 0, words n k (bs.drop n) with
    | some w, some ws => some (w :: ws)
    | _, _ => none

/-- the big-endian `uint32` at `a` -/
def uint32At (bs : List UInt8) (a : ℕ) : Option UInt32 := (slice bs a (a + 4)).map fun w => UInt32.ofNat (ofBe w)

/-- `data` written over the bytes from `a` on -/
def overwrite (bs : List UInt8) (a : ℕ) (data : List UInt8) : List UInt8 :=
  bs.take a ++ data ++ bs.drop (a + data.length)

/-! ## Numbers -/

@[simp]
theorem be_length (n x : ℕ) : (be n x).length = n := by
  induction n generalizing x with
  | zero => rfl
  | succ n ih => rw [be, List.length_append, ih, List.length_singleton]

theorem ofBe_be {n x : ℕ} (h : x < 256 ^ n) : ofBe (be n x) = x := by
  induction n generalizing x with
  | zero =>
    rw [pow_zero] at h
    rw [Nat.lt_one_iff.1 h]
    rfl
  | succ n ih =>
    have hdiv : x / 256 < 256 ^ n := by
      rw [Nat.div_lt_iff_lt_mul (by decide), ← pow_succ]
      exact h
    have hih := ih hdiv
    unfold ofBe at hih ⊢
    rw [be, List.foldl_append, hih]
    simp only [List.foldl_cons, List.foldl_nil, UInt8.toNat_ofNat']
    omega

theorem ofBe_concat (bs : List UInt8) (b : UInt8) : ofBe (bs ++ [b]) = 256 * ofBe bs + b.toNat := by
  simp only [ofBe, List.foldl_append, List.foldl_cons, List.foldl_nil]

theorem ofBe_lt (bs : List UInt8) : ofBe bs < 256 ^ bs.length := by
  induction bs using List.reverseRecOn with
  | nil => exact Nat.one_pos
  | append_singleton bs b ih =>
    have hb := b.toNat_lt
    rw [ofBe_concat, List.length_append, List.length_singleton, pow_succ]
    omega

theorem be_add (m k x : ℕ) : be (m + k) x = be m (x / 256 ^ k) ++ be k x := by
  induction k generalizing x with
  | zero => simp [be]
  | succ k ih => rw [← Nat.add_assoc, be, ih, be, Nat.div_div_eq_div_mul, ← pow_succ', List.append_assoc]

/-- bytes are those of the number they encode -/
theorem be_ofBe (bs : List UInt8) : be bs.length (ofBe bs) = bs := by
  induction bs using List.reverseRecOn with
  | nil => rfl
  | append_singleton bs b ih =>
    have hb := b.toNat_lt
    have hdiv : (256 * ofBe bs + b.toNat) / 256 = ofBe bs := by omega
    have hlow : UInt8.ofNat (256 * ofBe bs + b.toNat) = b := by
      apply UInt8.toNat_inj.1
      rw [UInt8.toNat_ofNat']
      omega
    rw [List.length_append, List.length_singleton, be, ofBe_concat, hdiv, hlow, ih]

/-! ## Slices -/

theorem slice_length {bs w : List UInt8} {a b : ℕ} (h : slice bs a b = some w) : w.length = b - a := by
  unfold slice at h
  split at h
  · cases h
    rw [List.length_take, List.length_drop]
    omega
  · cases h

theorem slice_append_left {bs : List UInt8} {a b : ℕ} (h : b ≤ bs.length) (more : List UInt8) :
    slice (bs ++ more) a b = slice bs a b := by
  unfold slice
  by_cases hab : a ≤ b
  · rw [if_pos ⟨hab, by rw [List.length_append]; omega⟩, if_pos ⟨hab, h⟩, List.drop_append_of_le_length (hab.trans h),
      List.take_append_of_le_length]
    rw [List.length_drop]
    omega
  · rw [if_neg (fun hc => hab hc.1), if_neg (fun hc => hab hc.1)]

theorem slice_append_right (pre bs : List UInt8) (a b : ℕ) :
    slice (pre ++ bs) (pre.length + a) (pre.length + b) = slice bs a b := by
  unfold slice
  rw [List.length_append, List.drop_append, Nat.add_sub_cancel_left, Nat.add_sub_add_left,
    List.drop_eq_nil_of_le (Nat.le_add_right _ _), List.nil_append]
  simp only [Nat.add_le_add_iff_left]

theorem slice_self (bs : List UInt8) : slice bs 0 bs.length = some bs := by
  simp [slice]

/-- the bytes of one segment of a concatenation -/
theorem slice_segment (pre w post : List UInt8) {a b : ℕ} (ha : a = pre.length) (hb : b = pre.length + w.length) :
    slice (pre ++ (w ++ post)) a b = some w := by
  have h := slice_append_right pre (w ++ post) 0 w.length
  rw [Nat.add_zero] at h
  rw [ha, hb, h, slice_append_left le_rfl, slice_self]

theorem slice_some {bs w : List UInt8} {a b : ℕ} (h : slice bs a b = some w) :
    ∃ pre post, bs = pre ++ (w ++ post) ∧ a = pre.length ∧ b = pre.length + w.length := by
  have hlen := slice_length h
  unfold slice at h
  split at h
  · rename_i hc
    cases h
    refine ⟨bs.take a, bs.drop b, ?_, ?_, ?_⟩
    · have hdrop : bs.drop b = (bs.drop a).drop (b - a) := by rw [List.drop_drop, Nat.add_sub_cancel' hc.1]
      rw [hdrop, List.take_append_drop, List.take_append_drop]
    · rw [List.length_take]
      omega
    · rw [hlen, List.length_take]
      omega
  · cases h

/-- the two parts of a slice -/
theorem slice_split {bs x y : List UInt8} {a b : ℕ} (h : slice bs a b = some (x ++ y)) :
    slice bs a (a + x.length) = some x ∧ slice bs (a + x.length) b = some y := by
  obtain ⟨pre, post, rfl, rfl, rfl⟩ := slice_some h
  constructor
  · rw [List.append_assoc]
    exact slice_segment pre x (y ++ post) rfl rfl
  · rw [List.append_assoc, ← List.append_assoc pre]
    refine slice_segment (pre ++ x) y post ?_ ?_
    · rw [List.length_append]
    · rw [List.length_append, List.length_append]
      omega

/-- the `k`-th segment -/
theorem slice_segments {ws : List (List UInt8)} {k : ℕ} (hk : k < ws.length) {a b : ℕ} (ha : a = (ws.take k).flatten.length)
    (hb : b = a + ws[k].length) : slice ws.flatten a b = some ws[k] := by
  have hsplit : ws.flatten = (ws.take k).flatten ++ (ws[k] ++ (ws.drop (k + 1)).flatten) :=
    calc ws.flatten = (ws.take k ++ ws.drop k).flatten := by rw [List.take_append_drop]
      _ = (ws.take k).flatten ++ (ws.drop k).flatten := List.flatten_append
      _ = (ws.take k).flatten ++ (ws[k] ++ (ws.drop (k + 1)).flatten) := by
        rw [← List.cons_getElem_drop_succ (h := hk), List.flatten_cons]
  rw [hsplit]
  exact slice_segment _ _ _ ha (ha ▸ hb)

/-- segments of one length: the `i`-th one -/
theorem slice_flatten {ws : List (List UInt8)} {n : ℕ} (hn : ∀ w ∈ ws, w.length = n) {i : ℕ} (hi : i < ws.length) :
    slice ws.flatten (i * n) (i * n + n) = some ws[i] := by
  induction ws generalizing i with
  | nil => simp at hi
  | cons w ws ih =>
    have hw : w.length = n := hn w List.mem_cons_self
    cases i with
    | zero => exact slice_segment [] w ws.flatten (by simp) (by simp [hw])
    | succ i =>
      have h := slice_append_right w ws.flatten (i * n) (i * n + n)
      rw [ih (fun w hw => hn w (List.mem_cons_of_mem _ hw)) (by simpa using hi), hw] at h
      rw [List.flatten_cons, List.getElem_cons_succ, ← h]
      congr 1 <;> ring

theorem wordAt_of_slice {n : ℕ} {bs : List UInt8} {a : ℕ} {w : Word n} (h : slice bs a (a + n) = some w.1) :
    wordAt n bs a = some w := by
  unfold slice at h
  split at h
  · rename_i hc
    rw [wordAt, dif_pos hc.2]
    rw [Nat.add_sub_cancel_left, Option.some.injEq] at h
    exact congrArg some (Subtype.ext h)
  · cases h

theorem words_flatten {n : ℕ} (ws : List (Word n)) : words n ws.length (ws.map Subtype.val).flatten = some ws := by
  induction ws with
  | nil => rfl
  | cons w ws ih =>
    have hhead : wordAt n (w.1 ++ (ws.map Subtype.val).flatten) 0 = some w := by
      apply wordAt_of_slice
      exact slice_segment [] w.1 _ rfl (by rw [w.2]; rfl)
    have hdrop : (w.1 ++ (ws.map Subtype.val).flatten).drop n = (ws.map Subtype.val).flatten := by
      rw [List.drop_append_of_le_length w.2.ge, List.drop_eq_nil_of_le w.2.le, List.nil_append]
    rw [List.length_cons, List.map_cons, List.flatten_cons, words, hhead, hdrop, ih]

theorem uint32At_of_slice {bs : List UInt8} {a : ℕ} {x : UInt32} (h : slice bs a (a + 4) = some (be 4 x.toNat)) :
    uint32At bs a = some x := by
  rw [uint32At, h, Option.map_some, ofBe_be, UInt32.ofNat_toNat]
  exact x.toNat_lt

/-! ## Writes in place -/

theorem overwrite_length {bs data : List UInt8} {a : ℕ} (h : a + data.length ≤ bs.length) :
    (overwrite bs a data).length = bs.length := by
  simp only [overwrite, List.length_append, List.length_take, List.length_drop]
  omega

theorem getElem?_overwrite {bs data : List UInt8} {a : ℕ} (h : a + data.length ≤ bs.length) (i : ℕ) :
    (overwrite bs a data)[i]? = if a ≤ i ∧ i < a + data.length then data[i - a]? else bs[i]? := by
  have htake : (bs.take a).length = a := by
    rw [List.length_take]
    omega
  unfold overwrite
  rcases lt_or_ge i a with hlt | hge
  · rw [if_neg (by omega), List.append_assoc, List.getElem?_append_left (by omega), List.getElem?_take_of_lt hlt]
  · rw [List.append_assoc, List.getElem?_append_right (by omega), htake]
    rcases lt_or_ge i (a + data.length) with hlt | hge'
    · rw [if_pos ⟨hge, hlt⟩, List.getElem?_append_left (by omega)]
    · rw [if_neg (by omega), List.getElem?_append_right (by omega), List.getElem?_drop]
      congr 1
      omega

/-- a slice depends on its own bytes only -/
theorem slice_congr {bs bs' : List UInt8} {a b : ℕ} (hlen : bs.length = bs'.length)
    (h : ∀ i, a ≤ i → i < b → bs[i]? = bs'[i]?) : slice bs a b = slice bs' a b := by
  unfold slice
  rw [hlen]
  split
  · congr 1
    apply List.ext_getElem?
    intro i
    rw [List.getElem?_take, List.getElem?_take]
    split
    · rw [List.getElem?_drop, List.getElem?_drop]
      apply h <;> omega
    · rfl
  · rfl

theorem slice_overwrite_self {bs data : List UInt8} {a : ℕ} (h : a + data.length ≤ bs.length) :
    slice (overwrite bs a data) a (a + data.length) = some data := by
  rw [overwrite, List.append_assoc]
  have htake : (bs.take a).length = a := by
    rw [List.length_take]
    omega
  exact slice_segment _ _ _ htake.symm (by rw [htake])

theorem slice_overwrite_disjoint {bs data : List UInt8} {a c d : ℕ} (h : a + data.length ≤ bs.length)
    (hd : d ≤ a ∨ a + data.length ≤ c) : slice (overwrite bs a data) c d = slice bs c d := by
  apply slice_congr (overwrite_length h)
  intro i hc hd'
  rw [getElem?_overwrite h, if_neg]
  omega

end Hyperlane.Bytes
