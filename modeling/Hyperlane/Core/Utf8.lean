/-
Bytes read as text, line by line, the way the standard library reads them.

- `fromUtf8Lossy`: each maximal part of a sequence that cannot be continued becomes one replacement character.
- `decode_ascii`: an ASCII byte ends whatever stands before it.
- `firstInLines_append`: what the first line that says something says does not change when more bytes arrive, provided
  that a line says it by its part before a delimiter.
-/
import Mathlib.Tactic

namespace Hyperlane.Utf8

/-! ## Decoding -/

def replacement : Char := Char.ofNat 0xFFFD

/-- a sequence that is not complete: the code so far, how many bytes it still needs, and the bounds of the next one -/
structure Pending where
  code : ℕ
  owed : ℕ
  low : ℕ
  high : ℕ
  low_tail : 0x80 ≤ low

/-- the character of a complete sequence; the bounds leave out the short codes and the surrogates -/
def character (code : ℕ) : Char := if 0x80 ≤ code ∧ code.isValidChar then Char.ofNat code else replacement

/-- a byte between two characters -/
def start (b : UInt8) : List Char × Option Pending :=
  let n := b.toNat
  if n < 0x80 then ([Char.ofNat n], none)
  else if 0xC2 ≤ n ∧ n ≤ 0xDF then ([], some ⟨n - 0xC0, 1, 0x80, 0xBF, le_rfl⟩)
  else if n = 0xE0 then ([], some ⟨0, 2, 0xA0, 0xBF, by decide⟩)
  else if n = 0xED then ([], some ⟨0xD, 2, 0x80, 0x9F, le_rfl⟩)
  else if 0xE1 ≤ n ∧ n ≤ 0xEF then ([], some ⟨n - 0xE0, 2, 0x80, 0xBF, le_rfl⟩)
  else if n = 0xF0 then ([], some ⟨0, 3, 0x90, 0xBF, by decide⟩)
  else if 0xF1 ≤ n ∧ n ≤ 0xF3 then ([], some ⟨n - 0xF0, 3, 0x80, 0xBF, le_rfl⟩)
  else if n = 0xF4 then ([], some ⟨4, 3, 0x80, 0x8F, le_rfl⟩)
  else ([replacement], none)

/-- what a byte adds, and the sequence that it leaves open -/
def step : Option Pending → UInt8 → List Char × Option Pending
  | none, b => start b
  | some q, b =>
    if q.low ≤ b.toNat ∧ b.toNat ≤ q.high then
      let code := 64 * q.code + (b.toNat - 0x80)
      if q.owed = 1 then ([character code], none) else ([], some ⟨code, q.owed - 1, 0x80, 0xBF, le_rfl⟩)
    else (replacement :: (start b).1, (start b).2)

/-- the end of the bytes -/
def flush : Option Pending → List Char
  | none => []
  | some _ => [replacement]

def decode : Option Pending → List UInt8 → List Char
  | q, [] => flush q
  | q, b :: bs => (step q b).1 ++ decode (step q b).2 bs

/-- `String::from_utf8_lossy` -/
def fromUtf8Lossy (bytes : List UInt8) : List Char := decode none bytes

/-- the character of an ASCII byte -/
def ascii (b : UInt8) : Char := Char.ofNat b.toNat

theorem step_ascii (q : Option Pending) {b : UInt8} (hb : b.toNat < 0x80) : step q b = (flush q ++ [ascii b], none) := by
  have hstart : start b = ([ascii b], none) := if_pos hb
  cases q with
  | none => exact hstart
  | some q =>
    have hlow := q.low_tail
    rw [step, if_neg (by omega), hstart]
    rfl

theorem decode_ascii (q : Option Pending) (u v : List UInt8) {b : UInt8} (hb : b.toNat < 0x80) :
    decode q (u ++ b :: v) = decode q u ++ ascii b :: decode none v := by
  induction u generalizing q with
  | nil =>
    change (step q b).1 ++ decode (step q b).2 v = flush q ++ ascii b :: decode none v
    rw [step_ascii q hb, List.append_assoc, List.singleton_append]
  | cons c u ih => rw [List.cons_append, decode, ih, decode, List.append_assoc]

theorem fromUtf8Lossy_ascii (u v : List UInt8) {b : UInt8} (hb : b.toNat < 0x80) :
    fromUtf8Lossy (u ++ b :: v) = fromUtf8Lossy u ++ ascii b :: fromUtf8Lossy v := decode_ascii none u v hb

/-- the bytes of an ASCII text -/
def asciiBytes (text : List Char) : List UInt8 := text.map fun c => UInt8.ofNat c.toNat

theorem toNat_ofNat {n : ℕ} (h : n.isValidChar) : (Char.ofNat n).toNat = n := by
  rw [Char.ofNat, dif_pos h]
  rfl

theorem ascii_toNat {b : UInt8} (hb : b.toNat < 0x80) : (ascii b).toNat = b.toNat := toNat_ofNat (Or.inl (by omega))

theorem fromUtf8Lossy_asciiBytes {text : List Char} (h : ∀ c ∈ text, c.toNat < 0x80) (v : List UInt8) :
    fromUtf8Lossy (asciiBytes text ++ v) = text ++ fromUtf8Lossy v := by
  induction text with
  | nil => rfl
  | cons c text ih =>
    have hc := h c List.mem_cons_self
    have hbyte : (UInt8.ofNat c.toNat).toNat = c.toNat := by
      rw [UInt8.toNat_ofNat']
      omega
    have hchar : ascii (UInt8.ofNat c.toNat) = c := by rw [ascii, hbyte, Char.ofNat_toNat]
    have htext := ih fun x hx => h x (List.mem_cons_of_mem c hx)
    rw [asciiBytes, List.map_cons, List.cons_append, List.cons_append]
    rw [asciiBytes] at htext
    have hfirst := fromUtf8Lossy_ascii [] (text.map (fun c => UInt8.ofNat c.toNat) ++ v) (hbyte ▸ hc)
    rw [List.nil_append] at hfirst
    rw [hfirst, htext, hchar]
    rfl

theorem replacement_ne {b : UInt8} (hb : b.toNat < 0x80) : ascii b ≠ replacement := by
  intro heq
  have hcode := congrArg Char.toNat heq
  rw [ascii_toNat hb] at hcode
  have hreplacement : replacement.toNat = 0xFFFD := by decide
  omega

theorem character_ne {b : UInt8} (hb : b.toNat < 0x80) (code : ℕ) : ascii b ≠ character code := by
  rw [character]
  split
  next hvalid =>
    intro heq
    have hcode := congrArg Char.toNat heq
    rw [ascii_toNat hb, toNat_ofNat hvalid.2] at hcode
    omega
  next => exact replacement_ne hb

/-- only an ASCII byte gives its character -/
theorem mem_start {b c : UInt8} (hb : b.toNat < 0x80) (h : ascii b ∈ (start c).1) : b = c := by
  unfold start at h
  dsimp only at h
  split at h
  next hc =>
    have hcode := congrArg Char.toNat (List.mem_singleton.1 h)
    have hascii : (ascii c).toNat = c.toNat := ascii_toNat hc
    rw [ascii_toNat hb] at hcode
    exact UInt8.toNat_inj.1 (hcode.trans hascii)
  next =>
    repeat' split at h
    all_goals first
      | exact absurd h List.not_mem_nil
      | exact absurd (List.mem_singleton.1 h) (replacement_ne hb)

theorem mem_step {q : Option Pending} {b c : UInt8} (hb : b.toNat < 0x80) (h : ascii b ∈ (step q c).1) : b = c := by
  cases q with
  | none => exact mem_start hb h
  | some q =>
    rw [step] at h
    dsimp only at h
    split at h
    next =>
      split at h
      next => exact absurd (List.mem_singleton.1 h) (character_ne hb _)
      next => exact absurd h List.not_mem_nil
    next =>
      rcases List.mem_cons.1 h with heq | hmem
      · exact absurd heq (replacement_ne hb)
      · exact mem_start hb hmem

theorem mem_decode {q : Option Pending} {bytes : List UInt8} {b : UInt8} (hb : b.toNat < 0x80) (h : ascii b ∈ decode q bytes) :
    b ∈ bytes := by
  induction bytes generalizing q with
  | nil =>
    cases q with
    | none => exact absurd h List.not_mem_nil
    | some q => exact absurd (List.mem_singleton.1 h) (replacement_ne hb)
  | cons c bytes ih =>
    rw [decode, List.mem_append] at h
    rcases h with hstep | hrest
    · exact mem_step hb hstep ▸ List.mem_cons_self
    · exact List.mem_cons_of_mem c (ih hrest)

theorem mem_fromUtf8Lossy {bytes : List UInt8} {b : UInt8} (hb : b.toNat < 0x80) : ascii b ∈ fromUtf8Lossy bytes ↔ b ∈ bytes := by
  refine ⟨mem_decode hb, fun h => ?_⟩
  obtain ⟨u, v, rfl⟩ := List.append_of_mem h
  rw [fromUtf8Lossy_ascii u v hb]
  exact List.mem_append_right _ List.mem_cons_self

/-! ## Text -/

/-- the white space of Unicode -/
def isWhitespace (c : Char) : Bool :=
  let n := c.toNat
  (9 ≤ n ∧ n ≤ 13) || n = 0x20 || n = 0x85 || n = 0xA0 || n = 0x1680 || (0x2000 ≤ n ∧ n ≤ 0x200A) || n = 0x2028 ||
    n = 0x2029 || n = 0x202F || n = 0x205F || n = 0x3000

def trimStart (text : List Char) : List Char := text.dropWhile isWhitespace

def stripPrefix (lead text : List Char) : Option (List Char) := if lead <+: text then some (text.drop lead.length) else none

/-- the parts before and after the first of a delimiter -/
def splitOnce (delimiter : Char) (text : List Char) : Option (List Char × List Char) :=
  if delimiter ∈ text then some (text.takeWhile (· ≠ delimiter), (text.dropWhile (· ≠ delimiter)).tail) else none

theorem takeWhile_delimiter {c : Char} {u : List Char} (h : c ∉ u) (v : List Char) : (u ++ c :: v).takeWhile (· ≠ c) = u := by
  have hu : ∀ x ∈ u, decide (x ≠ c) = true := fun x hx => decide_eq_true fun heq => h (heq ▸ hx)
  have hc : (c :: v).takeWhile (· ≠ c) = [] := List.takeWhile_cons_of_neg fun hne => of_decide_eq_true hne rfl
  rw [List.takeWhile_append_of_pos hu, hc, List.append_nil]

theorem splitOnce_delimiter {c : Char} {u : List Char} (h : c ∉ u) (v : List Char) :
    splitOnce c (u ++ c :: v) = some (u, v) := by
  have hlen : (u ++ c :: v).dropWhile (· ≠ c) = c :: v := by
    have hsplit := List.takeWhile_append_dropWhile (p := (· ≠ c)) (l := u ++ c :: v)
    rw [takeWhile_delimiter h] at hsplit
    exact List.append_cancel_left hsplit
  rw [splitOnce, if_pos (List.mem_append_right u List.mem_cons_self), takeWhile_delimiter h, hlen, List.tail_cons]

theorem splitOnce_eq_none {c : Char} {text : List Char} (h : c ∉ text) : splitOnce c text = none := if_neg h

theorem stripPrefix_self (lead text : List Char) : stripPrefix lead (lead ++ text) = some text := by
  rw [stripPrefix, if_pos (List.prefix_append lead text), List.drop_left]

theorem mem_of_stripPrefix {lead text rest : List Char} (h : stripPrefix lead text = some rest) {c : Char} (hc : c ∈ rest) :
    c ∈ text := by
  rw [stripPrefix, Option.ite_none_right_eq_some] at h
  obtain ⟨-, heq⟩ := h
  rw [← Option.some.inj heq] at hc
  exact List.mem_of_mem_drop hc

/-- what comes after a delimiter plays no part in a prefix without it -/
theorem stripPrefix_delimiter {c : Char} {lead : List Char} (h : c ∉ lead) (u v : List Char) :
    stripPrefix lead (u ++ c :: v) = (stripPrefix lead u).map (· ++ c :: v) := by
  have hiff : lead <+: u ++ c :: v ↔ lead <+: u := by
    induction lead generalizing u with
    | nil => exact iff_of_true List.nil_prefix List.nil_prefix
    | cons a lead ih =>
      have hrest : c ∉ lead := fun hmem => h (List.mem_cons_of_mem a hmem)
      cases u with
      | nil =>
        refine iff_of_false (fun hp => ?_) (fun hp => List.cons_ne_nil a lead (List.prefix_nil.1 hp))
        exact h ((List.cons_prefix_cons.1 hp).1 ▸ List.mem_cons_self)
      | cons x u => rw [List.cons_append, List.cons_prefix_cons, List.cons_prefix_cons, ih hrest]
  rw [stripPrefix, stripPrefix]
  by_cases hp : lead <+: u
  · rw [if_pos (hiff.2 hp), if_pos hp, Option.map_some, List.drop_append_of_le_length hp.length_le]
  · rw [if_neg (mt hiff.1 hp), if_neg hp, Option.map_none]

theorem mem_of_trimStart {text : List Char} {c : Char} (h : c ∈ trimStart text) : c ∈ text :=
  (List.dropWhile_sublist _).subset h

theorem trimStart_delimiter {c : Char} (h : isWhitespace c = false) (u v : List Char) :
    trimStart (u ++ c :: v) = trimStart u ++ c :: v := by
  have hv : (c :: v).dropWhile isWhitespace = c :: v := List.dropWhile_cons_of_neg (by rw [h]; exact Bool.false_ne_true)
  rw [trimStart, List.dropWhile_append, hv, trimStart]
  split
  next hempty => rw [List.isEmpty_iff.1 hempty, List.nil_append]
  next => rfl

theorem trimStart_spaces {c : Char} (h : isWhitespace c = false) (n : ℕ) (v : List Char) :
    trimStart (List.replicate n ' ' ++ c :: v) = c :: v := by
  have hspaces : trimStart (List.replicate n ' ') = [] := by
    induction n with
    | zero => rfl
    | succ n ih => exact ih
  rw [trimStart_delimiter h, hspaces, List.nil_append]

def dropCr (line : List Char) : List Char := if line.getLast? = some '\r' then line.dropLast else line

def linesFrom (line : List Char) : List Char → List (List Char)
  | [] => if line = [] then [] else [line]
  | c :: cs => if c = '\n' then dropCr line :: linesFrom [] cs else linesFrom (line ++ [c]) cs

/-- `str::lines` -/
def lines (text : List Char) : List (List Char) := linesFrom [] text

theorem linesFrom_partial {line text : List Char} (h : '\n' ∉ text) :
    linesFrom line text = if line ++ text = [] then [] else [line ++ text] := by
  induction text generalizing line with
  | nil => rw [linesFrom, List.append_nil]
  | cons c text ih =>
    have hc : c ≠ '\n' := fun heq => h (heq ▸ List.mem_cons_self)
    rw [linesFrom, if_neg hc, ih fun hmem => h (List.mem_cons_of_mem c hmem), List.append_assoc, List.singleton_append]

theorem linesFrom_newline {line text : List Char} (rest : List Char) (h : '\n' ∉ text) :
    linesFrom line (text ++ '\n' :: rest) = dropCr (line ++ text) :: lines rest := by
  induction text generalizing line with
  | nil => rw [List.nil_append, linesFrom, if_pos rfl, List.append_nil, lines]
  | cons c text ih =>
    have hc : c ≠ '\n' := fun heq => h (heq ▸ List.mem_cons_self)
    rw [List.cons_append, linesFrom, if_neg hc, ih fun hmem => h (List.mem_cons_of_mem c hmem), List.append_assoc,
      List.singleton_append]

/-! ## The first line that says something -/

section Lines

variable {α : Type} {f : List Char → Option α} {delimiter : UInt8}

def firstInLines (f : List Char → Option α) (bytes : List UInt8) : Option α := (lines (fromUtf8Lossy bytes)).findSome? f

/-- a line says what it says by its part before the first of a delimiter -/
def SaysBefore (delimiter : UInt8) (f : List Char → Option α) : Prop :=
  ∃ g : List Char → Option α, ∀ line, f line = (splitOnce (ascii delimiter) line).bind fun parts => g parts.1

theorem SaysBefore.eq_none (hf : SaysBefore delimiter f) {line : List Char} (h : ascii delimiter ∉ line) : f line = none := by
  obtain ⟨g, hg⟩ := hf
  rw [hg, splitOnce_eq_none h]
  rfl

theorem SaysBefore.append (hf : SaysBefore delimiter f) {u : List Char} (h : ascii delimiter ∉ u) (v w : List Char) :
    f (u ++ ascii delimiter :: v) = f (u ++ ascii delimiter :: w) := by
  obtain ⟨g, hg⟩ := hf
  rw [hg, hg, splitOnce_delimiter h, splitOnce_delimiter h, Option.bind_some, Option.bind_some]

theorem SaysBefore.dropCr (hf : SaysBefore delimiter f) (hcr : ascii delimiter ≠ '\r') (line : List Char) :
    f (dropCr line) = f line := by
  rw [Utf8.dropCr]
  split
  next hlast =>
    obtain ⟨short, rfl⟩ := List.getLast?_eq_some_iff.1 hlast
    rw [List.dropLast_concat]
    by_cases hmem : ascii delimiter ∈ short
    · obtain ⟨u, v, rfl, hu⟩ := List.eq_append_cons_of_mem hmem
      rw [List.append_assoc, List.cons_append]
      exact hf.append hu _ _
    · have hnot : ascii delimiter ∉ short ++ ['\r'] := by
        rw [List.mem_append, List.mem_singleton]
        exact not_or.2 ⟨hmem, hcr⟩
      rw [hf.eq_none hmem, hf.eq_none hnot]
  next => rfl

/-- once a line says something, the bytes that follow on it do not change it -/
theorem SaysBefore.stable (hf : SaysBefore delimiter f) (hascii : delimiter.toNat < 0x80) {line : List UInt8} {x : α}
    (h : f (fromUtf8Lossy line) = some x) (more : List UInt8) : f (fromUtf8Lossy (line ++ more)) = some x := by
  by_cases hmem : delimiter ∈ line
  · obtain ⟨u, v, rfl, hu⟩ := List.eq_append_cons_of_mem hmem
    have hnot : ascii delimiter ∉ fromUtf8Lossy u := fun hin => hu ((mem_fromUtf8Lossy hascii).1 hin)
    rw [fromUtf8Lossy_ascii u v hascii] at h
    rw [List.append_assoc, List.cons_append, fromUtf8Lossy_ascii u _ hascii, hf.append hnot _ (fromUtf8Lossy v), h]
  · rw [hf.eq_none fun hin => hmem ((mem_fromUtf8Lossy hascii).1 hin)] at h
    cases h

/-- the bytes read one at a time, with the open line -/
def scan (f : List Char → Option α) (line : List UInt8) : List UInt8 → Option α
  | [] => f (fromUtf8Lossy line)
  | b :: bs => if b = 0x0A then (f (fromUtf8Lossy line)).or (scan f [] bs) else scan f (line ++ [b]) bs

theorem firstInLines_scan (hf : SaysBefore delimiter f) (hcr : ascii delimiter ≠ '\r') {line : List UInt8}
    (hline : 0x0A ∉ line) (bytes : List UInt8) : firstInLines f (line ++ bytes) = scan f line bytes := by
  have hnewline : '\n' ∉ fromUtf8Lossy line := fun hin =>
    hline ((mem_fromUtf8Lossy (b := 0x0A) (by decide)).1 hin)
  induction bytes generalizing line with
  | nil =>
    rw [List.append_nil, scan, firstInLines, lines, linesFrom_partial hnewline, List.nil_append]
    split
    next hempty => rw [hempty, hf.eq_none List.not_mem_nil, List.findSome?_nil]
    next => rw [List.findSome?_singleton]
  | cons b bytes ih =>
    rw [scan]
    split
    next hb =>
      have hrest := @ih [] List.not_mem_nil List.not_mem_nil
      rw [List.nil_append, firstInLines] at hrest
      rw [hb, firstInLines, fromUtf8Lossy_ascii line bytes (by decide)]
      change (linesFrom [] (fromUtf8Lossy line ++ '\n' :: fromUtf8Lossy bytes)).findSome? f = _
      rw [linesFrom_newline _ hnewline, List.nil_append, List.findSome?_cons, hf.dropCr hcr, hrest]
      cases f (fromUtf8Lossy line) with
      | none => rfl
      | some x => rfl
    next hb =>
      have hopen : 0x0A ∉ line ++ [b] := by
        rw [List.mem_append, List.mem_singleton]
        exact not_or.2 ⟨hline, fun heq => hb heq.symm⟩
      have hrest := ih hopen fun hin => hopen ((mem_fromUtf8Lossy (b := 0x0A) (by decide)).1 hin)
      rw [← hrest, List.append_assoc, List.singleton_append]

theorem scan_said (hf : SaysBefore delimiter f) (hascii : delimiter.toNat < 0x80) {line : List UInt8} {x : α}
    (h : f (fromUtf8Lossy line) = some x) (bytes : List UInt8) : scan f line bytes = some x := by
  induction bytes generalizing line with
  | nil => exact h
  | cons b bytes ih =>
    rw [scan, h]
    split
    · rfl
    · exact ih (hf.stable hascii h [b])

theorem scan_append (hf : SaysBefore delimiter f) (hascii : delimiter.toNat < 0x80) {line bytes : List UInt8} {x : α}
    (h : scan f line bytes = some x) (more : List UInt8) : scan f line (bytes ++ more) = some x := by
  induction bytes generalizing line with
  | nil => exact scan_said hf hascii h more
  | cons b bytes ih =>
    rw [List.cons_append]
    rw [scan] at h ⊢
    split at h
    next hb =>
      rw [if_pos hb]
      rcases Option.or_eq_some_iff.1 h with hline | ⟨hline, hrest⟩
      · rw [hline, Option.some_or]
      · rw [hline, Option.none_or, ih hrest]
    next hb =>
      rw [if_neg hb]
      exact ih h

/-- **What the first line says stands, however the bytes go on** -/
theorem firstInLines_append (hf : SaysBefore delimiter f) (hascii : delimiter.toNat < 0x80) (hcr : ascii delimiter ≠ '\r')
    {bytes : List UInt8} {x : α} (h : firstInLines f bytes = some x) (more : List UInt8) :
    firstInLines f (bytes ++ more) = some x := by
  have hscan (all : List UInt8) : firstInLines f all = scan f [] all := firstInLines_scan hf hcr List.not_mem_nil all
  rw [hscan] at h ⊢
  exact scan_append hf hascii h more

theorem scan_skip {line u : List UInt8} (h : scan f line (u ++ [0x0A]) = none) (more : List UInt8) :
    scan f line (u ++ 0x0A :: more) = scan f [] more := by
  induction u generalizing line with
  | nil =>
    rw [List.nil_append, scan, if_pos rfl, Option.or_eq_none_iff] at h
    rw [List.nil_append, scan, if_pos rfl, h.1, Option.none_or]
  | cons b u ih =>
    rw [List.cons_append, scan] at h ⊢
    split at h
    next hb =>
      rw [Option.or_eq_none_iff] at h
      rw [if_pos hb, h.1, Option.none_or, ih h.2]
    next hb => rw [if_neg hb, ih h]

/-- complete lines that say nothing are passed over -/
theorem firstInLines_skip (hf : SaysBefore delimiter f) (hcr : ascii delimiter ≠ '\r') {before : List UInt8}
    (hend : before = [] ∨ before.getLast? = some 0x0A) (h : firstInLines f before = none) (more : List UInt8) :
    firstInLines f (before ++ more) = firstInLines f more := by
  have hscan (all : List UInt8) : firstInLines f all = scan f [] all := firstInLines_scan hf hcr List.not_mem_nil all
  rcases hend with rfl | hlast
  · rfl
  · obtain ⟨u, rfl⟩ := List.getLast?_eq_some_iff.1 hlast
    rw [hscan] at h
    rw [hscan, hscan, List.append_assoc, List.singleton_append, scan_skip h]

/-- a complete line that says something comes first -/
theorem firstInLines_line (hf : SaysBefore delimiter f) (hcr : ascii delimiter ≠ '\r') (hascii : delimiter.toNat < 0x80)
    {line : List UInt8} {x : α} (h : f (fromUtf8Lossy line) = some x) (hline : 0x0A ∉ line) (more : List UInt8) :
    firstInLines f (line ++ more) = some x := by
  rw [firstInLines_scan hf hcr hline, scan_said hf hascii h]

end Lines

end Hyperlane.Utf8
