/-
Numbers and bytes as text, the way the standard library and the hex crate read and write them.

- `parseUnsigned`, `parseSigned`: `str::parse` of the integer types.
- `hexDecode`, `hexEncode`: pairs of digits, read in either case and written in lower case.
-/
import Mathlib.Tactic

namespace Hyperlane.Text

def decimalDigit (c : Char) : Option ℕ := if '0' ≤ c ∧ c ≤ '9' then some (c.toNat - '0'.toNat) else none

def parseDigits (digits : List Char) : Option ℕ :=
  if digits = [] then none else (digits.mapM decimalDigit).map (List.foldl (10 * · + ·) 0)

/-- digits after one plus sign at most, below a bound -/
def parseUnsigned (bound : ℕ) (text : List Char) : Option ℕ :=
  let digits := match text with
    | '+' :: rest => rest
    | all => all
  (parseDigits digits).filter (· < bound)

/-- digits after one sign at most, from `-bound` up to below `bound` -/
def parseSigned (bound : ℕ) : List Char → Option ℤ
  | '-' :: digits => ((parseDigits digits).filter (· ≤ bound)).map fun n => -(n : ℤ)
  | text => (parseUnsigned bound text).map fun n => (n : ℤ)

def hexDigit (c : Char) : Option ℕ :=
  if '0' ≤ c ∧ c ≤ '9' then some (c.toNat - '0'.toNat)
  else if 'a' ≤ c ∧ c ≤ 'f' then some (c.toNat - 'a'.toNat + 10)
  else if 'A' ≤ c ∧ c ≤ 'F' then some (c.toNat - 'A'.toNat + 10)
  else none

def hexDecode : List Char → Option (List UInt8)
  | [] => some []
  | [_] => none
  | high :: low :: rest => do
    let high ← hexDigit high
    let low ← hexDigit low
    let bytes ← hexDecode rest
    some (UInt8.ofNat (16 * high + low) :: bytes)

def hexChar (n : ℕ) : Char := ['0', '1', '2', '3', '4', '5', '6', '7', '8', '9', 'a', 'b', 'c', 'd', 'e', 'f'].getD n '0'

def hexEncode (bytes : List UInt8) : List Char :=
  bytes.flatMap fun b => [hexChar (b.toNat / 16), hexChar (b.toNat % 16)]

end Hyperlane.Text
