/-
Readers of byte streams, and writers they undo.

A reader takes what it needs from the front of a stream and leaves the rest. It is self-delimiting for a writer if it
reads back what was written, whatever follows: such values can be put into containers. A value whose reader takes the
whole stream can only come last.

- `SelfDelimiting.many`: values one after the other.
- `readMany_of_greedy`: of values that are read to the end of the stream, only one can be read back.
-/
import Hyperlane.Core.Outcome

namespace Hyperlane.Codec

open Hyperlane.Outcome

variable {ε α β : Type}

/-- takes a value from the front of a stream -/
abbrev Reader (ε β α : Type) := List β → Except ε (α × List β)

/-- reads back what was written, whatever follows -/
def SelfDelimiting (write : α → List β) (read : Reader ε β α) : Prop :=
  ∀ x rest, read (write x ++ rest) = .ok (x, rest)

/-- `n` values, one after the other -/
def readMany (read : Reader ε β α) : ℕ → Reader ε β (List α)
  | 0, bs => .ok ([], bs)
  | n + 1, bs => do
    let (x, bs) ← read bs
    let (xs, bs) ← readMany read n bs
    .ok (x :: xs, bs)

theorem SelfDelimiting.many {write : α → List β} {read : Reader ε β α} (h : SelfDelimiting write read) (xs : List α)
    (rest : List β) : readMany read xs.length ((xs.map write).flatten ++ rest) = .ok (xs, rest) := by
  induction xs with
  | nil => rfl
  | cons x xs ih =>
    rw [List.length_cons, readMany, List.map_cons, List.flatten_cons, List.append_assoc, h x]
    change (do
      let (xs, bs) ← readMany read xs.length ((xs.map write).flatten ++ rest)
      .ok (x :: xs, bs)) = _
    rw [ih]
    rfl

/-- after a value that is read to the end of the stream, nothing is left for the next one -/
theorem readMany_of_greedy {read : Reader ε β α} {bs : List β} {x : α} (hgreedy : read bs = .ok (x, []))
    {e : ε} (hempty : read [] = .error e) (n : ℕ) : readMany read (n + 2) bs = .error e := by
  rw [readMany, hgreedy]
  change (do
    let (xs, bs) ← readMany read (n + 1) []
    .ok (x :: xs, bs)) = _
  rw [readMany, hempty]
  rfl

end Hyperlane.Codec
