import Chip8.Word

/-!
# Guarded access

Cells in a row, numbered from 0, do not answer to every number, and a sum may be
too large for its width.  The operations here check both, and stop with a fault
where the check fails.  Sums and products that are meant to wrap around are not
among them.
-/

namespace Chip8.Guarded

/-- What an unguarded operation would do wrong. -/
inductive Fault where
  /-- There is no cell with this number. -/
  | outOfBounds (index size : Nat)
  /-- A sum or a product needs more bits than there are. -/
  | overflow (width : Nat)
  /-- A word is shifted by as many places as it has bits, or by more. -/
  | overshift (width places : Nat)
deriving DecidableEq

variable {α : Type}

/-- Reads a cell. -/
def readCell (cells : List α) (i : Nat) : Except Fault α :=
  match cells[i]? with
  | some a => .ok a
  | none => .error (.outOfBounds i cells.length)

/-- Writes a cell. -/
def writeCell (cells : List α) (i : Nat) (a : α) : Except Fault (List α) :=
  if i < cells.length then .ok (cells.set i a)
  else .error (.outOfBounds i cells.length)

/-- A sum that must fit in a width. -/
def add (w a b : Nat) : Except Fault Nat :=
  if a + b < 2 ^ w then .ok (a + b) else .error (.overflow w)

/-- A product that must fit in a width. -/
def mul (w a b : Nat) : Except Fault Nat :=
  if a * b < 2 ^ w then .ok (a * b) else .error (.overflow w)

/-- Shifts a word to the right by fewer places than it has bits. -/
def shiftRight {w : Nat} (a : BitVec w) (places : Nat) : Except Fault (BitVec w) :=
  if places < w then .ok (a >>> places) else .error (.overshift w places)

/-- Shifts a word to the left by fewer places than it has bits. -/
def shiftLeft {w : Nat} (a : BitVec w) (places : Nat) : Except Fault (BitVec w) :=
  if places < w then .ok (a <<< places) else .error (.overshift w places)

/-- The width of the numbers that count cells. -/
def indexWidth : Nat := 64

/-- Overwrites cells one after the other, from `start` on. -/
def copyInto (cells : List α) (start : Nat) (values : List α) :
    Except Fault (List α) := do
  let stop ← add indexWidth start values.length
  if stop ≤ cells.length then
    .ok (cells.take start ++ values ++ cells.drop stop)
  else .error (.outOfBounds stop cells.length)

end Chip8.Guarded
