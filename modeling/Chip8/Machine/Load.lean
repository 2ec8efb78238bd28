import Chip8.Machine

/-!
# Loading programs

A program is copied into memory as a whole or not at all. It may come from a reader, which hands
its bytes out in pieces and may fail before the end.
-/

namespace Chip8

/-- Why a program was not loaded. -/
inductive LoadError where
  /-- The program does not fit in memory. -/
  | tooLarge (size : Nat)
  /-- The reader failed. -/
  | unreadable (reason : String)
deriving DecidableEq

/-- The message for a program that was not loaded. -/
def LoadError.message : LoadError → String
  | .tooLarge size =>
    "program is too large (" ++ toString size ++ " bytes), at most " ++
      toString Machine.maxProgramSize ++ " bytes fit in memory"
  | .unreadable _ => "unable to read program"

/-- What a reader answers when it is asked for bytes. -/
inductive Reading where
  /-- Some bytes; none at all mean that the end is reached. -/
  | bytes (bytes : List Byte)
  /-- Nothing yet: one should ask again. -/
  | interrupted
  /-- The source is broken. -/
  | failed (reason : String)
deriving DecidableEq

/-- All bytes up to the end, or the first failure; when the answers run out, the end is reached. -/
def Reading.collect : List Reading → Except String (List Byte)
  | [] => .ok []
  | .bytes [] :: _ => .ok []
  | .bytes chunk :: rest => (collect rest).map (chunk ++ ·)
  | .interrupted :: rest => collect rest
  | .failed reason :: _ => .error reason

namespace Machine

/-- Copies a program to where execution starts. All else stays, bytes of a longer program that was
there before included. -/
def load (program : List Byte) (m : Machine) : Except LoadError Machine :=
  if program.length ≤ maxProgramSize then
    .ok { m with memory := m.memory.writeFrom programStart.address program }
  else
    .error (.tooLarge program.length)

/-- Loads what a reader hands out. -/
def loadFrom (readings : List Reading) (m : Machine) : Except LoadError Machine :=
  match Reading.collect readings with
  | .ok program => m.load program
  | .error reason => .error (.unreadable reason)

end Machine

end Chip8
