import Chip8.Bank
import Chip8.Opcode.Text

/-!
# Notices

What the machine reports while it works. A notice holds the facts; its level says how much they
matter, and its text is the line that a log shows.
-/

namespace Chip8

/-- How much a line of a log matters. -/
inductive Level where
  | error
  | warn
  | info
  | debug
  | trace
deriving DecidableEq

namespace Level

/-- The name of a level in a log. -/
def name : Level → String
  | .error => "ERROR"
  | .warn => "WARN"
  | .info => "INFO"
  | .debug => "DEBUG"
  | .trace => "TRACE"

/-- How far a level is from mattering most. -/
def rank : Level → Nat
  | .error => 0
  | .warn => 1
  | .info => 2
  | .debug => 3
  | .trace => 4

/-- Whether a log that is shown up to a threshold shows this level. -/
def shownAt (level threshold : Level) : Bool := level.rank ≤ threshold.rank

end Level

/-- Something that the machine reports. -/
inductive Notice where
  /-- An instruction is about to be executed, with what it finds in the registers. -/
  | executing (op : Opcode) (pc i : Word) (sp : Byte) (v : Bank 4 Byte)
  /-- A word is no instruction. -/
  | unrecognised (op : Opcode)
  /-- The machine stops until a key is pressed. -/
  | awaitingKey (x : Register)
  /-- A key press went into a register, and the machine goes on. -/
  | storedKey (key : Key) (x : Register)
  /-- A program of some size was loaded. -/
  | loaded (size : Nat)
  /-- A byte that names no key was pressed. -/
  | unknownKey (b : Byte)
deriving DecidableEq

namespace Notice

/-- How much a notice matters. -/
def level : Notice → Level
  | .executing .. => .trace
  | .unrecognised _ | .awaitingKey _ | .storedKey .. => .debug
  | .loaded _ => .info
  | .unknownKey _ => .warn

/-- How many columns a log keeps for an assembly line. -/
def assemblyWidth : Nat := 16

/-- A text with blanks at its end, so that it takes at least so many columns. -/
def padded (width : Nat) (s : String) : String :=
  s ++ .ofList (.replicate (width - s.length) ' ')

/-- The registers V0 to VF in hexadecimal. -/
def registersText (v : Bank 4 Byte) : String :=
  "[" ++ ", ".intercalate (v.toList.map (Hex.text 2)) ++ "]"

/-- The line that a log shows. -/
def text : Notice → String
  | .executing op pc i sp v =>
    Hex.text 4 op.word ++ " " ++ padded assemblyWidth op.text ++ " pc" ++ Hex.text 4 pc ++
      " i" ++ Hex.text 4 i ++ " sp" ++ Hex.text 2 sp ++ " v" ++ registersText v
  | .unrecognised op => "Ignoring unrecognised opcode " ++ Hex.text 4 op.word
  | .awaitingKey x => "Waiting for key press into V" ++ Hex.text 1 x
  | .storedKey key x => "Stored key " ++ Hex.text 1 key ++ " in V" ++ Hex.text 1 x ++ ", resuming"
  | .loaded size => "Loaded program [size: " ++ toString size ++ "]"
  | .unknownKey b => "ignoring key down for unknown key 0x" ++ Hex.text 2 b

end Notice

end Chip8
