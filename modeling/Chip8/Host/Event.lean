import Chip8.Word

/-!
# Host events

What a window tells the program: keys of the host's keyboard going down and up, the wish to quit,
and things that do not matter here. Sixteen of the host's keys stand for the keypad:

    |1|2|3|C|      |1|2|3|4|
    |4|5|6|D|  on  |Q|W|E|R|
    |7|8|9|E|      |A|S|D|F|
    |A|0|B|F|      |Z|X|C|V|
-/

namespace Chip8.Host

/-- A key of the host's keyboard, by its name. -/
structure HostKey where
  /-- The name that the host gives the key. -/
  name : String
deriving DecidableEq

namespace HostKey

/-- The space bar, which suspends the machine and resumes it. -/
def space : HostKey := ⟨"Space"⟩

/-- The escape key, which ends the program. -/
def escape : HostKey := ⟨"Escape"⟩

/-- Which key of the keypad a key of the host stands for. -/
def layout : List (HostKey × Key) := [
  (⟨"Num1"⟩, 0x1), (⟨"Num2"⟩, 0x2), (⟨"Num3"⟩, 0x3), (⟨"Num4"⟩, 0xC),
  (⟨"Q"⟩, 0x4), (⟨"W"⟩, 0x5), (⟨"E"⟩, 0x6), (⟨"R"⟩, 0xD),
  (⟨"A"⟩, 0x7), (⟨"S"⟩, 0x8), (⟨"D"⟩, 0x9), (⟨"F"⟩, 0xE),
  (⟨"Z"⟩, 0xA), (⟨"X"⟩, 0x0), (⟨"C"⟩, 0xB), (⟨"V"⟩, 0xF)]

/-- The key of the keypad that a key of the host stands for, if it is part of the layout. -/
def keypad? (k : HostKey) : Option Key := layout.lookup k

end HostKey

/-- Something that a window tells the program. A key that the host has no name for is `none`. -/
inductive Event where
  /-- A key goes down, or is held so long that the host repeats it. -/
  | keyDown (key : Option HostKey) (repeated : Bool)
  /-- A key goes up. -/
  | keyUp (key : Option HostKey)
  /-- The window is closed. -/
  | quit
  /-- Something else, such as a move of the mouse. -/
  | other
deriving DecidableEq

/-- Whether an event ends the program. -/
def Event.ends : Event → Bool
  | .quit => true
  | .keyDown (some key) false => key = .escape
  | _ => false

end Chip8.Host
