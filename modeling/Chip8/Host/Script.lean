import Chip8.Host.Session

/-!
# Scripts as text

A session can be played without a window: the events come from lines of text, one line for each
frame, and pictures are written with a character for each pixel.
-/

namespace Chip8.Host

/-- The event that a word stands for: `+Q` and `-Q` for the key named Q going down and up, `*Q` for
a repeated press, `quit`, and anything else for an event without a meaning. -/
def Event.ofWord (word : String) : Event :=
  match word.toList with
  | '+' :: name => .keyDown (some ⟨.ofList name⟩) false
  | '*' :: name => .keyDown (some ⟨.ofList name⟩) true
  | '-' :: name => .keyUp (some ⟨.ofList name⟩)
  | _ => if word = "quit" then .quit else .other

/-- The events of a line, whose words stand apart. -/
def Event.ofLine (line : String) : List Event :=
  ((line.trimAscii.toString.splitOn " ").filter (· ≠ "")).map ofWord

end Chip8.Host

namespace Chip8

/-- A picture as lines of text, a character for each pixel. -/
def Frame.text (f : Frame) : String :=
  "\n".intercalate (f.rows.map fun row => .ofList (row.map fun lit => if lit then '#' else '.'))

end Chip8
