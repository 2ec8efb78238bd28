import Chip8.Display
import Chip8.Guarded.Access
import Chip8.Machine

/-!
# Settings

What a user decides before a session starts. Counts are 32-bit words, and so are the measures of a
window: its width and height are the products of a picture's with the scale. Neither product may
need more bits than a word has, and nothing else bounds the scale.
-/

namespace Chip8.Host

/-- A number that a user can set. -/
abbrev Count := BitVec 32

/-- What a user decides. -/
structure Settings where
  /-- Where the program is stored. -/
  rom : String
  /-- How many frames are played in a second. -/
  frameRate : Count
  /-- How many steps the machine takes in a frame. -/
  stepsPerFrame : Count
  /-- How many pixels of the screen a pixel of the picture is wide and high. -/
  scale : Count
deriving DecidableEq

namespace Settings

/-- How long a frame lasts, in nanoseconds, rounded down. -/
def framePeriod (s : Settings) : Nat := 1000000000 / s.frameRate.toNat

end Settings

/-- The window that the program asks for. -/
structure Window where
  /-- What the title bar says. -/
  title : String
  /-- How many pixels of the screen it is wide. -/
  width : Count
  /-- How many pixels of the screen it is high. -/
  height : Count
deriving DecidableEq

/-- How many pixels of the screen some pixels of the picture take. -/
def Window.measure (pixels : Nat) (scale : Count) : Except Guarded.Fault Count :=
  (Guarded.mul 32 pixels scale.toNat).map (.ofNat 32)

/-- The window for a picture at some scale. -/
def Window.ofScale (scale : Count) : Except Guarded.Fault Window := do
  let width ← measure Frame.width scale
  let height ← measure Frame.height scale
  return { title := "vm8", width, height }

end Chip8.Host
