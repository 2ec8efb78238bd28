import Chip8.Display
import Chip8.Keyboard

/-!
# Displays and keypads on their own

Before a machine takes possession of them, a display and a keypad can be used on
their own.  What is done to them is data, as it is for a machine.
-/

namespace Chip8

/-- Something done to a display. -/
inductive Display.Call where
  /-- The pixel at some coordinates is flipped. -/
  | drawPixel (x y : Nat)
  /-- The picture is cleared. -/
  | clear
  /-- Somebody asks for the picture. -/
  | take
deriving DecidableEq

/-- Something done to a keypad. -/
inductive Keyboard.Call (ρ : Type) where
  /-- A key goes down. -/
  | keyDown (b : Byte)
  /-- A key goes up. -/
  | keyUp (b : Byte)
  /-- Somebody asks for the next key press. -/
  | ask (who : ρ)
  /-- The request is forgotten. -/
  | withdraw
deriving DecidableEq

/-- The display after one call. -/
def Display.receive (d : Display) : Call → Display
  | .drawPixel x y => (d.drawPixel x y).1
  | .clear => d.clear
  | .take => d.take.1

/-- The display after some calls. -/
def Display.receiveAll (d : Display) (calls : List Call) : Display :=
  calls.foldl receive d

/-- The keypad after one call. -/
def Keyboard.receive {ρ : Type} (k : Keyboard ρ) : Call ρ → Keyboard ρ
  | .keyDown b => (k.keyDown b).1
  | .keyUp b => k.keyUp b
  | .ask who => k.ask who
  | .withdraw => k.withoutRequest

/-- The keypad after some calls. -/
def Keyboard.receiveAll {ρ : Type} (k : Keyboard ρ) (calls : List (Call ρ)) :
    Keyboard ρ :=
  calls.foldl receive k

end Chip8
