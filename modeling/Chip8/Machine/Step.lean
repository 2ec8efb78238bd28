import Chip8.Machine.Execute
import Chip8.Notice

/-!
# Steps

A step lets both timers tick, takes the opcode that the program counter points at, moves the
program counter past it and carries out the operation that it selects. While the machine waits for
a key a step does nothing.

The other way in is the keypad: the press of a key ends the wait and lands in the waiting register.
-/

namespace Chip8

/-- One less, but not below zero. -/
def Byte.countDown (b : Byte) : Byte := if b = 0 then 0 else b - 1

/-- What an opcode reports when its operation is selected and carried out. -/
def Opcode.notices (op : Opcode) : List Notice :=
  match op.operation with
  | .nop => [.unrecognised op]
  | .awaitKey => [.awaitingKey op.x]
  | _ => []

/-- What the keypad itself reports when a key goes down: whether there is no such key. -/
def Keyboard.keyDownNotices {ρ : Type} (_ : Keyboard ρ) (b : Byte) : List Notice :=
  if (Key.ofByte? b).isSome then [] else [.unknownKey b]

namespace Machine

/-- The opcode that the program counter points at. -/
def fetch (m : Machine) : Opcode := .ofBytes (m.read m.pc) (m.read (m.pc + 1))

/-- The machine when its next instruction takes effect: the timers have ticked, and the program
counter is past the instruction. -/
def advance (m : Machine) : Machine :=
  { m with delay := m.delay.countDown, sound := m.sound.countDown, pc := m.pc + 2 }

/-- One step; the byte is the random one that it may draw. -/
def step (random : Byte) (m : Machine) : Machine :=
  if m.paused then m else m.fetch.operation.run m.fetch random m.advance

/-- What a step reports. -/
def stepNotices (m : Machine) : List Notice :=
  if m.paused then [] else .executing m.fetch m.pc m.i m.sp m.v :: m.fetch.notices

/-- A key goes down. A register that waits for one takes it. -/
def keyDown (b : Byte) (m : Machine) : Machine :=
  let (keyboard, register) := m.keyboard.keyDown b
  match register with
  | some x => { m with keyboard := keyboard, v := m.v.set x b }
  | none => { m with keyboard := keyboard }

/-- What the press of a key reports. -/
def keyDownNotices (b : Byte) (m : Machine) : List Notice :=
  m.keyboard.keyDownNotices b ++
    match Key.ofByte? b with
    | some key => m.waiting.toList.map (.storedKey key)
    | none => []

/-- A key goes up. -/
def keyUp (b : Byte) (m : Machine) : Machine := { m with keyboard := m.keyboard.keyUp b }

/-- Hands the picture over if it changed since the last time. -/
def takeFrame (m : Machine) : Machine × Option Frame :=
  let (display, frame) := m.display.take
  ({ m with display := display }, frame)

end Machine

end Chip8
