import Chip8.Guarded.Access
import Chip8.Machine.Command
import Chip8.Peripherals

/-!
# The guarded machine

The machine once more, laid out in rows of cells that are numbered from 0, with
one byte for each pixel and with any number at all for the register that waits
for a key.  It masks digits out of words, reduces addresses and coordinates by
remainders, adds coordinates, and visits registers and sprite rows in loops; and
every cell it touches, every sum or product that is not meant to wrap around and
every shift goes through a guard.  What it does is otherwise what the machine
does, in the same order.
-/

namespace Chip8

namespace Opcode

/-- The second digit, as the number of a register. -/
def xIndex (op : Opcode) : Except Guarded.Fault Nat :=
  return (← Guarded.shiftRight (op.word &&& 0x0F00) 8).toNat

/-- The third digit, as the number of a register. -/
def yIndex (op : Opcode) : Except Guarded.Fault Nat :=
  return (← Guarded.shiftRight (op.word &&& 0x00F0) 4).toNat

/-- The last digit, as a number of rows. -/
def rowCount (op : Opcode) : Nat := (op.word &&& 0x000F).toNat

/-- The last two digits, masked. -/
def maskedByte (op : Opcode) : Byte := (op.word &&& 0x00FF).setWidth 8

/-- The last three digits, masked. -/
def maskedAddress (op : Opcode) : Word := op.word &&& 0x0FFF

end Opcode

namespace Guarded

/-- A picture as rows of bytes, each 0 or 1, together with the news about it. -/
structure Display where
  /-- The rows from the top, each with its pixels from the left. -/
  rows : List (List Byte)
  /-- Whether the picture changed since it was last taken. -/
  changed : Bool
deriving DecidableEq

namespace Display

/-- A dark display that nobody has drawn on. -/
def blank : Display :=
  ⟨.replicate Frame.height (.replicate Frame.width 0), false⟩

/-- Turns every pixel off. -/
def clear (_ : Display) : Display :=
  ⟨.replicate Frame.height (.replicate Frame.width 0), true⟩

/-- Flips the pixel at any coordinates, and says whether it was lit. -/
def drawPixel (d : Display) (x y : Nat) : Except Fault (Display × Bool) := do
  let row ← readCell d.rows (y % Frame.height)
  let pixel ← readCell row (x % Frame.width)
  let row ← writeCell row (x % Frame.width) (pixel ^^^ 1)
  let rows ← writeCell d.rows (y % Frame.height) row
  return (⟨rows, true⟩, pixel == 1)

/-- The display after the picture was handed over. -/
def taken (d : Display) : Display := { d with changed := false }

/-- Three bytes for each pixel, each 255 times the pixel. -/
def intensities (d : Display) : Except Fault (List Nat) := do
  let bytes ← d.rows.flatten.mapM fun pixel => mul 8 pixel.toNat 255
  return bytes.flatMap (List.replicate 3)

/-- The display after one call. -/
def receive (d : Display) : Chip8.Display.Call → Except Fault Display
  | .drawPixel x y => return (← d.drawPixel x y).1
  | .clear => return d.clear
  | .take => return d.taken

/-- The display after some calls. -/
def receiveAll (d : Display) (calls : List Chip8.Display.Call) :
    Except Fault Display :=
  calls.foldlM receive d

end Display

/-- The keypad, with a number for the one who waits for a key. -/
structure Keyboard where
  /-- For each key whether it is held down. -/
  held : List Bool
  /-- Who waits for the next key press. -/
  request : Option Nat
deriving DecidableEq

namespace Keyboard

/-- The keypad with no key held and nobody waiting. -/
def idle : Keyboard := ⟨.replicate Chip8.Keyboard.keyCount false, none⟩

/-- A key goes down. -/
def keyDown (k : Keyboard) (b : Byte) : Except Fault (Keyboard × Option Nat) :=
  if Chip8.Keyboard.keyCount ≤ b.toNat then
    return (k, none)
  else do
    let held ← writeCell k.held b.toNat true
    return (⟨held, none⟩, k.request)

/-- A key goes up; a number without a cell is passed over. -/
def keyUp (k : Keyboard) (b : Byte) : Keyboard :=
  { k with held := k.held.set b.toNat false }

/-- Whether a key is held; a number without a cell stands for no key. -/
def isHeld (k : Keyboard) (b : Byte) : Bool := (k.held[b.toNat]?).getD false

/-- Asks for the next key press. -/
def ask (k : Keyboard) (who : Nat) : Keyboard := { k with request := some who }

/-- Forgets the request. -/
def withoutRequest (k : Keyboard) : Keyboard := { k with request := none }

/-- The keypad after one call. -/
def receive (k : Keyboard) : Chip8.Keyboard.Call Nat → Except Fault Keyboard
  | .keyDown b => return (← k.keyDown b).1
  | .keyUp b => return k.keyUp b
  | .ask who => return k.ask who
  | .withdraw => return k.withoutRequest

/-- The keypad after some calls. -/
def receiveAll (k : Keyboard) (calls : List (Chip8.Keyboard.Call Nat)) :
    Except Fault Keyboard :=
  calls.foldlM receive k

end Keyboard

/-- The state of the guarded machine. -/
structure Machine where
  /-- The general registers. -/
  v : List Byte
  /-- The index register. -/
  i : Word
  /-- The program counter. -/
  pc : Word
  /-- The stack pointer. -/
  sp : Byte
  /-- The delay timer. -/
  delay : Byte
  /-- The sound timer. -/
  sound : Byte
  /-- The return addresses. -/
  stack : List Word
  /-- The memory. -/
  memory : List Byte
  /-- The picture. -/
  display : Display
  /-- The keypad. -/
  keyboard : Keyboard
deriving DecidableEq

namespace Machine

/-- A machine that was just switched on, with the given display and keypad. -/
def withPeripherals (display : Display) (keyboard : Keyboard) :
    Except Fault Machine := do
  let memory ← copyInto (.replicate Chip8.Machine.memorySize 0) 0 Font.bytes
  return {
    v := .replicate Chip8.Machine.registerCount 0
    i := 0
    pc := Chip8.Machine.programStart
    sp := 0
    delay := 0
    sound := 0
    stack := .replicate Chip8.Machine.stackSize 0
    memory := memory
    display := display
    keyboard := keyboard.withoutRequest }

/-- A machine that was just switched on, with a blank display and an idle keypad. -/
def fresh : Except Fault Machine := withPeripherals .blank .idle

/-- Whether the machine stands still until a key is pressed. -/
def paused (m : Machine) : Bool := m.keyboard.request.isSome

/-- The byte at a word, taken for an address. -/
def read (m : Machine) (a : Word) : Except Fault Byte :=
  readCell m.memory (a.toNat % Chip8.Machine.memorySize)

/-- Writes the byte at a word, taken for an address. -/
def write (m : Machine) (a : Word) (b : Byte) : Except Fault Machine := do
  let memory ← writeCell m.memory (a.toNat % Chip8.Machine.memorySize) b
  return { m with memory := memory }

/-- Reads the byte at an offset from the index register. -/
def readAt (m : Machine) (offset : Nat) : Except Fault Byte :=
  m.read (m.i + .ofNat 16 offset)

/-- Writes the byte at an offset from the index register. -/
def writeAt (m : Machine) (offset : Nat) (b : Byte) : Except Fault Machine :=
  m.write (m.i + .ofNat 16 offset) b

/-- Reads a register. -/
def register (m : Machine) (x : Nat) : Except Fault Byte := readCell m.v x

/-- Writes a register. -/
def setRegister (m : Machine) (x : Nat) (b : Byte) : Except Fault Machine := do
  let v ← writeCell m.v x b
  return { m with v := v }

/-- Moves the program counter past the next instruction if the condition holds. -/
def skipIf (m : Machine) (c : Bool) : Machine :=
  if c then { m with pc := m.pc + 2 } else m

/-- Goes on at the return address on top of the ring and takes it off. -/
def ret (m : Machine) : Except Fault Machine := do
  let pc ← readCell m.stack (m.sp.toNat % m.stack.length)
  return { m with pc := pc, sp := m.sp - 1 }

/-- Pushes the program counter on the ring and goes on at an address. -/
def call (m : Machine) (target : Word) : Except Fault Machine := do
  let sp := m.sp + 1
  let stack ← writeCell m.stack (sp.toNat % m.stack.length) m.pc
  return { m with sp := sp, stack := stack, pc := target }

/-- Draws one pixel of a sprite row if its bit is set.  The pair is the display
and whether a lit pixel was hit so far. -/
def drawBit (x y row : Nat) (bits : Byte) (state : Display × Bool) (bit : Nat) :
    Except Fault (Display × Bool) := do
  let mask ← shiftRight (0x80 : Byte) bit
  if bits &&& mask != 0 then
    let column ← add indexWidth x bit
    let line ← add indexWidth y row
    let (display, hit) ← state.1.drawPixel column line
    return (display, state.2 || hit)
  else
    return state

/-- Draws one row of a sprite. -/
def drawRow (m : Machine) (x y : Nat) (state : Display × Bool) (row : Nat) :
    Except Fault (Display × Bool) := do
  let bits ← m.readAt row
  (List.range 8).foldlM (drawBit x y row bits) state

/-- Draws a sprite, and then sets the flag. -/
def drawSprite (m : Machine) (x y : Byte) (n : Nat) : Except Fault Machine := do
  let (display, hit) ← (List.range n).foldlM (m.drawRow x.toNat y.toNat)
    (m.display, false)
  { m with display := display }.setRegister 0xF (.ofBool hit)

/-- Writes bytes to memory, each at its offset from the index register. -/
def writeDigits (m : Machine) (digits : List Byte) : Except Fault Machine :=
  digits.zipIdx.foldlM (fun m digit => m.writeAt digit.2 digit.1) m

/-- Writes a register to memory, at its offset from the index register. -/
def storeRegister (m : Machine) (x : Nat) : Except Fault Machine := do
  m.writeAt x (← m.register x)

/-- Reads a register from memory, at its offset from the index register. -/
def loadRegister (m : Machine) (x : Nat) : Except Fault Machine := do
  m.setRegister x (← m.readAt x)

end Machine

end Guarded

end Chip8
