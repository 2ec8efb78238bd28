import Chip8.Guarded.Machine

/-!
# Runs of the guarded machine

The instruction set over guarded access, a step, the other commands, and runs.
A run stops at the first fault.
-/

namespace Chip8.Guarded.Machine

/-- The effect of a word on a guarded machine whose program counter is past it.
Decoding says which operation the word is; its operands are masked out of the
word itself. -/
def execute (random : Byte) (op : Opcode) (m : Machine) : Except Fault Machine := do
  let x ← op.xIndex
  let y ← op.yIndex
  match op.decode with
  | .clear => return { m with display := m.display.clear }
  | .ret => m.ret
  | .jump _ => return { m with pc := op.maskedAddress }
  | .call _ => m.call op.maskedAddress
  | .skipIfByte .. => return m.skipIf ((← m.register x) = op.maskedByte)
  | .skipUnlessByte .. => return m.skipIf ((← m.register x) ≠ op.maskedByte)
  | .skipIfSame .. => return m.skipIf ((← m.register x) = (← m.register y))
  | .setByte .. => m.setRegister x op.maskedByte
  | .addByte .. => do m.setRegister x ((← m.register x) + op.maskedByte)
  | .copy .. => do m.setRegister x (← m.register y)
  | .or .. => do m.setRegister x ((← m.register x) ||| (← m.register y))
  | .and .. => do m.setRegister x ((← m.register x) &&& (← m.register y))
  | .xor .. => do m.setRegister x ((← m.register x) ^^^ (← m.register y))
  | .add .. => do
    let a ← m.register x
    let b ← m.register y
    let m ← m.setRegister x (a + b)
    m.setRegister 0xF (.ofBool (256 ≤ a.toNat + b.toNat))
  | .sub .. => do
    let m ← m.setRegister 0xF (.ofBool ((← m.register y) < (← m.register x)))
    m.setRegister x ((← m.register x) - (← m.register y))
  | .shiftRight .. => do
    let m ← m.setRegister 0xF ((← m.register x) &&& 0x01)
    m.setRegister x (← shiftRight (← m.register x) 1)
  | .subFrom .. => do
    let m ← m.setRegister 0xF (.ofBool ((← m.register x) < (← m.register y)))
    m.setRegister x ((← m.register y) - (← m.register x))
  | .shiftLeft .. => do
    let m ← m.setRegister 0xF ((← m.register x) &&& 0x80)
    m.setRegister x (← shiftLeft (← m.register x) 1)
  | .skipUnlessSame .. => return m.skipIf ((← m.register x) ≠ (← m.register y))
  | .setIndex _ => return { m with i := op.maskedAddress }
  | .setIndexOffset _ =>
    return { m with i := op.maskedAddress + (← m.register 0).setWidth 16 }
  | .random .. => m.setRegister x (random &&& op.maskedByte)
  | .draw .. => do m.drawSprite (← m.register x) (← m.register y) op.rowCount
  | .skipIfHeld .. => return m.skipIf (m.keyboard.isHeld (← m.register x))
  | .skipUnlessHeld .. => return m.skipIf (!m.keyboard.isHeld (← m.register x))
  | .readDelay .. => m.setRegister x m.delay
  | .awaitKey .. => return { m with keyboard := m.keyboard.ask x }
  | .setDelay .. => return { m with delay := ← m.register x }
  | .setSound .. => return { m with sound := ← m.register x }
  | .addIndex .. => return { m with i := m.i + (← m.register x).setWidth 16 }
  | .glyph .. =>
    return { m with i := .ofNat 16 (← mul 16 (← m.register x).toNat Font.glyphSize) }
  | .decimal .. => do
    let value ← m.register x
    m.writeDigits [value / 100, value / 10 % 10, value % 10]
  | .store .. => (List.range (x + 1)).foldlM storeRegister m
  | .load .. => (List.range (x + 1)).foldlM loadRegister m
  | .data _ => return m

/-- The opcode that the program counter points at. -/
def fetch (m : Machine) : Except Fault Opcode := do
  let high ← m.read m.pc
  let low ← m.read (m.pc + 1)
  return ⟨(← shiftLeft (high.setWidth 16) 8) ||| low.setWidth 16⟩

/-- One step. -/
def step (random : Byte) (m : Machine) : Except Fault Machine :=
  if m.paused then return m
  else do
    let m := { m with delay := m.delay.countDown, sound := m.sound.countDown }
    let op ← m.fetch
    { m with pc := m.pc + 2 }.execute random op

/-- A key goes down.  A register that waits for one takes it. -/
def keyDown (b : Byte) (m : Machine) : Except Fault Machine := do
  let (keyboard, request) ← m.keyboard.keyDown b
  let m := { m with keyboard := keyboard }
  match request with
  | some x => m.setRegister x b
  | none => return m

/-- Copies a program to where execution starts, if it fits. -/
def load (program : List Byte) (m : Machine) : Except Fault Machine :=
  if program.length > Chip8.Machine.maxProgramSize then return m
  else do
    let memory ← copyInto m.memory Chip8.Machine.programStart.toNat program
    return { m with memory := memory }

/-- Carries out a command. -/
def after (m : Machine) : Command → Except Fault Machine
  | .step random => m.step random
  | .keyDown b => m.keyDown b
  | .keyUp b => return { m with keyboard := m.keyboard.keyUp b }
  | .takeFrame => return { m with display := m.display.taken }
  | .load program => m.load program
  | .loadFrom readings =>
    match Reading.collect readings with
    | .ok program => m.load program
    | .error _ => return m
  | .reset => fresh

/-- Carries out commands one after the other. -/
def run (m : Machine) (cs : List Command) : Except Fault Machine :=
  cs.foldlM after m

end Chip8.Guarded.Machine
