import Chip8.Machine
import Chip8.Operation

/-!
# Executing instructions

The effect of one instruction. The program counter is already past the instruction when it takes
effect, so a skip moves it on by one more instruction and a call pushes it as it stands.

Where an instruction writes both a register and the flag VF, the order of the two writes matters if
the register is VF itself, and a value read after the first write is the new one.
-/

namespace Chip8

namespace Machine

/-- Writes a register. -/
def setRegister (m : Machine) (x : Register) (b : Byte) : Machine := { m with v := m.v.set x b }

/-- Writes the flag VF. -/
def setFlag (m : Machine) (b : Byte) : Machine := m.setRegister 0xF b

/-- Moves the program counter past the next instruction if the condition holds. -/
def skipIf (m : Machine) (c : Bool) : Machine := if c then { m with pc := m.pc + 2 } else m

/-- Pushes the program counter on the ring and goes on at an address. -/
def call (m : Machine) (target : Word) : Machine :=
  { m with
    sp := m.sp + 1
    stack := m.stack.set ((m.sp + 1).setWidth 4) m.pc
    pc := target }

/-- Goes on at the return address on top of the ring and takes it off. -/
def ret (m : Machine) : Machine :=
  { m with pc := m.stack[(m.sp.setWidth 4 : BitVec 4)], sp := m.sp - 1 }

/-- Writes bytes to memory from the index register on. -/
def writeIndexed (m : Machine) (bytes : List Byte) : Machine :=
  { m with memory := m.memory.writeFrom m.i.address bytes }

/-- Reads bytes of memory from the index register on. -/
def readIndexed (m : Machine) (n : Nat) : List Byte := m.memory.readFrom m.i.address n

/-- Draws the sprite at the index register, and tells in VF whether it went over a lit pixel. -/
def drawSprite (m : Machine) (x y : Byte) (n : Nat) : Machine :=
  let (display, hit) := m.display.draw (Sprite.pixels x.toNat y.toNat (m.readIndexed n))
  { m with display := display }.setFlag (.ofBool hit)

end Machine

/-- The three decimal digits of a byte. -/
def Byte.decimalDigits (b : Byte) : List Byte := [b / 100, b / 10 % 10, b % 10]

/-- The registers V0 to Vx: how many they are. -/
def Register.countTo (x : Register) : Nat := x.toNat + 1

/-- The effect of an instruction on a machine whose program counter is past it. Only one
instruction uses the random byte. -/
def Instruction.execute (random : Byte) (m : Machine) : Instruction → Machine
  | .clear => { m with display := m.display.clear }
  | .ret => m.ret
  | .jump target => { m with pc := target.setWidth 16 }
  | .call target => m.call (target.setWidth 16)
  | .skipIfByte x kk => m.skipIf (m.v[x] = kk)
  | .skipUnlessByte x kk => m.skipIf (m.v[x] ≠ kk)
  | .skipIfSame x y => m.skipIf (m.v[x] = m.v[y])
  | .setByte x kk => m.setRegister x kk
  | .addByte x kk => m.setRegister x (m.v[x] + kk)
  | .copy x y => m.setRegister x m.v[y]
  | .or x y => m.setRegister x (m.v[x] ||| m.v[y])
  | .and x y => m.setRegister x (m.v[x] &&& m.v[y])
  | .xor x y => m.setRegister x (m.v[x] ^^^ m.v[y])
  | .add x y =>
    let overflow := 256 ≤ m.v[x].toNat + m.v[y].toNat
    (m.setRegister x (m.v[x] + m.v[y])).setFlag (.ofBool overflow)
  | .sub x y =>
    let flagged := m.setFlag (.ofBool (m.v[y] < m.v[x]))
    flagged.setRegister x (flagged.v[x] - flagged.v[y])
  | .shiftRight x =>
    let flagged := m.setFlag (m.v[x] &&& 0x01)
    flagged.setRegister x (flagged.v[x] >>> 1)
  | .subFrom x y =>
    let flagged := m.setFlag (.ofBool (m.v[x] < m.v[y]))
    flagged.setRegister x (flagged.v[y] - flagged.v[x])
  | .shiftLeft x =>
    let flagged := m.setFlag (m.v[x] &&& 0x80)
    flagged.setRegister x (flagged.v[x] <<< 1)
  | .skipUnlessSame x y => m.skipIf (m.v[x] ≠ m.v[y])
  | .setIndex target => { m with i := target.setWidth 16 }
  | .setIndexOffset target => { m with i := target.setWidth 16 + m.v[(0 : Register)].setWidth 16 }
  | .random x kk => m.setRegister x (random &&& kk)
  | .draw x y n => m.drawSprite m.v[x] m.v[y] n.toNat
  | .skipIfHeld x => m.skipIf (m.keyboard.isHeld m.v[x])
  | .skipUnlessHeld x => m.skipIf (!m.keyboard.isHeld m.v[x])
  | .readDelay x => m.setRegister x m.delay
  | .awaitKey x => { m with keyboard := m.keyboard.ask x }
  | .setDelay x => { m with delay := m.v[x] }
  | .setSound x => { m with sound := m.v[x] }
  | .addIndex x => { m with i := m.i + m.v[x].setWidth 16 }
  | .glyph x => { m with i := Font.glyphAddress m.v[x] }
  | .decimal x => m.writeIndexed m.v[x].decimalDigits
  | .store x => m.writeIndexed (m.v.readFrom 0 x.countTo)
  | .load x => { m with v := m.v.writeFrom 0 (m.readIndexed x.countTo) }
  | .data _ => m

/-- Carries out an operation with the operands that it finds in an opcode. -/
def Operation.run (o : Operation) (op : Opcode) (random : Byte) (m : Machine) : Machine :=
  (o.instruction op).execute random m

end Chip8
