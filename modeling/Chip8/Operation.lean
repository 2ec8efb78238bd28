import Chip8.Instruction

/-!
# Operations

The four digits of an opcode select an operation, and the operation takes its operands from the
fields of the opcode. What an opcode does is decided here alone; the text that shows an opcode is
chosen by its digits once more (`Opcode.text`).
-/

namespace Chip8

/-- What an opcode can ask for, without its operands. -/
inductive Operation where
  | clear
  | ret
  | jump
  | call
  | skipIfByte
  | skipUnlessByte
  | skipIfSame
  | setByte
  | addByte
  | copy
  | or
  | and
  | xor
  | add
  | sub
  | shiftRight
  | subFrom
  | shiftLeft
  | skipUnlessSame
  | setIndex
  | setIndexOffset
  | random
  | draw
  | skipIfHeld
  | skipUnlessHeld
  | readDelay
  | awaitKey
  | setDelay
  | setSound
  | addIndex
  | glyph
  | decimal
  | store
  | load
  /-- Nothing: the opcode is not recognised. -/
  | nop
deriving DecidableEq

/-- The operation that an opcode selects. -/
def Opcode.operation (op : Opcode) : Operation :=
  match op.family, op.x, op.y, op.n with
  | 0x0#4, 0x0#4, 0xE#4, 0x0#4 => .clear
  | 0x0#4, 0x0#4, 0xE#4, 0xE#4 => .ret
  | 0x1#4, _, _, _ => .jump
  | 0x2#4, _, _, _ => .call
  | 0x3#4, _, _, _ => .skipIfByte
  | 0x4#4, _, _, _ => .skipUnlessByte
  | 0x5#4, _, _, _ => .skipIfSame
  | 0x6#4, _, _, _ => .setByte
  | 0x7#4, _, _, _ => .addByte
  | 0x8#4, _, _, 0x0#4 => .copy
  | 0x8#4, _, _, 0x1#4 => .or
  | 0x8#4, _, _, 0x2#4 => .and
  | 0x8#4, _, _, 0x3#4 => .xor
  | 0x8#4, _, _, 0x4#4 => .add
  | 0x8#4, _, _, 0x5#4 => .sub
  | 0x8#4, _, _, 0x6#4 => .shiftRight
  | 0x8#4, _, _, 0x7#4 => .subFrom
  | 0x8#4, _, _, 0xE#4 => .shiftLeft
  | 0x9#4, _, _, _ => .skipUnlessSame
  | 0xA#4, _, _, _ => .setIndex
  | 0xB#4, _, _, _ => .setIndexOffset
  | 0xC#4, _, _, _ => .random
  | 0xD#4, _, _, _ => .draw
  | 0xE#4, _, 0x9#4, 0xE#4 => .skipIfHeld
  | 0xE#4, _, 0xA#4, 0x1#4 => .skipUnlessHeld
  | 0xF#4, _, 0x0#4, 0x7#4 => .readDelay
  | 0xF#4, _, 0x0#4, 0xA#4 => .awaitKey
  | 0xF#4, _, 0x1#4, 0x5#4 => .setDelay
  | 0xF#4, _, 0x1#4, 0x8#4 => .setSound
  | 0xF#4, _, 0x1#4, 0xE#4 => .addIndex
  | 0xF#4, _, 0x2#4, 0x9#4 => .glyph
  | 0xF#4, _, 0x3#4, 0x3#4 => .decimal
  | 0xF#4, _, 0x5#4, 0x5#4 => .store
  | 0xF#4, _, 0x6#4, 0x5#4 => .load
  | _, _, _, _ => .nop

/-- What an operation makes of an opcode: the instruction with the operands that it reads. -/
def Operation.instruction (op : Opcode) : Operation → Instruction
  | .clear => .clear
  | .ret => .ret
  | .jump => .jump op.address
  | .call => .call op.address
  | .skipIfByte => .skipIfByte op.x op.kk
  | .skipUnlessByte => .skipUnlessByte op.x op.kk
  | .skipIfSame => .skipIfSame op.x op.y
  | .setByte => .setByte op.x op.kk
  | .addByte => .addByte op.x op.kk
  | .copy => .copy op.x op.y
  | .or => .or op.x op.y
  | .and => .and op.x op.y
  | .xor => .xor op.x op.y
  | .add => .add op.x op.y
  | .sub => .sub op.x op.y
  | .shiftRight => .shiftRight op.x
  | .subFrom => .subFrom op.x op.y
  | .shiftLeft => .shiftLeft op.x
  | .skipUnlessSame => .skipUnlessSame op.x op.y
  | .setIndex => .setIndex op.address
  | .setIndexOffset => .setIndexOffset op.address
  | .random => .random op.x op.kk
  | .draw => .draw op.x op.y op.n
  | .skipIfHeld => .skipIfHeld op.x
  | .skipUnlessHeld => .skipUnlessHeld op.x
  | .readDelay => .readDelay op.x
  | .awaitKey => .awaitKey op.x
  | .setDelay => .setDelay op.x
  | .setSound => .setSound op.x
  | .addIndex => .addIndex op.x
  | .glyph => .glyph op.x
  | .decimal => .decimal op.x
  | .store => .store op.x
  | .load => .load op.x
  | .nop => .data op.word

end Chip8
