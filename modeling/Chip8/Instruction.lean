import Chip8.Opcode

/-!
# Instructions

What an opcode asks the machine to do, with the operands that matter and no others. Decoding is
total: a word that is no instruction is `data`, and executing data does nothing.

Decoding goes family by family. A machine that runs selects an operation by all four digits at once
(`Opcode.operation`), and arrives at the same instruction.
-/

namespace Chip8

/-- The instructions of the machine, each with the operands it uses. -/
inductive Instruction where
  /-- `00E0`: turns every pixel off. -/
  | clear
  /-- `00EE`: goes back to the return address on top of the stack. -/
  | ret
  /-- `1nnn`: goes on at an address. -/
  | jump (target : Address)
  /-- `2nnn`: pushes a return address and goes on at an address. -/
  | call (target : Address)
  /-- `3xkk`: skips the next instruction if Vx is the byte. -/
  | skipIfByte (x : Register) (kk : Byte)
  /-- `4xkk`: skips the next instruction if Vx is not the byte. -/
  | skipUnlessByte (x : Register) (kk : Byte)
  /-- `5xy0`, whatever the last digit: skips the next instruction if Vx is Vy. -/
  | skipIfSame (x y : Register)
  /-- `6xkk`: sets Vx to the byte. -/
  | setByte (x : Register) (kk : Byte)
  /-- `7xkk`: adds the byte to Vx, and leaves VF alone. -/
  | addByte (x : Register) (kk : Byte)
  /-- `8xy0`: copies Vy to Vx. -/
  | copy (x y : Register)
  /-- `8xy1`: sets in Vx the bits of Vy. -/
  | or (x y : Register)
  /-- `8xy2`: keeps in Vx the bits of Vy. -/
  | and (x y : Register)
  /-- `8xy3`: flips in Vx the bits of Vy. -/
  | xor (x y : Register)
  /-- `8xy4`: adds Vy to Vx; VF then says whether the sum overflowed. -/
  | add (x y : Register)
  /-- `8xy5`: VF says whether Vx is above Vy; then Vy is taken from Vx. -/
  | sub (x y : Register)
  /-- `8xy6`: VF takes the low bit of Vx; then Vx is halved. -/
  | shiftRight (x : Register)
  /-- `8xy7`: VF says whether Vy is above Vx; then Vx becomes Vy less Vx. -/
  | subFrom (x y : Register)
  /-- `8xyE`: VF takes the high bit of Vx, in place; then Vx is doubled. -/
  | shiftLeft (x : Register)
  /-- `9xy0`, whatever the last digit: skips the next instruction if Vx is not Vy. -/
  | skipUnlessSame (x y : Register)
  /-- `Annn`: sets the index register. -/
  | setIndex (target : Address)
  /-- `Bnnn`: sets the index register to the address plus V0. -/
  | setIndexOffset (target : Address)
  /-- `Cxkk`: sets Vx to a random byte, masked. -/
  | random (x : Register) (kk : Byte)
  /-- `Dxyn`: draws the `n` sprite bytes at the index register, with the corner at (Vx, Vy). -/
  | draw (x y : Register) (n : BitVec 4)
  /-- `Ex9E`: skips the next instruction if the key that Vx names is held. -/
  | skipIfHeld (x : Register)
  /-- `ExA1`: skips the next instruction unless the key that Vx names is held. -/
  | skipUnlessHeld (x : Register)
  /-- `Fx07`: reads the delay timer. -/
  | readDelay (x : Register)
  /-- `Fx0A`: waits for a key, which then lands in Vx. -/
  | awaitKey (x : Register)
  /-- `Fx15`: sets the delay timer. -/
  | setDelay (x : Register)
  /-- `Fx18`: sets the sound timer. -/
  | setSound (x : Register)
  /-- `Fx1E`: adds Vx to the index register. -/
  | addIndex (x : Register)
  /-- `Fx29`: points the index register at the glyph of the digit in Vx. -/
  | glyph (x : Register)
  /-- `Fx33`: writes the three decimal digits of Vx at the index register. -/
  | decimal (x : Register)
  /-- `Fx55`: writes V0 to Vx at the index register. -/
  | store (x : Register)
  /-- `Fx65`: reads V0 to Vx from the index register. -/
  | load (x : Register)
  /-- Any other word: no instruction. -/
  | data (word : Word)
deriving DecidableEq

namespace Opcode

/-- Family 0: two words are instructions. -/
def decodeSystem (op : Opcode) : Instruction :=
  if op.word = 0x00E0 then .clear else if op.word = 0x00EE then .ret else .data op.word

/-- Family 8: the last digit names the operation. -/
def decodeArithmetic (op : Opcode) : Instruction :=
  match op.n with
  | 0x0#4 => .copy op.x op.y
  | 0x1#4 => .or op.x op.y
  | 0x2#4 => .and op.x op.y
  | 0x3#4 => .xor op.x op.y
  | 0x4#4 => .add op.x op.y
  | 0x5#4 => .sub op.x op.y
  | 0x6#4 => .shiftRight op.x
  | 0x7#4 => .subFrom op.x op.y
  | 0xE#4 => .shiftLeft op.x
  | _ => .data op.word

/-- Family E: the last two digits name the condition. -/
def decodeKey (op : Opcode) : Instruction :=
  match op.kk with
  | 0x9E#8 => .skipIfHeld op.x
  | 0xA1#8 => .skipUnlessHeld op.x
  | _ => .data op.word

/-- Family F: the last two digits name the operation. -/
def decodeTransfer (op : Opcode) : Instruction :=
  match op.kk with
  | 0x07#8 => .readDelay op.x
  | 0x0A#8 => .awaitKey op.x
  | 0x15#8 => .setDelay op.x
  | 0x18#8 => .setSound op.x
  | 0x1E#8 => .addIndex op.x
  | 0x29#8 => .glyph op.x
  | 0x33#8 => .decimal op.x
  | 0x55#8 => .store op.x
  | 0x65#8 => .load op.x
  | _ => .data op.word

/-- The instruction that an opcode stands for. -/
def decode (op : Opcode) : Instruction :=
  match op.family with
  | 0x0#4 => op.decodeSystem
  | 0x1#4 => .jump op.address
  | 0x2#4 => .call op.address
  | 0x3#4 => .skipIfByte op.x op.kk
  | 0x4#4 => .skipUnlessByte op.x op.kk
  | 0x5#4 => .skipIfSame op.x op.y
  | 0x6#4 => .setByte op.x op.kk
  | 0x7#4 => .addByte op.x op.kk
  | 0x8#4 => op.decodeArithmetic
  | 0x9#4 => .skipUnlessSame op.x op.y
  | 0xA#4 => .setIndex op.address
  | 0xB#4 => .setIndexOffset op.address
  | 0xC#4 => .random op.x op.kk
  | 0xD#4 => .draw op.x op.y op.n
  | 0xE#4 => op.decodeKey
  | _ => op.decodeTransfer -- the one family left is F

end Opcode

end Chip8
