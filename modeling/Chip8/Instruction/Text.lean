import Chip8.Hex
import Chip8.Instruction

/-!
# Assembly text

An instruction is written as its mnemonic followed by its operands. Several instructions share a
mnemonic and differ in the kinds of their operands only, so each kind of operand has a spelling of
its own.

A log chooses the line for an opcode by its digits (`Opcode.text`). Here the same line is told in
parts, so that it can be taken apart again.
-/

namespace Chip8

/-- What can follow a mnemonic. -/
inductive Operand where
  /-- A register V0 to VF. -/
  | register (x : Register)
  /-- A byte, as two hexadecimal digits. -/
  | byte (kk : Byte)
  /-- An address, as three hexadecimal digits. -/
  | address (target : Address)
  /-- A word, as four hexadecimal digits. -/
  | word (word : Word)
  /-- The height of a sprite, in decimal. -/
  | height (n : BitVec 4)
  /-- The index register. -/
  | index
  /-- The memory that the index register points at. -/
  | indirect
  /-- The delay timer. -/
  | delayTimer
  /-- The sound timer. -/
  | soundTimer
  /-- The next key pressed. -/
  | key
  /-- The glyph of a digit. -/
  | glyph
  /-- The decimal digits of a number. -/
  | decimal
deriving DecidableEq

/-- The spelling of an operand. -/
def Operand.text : Operand → String
  | .register x => "V" ++ Hex.text 1 x
  | .byte kk => "0x" ++ Hex.text 2 kk
  | .address target => "0x" ++ Hex.text 3 target
  | .word w => "0x" ++ Hex.text 4 w
  | .height n => toString n.toNat
  | .index => "I"
  | .indirect => "[I]"
  | .delayTimer => "DT"
  | .soundTimer => "ST"
  | .key => "K"
  | .glyph => "F"
  | .decimal => "B"

namespace Instruction

/-- The word that an assembly line starts with. -/
def mnemonic : Instruction → String
  | .clear => "CLS"
  | .ret => "RET"
  | .jump _ | .setIndexOffset _ => "JP"
  | .call _ => "CALL"
  | .skipIfByte .. | .skipIfSame .. => "SE"
  | .skipUnlessByte .. | .skipUnlessSame .. => "SNE"
  | .setByte .. | .copy .. | .setIndex _ | .readDelay _ | .awaitKey _ | .setDelay _ | .setSound _
  | .glyph _ | .decimal _ | .store _ | .load _ => "LD"
  | .addByte .. | .add .. | .addIndex _ => "ADD"
  | .or .. => "OR"
  | .and .. => "AND"
  | .xor .. => "XOR"
  | .sub .. => "SUB"
  | .shiftRight _ => "SHR"
  | .subFrom .. => "SUBN"
  | .shiftLeft _ => "SHL"
  | .random .. => "RND"
  | .draw .. => "DRW"
  | .skipIfHeld _ => "SKP"
  | .skipUnlessHeld _ => "SKNP"
  | .data _ => "DATA"

/-- The operands in the order in which they are written: the destination comes first. -/
def operands : Instruction → List Operand
  | .clear | .ret => []
  | .jump target | .call target => [.address target]
  | .skipIfByte x kk | .skipUnlessByte x kk | .setByte x kk | .addByte x kk | .random x kk =>
    [.register x, .byte kk]
  | .skipIfSame x y | .copy x y | .or x y | .and x y | .xor x y | .add x y | .sub x y
  | .subFrom x y | .skipUnlessSame x y => [.register x, .register y]
  | .shiftRight x | .shiftLeft x | .skipIfHeld x | .skipUnlessHeld x => [.register x]
  | .setIndex target => [.index, .address target]
  | .setIndexOffset target => [.register 0, .address target]
  | .draw x y n => [.register x, .register y, .height n]
  | .readDelay x => [.register x, .delayTimer]
  | .awaitKey x => [.register x, .key]
  | .setDelay x => [.delayTimer, .register x]
  | .setSound x => [.soundTimer, .register x]
  | .addIndex x => [.index, .register x]
  | .glyph x => [.glyph, .register x]
  | .decimal x => [.decimal, .register x]
  | .store x => [.indirect, .register x]
  | .load x => [.register x, .indirect]
  | .data w => [.word w]

/-- The assembly line of an instruction. -/
def text (i : Instruction) : String :=
  match i.operands with
  | [] => i.mnemonic
  | operands => i.mnemonic ++ " " ++ ", ".intercalate (operands.map Operand.text)

end Instruction

end Chip8
