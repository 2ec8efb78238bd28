import Chip8.Word

/-!
# Opcodes

An opcode is a 16-bit instruction word, stored with its high byte first. Its leading digit names a
family of instructions; the other three digits hold operands or tell instructions of one family
apart. Which of the fields below means something depends on the instruction.
-/

namespace Chip8

/-- An instruction word, not yet decoded. -/
structure Opcode where
  /-- The word as it stands in memory. -/
  word : Word
deriving DecidableEq

namespace Opcode

/-- The opcode whose bytes follow each other in memory. -/
def ofBytes (high low : Byte) : Opcode := ⟨high ++ low⟩

/-- The leading digit, which names the family. -/
def family (op : Opcode) : BitVec 4 := op.word.extractLsb' 12 4

/-- The second digit: the register Vx, or the last of the registers V0 to Vx. -/
def x (op : Opcode) : Register := op.word.extractLsb' 8 4

/-- The third digit: the register Vy. -/
def y (op : Opcode) : Register := op.word.extractLsb' 4 4

/-- The last digit. -/
def n (op : Opcode) : BitVec 4 := op.word.extractLsb' 0 4

/-- The last two digits: a byte to assign or to compare with. -/
def kk (op : Opcode) : Byte := op.word.extractLsb' 0 8

/-- The last three digits: an address. -/
def address (op : Opcode) : Address := op.word.extractLsb' 0 12

/-- The four digits, the leading one first. -/
def nibbles (op : Opcode) : List (BitVec 4) := [op.family, op.x, op.y, op.n]

end Opcode

end Chip8
