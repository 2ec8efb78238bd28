import Chip8.Hex
import Chip8.Opcode

/-!
# Disassembly

The line that a log shows for an opcode: a mnemonic and its operands, or the word itself as data.
The line is chosen by the four digits, independently of the operation that they select.
-/

namespace Chip8

/-- The line that shows an opcode. -/
def Opcode.text (op : Opcode) : String :=
  let x := "V" ++ Hex.text 1 op.x
  let y := "V" ++ Hex.text 1 op.y
  let kk := "0x" ++ Hex.text 2 op.kk
  let target := "0x" ++ Hex.text 3 op.address
  match op.family, op.x, op.y, op.n with
  | 0x0#4, 0x0#4, 0xE#4, 0x0#4 => "CLS"
  | 0x0#4, 0x0#4, 0xE#4, 0xE#4 => "RET"
  | 0x1#4, _, _, _ => "JP " ++ target
  | 0x2#4, _, _, _ => "CALL " ++ target
  | 0x3#4, _, _, _ => "SE " ++ x ++ ", " ++ kk
  | 0x4#4, _, _, _ => "SNE " ++ x ++ ", " ++ kk
  | 0x5#4, _, _, _ => "SE " ++ x ++ ", " ++ y
  | 0x6#4, _, _, _ => "LD " ++ x ++ ", " ++ kk
  | 0x7#4, _, _, _ => "ADD " ++ x ++ ", " ++ kk
  | 0x8#4, _, _, 0x0#4 => "LD " ++ x ++ ", " ++ y
  | 0x8#4, _, _, 0x1#4 => "OR " ++ x ++ ", " ++ y
  | 0x8#4, _, _, 0x2#4 => "AND " ++ x ++ ", " ++ y
  | 0x8#4, _, _, 0x3#4 => "XOR " ++ x ++ ", " ++ y
  | 0x8#4, _, _, 0x4#4 => "ADD " ++ x ++ ", " ++ y
  | 0x8#4, _, _, 0x5#4 => "SUB " ++ x ++ ", " ++ y
  | 0x8#4, _, _, 0x6#4 => "SHR " ++ x
  | 0x8#4, _, _, 0x7#4 => "SUBN " ++ x ++ ", " ++ y
  | 0x8#4, _, _, 0xE#4 => "SHL " ++ x
  | 0x9#4, _, _, _ => "SNE " ++ x ++ ", " ++ y
  | 0xA#4, _, _, _ => "LD I, " ++ target
  | 0xB#4, _, _, _ => "JP V0, " ++ target
  | 0xC#4, _, _, _ => "RND " ++ x ++ ", " ++ kk
  | 0xD#4, _, _, _ => "DRW " ++ x ++ ", " ++ y ++ ", " ++ toString op.n.toNat
  | 0xE#4, _, 0x9#4, 0xE#4 => "SKP " ++ x
  | 0xE#4, _, 0xA#4, 0x1#4 => "SKNP " ++ x
  | 0xF#4, _, 0x0#4, 0x7#4 => "LD " ++ x ++ ", DT"
  | 0xF#4, _, 0x0#4, 0xA#4 => "LD " ++ x ++ ", K"
  | 0xF#4, _, 0x1#4, 0x5#4 => "LD DT, " ++ x
  | 0xF#4, _, 0x1#4, 0x8#4 => "LD ST, " ++ x
  | 0xF#4, _, 0x1#4, 0xE#4 => "ADD I, " ++ x
  | 0xF#4, _, 0x2#4, 0x9#4 => "LD F, " ++ x
  | 0xF#4, _, 0x3#4, 0x3#4 => "LD B, " ++ x
  | 0xF#4, _, 0x5#4, 0x5#4 => "LD [I], " ++ x
  | 0xF#4, _, 0x6#4, 0x5#4 => "LD " ++ x ++ ", [I]"
  | _, _, _, _ => "DATA 0x" ++ Hex.text 4 op.word

end Chip8
