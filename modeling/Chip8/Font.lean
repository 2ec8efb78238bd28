import Chip8.Word

/-!
# The font

Glyphs for the digits 0 to F, each five rows of eight pixels. The machine keeps them at the start of
its memory, one after the other, so the glyph of a digit lies at five times the digit.
-/

namespace Chip8.Font

/-- How many rows, and so how many bytes, a glyph has. -/
def glyphSize : Nat := 5

/-- The rows of the glyphs, the digit 0 first. -/
def bytes : List Byte := [
  0xF0, 0x90, 0x90, 0x90, 0xF0, -- 0
  0x20, 0x60, 0x20, 0x20, 0x70, -- 1
  0xF0, 0x10, 0xF0, 0x80, 0xF0, -- 2
  0xF0, 0x10, 0xF0, 0x10, 0xF0, -- 3
  0x90, 0x90, 0xF0, 0x10, 0x10, -- 4
  0xF0, 0x80, 0xF0, 0x10, 0xF0, -- 5
  0xF0, 0x80, 0xF0, 0x90, 0xF0, -- 6
  0xF0, 0x10, 0x20, 0x40, 0x40, -- 7
  0xF0, 0x90, 0xF0, 0x90, 0xF0, -- 8
  0xF0, 0x90, 0xF0, 0x10, 0xF0, -- 9
  0xF0, 0x90, 0xF0, 0x90, 0x90, -- A
  0xE0, 0x90, 0xE0, 0x90, 0xE0, -- B
  0xF0, 0x80, 0x80, 0x80, 0xF0, -- C
  0xE0, 0x90, 0x90, 0x90, 0xE0, -- D
  0xF0, 0x80, 0xF0, 0x80, 0xF0, -- E
  0xF0, 0x80, 0xF0, 0x80, 0x80] -- F

/-- The place of a digit's glyph; a byte above F is taken for a digit all the same. -/
def glyphAddress (digit : Byte) : Word := digit.setWidth 16 * .ofNat 16 glyphSize

end Chip8.Font
