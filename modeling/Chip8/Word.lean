/-!
# Words

Everything the machine holds is a word of a fixed width, and all of its arithmetic is that of the
width: sums and differences of bytes are taken modulo 256, those of 16-bit words modulo 65536.
Narrower words say where something is: a memory cell, a register, a key.
-/

namespace Chip8

-- A power of a number is the built-in one, whatever other powers are in scope.
attribute [scoped instance (high)] instPowNat

/-- A general register, a timer, the stack pointer or a memory cell. -/
abbrev Byte := BitVec 8

/-- The program counter, the index register, a return address, or an instruction word. -/
abbrev Word := BitVec 16

/-- The place of a memory cell. -/
abbrev Address := BitVec 12

/-- The name of one of the registers V0 to VF. -/
abbrev Register := BitVec 4

/-- The name of one of the keys 0 to F of the keypad. -/
abbrev Key := BitVec 4

/-- Words wider than an address name memory cells by their low twelve bits. -/
def Word.address (a : Word) : Address := a.setWidth 12

/-- The byte 1 for a condition that holds and 0 for one that does not. -/
def Byte.ofBool (b : Bool) : Byte := if b then 1 else 0

/-- The key that a byte names; bytes from 16 on name none. -/
def Key.ofByte? (b : Byte) : Option Key := if b < 16 then some (b.setWidth 4) else none

/-- The byte that names a key. -/
def Key.toByte (k : Key) : Byte := k.setWidth 8

/-- Every key is named by its own byte. -/
@[simp] theorem Key.ofByte?_toByte (k : Key) : Key.ofByte? k.toByte = some k := by
  revert k; decide

/-- A byte below 16 names the key with this number. -/
theorem Key.ofByte?_of_lt {b : Byte} (hkey : b < 16) :
    Key.ofByte? b = some (b.setWidth 4) :=
  if_pos hkey

/-- A byte from 16 on names no key. -/
theorem Key.ofByte?_of_le {b : Byte} (hbyte : 16 ≤ b) : Key.ofByte? b = none :=
  if_neg (BitVec.not_lt.2 hbyte)

/-- The low bits of an address follow the word when it moves on. -/
theorem Word.address_add (a b : Word) : (a + b).address = a.address + b.address :=
  BitVec.setWidth_add a b (by decide)

/-- So the address `k` places on from a word is `k` places on from its address. -/
theorem Word.address_add_ofNat (a : Word) (k : Nat) :
    (a + .ofNat 16 k).address = a.address + .ofNat 12 k := by
  rw [address_add, address, address, BitVec.setWidth_ofNat_of_le (by decide)]

/-- In numbers, that address is the sum, modulo the size of memory. -/
theorem Word.address_add_eq_ofNat (a : Word) (k : Nat) :
    a.address + .ofNat 12 k = .ofNat 12 (a.toNat + k) := by
  rw [BitVec.ofNat_add]
  rfl

end Chip8
