import Chip8.Display
import Chip8.Font
import Chip8.Keyboard

/-!
# The machine

The whole state of a running machine: sixteen byte registers, an index register, a program counter,
a ring of return addresses with its pointer, two timers, 4096 bytes of memory, and the display and
the keypad that belong to it.

A request of the keyboard is made by an instruction only and names the register that waits, so it
also says whether the machine is paused.
-/

namespace Chip8

/-- The state of the machine. -/
@[ext] structure Machine where
  /-- The registers V0 to VF; VF also tells of carries, borrows and collisions. -/
  v : Bank 4 Byte
  /-- The index register: where sprites and transfers are in memory. -/
  i : Word
  /-- The program counter: where the next instruction is in memory. -/
  pc : Word
  /-- The stack pointer; its low four bits pick the slot of the innermost return address. -/
  sp : Byte
  /-- The delay timer. -/
  delay : Byte
  /-- The sound timer; a tone sounds while it is above zero. -/
  sound : Byte
  /-- The ring of return addresses. -/
  stack : Bank 4 Word
  /-- The memory: the font, the program and its data. -/
  memory : Bank 12 Byte
  /-- The picture. -/
  display : Display
  /-- The keypad; a request names the register that waits for a key. -/
  keyboard : Keyboard Register
deriving DecidableEq

namespace Machine

/-- How many general registers there are. -/
def registerCount : Nat := 16

/-- How many return addresses the ring holds. -/
def stackSize : Nat := 16

/-- How many bytes the memory holds. -/
def memorySize : Nat := 4096

/-- Where programs are loaded and where execution starts. -/
def programStart : Word := 0x200

/-- How many bytes a program may have: all from its start to the end of memory. -/
def maxProgramSize : Nat := memorySize - programStart.toNat

/-- How often a second the timers tick on real hardware. A host that steps the machine as often
gives the timers their true pace. -/
def timerFrequency : Nat := 60

/-- The memory of a machine without a program: the font, and zeros. -/
def freshMemory : Bank 12 Byte := (Bank.fill 0).writeFrom 0 Font.bytes

/-- A machine that was just switched on, with the given display and keypad. Keys already held stay
held, but a request is dropped, since only an instruction may make one. -/
def withPeripherals {ρ : Type} (display : Display) (keyboard : Keyboard ρ) : Machine where
  v := .fill 0
  i := 0
  pc := programStart
  sp := 0
  delay := 0
  sound := 0
  stack := .fill 0
  memory := freshMemory
  display := display
  keyboard := keyboard.withoutRequest

/-- A machine that was just switched on, with a blank display and an idle keypad. -/
def fresh : Machine := withPeripherals .blank (.idle : Keyboard Register)

/-- The register that waits for a key. -/
def waiting (m : Machine) : Option Register := m.keyboard.request

/-- Whether the machine stands still until a key is pressed. -/
def paused (m : Machine) : Bool := m.waiting.isSome

/-- Whether a host should sound a tone. -/
def sounding (m : Machine) : Bool := m.sound != 0

/-- The byte at a word, taken for an address. -/
def read (m : Machine) (a : Word) : Byte := m.memory[a.address]

end Machine

end Chip8
