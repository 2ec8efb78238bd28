import Chip8.Proofs.Decoding
import Chip8.Proofs.Effect

/-!
# What a step can change

The digits of a word say what a step that executes it can change.  The words fall
into groups by what they reach: registers, the index register, memory, the
picture, a timer.  `Machine.Footprint` puts the groups side by side, one field for
each part of the machine, and `step_footprint` says that every step stays inside
the footprint of the word that it executes, whatever the state and whatever the
word.

There are two halves to it.  What an instruction does to a part of the machine is
known part by part; which words are which instruction is known from their digits.
The lemmas here join the two, one for each part.
-/

namespace Chip8

/-! ## The groups of words -/

namespace Opcode

/-- The registers that a word can change: Vx for 6xkk, 7xkk, 8xy0 to 8xy3, Cxkk
and Fx07, Vx and VF for 8xy4 to 8xy7 and 8xyE, VF for Dxyn, and V0 to Vx for
Fx65. -/
def Writes (op : Opcode) (r : Register) : Prop :=
  match op.family with
  | 0x6#4 | 0x7#4 | 0xC#4 => r = op.x
  | 0x8#4 =>
    op.n ≤ 0x3 ∧ r = op.x ∨
      (0x4 ≤ op.n ∧ op.n ≤ 0x7 ∨ op.n = 0xE) ∧ (r = op.x ∨ r = 0xF)
  | 0xD#4 => r = 0xF
  | 0xF#4 => op.kk = 0x07 ∧ r = op.x ∨ op.kk = 0x65 ∧ r ≤ op.x
  | _ => False

/-- Whether a word can change the index register: Annn, Bnnn, Fx1E and Fx29 can. -/
def PointsIndex (op : Opcode) : Prop :=
  op.family = 0xA ∨ op.family = 0xB ∨ op.family = 0xF ∧ (op.kk = 0x1E ∨ op.kk = 0x29)

/-- How many bytes a word writes to memory: three for Fx33, and as many as there
are registers V0 to Vx for Fx55. -/
def storedCount (op : Opcode) : Nat :=
  if op.family = 0xF ∧ op.kk = 0x33 then 3
  else if op.family = 0xF ∧ op.kk = 0x55 then op.x.toNat + 1
  else 0

end Opcode

namespace Machine

variable (m : Machine) (op : Opcode)

/-- Whether a word skips the next one: 3xkk, 4xkk, 5xyN, 9xyN, Ex9E and ExA1 skip
it if their condition holds. -/
def Skips (m : Machine) (op : Opcode) : Prop :=
  op.family = 0x3 ∧ m.v[op.x] = op.kk ∨
  op.family = 0x4 ∧ m.v[op.x] ≠ op.kk ∨
  op.family = 0x5 ∧ m.v[op.x] = m.v[op.y] ∨
  op.family = 0x9 ∧ m.v[op.x] ≠ m.v[op.y] ∨
  op.family = 0xE ∧ op.kk = 0x9E ∧ m.keyboard.isHeld m.v[op.x] = true ∨
  op.family = 0xE ∧ op.kk = 0xA1 ∧ m.keyboard.isHeld m.v[op.x] = false

instance : Decidable (m.Skips op) := inferInstanceAs (Decidable (_ ∨ _))

/-- Where execution goes on after a word: at the target of a jump 1nnn or a call
2nnn, at the address in the slot that a return 00EE finds, or two words further or
one. -/
def successor : Word :=
  if op.family = 0x1 ∨ op.family = 0x2 then op.address.setWidth 16
  else if op.word = 0x00EE then m.stack[(m.sp.setWidth 4 : BitVec 4)]
  else if m.Skips op then m.pc + 4
  else m.pc + 2

/-- The footprint of a word: from the machine `m`, executing the word can lead to
the machine `n` only if the two agree wherever the digits of the word do not let
them differ. -/
structure Footprint (m : Machine) (op : Opcode) (n : Machine) : Prop where
  /-- Execution goes on where the word says. -/
  pc : n.pc = m.successor op
  /-- Of the registers those change that the word can write. -/
  v : ∀ r, n.v[r] ≠ m.v[r] → op.Writes r
  /-- The index register changes for few words only. -/
  i : n.i ≠ m.i → op.PointsIndex
  /-- The stack pointer changes for calls and returns only. -/
  sp : n.sp ≠ m.sp → op.family = 0x2 ∨ op.word = 0x00EE
  /-- Of the ring, a call changes the slot above the stack pointer. -/
  stack : ∀ slot : BitVec 4, n.stack[slot] ≠ m.stack[slot] →
    op.family = 0x2 ∧ slot = (m.sp + 1).setWidth 4
  /-- Of the memory, the bytes from the index register on change, as many as the
  word writes. -/
  memory : ∀ a : Address, n.memory[a] ≠ m.memory[a] →
    ∃ k < op.storedCount, a = (m.i + .ofNat 16 k).address
  /-- The picture, and the news about it, change for 00E0 and Dxyn only. -/
  display : n.display ≠ m.display → op.word = 0x00E0 ∨ op.family = 0xD
  /-- The register that waits for a key changes for Fx0A only. -/
  waiting : n.waiting ≠ m.waiting → op.family = 0xF ∧ op.kk = 0x0A
  /-- Which keys are held never changes. -/
  held : n.keyboard.held = m.keyboard.held
  /-- The delay timer ticks, not below zero, unless Fx15 sets it. -/
  delay : n.delay =
    if op.family = 0xF ∧ op.kk = 0x15 then m.v[op.x] else .ofNat 8 (m.delay.toNat - 1)
  /-- The sound timer ticks, not below zero, unless Fx18 sets it. -/
  sound : n.sound =
    if op.family = 0xF ∧ op.kk = 0x18 then m.v[op.x] else .ofNat 8 (m.sound.toNat - 1)

end Machine

/-! ## From digits to instructions -/

namespace Opcode

variable {op : Opcode} {m : Machine}

/-- The digits of a word say which registers its instruction writes. -/
theorem writes_of_decode {r : Register} (hwrites : op.decode.Writes r) : op.Writes r := by
  have hpattern := op.decode_pattern
  cases hop : op.decode <;> simp_all [Instruction.Writes, Instruction.Pattern, Writes]

/-- The digits of a word say whether its instruction skips. -/
theorem skips_decode : op.decode.skips m = true ↔ m.Skips op := by
  constructor
  · intro hskips
    have hpattern := op.decode_pattern
    cases hop : op.decode <;>
      simp_all [Instruction.skips, Instruction.Pattern, Machine.Skips]
  · rintro (⟨h, hc⟩ | ⟨h, hc⟩ | ⟨h, hc⟩ | ⟨h, hc⟩ | ⟨h, hkk, hc⟩ | ⟨h, hkk, hc⟩)
    · have hop : op.decode = .skipIfByte op.x op.kk := decode_of_pattern ⟨h, rfl, rfl⟩
      simp [hop, Instruction.skips, hc]
    · have hop : op.decode = .skipUnlessByte op.x op.kk := decode_of_pattern ⟨h, rfl, rfl⟩
      simp [hop, Instruction.skips, hc]
    · have hop : op.decode = .skipIfSame op.x op.y := decode_of_pattern ⟨h, rfl, rfl⟩
      simp [hop, Instruction.skips, hc]
    · have hop : op.decode = .skipUnlessSame op.x op.y := decode_of_pattern ⟨h, rfl, rfl⟩
      simp [hop, Instruction.skips, hc]
    · have hop : op.decode = .skipIfHeld op.x := decode_of_pattern ⟨h, hkk, rfl⟩
      simp [hop, Instruction.skips, hc]
    · have hop : op.decode = .skipUnlessHeld op.x := decode_of_pattern ⟨h, hkk, rfl⟩
      simp [hop, Instruction.skips, hc]

end Opcode

/-! ## One part after the other -/

namespace Opcode

variable (op : Opcode) (random : Byte) (m : Machine)

theorem pc_execute_advance :
    (op.decode.execute random m.advance).pc = m.successor op := by
  rw [Instruction.execute_pc, Machine.successor]
  by_cases hjump : op.family = 0x1
  · have hop : op.decode = .jump op.address := decode_of_pattern ⟨hjump, rfl⟩
    rw [hop, if_pos (Or.inl hjump)]
    rfl
  by_cases hcall : op.family = 0x2
  · have hop : op.decode = .call op.address := decode_of_pattern ⟨hcall, rfl⟩
    rw [hop, if_pos (Or.inr hcall)]
    rfl
  by_cases hreturn : op.word = 0x00EE
  · have hop : op.decode = .ret := decode_of_pattern hreturn
    rw [hop, if_neg (not_or.2 ⟨hjump, hcall⟩), if_pos hreturn]
    rfl
  · -- Every other word goes on with the next one or skips it.
    have hnext : op.decode.target? m.advance = none := by
      have hpattern := op.decode_pattern
      cases hop : op.decode <;> simp_all [Instruction.target?, Instruction.Pattern]
    have hskips : op.decode.skips m.advance = true ↔ m.Skips op := skips_decode
    have hpc : m.advance.pc = m.pc + 2 := rfl
    have hfour : m.pc + 2 + 2 = m.pc + 4 := BitVec.add_assoc _ _ _
    rw [hnext, if_neg (not_or.2 ⟨hjump, hcall⟩), if_neg hreturn]
    simp only [Option.getD_none, hskips, hpc, hfour]

/-- A word writes as many bytes as its digits say. -/
theorem length_stored : (op.decode.stored m).length = op.storedCount := by
  have hpattern := op.decode_pattern
  by_cases hdecimal : op.family = 0xF ∧ op.kk = 0x33
  · have hop : op.decode = .decimal op.x := decode_of_pattern ⟨hdecimal.1, hdecimal.2, rfl⟩
    rw [hop, storedCount, if_pos hdecimal]
    rfl
  by_cases hstore : op.family = 0xF ∧ op.kk = 0x55
  · have hop : op.decode = .store op.x := decode_of_pattern ⟨hstore.1, hstore.2, rfl⟩
    rw [hop, storedCount, if_neg hdecimal, if_pos hstore]
    exact Bank.length_readFrom _ _ _
  · rw [storedCount, if_neg hdecimal, if_neg hstore]
    cases hop : op.decode <;> simp_all [Instruction.stored, Instruction.Pattern]

theorem storedCount_le : op.storedCount ≤ 16 := by
  unfold storedCount
  split
  · decide
  · split
    · exact op.x.isLt
    · exact Nat.zero_le _

/-- The bytes that change are among those that the digits of the word allow. -/
theorem memory_execute {a : Address}
    (hne : (op.decode.execute random m).memory[a] ≠ m.memory[a]) :
    ∃ k < op.storedCount, a = (m.i + .ofNat 16 k).address := by
  have hcount := op.storedCount_le
  have hlength := op.length_stored m
  rw [Instruction.execute_memory] at hne
  -- At most 16 bytes are written, so they do not run over one another.
  obtain ⟨k, hk, rfl⟩ := Bank.exists_of_getElem_writeFrom_ne (by omega) hne
  exact ⟨k, by omega, (m.i.address_add_ofNat k).symm⟩

theorem delay_execute :
    (op.decode.execute random m).delay =
      if op.family = 0xF ∧ op.kk = 0x15 then m.v[op.x] else m.delay := by
  have hpattern := op.decode_pattern
  rw [Instruction.execute_delay]
  split
  case h_1 x hop =>
      rw [hop] at hpattern
      rw [if_pos ⟨hpattern.1, hpattern.2.1⟩, hpattern.2.2]
  case h_2 hother =>
      rw [if_neg]
      exact fun h => hother op.x (decode_of_pattern ⟨h.1, h.2, rfl⟩)

theorem sound_execute :
    (op.decode.execute random m).sound =
      if op.family = 0xF ∧ op.kk = 0x18 then m.v[op.x] else m.sound := by
  have hpattern := op.decode_pattern
  rw [Instruction.execute_sound]
  split
  case h_1 x hop =>
      rw [hop] at hpattern
      rw [if_pos ⟨hpattern.1, hpattern.2.1⟩, hpattern.2.2]
  case h_2 hother =>
      rw [if_neg]
      exact fun h => hother op.x (decode_of_pattern ⟨h.1, h.2, rfl⟩)

end Opcode

/-- Counting down is subtraction that stops at zero. -/
theorem Byte.countDown_eq (b : Byte) : b.countDown = .ofNat 8 (b.toNat - 1) := by
  unfold Byte.countDown
  split
  case isTrue h => rw [h]; rfl
  case isFalse h =>
      apply BitVec.eq_of_toNat_eq
      bv_omega

namespace Opcode

variable (op : Opcode) (random : Byte) (m : Machine)

/-- Executing a word stays inside its footprint. -/
theorem footprint_execute_advance :
    m.Footprint op (op.decode.execute random m.advance) where
  pc := op.pc_execute_advance random m
  v := by
    intro r hne
    apply writes_of_decode
    apply Classical.byContradiction
    intro hother
    exact hne (Instruction.execute_v_of_not_writes random m.advance _ hother)
  i := by
    intro hne
    have hpattern := op.decode_pattern
    rw [Instruction.execute_i] at hne
    cases hop : op.decode <;>
      simp_all [Instruction.Pattern, PointsIndex, Machine.advance]
  sp := by
    intro hne
    have hpattern := op.decode_pattern
    rw [Instruction.execute_sp] at hne
    cases hop : op.decode <;> simp_all [Instruction.Pattern, Machine.advance]
  stack := by
    intro slot hne
    have hpattern := op.decode_pattern
    rw [Instruction.execute_stack] at hne
    cases hop : op.decode with
    | call target =>
        rw [hop] at hpattern hne
        refine ⟨hpattern.1, ?_⟩
        apply Classical.byContradiction
        intro hother
        exact hne (Bank.getElem_set_ne _ _ (Ne.symm hother))
    | _ => simp_all [Machine.advance]
  memory := fun a hne => op.memory_execute random m.advance hne
  display := by
    intro hne
    have hpattern := op.decode_pattern
    rw [Instruction.execute_display] at hne
    cases hop : op.decode <;> simp_all [Instruction.Pattern, Machine.advance]
  waiting := by
    intro hne
    have hpattern := op.decode_pattern
    rw [Machine.waiting, Instruction.execute_keyboard] at hne
    cases hop : op.decode <;> simp_all [Instruction.Pattern, Machine.advance, Machine.waiting]
  held := by
    rw [Instruction.execute_keyboard]
    split <;> rfl
  delay := by
    rw [delay_execute, ← Byte.countDown_eq]
    rfl
  sound := by
    rw [sound_execute, ← Byte.countDown_eq]
    rfl

end Opcode

/-- **Every step stays inside the footprint of its word.**  Whatever the state of a
machine that does not wait for a key, and whatever word its program counter points
at, a step goes on where the word says and changes what the word may change. -/
theorem step_footprint {m : Machine} (hrunning : m.paused = false) (random : Byte) :
    m.Footprint m.fetch (m.step random) := by
  have hstep : m.step random = m.fetch.decode.execute random m.advance := by
    simp [Machine.step_eq, hrunning]
  rw [hstep]
  exact m.fetch.footprint_execute_advance random m

/-- A word that is fetched across the end of memory and writes registers across it. -/
theorem step_footprint_across_end :
    let m := { Machine.fresh with
      pc := 0x0FFF
      i := 0xFFFE
      memory := .ofFn fun a => if a = 0xFFF then 0xF3 else if a = 0x000 then 0x55 else 0 }
    m.paused = false ∧ m.fetch = ⟨0xF355⟩ ∧ m.Footprint m.fetch (m.step 0) := by
  intro m
  have hrunning : m.paused = false := rfl
  have hfetch : m.fetch = ⟨0xF355⟩ := by
    simp [m, Machine.fetch, Machine.read, Opcode.ofBytes, Word.address]
  exact ⟨hrunning, hfetch, step_footprint hrunning 0⟩

end Chip8
