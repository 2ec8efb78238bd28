import Chip8.Machine.Step

/-!
# Which words are which instruction

Decoding sorts words by their digits.  The pattern of an instruction says which
digits make a word that instruction, and that its operands are the digits in
their usual places.  Whoever knows the instruction of a word knows the digits of the word
(`decode_pattern`), and the digits decide whether a word is an instruction
(`decode_eq_iff`); no other fact about decoding is needed.

A machine does not decode a word family by family, but selects an operation by all four
digits at once.  It comes to the same: the operation makes of the word the instruction
that it decodes to (`instruction_operation`), to carry it out is to execute that
instruction (`run_operation`), and so is a step (`step_eq`).
-/

namespace Chip8

/-- What the digits of a word must be for the word to be an instruction.  Of a
word that is no instruction nothing is said but which word it is. -/
def Instruction.Pattern (op : Opcode) : Instruction → Prop
  | .clear => op.word = 0x00E0
  | .ret => op.word = 0x00EE
  | .jump target => op.family = 0x1 ∧ target = op.address
  | .call target => op.family = 0x2 ∧ target = op.address
  | .skipIfByte x kk => op.family = 0x3 ∧ x = op.x ∧ kk = op.kk
  | .skipUnlessByte x kk => op.family = 0x4 ∧ x = op.x ∧ kk = op.kk
  | .skipIfSame x y => op.family = 0x5 ∧ x = op.x ∧ y = op.y
  | .setByte x kk => op.family = 0x6 ∧ x = op.x ∧ kk = op.kk
  | .addByte x kk => op.family = 0x7 ∧ x = op.x ∧ kk = op.kk
  | .copy x y => op.family = 0x8 ∧ op.n = 0x0 ∧ x = op.x ∧ y = op.y
  | .or x y => op.family = 0x8 ∧ op.n = 0x1 ∧ x = op.x ∧ y = op.y
  | .and x y => op.family = 0x8 ∧ op.n = 0x2 ∧ x = op.x ∧ y = op.y
  | .xor x y => op.family = 0x8 ∧ op.n = 0x3 ∧ x = op.x ∧ y = op.y
  | .add x y => op.family = 0x8 ∧ op.n = 0x4 ∧ x = op.x ∧ y = op.y
  | .sub x y => op.family = 0x8 ∧ op.n = 0x5 ∧ x = op.x ∧ y = op.y
  | .shiftRight x => op.family = 0x8 ∧ op.n = 0x6 ∧ x = op.x
  | .subFrom x y => op.family = 0x8 ∧ op.n = 0x7 ∧ x = op.x ∧ y = op.y
  | .shiftLeft x => op.family = 0x8 ∧ op.n = 0xE ∧ x = op.x
  | .skipUnlessSame x y => op.family = 0x9 ∧ x = op.x ∧ y = op.y
  | .setIndex target => op.family = 0xA ∧ target = op.address
  | .setIndexOffset target => op.family = 0xB ∧ target = op.address
  | .random x kk => op.family = 0xC ∧ x = op.x ∧ kk = op.kk
  | .draw x y n => op.family = 0xD ∧ x = op.x ∧ y = op.y ∧ n = op.n
  | .skipIfHeld x => op.family = 0xE ∧ op.kk = 0x9E ∧ x = op.x
  | .skipUnlessHeld x => op.family = 0xE ∧ op.kk = 0xA1 ∧ x = op.x
  | .readDelay x => op.family = 0xF ∧ op.kk = 0x07 ∧ x = op.x
  | .awaitKey x => op.family = 0xF ∧ op.kk = 0x0A ∧ x = op.x
  | .setDelay x => op.family = 0xF ∧ op.kk = 0x15 ∧ x = op.x
  | .setSound x => op.family = 0xF ∧ op.kk = 0x18 ∧ x = op.x
  | .addIndex x => op.family = 0xF ∧ op.kk = 0x1E ∧ x = op.x
  | .glyph x => op.family = 0xF ∧ op.kk = 0x29 ∧ x = op.x
  | .decimal x => op.family = 0xF ∧ op.kk = 0x33 ∧ x = op.x
  | .store x => op.family = 0xF ∧ op.kk = 0x55 ∧ x = op.x
  | .load x => op.family = 0xF ∧ op.kk = 0x65 ∧ x = op.x
  | .data word => word = op.word

namespace Opcode

variable {op : Opcode}

/-- A word of family 0 is one of the two instructions without operands, or data. -/
theorem decodeSystem_pattern : op.decodeSystem.Pattern op := by
  unfold decodeSystem
  split
  · assumption
  · split
    · assumption
    · rfl

/-- The last digit sorts the words of family 8. -/
theorem decodeArithmetic_pattern (hfamily : op.family = 0x8) :
    op.decodeArithmetic.Pattern op := by
  unfold decodeArithmetic
  split <;> simp_all [Instruction.Pattern]

/-- The last two digits sort the words of family E. -/
theorem decodeKey_pattern (hfamily : op.family = 0xE) :
    op.decodeKey.Pattern op := by
  unfold decodeKey
  split <;> simp_all [Instruction.Pattern]

/-- The last two digits sort the words of family F. -/
theorem decodeTransfer_pattern (hfamily : op.family = 0xF) :
    op.decodeTransfer.Pattern op := by
  unfold decodeTransfer
  split <;> simp_all [Instruction.Pattern]

/-- The family that decoding takes last is the one that no other case names. -/
theorem eq_last_family {f : BitVec 4}
    (h0 : f ≠ 0x0) (h1 : f ≠ 0x1) (h2 : f ≠ 0x2) (h3 : f ≠ 0x3) (h4 : f ≠ 0x4)
    (h5 : f ≠ 0x5) (h6 : f ≠ 0x6) (h7 : f ≠ 0x7) (h8 : f ≠ 0x8) (h9 : f ≠ 0x9)
    (hA : f ≠ 0xA) (hB : f ≠ 0xB) (hC : f ≠ 0xC) (hD : f ≠ 0xD) (hE : f ≠ 0xE) :
    f = 0xF := by
  bv_omega

/-- **Every word fits the pattern of its instruction.** -/
theorem decode_pattern (op : Opcode) : op.decode.Pattern op := by
  unfold decode
  split
  case h_1 => exact decodeSystem_pattern
  case h_9 h => exact decodeArithmetic_pattern h
  case h_15 h => exact decodeKey_pattern h
  case h_16 =>
      apply decodeTransfer_pattern
      apply eq_last_family <;> assumption
  all_goals exact ⟨by assumption, by simp⟩

/-- **The pattern of an instruction is exact.**  A word decodes to an instruction
if and only if its digits fit; only for data this says less. -/
theorem decode_eq_iff {i : Instruction} (hdata : ∀ word, i ≠ .data word) :
    op.decode = i ↔ i.Pattern op := by
  constructor
  · rintro rfl
    exact op.decode_pattern
  · intro hpattern
    cases i with
    | data word => exact absurd rfl (hdata word)
    | clear =>
        have hword : op.word = 0x00E0 := hpattern
        simp [decode, decodeSystem, family, hword]
    | ret =>
        have hword : op.word = 0x00EE := hpattern
        simp [decode, decodeSystem, family, hword]
    | _ =>
        simp_all [Instruction.Pattern, decode, decodeArithmetic, decodeKey,
          decodeTransfer]

/-- The digits of a word decide its instruction. -/
theorem decode_of_pattern {i : Instruction} (hpattern : i.Pattern op)
    (hdata : ∀ word, i ≠ .data word := by simp) : op.decode = i :=
  (decode_eq_iff hdata).2 hpattern

/-! ## Operations -/

theorem kk_eq_append (op : Opcode) : op.kk = op.y ++ op.n := by
  have hkk : op.word.extractLsb' 4 4 ++ op.word.extractLsb' 0 4 = op.word.extractLsb' 0 8 :=
    BitVec.extractLsb'_append_extractLsb'_eq_extractLsb' rfl
  exact hkk.symm

theorem word_eq_append (op : Opcode) : op.word = op.family ++ (op.x ++ op.kk) := by
  have haddress : op.word.extractLsb' 8 4 ++ op.word.extractLsb' 0 8 = op.word.extractLsb' 0 12 :=
    BitVec.extractLsb'_append_extractLsb'_eq_extractLsb' rfl
  have hword : op.word.extractLsb' 12 4 ++ op.word.extractLsb' 0 12 = op.word.extractLsb' 0 16 :=
    BitVec.extractLsb'_append_extractLsb'_eq_extractLsb' rfl
  calc op.word
      = op.word.extractLsb' 0 16 := BitVec.extractLsb'_eq_self.symm
    _ = op.family ++ op.address := hword.symm
    _ = op.family ++ (op.x ++ op.kk) := congrArg (op.family ++ ·) haddress.symm

/-- The last two digits, each on its own. -/
theorem digits_of_kk (op : Opcode) :
    op.y = op.kk.extractLsb' 4 4 ∧ op.n = op.kk.extractLsb' 0 4 := by
  constructor <;> simp [y, n, kk, BitVec.extractLsb'_extractLsb'_of_le]

/-- A word that fits the pattern of an instruction is recognised. -/
theorem operation_ne_nop {i : Instruction} (hpattern : i.Pattern op)
    (hdata : ∀ word, i ≠ .data word) : op.operation ≠ .nop := by
  obtain ⟨hy, hn⟩ := op.digits_of_kk
  cases i with
  | data word => exact absurd rfl (hdata word)
  | clear | ret =>
      have hword : op.word = _ := hpattern
      simp [operation, family, x, y, n, hword]
  | skipIfHeld | skipUnlessHeld | readDelay | awaitKey | setDelay | setSound | addIndex | glyph
  | decimal | store | load => simp [operation, hy, hn, hpattern.1, hpattern.2.1]
  | copy | or | and | xor | add | sub | shiftRight | subFrom | shiftLeft =>
      simp [operation, hpattern.1, hpattern.2.1]
  | _ => simp [operation, hpattern.1]

theorem decode_of_operation_eq_nop (hnop : op.operation = .nop) : op.decode = .data op.word := by
  have hpattern := op.decode_pattern
  cases hdecode : op.decode with
  | data word =>
      rw [hdecode] at hpattern
      rw [show word = op.word from hpattern]
  | _ => exact absurd hnop (operation_ne_nop hpattern (by simp [hdecode]))

/-- **The operation that a word selects makes of it the instruction that it decodes to.** -/
theorem instruction_operation (op : Opcode) : op.operation.instruction op = op.decode := by
  have hkk := op.kk_eq_append
  have hword := op.word_eq_append
  by_cases hnop : op.operation = .nop
  · rw [hnop, decode_of_operation_eq_nop hnop]
    rfl
  · -- Whatever pattern the digits match, they fit the instruction with these operands.
    revert hnop
    unfold operation
    split
    case h_35 => exact fun hnop => absurd rfl hnop
    all_goals
      intro _
      refine (decode_of_pattern ?_ (by simp [Operation.instruction])).symm
      simp [Operation.instruction, Instruction.Pattern, *]

theorem operation_eq_nop_iff : op.operation = .nop ↔ ∃ word, op.decode = .data word := by
  constructor
  · exact fun hnop => ⟨_, decode_of_operation_eq_nop hnop⟩
  · rintro ⟨word, hdata⟩
    rw [← instruction_operation] at hdata
    cases hoperation : op.operation <;>
      simp [hoperation, Operation.instruction] at hdata ⊢

/-- To carry out the operation that a word selects is to execute its instruction. -/
theorem run_operation (op : Opcode) (random : Byte) (m : Machine) :
    op.operation.run op random m = op.decode.execute random m := by
  rw [Operation.run, instruction_operation]

end Opcode

/-- **A step executes the instruction** that the word at the program counter decodes to. -/
theorem Machine.step_eq (m : Machine) (random : Byte) :
    m.step random = if m.paused then m else m.fetch.decode.execute random m.advance := by
  rw [step, Opcode.run_operation]

end Chip8
