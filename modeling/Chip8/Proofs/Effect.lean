import Chip8.Machine.Step

/-!
# The effect of an instruction, part by part

Most parts of the machine are touched by few instructions.  For such a part a
lemma says what it is after any instruction; a theorem about the part then looks
at the few instructions that touch it and at no others.
-/

namespace Chip8

namespace Machine

variable (m : Machine)

/-- A skip is a matter of the program counter alone. -/
theorem skipIf_eq (c : Bool) :
    m.skipIf c = { m with pc := if c then m.pc + 2 else m.pc } := by
  cases c <;> rfl

/-- A sprite changes the display, and then the flag. -/
theorem drawSprite_eq (x y : Byte) (n : Nat) :
    m.drawSprite x y n =
      { m with
        display := (m.display.draw
          (Sprite.pixels x.toNat y.toNat (m.readIndexed n))).1
        v := m.v.set 0xF (.ofBool (m.display.draw
          (Sprite.pixels x.toNat y.toNat (m.readIndexed n))).2) } :=
  rfl

end Machine

namespace Instruction

variable (random : Byte) (m : Machine) (i : Instruction)

-- What the operations that instructions are built from do to the whole machine.
attribute [local simp] execute Machine.skipIf_eq Machine.drawSprite_eq
  Machine.setFlag Machine.setRegister Machine.call Machine.ret Machine.writeIndexed

/-- Only waiting for a key concerns the keypad. -/
theorem execute_keyboard :
    (i.execute random m).keyboard =
      match i with
      | .awaitKey x => m.keyboard.ask x
      | _ => m.keyboard := by
  cases i <;> simp

/-- Whether an instruction skips the next one. -/
def skips (m : Machine) : Instruction → Bool
  | .skipIfByte x kk => m.v[x] = kk
  | .skipUnlessByte x kk => m.v[x] ≠ kk
  | .skipIfSame x y => m.v[x] = m.v[y]
  | .skipUnlessSame x y => m.v[x] ≠ m.v[y]
  | .skipIfHeld x => m.keyboard.isHeld m.v[x]
  | .skipUnlessHeld x => !m.keyboard.isHeld m.v[x]
  | _ => false

/-- Where an instruction goes if it does not go on with the next: jumps and calls to
their target, returns to the address in the slot at the stack pointer. -/
def target? (m : Machine) : Instruction → Option Word
  | .jump target | .call target => some (target.setWidth 16)
  | .ret => some m.stack[(m.sp.setWidth 4 : BitVec 4)]
  | _ => none

/-- Execution goes on at the target, or else with the next instruction or the one
after it. -/
theorem execute_pc :
    (i.execute random m).pc =
      (i.target? m).getD (if i.skips m then m.pc + 2 else m.pc) := by
  cases i with
  | skipIfHeld x => rw [execute, Machine.skipIf_eq]; rfl
  | _ => simp [skips, target?]

/-- The registers that an instruction writes. -/
def Writes (r : Register) : Instruction → Prop
  | .setByte x _ | .addByte x _ | .copy x _ | .or x _ | .and x _ | .xor x _ | .random x _
  | .readDelay x => r = x
  | .add x _ | .sub x _ | .shiftRight x | .subFrom x _ | .shiftLeft x => r = x ∨ r = 0xF
  | .draw .. => r = 0xF
  | .load x => r ≤ x
  | _ => False

/-- Any other register keeps what it holds. -/
theorem execute_v_of_not_writes {r : Register} (hother : ¬ i.Writes r) :
    (i.execute random m).v[r] = m.v[r] := by
  cases i with
  | setByte | addByte | copy | or | and | xor | random | readDelay | draw =>
      exact Bank.getElem_set_ne _ _ (Ne.symm hother)
  | add | sub | shiftRight | subFrom | shiftLeft =>
      obtain ⟨hx, hflag⟩ := not_or.1 hother
      simp only [execute, Machine.setFlag, Machine.setRegister,
        Bank.getElem_set_ne _ _ (Ne.symm hx), Bank.getElem_set_ne _ _ (Ne.symm hflag)]
  | load x =>
      have hlength : (m.readIndexed x.countTo).length = x.toNat + 1 :=
        Bank.length_readFrom _ _ _
      have hbeyond : ¬ r ≤ x := hother
      exact Bank.getElem_writeFrom_of_le _ (by omega) (by bv_omega)
  | _ => simp

/-- The index register is set, moved on or pointed at a glyph. -/
theorem execute_i :
    (i.execute random m).i =
      match i with
      | .setIndex target => target.setWidth 16
      | .setIndexOffset target => target.setWidth 16 + m.v[(0 : Register)].setWidth 16
      | .addIndex x => m.i + m.v[x].setWidth 16
      | .glyph x => Font.glyphAddress m.v[x]
      | _ => m.i := by
  cases i <;> simp

/-- Only one instruction sets the delay timer. -/
theorem execute_delay :
    (i.execute random m).delay =
      match i with
      | .setDelay x => m.v[x]
      | _ => m.delay := by
  cases i <;> simp

/-- Only one instruction sets the sound timer. -/
theorem execute_sound :
    (i.execute random m).sound =
      match i with
      | .setSound x => m.v[x]
      | _ => m.sound := by
  cases i <;> simp

/-- The bytes that an instruction writes to memory, from the index register on. -/
def stored (m : Machine) : Instruction → List Byte
  | .decimal x => m.v[x].decimalDigits
  | .store x => m.v.readFrom 0 x.countTo
  | _ => []

/-- Memory changes by what is written at the index register. -/
theorem execute_memory :
    (i.execute random m).memory = m.memory.writeFrom m.i.address (i.stored m) := by
  cases i <;> simp [stored, Bank.writeFrom]

/-- The display is cleared or drawn on. -/
theorem execute_display :
    (i.execute random m).display =
      match i with
      | .clear => m.display.clear
      | .draw x y n => (m.display.draw
          (Sprite.pixels m.v[x].toNat m.v[y].toNat (m.readIndexed n.toNat))).1
      | _ => m.display := by
  cases i <;> simp

/-- Only calls and returns move the stack pointer. -/
theorem execute_sp :
    (i.execute random m).sp =
      match i with
      | .call _ => m.sp + 1
      | .ret => m.sp - 1
      | _ => m.sp := by
  cases i <;> simp

/-- Only calls write to the ring of return addresses, one slot each. -/
theorem execute_stack :
    (i.execute random m).stack =
      match i with
      | .call _ => m.stack.set ((m.sp + 1).setWidth 4) m.pc
      | _ => m.stack := by
  cases i <;> simp

end Instruction

end Chip8
