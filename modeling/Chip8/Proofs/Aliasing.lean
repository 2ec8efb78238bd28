import Chip8.Proofs.Runs
import Chip8.Proofs.Effect

/-!
# A machine of twelve bits

Program counter, index register and return addresses are words of sixteen bits,
and the stack pointer is a byte; but memory has 4096 cells and the ring has 16
slots.  Machines are aliased when they differ at most in the bits that name no
cell and no slot.

Every operation of the machine keeps aliased machines aliased: words are only
ever added to, stored and fetched from the ring, and taken for addresses, and
none of these moves a high bit down.  One lemma for each operation says so, and
`Machine.Aliased.execute` goes through the instructions.  Whatever is done to two
aliased machines, they answer alike (`aliased_runs_agree`).
-/

namespace Chip8

/-- Words that name the same memory cell. -/
def Word.Aliased (a b : Word) : Prop := a.toNat % 4096 = b.toNat % 4096

/-- Stack pointers that point at the same slot. -/
def Byte.Aliased (a b : Byte) : Prop := a.toNat % 16 = b.toNat % 16

namespace Word.Aliased

variable {a b : Word}

/-- What names the same cell is the same address. -/
theorem address_eq (h : Aliased a b) : a.address = b.address := by
  apply BitVec.eq_of_toNat_eq
  simpa [Word.address, Word.Aliased] using h

/-- Adding the same keeps words aliased: the low bits of a sum come from low bits. -/
theorem add (h : Aliased a b) (c : Word) : Aliased (a + c) (b + c) := by
  simp only [Word.Aliased, BitVec.toNat_add] at h ⊢
  omega

end Word.Aliased

namespace Byte.Aliased

variable {a b : Byte}

/-- What points at the same slot has the same low digit. -/
theorem slot_eq (h : Aliased a b) : (a.setWidth 4 : BitVec 4) = b.setWidth 4 := by
  apply BitVec.eq_of_toNat_eq
  simpa [Byte.Aliased] using h

theorem add (h : Aliased a b) (c : Byte) : Aliased (a + c) (b + c) := by
  simp only [Byte.Aliased, BitVec.toNat_add] at h ⊢
  omega

theorem sub (h : Aliased a b) (c : Byte) : Aliased (a - c) (b - c) := by
  simp only [Byte.Aliased, BitVec.toNat_sub] at h ⊢
  omega

end Byte.Aliased

namespace Machine

/-- Machines that differ at most in bits that name no cell and no slot. -/
structure Aliased (m n : Machine) : Prop where
  /-- The program counters agree modulo 4096. -/
  pc : Word.Aliased m.pc n.pc
  /-- The index registers agree modulo 4096. -/
  i : Word.Aliased m.i n.i
  /-- The return addresses agree modulo 4096, slot by slot. -/
  stack : ∀ slot : BitVec 4, Word.Aliased m.stack[slot] n.stack[slot]
  /-- The stack pointers agree modulo 16. -/
  sp : Byte.Aliased m.sp n.sp
  /-- The registers are equal. -/
  v : m.v = n.v
  /-- The memories are equal. -/
  memory : m.memory = n.memory
  /-- The delay timers are equal. -/
  delay : m.delay = n.delay
  /-- The sound timers are equal. -/
  sound : m.sound = n.sound
  /-- The pictures are equal, and the news about them. -/
  display : m.display = n.display
  /-- The keys held are equal, and the register that waits. -/
  keyboard : m.keyboard = n.keyboard

namespace Aliased

variable {m n : Machine}

theorem refl (m : Machine) : m.Aliased m :=
  ⟨rfl, rfl, fun _ => rfl, rfl, rfl, rfl, rfl, rfl, rfl, rfl⟩

/-! ## Operations -/

/-- Aliased words read the same byte. -/
theorem read (h : m.Aliased n) {a b : Word} (hab : Word.Aliased a b) :
    m.read a = n.read b := by
  rw [Machine.read, Machine.read, h.memory, hab.address_eq]

theorem setRegister (h : m.Aliased n) (x : Register) (b : Byte) :
    (m.setRegister x b).Aliased (n.setRegister x b) :=
  { h with v := congrArg (Bank.set · x b) h.v }

theorem setFlag (h : m.Aliased n) (b : Byte) : (m.setFlag b).Aliased (n.setFlag b) :=
  h.setRegister 0xF b

theorem skipIf (h : m.Aliased n) (c : Bool) : (m.skipIf c).Aliased (n.skipIf c) := by
  cases c with
  | false => exact h
  | true => exact { h with pc := h.pc.add 2 }

/-- A call writes aliased words to the same slot. -/
theorem call (h : m.Aliased n) (target : Word) : (m.call target).Aliased (n.call target) := by
  have hsp : Byte.Aliased (m.sp + 1) (n.sp + 1) := h.sp.add 1
  refine { h with pc := rfl, sp := hsp, stack := ?_ }
  intro slot
  simp only [Machine.call, Bank.getElem_set, hsp.slot_eq]
  split
  · exact h.pc
  · exact h.stack slot

/-- A return takes aliased words from the same slot. -/
theorem ret (h : m.Aliased n) : m.ret.Aliased n.ret := by
  refine { h with pc := ?_, sp := h.sp.sub 1 }
  simp only [Machine.ret, h.sp.slot_eq]
  exact h.stack _

theorem writeIndexed (h : m.Aliased n) (bytes : List Byte) :
    (m.writeIndexed bytes).Aliased (n.writeIndexed bytes) := by
  refine { h with memory := ?_ }
  simp only [Machine.writeIndexed, h.memory, h.i.address_eq]

theorem readIndexed (h : m.Aliased n) (count : Nat) :
    m.readIndexed count = n.readIndexed count := by
  rw [Machine.readIndexed, Machine.readIndexed, h.memory, h.i.address_eq]

theorem drawSprite (h : m.Aliased n) (x y : Byte) (count : Nat) :
    (m.drawSprite x y count).Aliased (n.drawSprite x y count) := by
  rw [drawSprite_eq, drawSprite_eq, h.display, h.v, h.readIndexed]
  exact { h with v := rfl, display := rfl }

/-! ## Instructions -/

/-- **No instruction** tells aliased machines apart. -/
theorem execute (h : m.Aliased n) (random : Byte) (i : Instruction) :
    (i.execute random m).Aliased (i.execute random n) := by
  cases i with
  | skipIfByte | skipUnlessByte | skipIfSame | skipUnlessSame | skipIfHeld
  | skipUnlessHeld =>
      simp only [Instruction.execute, h.v, h.keyboard]
      exact h.skipIf _
  | setByte | addByte | copy | or | and | xor | random | readDelay =>
      simp only [Instruction.execute, h.v, h.delay]
      exact h.setRegister _ _
  | add x y =>
      simp only [Instruction.execute, h.v]
      exact (h.setRegister _ _).setFlag _
  | sub x y | shiftRight x | subFrom x y | shiftLeft x =>
      -- the flag is written first, and the registers are read again
      simp only [Instruction.execute, h.v, (h.setFlag _).v]
      exact (h.setFlag _).setRegister _ _
  | draw x y count =>
      simp only [Instruction.execute, h.v]
      exact h.drawSprite _ _ _
  | ret => exact h.ret
  | call target => exact h.call _
  | jump target => exact { h with pc := rfl }
  | setIndex target => exact { h with i := rfl }
  | setIndexOffset target =>
      refine { h with i := ?_ }
      simp only [Instruction.execute, h.v]
      rfl
  | addIndex x =>
      refine { h with i := ?_ }
      simp only [Instruction.execute, h.v]
      exact h.i.add _
  | glyph x =>
      refine { h with i := ?_ }
      simp only [Instruction.execute, h.v]
      rfl
  | clear => exact { h with display := rfl }
  | awaitKey x => exact { h with keyboard := congrArg (Keyboard.ask · x) h.keyboard }
  | setDelay x => exact { h with delay := congrArg (·[x]) h.v }
  | setSound x => exact { h with sound := congrArg (·[x]) h.v }
  | decimal x | store x =>
      simp only [Instruction.execute, h.v]
      exact h.writeIndexed _
  | load x =>
      simp only [Instruction.execute, h.v, h.readIndexed]
      exact { h with v := rfl }
  | data word => exact h

/-! ## Commands and runs -/

/-- Aliased machines stand still together. -/
theorem paused_eq (h : m.Aliased n) : m.paused = n.paused := by
  rw [paused, paused, waiting, waiting, h.keyboard]

/-- Aliased machines fetch the same word, across the end of memory too. -/
theorem fetch_eq (h : m.Aliased n) : m.fetch = n.fetch := by
  rw [fetch, fetch, h.read h.pc, h.read (h.pc.add 1)]

theorem step (h : m.Aliased n) (random : Byte) :
    (m.step random).Aliased (n.step random) := by
  have hadvance : m.advance.Aliased n.advance :=
    { h with
      pc := h.pc.add 2
      delay := congrArg Byte.countDown h.delay
      sound := congrArg Byte.countDown h.sound }
  rw [Machine.step_eq, Machine.step_eq, h.paused_eq, h.fetch_eq]
  cases n.paused with
  | true => exact h
  | false => exact hadvance.execute random _

theorem keyDown (h : m.Aliased n) (b : Byte) : (m.keyDown b).Aliased (n.keyDown b) := by
  simp only [Machine.keyDown, h.keyboard]
  split
  · exact { h with keyboard := rfl, v := congrArg (Bank.set · _ b) h.v }
  · exact { h with keyboard := rfl }

/-- A program is loaded into both machines, or refused by both for the same reason. -/
theorem afterLoad (h : m.Aliased n) (program : List Byte) :
    (m.afterLoad (m.load program)).1.Aliased (n.afterLoad (n.load program)).1 ∧
      (m.afterLoad (m.load program)).2 = (n.afterLoad (n.load program)).2 := by
  simp only [load]
  split
  · exact ⟨{ h with memory := congrArg (Bank.writeFrom · _ program) h.memory }, rfl⟩
  · exact ⟨h, rfl⟩

/-- **No command** tells aliased machines apart, neither by what it does nor by
what it answers. -/
theorem perform (h : m.Aliased n) (c : Command) :
    (m.perform c).1.Aliased (n.perform c).1 ∧ (m.perform c).2 = (n.perform c).2 := by
  cases c with
  | step random => exact ⟨h.step random, rfl⟩
  | keyDown b => exact ⟨h.keyDown b, rfl⟩
  | keyUp b => exact ⟨{ h with keyboard := congrArg (Keyboard.keyUp · b) h.keyboard }, rfl⟩
  | takeFrame =>
      simp only [Machine.perform, takeFrame, h.display, and_true]
      exact { h with display := rfl }
  | load program => exact h.afterLoad program
  | loadFrom readings =>
      simp only [Machine.perform, loadFrom]
      split
      · exact h.afterLoad _
      · exact ⟨h, rfl⟩
  | reset => exact ⟨refl fresh, rfl⟩

theorem run (h : m.Aliased n) (cs : List Command) : (m.run cs).Aliased (n.run cs) := by
  induction cs generalizing m n with
  | nil => exact h
  | cons c cs ih => exact ih (h.perform c).1

theorem answers_eq (h : m.Aliased n) (cs : List Command) : m.answers cs = n.answers cs := by
  induction cs generalizing m n with
  | nil => rfl
  | cons c cs ih =>
      have hc := h.perform c
      rw [answers, answers, hc.2]
      exact congrArg _ (ih hc.1)

end Aliased

end Machine

/-- **Runs of aliased machines agree.**  After every command of any list the two
machines are aliased again, and all of their answers are the same. -/
theorem aliased_runs_agree {m n : Machine} (h : m.Aliased n) (cs : List Command) :
    (∀ k, (m.run (cs.take k)).Aliased (n.run (cs.take k))) ∧
      m.answers cs = n.answers cs :=
  ⟨fun k => h.run (cs.take k), h.answers_eq cs⟩

/-- A new machine and one whose counters are past the end of memory, running a
program of nothing but calls. -/
theorem aliased_runs_agree_past_end :
    let m := Machine.fresh
    let n := { Machine.fresh with
      pc := 0x1200, i := 0xF000, sp := 0xF0, stack := .fill 0x3000 }
    let cs : List Command := [.load (.replicate 3584 0x22), .step 0, .step 0, .keyDown 7,
      .takeFrame, .load (.replicate 3585 0x22), .step 0, .reset, .step 0]
    m.Aliased n ∧ (∀ k, (m.run (cs.take k)).Aliased (n.run (cs.take k))) ∧
      m.answers cs = n.answers cs := by
  intro m n cs
  have haliased : m.Aliased n := by
    refine ⟨?_, ?_, ?_, ?_, rfl, rfl, rfl, rfl, rfl, rfl⟩ <;>
      simp [m, n, Machine.fresh, Machine.withPeripherals, Machine.programStart,
        Word.Aliased, Byte.Aliased]
  exact ⟨haliased, aliased_runs_agree haliased cs⟩

end Chip8
