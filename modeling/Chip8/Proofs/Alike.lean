import Chip8.Proofs.KeyWait
import Chip8.Proofs.News
import Chip8.Proofs.Timers

/-!
# Machines that go the same way

Where a machine goes is a matter of registers, counters, memory, picture and the
register that waits for a key.  Machines that agree in these are alike (`Alike`), and
whatever is done to them keeps them so, as long as no instruction looks at something in
which they differ (`Alike.after`).  Only three instructions can: one reads the delay
timer, and two ask whether a key is held (`Instruction.SeesSame`).

The parts that are left follow the same course in alike machines: a timer that agrees
goes on agreeing (`Alike.value_after`), and so does the news about the picture
(`Alike.changed_after`).  Which keys are held is decided by the commands alone
(`held_after`).
-/

namespace Chip8

theorem Keyboard.isHeld_congr {ρ σ : Type} {k : Keyboard ρ} {l : Keyboard σ}
    (hheld : k.held = l.held) (b : Byte) : k.isHeld b = l.isHeld b := by
  rw [isHeld, isHeld, hheld]

/-- Pixels are flipped alike whether the picture is news or not. -/
theorem Display.draw_congr {d e : Display} (hframe : d.frame = e.frame) (pixels : List Pixel) :
    (d.draw pixels).1.frame = (e.draw pixels).1.frame ∧
      (d.draw pixels).2 = (e.draw pixels).2 := by
  obtain ⟨frame, changed⟩ := d
  obtain rfl : frame = e.frame := hframe
  cases pixels <;> exact ⟨rfl, rfl⟩

namespace Machine

/-- Machines that differ at most in what their timers show, in which keys are held, and
in whether the picture is news. -/
structure Alike (m n : Machine) : Prop where
  v : m.v = n.v
  i : m.i = n.i
  pc : m.pc = n.pc
  sp : m.sp = n.sp
  stack : m.stack = n.stack
  memory : m.memory = n.memory
  frame : m.display.frame = n.display.frame
  waiting : m.waiting = n.waiting

end Machine

/-- Whether an instruction that looks at the delay timer or at the keypad finds the same
there in two machines. -/
def Instruction.SeesSame (m n : Machine) : Instruction → Prop
  | .readDelay _ => m.delay = n.delay
  | .skipIfHeld x | .skipUnlessHeld x => m.keyboard.isHeld m.v[x] = n.keyboard.isHeld n.v[x]
  | _ => True

namespace Machine.Alike

variable {m n : Machine}

theorem refl (m : Machine) : m.Alike m := ⟨rfl, rfl, rfl, rfl, rfl, rfl, rfl, rfl⟩

theorem symm (h : m.Alike n) : n.Alike m :=
  ⟨h.v.symm, h.i.symm, h.pc.symm, h.sp.symm, h.stack.symm, h.memory.symm, h.frame.symm,
    h.waiting.symm⟩

theorem trans {o : Machine} (h : m.Alike n) (h' : n.Alike o) : m.Alike o :=
  ⟨h.v.trans h'.v, h.i.trans h'.i, h.pc.trans h'.pc, h.sp.trans h'.sp, h.stack.trans h'.stack,
    h.memory.trans h'.memory, h.frame.trans h'.frame, h.waiting.trans h'.waiting⟩

theorem advance (h : m.Alike n) : m.advance.Alike n.advance :=
  { h with pc := congrArg (· + 2) h.pc }

theorem paused_eq (h : m.Alike n) : m.paused = n.paused := by
  rw [paused, paused, h.waiting]

theorem fetch_eq (h : m.Alike n) : m.fetch = n.fetch := by
  rw [fetch, fetch, read, read, read, read, h.memory, h.pc]

theorem executes_eq (h : m.Alike n) (c : Command) : m.executes c = n.executes c := by
  cases c with
  | step random => rw [executes, executes, h.paused_eq, h.fetch_eq]
  | _ => rfl

theorem readIndexed_eq (h : m.Alike n) (count : Nat) :
    m.readIndexed count = n.readIndexed count := by
  rw [readIndexed, readIndexed, h.memory, h.i]

/-! ## Instructions -/

variable {i : Instruction} (random : Byte)

theorem v_execute (h : m.Alike n) (hsees : i.SeesSame m n) :
    (i.execute random m).v = (i.execute random n).v := by
  cases i with
  | readDelay x =>
      have hdelay : m.delay = n.delay := hsees
      simp only [Instruction.execute, setRegister, h.v, hdelay]
  | draw x y count =>
      simp only [Instruction.execute, drawSprite_eq, h.v, h.readIndexed_eq,
        (Display.draw_congr h.frame _).2]
  | load x => simp only [Instruction.execute, h.v, h.readIndexed_eq]
  | skipIfByte | skipUnlessByte | skipIfSame | skipUnlessSame | skipIfHeld | skipUnlessHeld =>
      simp only [Instruction.execute, skipIf_eq, h.v]
  | _ =>
      simp only [Instruction.execute, setFlag, setRegister, call, ret, writeIndexed, h.v]

theorem pc_execute (h : m.Alike n) (hsees : i.SeesSame m n) :
    (i.execute random m).pc = (i.execute random n).pc := by
  have htarget : i.target? m = i.target? n := by
    cases i <;> simp only [Instruction.target?, h.stack, h.sp]
  have hskips : i.skips m = i.skips n := by
    cases i with
    | skipIfHeld x | skipUnlessHeld x =>
        have hheld : m.keyboard.isHeld m.v[x] = n.keyboard.isHeld n.v[x] := hsees
        simp only [Instruction.skips, hheld]
    | _ => simp only [Instruction.skips, h.v]
  rw [Instruction.execute_pc, Instruction.execute_pc, htarget, hskips, h.pc]

theorem frame_execute (h : m.Alike n) :
    (i.execute random m).display.frame = (i.execute random n).display.frame := by
  rw [Instruction.execute_display, Instruction.execute_display]
  cases i with
  | clear => rfl
  | draw x y count =>
      simp only [h.v, h.readIndexed_eq]
      exact (Display.draw_congr h.frame _).1
  | _ => exact h.frame

/-- **No instruction** tells machines apart that are alike, if it finds the same where it
looks at the delay timer or at the keypad. -/
theorem execute (h : m.Alike n) (hsees : i.SeesSame m n) :
    (i.execute random m).Alike (i.execute random n) where
  v := h.v_execute random hsees
  i := by simp only [Instruction.execute_i, h.v, h.i]
  pc := h.pc_execute random hsees
  sp := by simp only [Instruction.execute_sp, h.sp]
  stack := by simp only [Instruction.execute_stack, h.stack, h.sp, h.pc]
  memory := by
    have hstored : i.stored m = i.stored n := by
      cases i <;> simp only [Instruction.stored, h.v]
    rw [Instruction.execute_memory, Instruction.execute_memory, hstored, h.memory, h.i]
  frame := h.frame_execute random
  waiting := by
    show (i.execute random m).keyboard.request = (i.execute random n).keyboard.request
    rw [Instruction.execute_keyboard, Instruction.execute_keyboard]
    cases i with
    | awaitKey x => rfl
    | _ => exact h.waiting

/-! ## Commands -/

/-- No command tells them apart, if what it executes finds the same. -/
theorem after (h : m.Alike n) {c : Command}
    (hsees : ∀ op ∈ m.executes c, op.decode.SeesSame m.advance n.advance) :
    (m.after c).Alike (n.after c) := by
  have hload : ∀ program, (m.after (.load program)).Alike (n.after (.load program)) := by
    intro program
    rw [after_load, after_load, h.memory]
    exact { h with memory := rfl }
  cases c with
  | step random =>
      cases hpaused : m.paused with
      | true =>
          rw [after_step_of_paused hpaused, after_step_of_paused (h.paused_eq ▸ hpaused)]
          exact h
      | false =>
          rw [after_step_of_running hpaused, after_step_of_running (h.paused_eq ▸ hpaused),
            ← h.fetch_eq]
          exact h.advance.execute random (hsees _ (by simp [executes, hpaused]))
  | keyDown b =>
      have hrequest : m.keyboard.request = n.keyboard.request := h.waiting
      rw [after_keyDown, after_keyDown]
      by_cases hkey : b < 16
      · simp only [Keyboard.keyDown_of_lt _ hkey, hrequest, h.v]
        exact { h with v := rfl, waiting := rfl }
      · simp only [Keyboard.keyDown_of_le _ (BitVec.not_lt.1 hkey)]
        exact h
  | keyUp b =>
      have hrequest : (m.keyboard.keyUp b).request = (n.keyboard.keyUp b).request := by
        rw [Keyboard.request_keyUp, Keyboard.request_keyUp]
        exact h.waiting
      rw [after_keyUp, after_keyUp]
      exact { h with waiting := hrequest }
  | takeFrame =>
      rw [after_takeFrame, after_takeFrame]
      exact { h with }
  | load program => exact hload program
  | loadFrom readings =>
      rw [after_loadFrom, after_loadFrom]
      split
      · exact hload _
      · exact h
  | reset => exact refl _

/-- A timer that shows the same in both goes on doing so. -/
theorem value_after (h : m.Alike n) {t : Timer} (ht : t.value m = t.value n) (c : Command) :
    t.value (m.after c) = t.value (n.after c) := by
  by_cases hreset : c = .reset
  · rw [hreset]
    rfl
  · rw [t.value_after m hreset, t.value_after n hreset, h.executes_eq, h.v, ht]

theorem draws_eq (h : m.Alike n) : m.draws = n.draws := by
  have hop : ∀ i : Instruction, i.draws m = i.draws n := by
    intro i
    cases i <;> simp only [Instruction.draws, h.readIndexed_eq]
  rw [draws, draws, h.paused_eq, h.fetch_eq, hop]

/-- If the picture is news in both or in neither, it stays so. -/
theorem changed_after (h : m.Alike n) (hchanged : m.display.changed = n.display.changed)
    (c : Command) : (m.after c).display.changed = (n.after c).display.changed := by
  rw [Machine.changed_after, Machine.changed_after, hchanged, h.draws_eq]

/-- They report the same. -/
theorem notices_eq (h : m.Alike n) (c : Command) : m.notices c = n.notices c := by
  cases c with
  | step random =>
      simp only [notices, stepNotices, h.paused_eq, h.fetch_eq, h.pc, h.i, h.sp, h.v]
  | keyDown b =>
      simp only [notices, keyDownNotices, Keyboard.keyDownNotices, h.waiting]
  | _ => rfl

end Machine.Alike

/-- What a command does to the keys that are held, whatever the machine. -/
def Command.hold (held : Bank 4 Bool) : Command → Bank 4 Bool
  | .keyDown b => match Key.ofByte? b with
    | some key => held.set key true
    | none => held
  | .keyUp b => match Key.ofByte? b with
    | some key => held.set key false
    | none => held
  | .reset => .fill false
  | _ => held

namespace Machine

/-- Only the answer to a request for the picture depends on the machine. -/
theorem answer_eq (m n : Machine) {c : Command} (htake : c ≠ .takeFrame) :
    (m.perform c).2 = (n.perform c).2 := by
  have hload : ∀ program,
      (m.afterLoad (m.load program)).2 = (n.afterLoad (n.load program)).2 := by
    intro program
    simp only [load]
    split <;> rfl
  cases c with
  | takeFrame => exact absurd rfl htake
  | load program => exact hload program
  | loadFrom readings =>
      simp only [perform, loadFrom]
      split
      · exact hload _
      · rfl
  | _ => rfl

theorem held_after (m : Machine) (c : Command) :
    (m.after c).keyboard.held = c.hold m.keyboard.held := by
  cases c with
  | step random =>
      cases hpaused : m.paused with
      | true => rw [after_step_of_paused hpaused]; rfl
      | false =>
          rw [after_step_of_running hpaused, Instruction.execute_keyboard]
          split <;> rfl
  | keyDown b =>
      rw [after_keyDown, Command.hold, Keyboard.keyDown]
      cases Key.ofByte? b <;> rfl
  | keyUp b =>
      rw [after_keyUp, Command.hold, Keyboard.keyUp]
      cases Key.ofByte? b <;> rfl
  | takeFrame => rw [after_takeFrame]; rfl
  | load program => rw [after_load]; rfl
  | loadFrom readings => rw [after_loadFrom_eq]; rfl
  | reset => rfl

end Machine

end Chip8
