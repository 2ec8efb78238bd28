import Chip8.Proofs.Decoding
import Chip8.Proofs.GuardedLoops
import Chip8.Proofs.Runs

/-!
# No run faults

Every access of the guarded machine is checked, and none of the checks ever
fails.  The reason is that the guarded machine, started as the layout of a
machine, stays the layout of one: a command passes all of its guards on the
layout of any machine at all and gives the layout of what the machine becomes
(`execute_laidOut` for the instructions, `after_laidOut` for the commands,
`run_laidOut` for runs).  In a layout every row has its full length, a register
that waits for a key is one of the sixteen, and a pixel is 0 or 1.

`new_machine_never_faults` puts this together for the machines that can be built.
-/

namespace Chip8

/-! ## Digits by masks -/

namespace Opcode

variable (op : Opcode)

/-- Masking and shifting gives the second digit. -/
@[simp] theorem xIndex_eq : op.xIndex = .ok op.x.toNat := by
  have hx : ((op.word &&& 0x0F00) >>> 8).toNat = op.x.toNat := by
    simp only [x, BitVec.extractLsb'_toNat, BitVec.toNat_ushiftRight, BitVec.toNat_and]
    rw [Nat.shiftRight_and_distrib]
    exact Nat.and_two_pow_sub_one_eq_mod _ 4
  rw [xIndex, Guarded.shiftRight_ok (by decide), Guarded.ok_bind, hx]
  rfl

/-- Masking and shifting gives the third digit. -/
@[simp] theorem yIndex_eq : op.yIndex = .ok op.y.toNat := by
  have hy : ((op.word &&& 0x00F0) >>> 4).toNat = op.y.toNat := by
    simp only [y, BitVec.extractLsb'_toNat, BitVec.toNat_ushiftRight, BitVec.toNat_and]
    rw [Nat.shiftRight_and_distrib]
    exact Nat.and_two_pow_sub_one_eq_mod _ 4
  rw [yIndex, Guarded.shiftRight_ok (by decide), Guarded.ok_bind, hy]
  rfl

@[simp] theorem rowCount_eq : op.rowCount = op.n.toNat := by
  simp only [rowCount, n, BitVec.extractLsb'_toNat, BitVec.toNat_and, Nat.shiftRight_zero]
  exact Nat.and_two_pow_sub_one_eq_mod _ 4

@[simp] theorem maskedByte_eq : op.maskedByte = op.kk := by
  apply BitVec.eq_of_toNat_eq
  have hmask : op.word.toNat &&& 0x00FF = op.word.toNat % 256 :=
    Nat.and_two_pow_sub_one_eq_mod _ 8
  simp only [maskedByte, kk, BitVec.extractLsb'_toNat, BitVec.toNat_and, Nat.shiftRight_zero,
    BitVec.toNat_setWidth]
  rw [show (0x00FF : Word).toNat = 0x00FF from rfl, hmask]
  omega

@[simp] theorem maskedAddress_eq : op.maskedAddress = op.address.setWidth 16 := by
  apply BitVec.eq_of_toNat_eq
  have hmask : op.word.toNat &&& 0x0FFF = op.word.toNat % 4096 :=
    Nat.and_two_pow_sub_one_eq_mod _ 12
  simp only [maskedAddress, address, BitVec.extractLsb'_toNat, BitVec.toNat_and,
    Nat.shiftRight_zero, BitVec.toNat_setWidth]
  rw [show (0x0FFF : Word).toNat = 0x0FFF from rfl, hmask]
  omega

/-- Shifting the high byte up makes room for the low one. -/
theorem shiftLeft_or_eq_append (high low : Byte) :
    (high.setWidth 16 <<< 8 ||| low.setWidth 16 : Word) = high ++ low := by
  apply BitVec.eq_of_getLsbD_eq
  intro i hi
  simp only [BitVec.getLsbD_or, BitVec.getLsbD_shiftLeft, BitVec.getLsbD_setWidth,
    BitVec.getLsbD_append]
  grind

end Opcode

namespace Machine

/-! ## One command -/

/-- A glyph's address fits in a word, whatever byte is taken for a digit. -/
theorem ofNat_mul_glyphSize (digit : Byte) :
    BitVec.ofNat 16 (digit.toNat * Font.glyphSize) = Font.glyphAddress digit := by
  apply BitVec.eq_of_toNat_eq
  rw [Font.glyphAddress, BitVec.toNat_mul, BitVec.toNat_ofNat, BitVec.toNat_ofNat,
    BitVec.toNat_setWidth]
  simp [Nat.mul_mod]

/-- **Every word** passes the guards on every machine, and does what the
instruction that it stands for does. -/
theorem execute_laidOut (random : Byte) (op : Opcode) (m : Machine) :
    m.laidOut.execute random op = .ok (op.decode.execute random m).laidOut := by
  have hpattern := op.decode_pattern
  rw [Guarded.Machine.execute, Opcode.xIndex_eq, Guarded.ok_bind, Opcode.yIndex_eq,
    Guarded.ok_bind]
  cases hop : op.decode with
  | data word => rfl
  | draw x y n =>
      rw [hop] at hpattern
      obtain ⟨-, rfl, rfl, rfl⟩ := hpattern
      have hrows : op.n.toNat ≤ 16 := Nat.le_of_lt op.n.isLt
      simp [Instruction.execute, drawSprite_laidOut m _ _ hrows]
  | glyph x =>
      rw [hop] at hpattern
      obtain ⟨-, -, rfl⟩ := hpattern
      have hproduct : m.v[op.x].toNat * Font.glyphSize < 2 ^ 16 := by
        have := m.v[op.x].isLt
        simp only [Font.glyphSize]
        omega
      simp only [Instruction.execute, register_laidOut, Guarded.ok_bind,
        Guarded.mul_ok hproduct, ofNat_mul_glyphSize]
      rfl
  | clear =>
      simp only [Instruction.execute, laidOut_display, Display.clear_laidOut]
      rfl
  | jump | setIndex | setIndexOffset | awaitKey | setDelay | setSound | addIndex =>
      rw [hop] at hpattern
      simp only [Instruction.Pattern] at hpattern
      simp only [Instruction.execute, hpattern, Opcode.maskedAddress_eq, register_laidOut,
        register_zero_laidOut, Guarded.ok_bind, Guarded.pure_eq_ok]
      rfl
  | _ =>
      rw [hop] at hpattern
      simp only [Instruction.Pattern] at hpattern
      simp [Instruction.execute, hpattern, Byte.decimalDigits, Keyboard.isHeld_laidOut,
        Guarded.shiftRight_ok, Guarded.shiftLeft_ok]

@[simp] theorem fetch_laidOut (m : Machine) : m.laidOut.fetch = .ok m.fetch := by
  rw [Guarded.Machine.fetch, show m.laidOut.pc = m.pc from rfl, read_laidOut,
    Guarded.ok_bind, read_laidOut, Guarded.ok_bind, Guarded.shiftLeft_ok (by decide),
    Guarded.ok_bind, Opcode.shiftLeft_or_eq_append]
  rfl

/-- A step passes the guards. -/
theorem step_laidOut (random : Byte) (m : Machine) :
    m.laidOut.step random = .ok (m.step random).laidOut := by
  have hpaused : m.laidOut.paused = m.paused := by
    simp [Guarded.Machine.paused, paused, waiting, Keyboard.laidOut]
  rw [Guarded.Machine.step, step_eq, hpaused]
  cases m.paused with
  | true => rfl
  | false =>
      have hfetch := fetch_laidOut { m with
        delay := m.delay.countDown, sound := m.sound.countDown }
      have hexecute := execute_laidOut random m.fetch m.advance
      rw [if_neg (by decide), if_neg (by decide)]
      exact (congrArg (· >>= _) hfetch).trans hexecute

/-- The press of a key passes the guards: a register that waits is one of sixteen. -/
theorem keyDown_laidOut (b : Byte) (m : Machine) :
    m.laidOut.keyDown b = .ok (m.keyDown b).laidOut := by
  rw [Guarded.Machine.keyDown, laidOut_keyboard, Keyboard.keyDown_laidOut, Guarded.ok_bind,
    keyDown]
  cases hrequest : (m.keyboard.keyDown b).2 with
  | none => simp only [hrequest, Option.map_none]; rfl
  | some x =>
      simp only [hrequest, Option.map_some]
      exact setRegister_laidOut { m with keyboard := (m.keyboard.keyDown b).1 } x b

/-- Copying a program passes the guards: only one that fits is copied. -/
theorem load_laidOut (program : List Byte) (m : Machine) :
    m.laidOut.load program = .ok (m.after (.load program)).laidOut := by
  rw [Guarded.Machine.load, after_load]
  by_cases hfit : program.length ≤ maxProgramSize
  · have hcells : (programStart.address).toNat + program.length ≤ 2 ^ 12 := by
      have hroom : programStart.address.toNat + maxProgramSize = 2 ^ 12 := by decide
      omega
    have hcopy := Guarded.copyInto_toList m.memory programStart.address program hcells
      (by decide)
    rw [if_neg (Nat.not_lt.2 hfit), if_pos hfit, show m.laidOut.memory = m.memory.toList from rfl,
      show programStart.toNat = programStart.address.toNat from by decide, hcopy]
    rfl
  · rw [if_pos (Nat.lt_of_not_le hfit), if_neg hfit]
    rfl

/-- Every display and every keypad can be given to a new machine. -/
theorem withPeripherals_laidOut {ρ : Type} (number : ρ → Nat) (display : Display)
    (keyboard : Keyboard ρ) :
    Guarded.Machine.withPeripherals display.laidOut (keyboard.laidOut number) =
      .ok (withPeripherals display keyboard).laidOut := by
  have hcopy := Guarded.copyInto_toList (.fill 0 : Bank 12 Byte) 0 Font.bytes (by decide)
    (by decide)
  rw [Bank.toList_fill] at hcopy
  have hmemory : Guarded.copyInto (.replicate memorySize 0) 0 Font.bytes =
      .ok freshMemory.toList := hcopy
  rw [Guarded.Machine.withPeripherals, hmemory, Guarded.ok_bind]
  simp only [laidOut, withPeripherals, Bank.toList_fill]
  rfl

/-- Every command passes the guards on every machine. -/
theorem after_laidOut (m : Machine) (c : Command) :
    m.laidOut.after c = .ok (m.after c).laidOut := by
  cases c with
  | step random => exact m.step_laidOut random
  | keyDown b => exact m.keyDown_laidOut b
  | keyUp b =>
      rw [Guarded.Machine.after, laidOut_keyboard, Keyboard.keyUp_laidOut]
      rfl
  | takeFrame =>
      rw [Guarded.Machine.after, laidOut_display, Display.taken_laidOut]
      rfl
  | load program => exact m.load_laidOut program
  | loadFrom readings =>
      rw [Guarded.Machine.after, after_loadFrom]
      cases Reading.collect readings with
      | ok program => exact m.load_laidOut program
      | error reason => rfl
  | reset =>
      rw [Guarded.Machine.after, Guarded.Machine.fresh, Display.blank_laidOut,
        Keyboard.idle_laidOut BitVec.toNat]
      exact withPeripherals_laidOut _ _ _

/-- **A run of the guarded machine never stops**, and stays the layout of the
machine's own run. -/
theorem run_laidOut (m : Machine) (cs : List Command) :
    m.laidOut.run cs = .ok (m.run cs).laidOut := by
  induction cs generalizing m with
  | nil => rfl
  | cons c cs ih =>
      have htail := ih (m.after c)
      rw [Guarded.Machine.run] at htail ⊢
      rw [List.foldlM_cons, after_laidOut, Guarded.ok_bind, htail]
      rfl

end Machine

/-! ## What the guards rely on -/

/-- Every pixel of a picture is 0 or 1. -/
theorem Display.laidOut_pixels (d : Display) {row : List Byte} (hrow : row ∈ d.laidOut.rows)
    {pixel : Byte} (hpixel : pixel ∈ row) : pixel = 0 ∨ pixel = 1 := by
  obtain ⟨lits, -, rfl⟩ := List.mem_map.1 hrow
  obtain ⟨lit, -, rfl⟩ := List.mem_map.1 hpixel
  cases lit
  · exact Or.inl rfl
  · exact Or.inr rfl

/-- A computation that passes its guards at every element passes them over a list. -/
theorem Guarded.mapM_eq_ok {α β : Type} (f : α → Except Fault β) (g : α → β) (l : List α)
    (h : ∀ a ∈ l, f a = .ok (g a)) : l.mapM f = .ok (l.map g) := by
  induction l with
  | nil => rfl
  | cons a l ih =>
      rw [List.mapM_cons, h a List.mem_cons_self, ok_bind,
        ih fun b hb => h b (List.mem_cons_of_mem a hb)]
      rfl

/-- A pixel's byte, multiplied, is the byte that a texture shows for it. -/
theorem Byte.ofBool_mul (lit : Bool) :
    (Byte.ofBool lit).toNat * 255 = (if lit then 255 else 0 : Byte).toNat := by
  cases lit <;> rfl

/-- The multiplied pixels, each three times, are the bytes of a texture. -/
theorem Host.rgbRows_toNat (rows : List (List Bool)) :
    ((rows.map (·.map Byte.ofBool)).flatten.map fun pixel => pixel.toNat * 255).flatMap
        (List.replicate 3) =
      (rows.flatMap rgbRow).map BitVec.toNat := by
  induction rows with
  | nil => rfl
  | cons row rows ih =>
      have hrow : ((row.map Byte.ofBool).map fun pixel => pixel.toNat * 255).flatMap
          (List.replicate 3) = (rgbRow row).map BitVec.toNat := by
        rw [rgbRow, List.map_flatMap, List.map_map, List.flatMap_map]
        simp [bytesPerPixel, Byte.ofBool_mul]
      rw [List.map_cons, List.flatten_cons, List.map_append, List.flatMap_append, ih, hrow,
        List.flatMap_cons, List.map_append]

/-- **The products of the texture** pass the guards, and are the bytes of the
texture. -/
theorem Display.intensities_laidOut (d : Display) :
    d.laidOut.intensities = .ok ((Host.rgbBytes d.frame).map BitVec.toNat) := by
  have hproducts : ∀ pixel ∈ d.laidOut.rows.flatten,
      Guarded.mul 8 pixel.toNat 255 = .ok (pixel.toNat * 255) := by
    intro pixel hpixel
    obtain ⟨row, hrow, hmem⟩ := List.mem_flatten.1 hpixel
    apply Guarded.mul_ok
    rcases d.laidOut_pixels hrow hmem with rfl | rfl <;> decide
  rw [Guarded.Display.intensities, Guarded.mapM_eq_ok _ _ _ hproducts, Guarded.ok_bind,
    laidOut, Host.rgbRows_toNat]
  rfl

/-! ## Runs from new machines -/

namespace Guarded

/-- What a machine must be like for its next access to be safe. -/
structure Machine.Safe (g : Machine) : Prop where
  /-- A register that waits for a key is one of the sixteen. -/
  request_lt : ∀ x, g.keyboard.request = some x → x < Chip8.Machine.registerCount
  /-- A pixel is 0 or 1. -/
  pixel : ∀ row ∈ g.display.rows, ∀ pixel ∈ row, pixel = 0 ∨ pixel = 1
  /-- The bytes of the texture can be computed. -/
  intensities : ∃ bytes, g.display.intensities = .ok bytes

/-- No run of a guarded machine faults: it arrives at a safe machine, which is
the layout of the one at which the same run of the other machine arrives. -/
def Machine.NeverFaults (g : Machine) (m : Chip8.Machine) : Prop :=
  ∀ cs : List Command, ∃ finish,
    g.run cs = .ok finish ∧ finish.Safe ∧ finish = (m.run cs).laidOut

/-- A display used on its own passes the guards. -/
theorem Display.receiveAll_laidOut (d : Chip8.Display) (calls : List Chip8.Display.Call) :
    d.laidOut.receiveAll calls = .ok (d.receiveAll calls).laidOut := by
  induction calls generalizing d with
  | nil => rfl
  | cons c calls ih =>
      have htail := ih (d.receive c)
      rw [receiveAll] at htail ⊢
      rw [List.foldlM_cons, Chip8.Display.receive_laidOut, ok_bind, htail]
      rfl

/-- A keypad used on its own passes the guards. -/
theorem Keyboard.receiveAll_laidOut (k : Chip8.Keyboard Nat)
    (calls : List (Chip8.Keyboard.Call Nat)) :
    (k.laidOut id).receiveAll calls = .ok ((k.receiveAll calls).laidOut id) := by
  induction calls generalizing k with
  | nil => rfl
  | cons c calls ih =>
      have htail := ih (k.receive c)
      rw [receiveAll] at htail ⊢
      rw [List.foldlM_cons, Chip8.Keyboard.receive_laidOut, ok_bind, htail]
      rfl

/-- The layout of a machine is safe. -/
theorem Machine.safe_laidOut (m : Chip8.Machine) : m.laidOut.Safe where
  request_lt := by
    intro x hx
    obtain ⟨r, -, rfl⟩ := Option.map_eq_some_iff.1 hx
    exact r.isLt
  pixel := fun _ hrow _ hpixel => m.display.laidOut_pixels hrow hpixel
  intensities := ⟨_, m.display.intensities_laidOut⟩

/-- The layout of a machine never faults. -/
theorem Machine.neverFaults_laidOut (m : Chip8.Machine) : m.laidOut.NeverFaults m :=
  fun cs => ⟨_, m.run_laidOut cs, safe_laidOut _, rfl⟩

end Guarded

/-- **No run faults.**  Take any display and any keypad that were used on their
own before, whatever was drawn, whichever keys went down and up and whoever asked
for a key.  A new machine takes possession of them without a fault, and then no
list of commands makes it fault, nor would it with any other memory.  In every
state that it reaches a register that waits is one of the sixteen, every pixel is
0 or 1, and the bytes of the texture can be computed. -/
theorem new_machine_never_faults (drawn : List Display.Call)
    (pressed : List (Keyboard.Call Nat)) :
    let m := Machine.withPeripherals (Display.blank.receiveAll drawn)
      ((Keyboard.idle : Keyboard Nat).receiveAll pressed)
    ∃ display keyboard start,
      Guarded.Display.blank.receiveAll drawn = .ok display ∧
      Guarded.Keyboard.idle.receiveAll pressed = .ok keyboard ∧
      Guarded.Machine.withPeripherals display keyboard = .ok start ∧
      start.NeverFaults m ∧
      ∀ memory : Bank 12 Byte,
        { start with memory := memory.toList }.NeverFaults { m with memory := memory } := by
  intro m
  refine ⟨_, _, m.laidOut, ?_, ?_, Machine.withPeripherals_laidOut id _ _,
    Guarded.Machine.neverFaults_laidOut m, ?_⟩
  · rw [Display.blank_laidOut]
    exact Guarded.Display.receiveAll_laidOut _ drawn
  · rw [Keyboard.idle_laidOut id]
    exact Guarded.Keyboard.receiveAll_laidOut _ pressed
  · intro memory
    exact Guarded.Machine.neverFaults_laidOut { m with memory := memory }

end Chip8
