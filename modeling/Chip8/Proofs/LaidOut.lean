import Chip8.Proofs.Layout

/-!
# Guarded operations on a machine that is laid out

`laidOut` lists the banks of a display, of a keypad and of a machine.  For every
guarded operation there is a lemma here: on the layout of a machine it passes
all of its guards, and it gives the layout of what the machine's own operation
gives.  Nothing is assumed of the machine.
-/

namespace Chip8

/-- A display with its rows listed, and one byte for each pixel. -/
def Display.laidOut (d : Display) : Guarded.Display :=
  ⟨d.frame.rows.map (·.map Byte.ofBool), d.changed⟩

/-- A keypad with its keys listed, and a number for the one who waits. -/
def Keyboard.laidOut {ρ : Type} (number : ρ → Nat) (k : Keyboard ρ) : Guarded.Keyboard :=
  ⟨k.held.toList, k.request.map number⟩

/-- A machine with its banks listed. -/
def Machine.laidOut (m : Machine) : Guarded.Machine where
  v := m.v.toList
  i := m.i
  pc := m.pc
  sp := m.sp
  delay := m.delay
  sound := m.sound
  stack := m.stack.toList
  memory := m.memory.toList
  display := m.display.laidOut
  keyboard := m.keyboard.laidOut BitVec.toNat

/-! ## Displays -/

namespace Display

/-- A row of pixels as a bank of bytes. -/
def pixelRow (f : Frame) (row : BitVec 5) : Bank 6 Byte :=
  .ofFn fun column => Byte.ofBool (f.lit ⟨column, row⟩)

/-- The rows of a picture are a bank of rows. -/
theorem laidOut_rows (d : Display) :
    d.laidOut.rows = (Bank.ofFn fun row => (pixelRow d.frame row).toList).toList := by
  simp [laidOut, Frame.rows, pixelRow, Bank.toList_eq_map]

/-- Flipping a pixel writes one byte of one row. -/
theorem pixelRow_flip (f : Frame) (p : Pixel) (row : BitVec 5) :
    pixelRow (f.flip p) row =
      if p.row = row then
        (pixelRow f row).set p.column (Byte.ofBool (!f.lit p))
      else pixelRow f row := by
  apply Bank.ext
  intro column
  by_cases hrow : p.row = row
  · by_cases hcolumn : p.column = column
    · have hp : p = ⟨column, row⟩ := by rw [← hrow, ← hcolumn]
      subst hp
      simp [pixelRow, Frame.lit_flip]
    · have hp : p ≠ ⟨column, row⟩ := fun h => hcolumn (by rw [h])
      simp [pixelRow, Frame.lit_flip, hp, hrow, Bank.getElem_set_ne _ _ hcolumn]
  · have hp : p ≠ ⟨column, row⟩ := fun h => hrow (by rw [h])
    simp [pixelRow, Frame.lit_flip, hp, hrow]

/-- Flipping a byte that stands for a pixel. -/
theorem ofBool_xor_one (lit : Bool) : Byte.ofBool lit ^^^ 1 = Byte.ofBool (!lit) := by
  cases lit <;> rfl

/-- The byte tells whether the pixel is lit. -/
theorem ofBool_beq_one (lit : Bool) : (Byte.ofBool lit == 1) = lit := by
  cases lit <;> rfl

/-- Flipping a pixel writes one row. -/
theorem laidOut_flip (d : Display) (p : Pixel) :
    (d.flip p).laidOut =
      ⟨((Bank.ofFn fun row => (pixelRow d.frame row).toList).set p.row
        ((pixelRow d.frame p.row).set p.column
          (Byte.ofBool (!d.frame.lit p))).toList).toList, true⟩ := by
  have hbank : (Bank.ofFn fun row => (pixelRow (d.frame.flip p) row).toList) =
      (Bank.ofFn fun row => (pixelRow d.frame row).toList).set p.row
        ((pixelRow d.frame p.row).set p.column
          (Byte.ofBool (!d.frame.lit p))).toList := by
    apply Bank.ext
    intro row
    rw [Bank.getElem_set, Bank.getElem_ofFn, Bank.getElem_ofFn, pixelRow_flip]
    by_cases hrow : p.row = row
    · rw [if_pos hrow, if_pos hrow, hrow]
    · rw [if_neg hrow, if_neg hrow]
  have hrows := laidOut_rows (d.flip p)
  rw [show (d.flip p).frame = d.frame.flip p from rfl, hbank] at hrows
  rw [← hrows]
  rfl

/-- **Drawing a pixel** passes the guards for all coordinates. -/
theorem drawPixel_laidOut (d : Display) (x y : Nat) :
    d.laidOut.drawPixel x y =
      .ok ((d.flip (.wrap x y)).laidOut, d.frame.lit (.wrap x y)) := by
  have hx : x % Frame.width = (Pixel.wrap x y).column.toNat := rfl
  have hy : y % Frame.height = (Pixel.wrap x y).row.toNat := rfl
  rw [Guarded.Display.drawPixel, laidOut_rows, hx, hy]
  generalize Pixel.wrap x y = p
  have hpixel : (pixelRow d.frame p.row)[p.column] = Byte.ofBool (d.frame.lit p) :=
    Bank.getElem_ofFn _ _
  simp only [Guarded.readCell_toList, Guarded.writeCell_toList, Guarded.ok_bind,
    Bank.getElem_ofFn, hpixel, ofBool_xor_one, ofBool_beq_one, Guarded.pure_eq_ok]
  rw [laidOut_flip]

/-- A dark picture is laid out as rows of zeros. -/
theorem laidOut_rows_blank (changed : Bool) :
    (⟨.blank, changed⟩ : Display).laidOut.rows =
      .replicate Frame.height (.replicate Frame.width 0) := by
  have hrow : ∀ row, pixelRow .blank row = .fill 0 := by
    intro row
    apply Bank.ext
    intro column
    simp [pixelRow, Byte.ofBool]
  rw [laidOut_rows]
  simp only [hrow, Bank.toList_fill]
  exact Bank.toList_fill _

theorem blank_laidOut : Guarded.Display.blank = blank.laidOut := by
  rw [Guarded.Display.blank, ← laidOut_rows_blank false]
  rfl

@[simp] theorem clear_laidOut (d : Display) : d.laidOut.clear = d.clear.laidOut := by
  rw [Guarded.Display.clear, ← laidOut_rows_blank true]
  rfl

@[simp] theorem taken_laidOut (d : Display) : d.laidOut.taken = d.take.1.laidOut := by
  obtain ⟨frame, changed⟩ := d
  cases changed <;> rfl

/-- A display used on its own passes the guards, whatever is done to it. -/
theorem receive_laidOut (d : Display) (c : Call) :
    d.laidOut.receive c = .ok (d.receive c).laidOut := by
  cases c with
  | drawPixel x y =>
      rw [Guarded.Display.receive, drawPixel_laidOut]
      rfl
  | clear => rw [Guarded.Display.receive, clear_laidOut]; rfl
  | take => rw [Guarded.Display.receive, taken_laidOut]; rfl

end Display

/-! ## Keypads -/

namespace Keyboard

variable {ρ : Type} (number : ρ → Nat) (k : Keyboard ρ)

theorem idle_laidOut : Guarded.Keyboard.idle = (idle : Keyboard ρ).laidOut number := by
  rw [Guarded.Keyboard.idle, laidOut, idle, Bank.toList_fill]
  rfl

/-- The key that a byte names has the byte for its number. -/
theorem eq_some_of_lt {b : Byte} (hb : b.toNat < keyCount) :
    ∃ key : Key, Key.ofByte? b = some key ∧ key.toNat = b.toNat := by
  refine ⟨b.setWidth 4, Key.ofByte?_of_lt hb, ?_⟩
  rw [BitVec.toNat_setWidth]
  exact Nat.mod_eq_of_lt hb

/-- **A key press** passes the guard: only bytes that name a key reach it. -/
theorem keyDown_laidOut (b : Byte) :
    (k.laidOut number).keyDown b =
      .ok ((k.keyDown b).1.laidOut number, (k.keyDown b).2.map number) := by
  rw [Guarded.Keyboard.keyDown]
  by_cases hb : keyCount ≤ b.toNat
  · rw [if_pos hb, keyDown, Key.ofByte?_of_le hb]
    rfl
  · obtain ⟨key, hkey, hnumber⟩ := eq_some_of_lt (Nat.lt_of_not_le hb)
    rw [if_neg hb, keyDown, hkey, laidOut, ← hnumber, Guarded.writeCell_toList]
    rfl

/-- A key release passes over bytes that name no key. -/
theorem keyUp_laidOut (b : Byte) :
    (k.laidOut number).keyUp b = (k.keyUp b).laidOut number := by
  rw [Guarded.Keyboard.keyUp, keyUp]
  by_cases hb : keyCount ≤ b.toNat
  · have hlength : (k.laidOut number).held.length ≤ b.toNat := by
      rw [laidOut, Bank.length_toList]
      exact hb
    rw [Key.ofByte?_of_le hb, List.set_eq_of_length_le hlength]
  · obtain ⟨key, hkey, hnumber⟩ := eq_some_of_lt (Nat.lt_of_not_le hb)
    rw [hkey, ← hnumber, laidOut, Bank.set_toList]
    rfl

/-- Whether a key is held can be asked for any byte. -/
theorem isHeld_laidOut (b : Byte) : (k.laidOut number).isHeld b = k.isHeld b := by
  rw [Guarded.Keyboard.isHeld, isHeld]
  by_cases hb : keyCount ≤ b.toNat
  · have hlength : (k.laidOut number).held.length ≤ b.toNat := by
      rw [laidOut, Bank.length_toList]
      exact hb
    rw [Key.ofByte?_of_le hb, List.getElem?_eq_none hlength]
    rfl
  · obtain ⟨key, hkey, hnumber⟩ := eq_some_of_lt (Nat.lt_of_not_le hb)
    rw [hkey, ← hnumber, laidOut, Bank.getElem?_toList]
    rfl

/-- A keypad used on its own passes the guards, whatever is done to it and
whoever asks for a key. -/
theorem receive_laidOut (k : Keyboard Nat) (c : Call Nat) :
    (k.laidOut id).receive c = .ok ((k.receive c).laidOut id) := by
  cases c with
  | keyDown b =>
      rw [Guarded.Keyboard.receive, keyDown_laidOut]
      rfl
  | keyUp b =>
      show Except.ok ((k.laidOut id).keyUp b) = _
      rw [keyUp_laidOut]
      rfl
  | ask who => rfl
  | withdraw => rfl

end Keyboard

/-! ## Machines -/

namespace Machine

variable (m : Machine)

@[simp] theorem laidOut_display : m.laidOut.display = m.display.laidOut := rfl

@[simp] theorem laidOut_delay : m.laidOut.delay = m.delay := rfl

@[simp] theorem laidOut_keyboard :
    m.laidOut.keyboard = m.keyboard.laidOut BitVec.toNat := rfl

/-- The remainder of a word is the number of the cell that it addresses. -/
theorem mod_memorySize (a : Word) : a.toNat % memorySize = a.address.toNat := by
  rw [Word.address, BitVec.toNat_setWidth]
  rfl

@[simp] theorem read_laidOut (a : Word) : m.laidOut.read a = .ok (m.read a) := by
  rw [Guarded.Machine.read, mod_memorySize, laidOut, Guarded.readCell_toList]
  rfl

@[simp] theorem write_laidOut (a : Word) (b : Byte) :
    m.laidOut.write a b = .ok { m with memory := m.memory.set a.address b }.laidOut := by
  rw [Guarded.Machine.write, mod_memorySize]
  simp only [laidOut, Guarded.writeCell_toList]
  rfl

@[simp] theorem readAt_laidOut (offset : Nat) :
    m.laidOut.readAt offset = .ok (m.read (m.i + BitVec.ofNat 16 offset)) :=
  m.read_laidOut _

@[simp] theorem writeAt_laidOut (offset : Nat) (b : Byte) :
    m.laidOut.writeAt offset b =
      .ok { m with
        memory := m.memory.set (m.i + BitVec.ofNat 16 offset).address b }.laidOut :=
  m.write_laidOut _ b

@[simp] theorem register_laidOut (x : Register) :
    m.laidOut.register x.toNat = .ok m.v[x] := by
  rw [Guarded.Machine.register, laidOut, Guarded.readCell_toList]

@[simp] theorem setRegister_laidOut (x : Register) (b : Byte) :
    m.laidOut.setRegister x.toNat b = .ok (m.setRegister x b).laidOut := by
  rw [Guarded.Machine.setRegister]
  simp only [laidOut, Guarded.writeCell_toList]
  rfl

/-- V0 is a register like the others. -/
@[simp] theorem register_zero_laidOut : m.laidOut.register 0 = .ok m.v[(0 : Register)] :=
  m.register_laidOut 0

/-- The flag is a register like the others. -/
@[simp] theorem setFlag_laidOut (b : Byte) :
    m.laidOut.setRegister 0xF b = .ok (m.setFlag b).laidOut :=
  m.setRegister_laidOut 0xF b

@[simp] theorem skipIf_laidOut (c : Bool) :
    m.laidOut.skipIf c = (m.skipIf c).laidOut := by
  cases c <;> rfl

/-- The remainder of the stack pointer is the number of a slot. -/
theorem mod_stack_length (sp : Byte) :
    sp.toNat % m.laidOut.stack.length = (sp.setWidth 4 : BitVec 4).toNat := by
  rw [laidOut, Bank.length_toList, BitVec.toNat_setWidth]

@[simp] theorem ret_laidOut : m.laidOut.ret = .ok m.ret.laidOut := by
  rw [Guarded.Machine.ret, show m.laidOut.sp = m.sp from rfl, mod_stack_length]
  simp only [laidOut, Guarded.readCell_toList]
  rfl

@[simp] theorem call_laidOut (target : Word) :
    m.laidOut.call target = .ok (m.call target).laidOut := by
  rw [Guarded.Machine.call, show m.laidOut.sp = m.sp from rfl, mod_stack_length]
  simp only [laidOut, Guarded.writeCell_toList]
  rfl

end Machine

end Chip8
