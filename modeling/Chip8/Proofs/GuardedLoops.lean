import Chip8.Proofs.LaidOut

/-!
# The loops of the guarded machine

Where the machine transfers a run of cells or draws a list of pixels, the guarded
machine goes through offsets one by one.  A loop over the offsets from `k` on is
the transfer from the `k`-th cell on; each induction follows the offsets.
-/

namespace Chip8

/-- The next offset is one address further. -/
theorem Word.address_add_ofNat_succ (a : Word) (k : Nat) :
    (a + BitVec.ofNat 16 (k + 1)).address = (a + BitVec.ofNat 16 k).address + 1 := by
  have hword : a + BitVec.ofNat 16 (k + 1) = a + BitVec.ofNat 16 k + 1 := by
    rw [BitVec.ofNat_add, ← BitVec.add_assoc]
    rfl
  rw [hword, Word.address_add]
  rfl

namespace Machine

/-- Writing digits from the `k`-th offset on. -/
theorem writeDigits_from (m : Machine) (digits : List Byte) (k : Nat) :
    (digits.zipIdx k).foldlM
        (fun (g : Guarded.Machine) digit => g.writeAt digit.2 digit.1) m.laidOut =
      .ok { m with
        memory := m.memory.writeFrom (m.i + BitVec.ofNat 16 k).address digits }.laidOut := by
  induction digits generalizing m k with
  | nil => rfl
  | cons digit digits ih =>
      rw [List.zipIdx_cons, List.foldlM_cons, writeAt_laidOut, Guarded.ok_bind, ih,
        Word.address_add_ofNat_succ]
      rfl

@[simp] theorem writeDigits_laidOut (m : Machine) (digits : List Byte) :
    m.laidOut.writeDigits digits = .ok (m.writeIndexed digits).laidOut := by
  have h := m.writeDigits_from digits 0
  rw [show m.i + BitVec.ofNat 16 0 = m.i from BitVec.add_zero _] at h
  exact h

/-- The numbers of the registers are their own. -/
theorem toNat_ofNat_register {k : Nat} (hk : k < registerCount) :
    (BitVec.ofNat 4 k).toNat = k := by
  rw [BitVec.toNat_ofNat]
  exact Nat.mod_eq_of_lt hk

/-- Storing registers from the `k`-th on. -/
theorem storeRegisters_from (m : Machine) (n k : Nat) (hfit : k + n ≤ registerCount) :
    (List.range' k n).foldlM Guarded.Machine.storeRegister m.laidOut =
      .ok { m with
        memory := m.memory.writeFrom (m.i + BitVec.ofNat 16 k).address
          (m.v.readFrom (.ofNat 4 k) n) }.laidOut := by
  induction n generalizing m k with
  | zero => rfl
  | succ n ih =>
      have hregister := m.register_laidOut (.ofNat 4 k)
      rw [toNat_ofNat_register (by omega)] at hregister
      rw [List.range'_succ, List.foldlM_cons, Guarded.Machine.storeRegister, hregister,
        Guarded.ok_bind, writeAt_laidOut, Guarded.ok_bind, ih _ _ (by omega),
        Word.address_add_ofNat_succ, BitVec.ofNat_add]
      rfl

/-- Loading registers from the `k`-th on. -/
theorem loadRegisters_from (m : Machine) (n k : Nat) (hfit : k + n ≤ registerCount) :
    (List.range' k n).foldlM Guarded.Machine.loadRegister m.laidOut =
      .ok { m with
        v := m.v.writeFrom (.ofNat 4 k)
          (m.memory.readFrom (m.i + BitVec.ofNat 16 k).address n) }.laidOut := by
  induction n generalizing m k with
  | zero => rfl
  | succ n ih =>
      have hregister := m.setRegister_laidOut (.ofNat 4 k) (m.read (m.i + BitVec.ofNat 16 k))
      rw [toNat_ofNat_register (by omega)] at hregister
      rw [List.range'_succ, List.foldlM_cons, Guarded.Machine.loadRegister,
        readAt_laidOut, Guarded.ok_bind, hregister, Guarded.ok_bind,
        ih _ _ (by omega), Machine.setRegister, Word.address_add_ofNat_succ,
        BitVec.ofNat_add]
      rfl

@[simp] theorem storeRegisters_laidOut (m : Machine) (x : Register) :
    (List.range (x.toNat + 1)).foldlM Guarded.Machine.storeRegister m.laidOut =
      .ok (m.writeIndexed (m.v.readFrom 0 x.countTo)).laidOut := by
  have hx : 0 + (x.toNat + 1) ≤ registerCount := by
    have := x.isLt
    simp only [registerCount]
    omega
  have h := m.storeRegisters_from (x.toNat + 1) 0 hx
  rw [← List.range_eq_range', show m.i + BitVec.ofNat 16 0 = m.i from BitVec.add_zero _] at h
  exact h

@[simp] theorem loadRegisters_laidOut (m : Machine) (x : Register) :
    (List.range (x.toNat + 1)).foldlM Guarded.Machine.loadRegister m.laidOut =
      .ok { m with v := m.v.writeFrom 0 (m.readIndexed x.countTo) }.laidOut := by
  have hx : 0 + (x.toNat + 1) ≤ registerCount := by
    have := x.isLt
    simp only [registerCount]
    omega
  have h := m.loadRegisters_from (x.toNat + 1) 0 hx
  rw [← List.range_eq_range', show m.i + BitVec.ofNat 16 0 = m.i from BitVec.add_zero _] at h
  exact h

/-! ## Sprites -/

/-- The mask for a place of a sprite row picks the bit that is counted from the left. -/
theorem and_mask (bits : Byte) {c : Nat} (hc : c < 8) :
    (bits &&& ((0x80 : Byte) >>> c) != 0) = bits.getMsbD c := by
  have hmask : (0x80 : Byte) >>> c = BitVec.twoPow 8 (7 - c) := by
    rcases c with _ | _ | _ | _ | _ | _ | _ | _ | c
    all_goals first | rfl | omega
  have hpow : BitVec.twoPow 8 (7 - c) ≠ 0 := by
    rcases c with _ | _ | _ | _ | _ | _ | _ | _ | c
    all_goals first | decide | omega
  rw [hmask, BitVec.and_twoPow, BitVec.getMsbD]
  cases hbit : bits.getLsbD (7 - c) with
  | false => simp
  | true => simpa [hbit, hc] using hpow

/-- A display laid out, with the news whether a lit pixel was hit. -/
def laidOutDrawing (state : Display × Bool) : Guarded.Display × Bool :=
  (state.1.laidOut, state.2)

/-- The display after further pixels were drawn on it. -/
def drawOn (state : Display × Bool) (pixels : List Pixel) : Display × Bool :=
  ((state.1.draw pixels).1, state.2 || (state.1.draw pixels).2)

theorem drawOn_nil (state : Display × Bool) : drawOn state [] = state := by
  simp [drawOn, Display.draw]

theorem drawOn_cons (state : Display × Bool) (p : Pixel) (pixels : List Pixel) :
    drawOn state (p :: pixels) =
      drawOn (state.1.flip p, state.2 || state.1.frame.lit p) pixels := by
  simp [drawOn, Display.draw, Bool.or_assoc]

theorem drawOn_append (state : Display × Bool) (ps qs : List Pixel) :
    drawOn state (ps ++ qs) = drawOn (drawOn state ps) qs := by
  induction ps generalizing state with
  | nil => rw [List.nil_append, drawOn_nil]
  | cons p ps ih => rw [List.cons_append, drawOn_cons, drawOn_cons, ih]

/-- The pixels of one row of a sprite, of which some columns are visited. -/
def rowPixels (x y row : Nat) (bits : Byte) (columns : List Nat) : List Pixel :=
  (columns.filter bits.getMsbD).map fun c => .wrap (x + c) (y + row)

/-- One place of a sprite row. -/
theorem drawBit_laidOut {x y row c : Nat} (hx : x < 256) (hy : y < 256) (hrow : row < 16)
    (hc : c < 8) (bits : Byte) (state : Display × Bool) :
    Guarded.Machine.drawBit x y row bits (laidOutDrawing state) c =
      .ok (laidOutDrawing (drawOn state (rowPixels x y row bits [c]))) := by
  have hcolumn : x + c < 2 ^ Guarded.indexWidth := by
    simp only [Guarded.indexWidth]
    omega
  have hline : y + row < 2 ^ Guarded.indexWidth := by
    simp only [Guarded.indexWidth]
    omega
  rw [Guarded.Machine.drawBit, Guarded.shiftRight_ok hc, Guarded.ok_bind, and_mask bits hc,
    rowPixels]
  cases hbit : bits.getMsbD c with
  | false =>
      rw [List.filter_cons_of_neg (by simp [hbit]), List.filter_nil, List.map_nil, drawOn_nil]
      rfl
  | true =>
      rw [List.filter_cons_of_pos hbit, List.filter_nil, List.map_cons, List.map_nil,
        drawOn_cons, drawOn_nil, if_pos rfl, Guarded.add_ok hcolumn, Guarded.ok_bind,
        Guarded.add_ok hline, Guarded.ok_bind, laidOutDrawing, Display.drawPixel_laidOut]
      rfl

/-- Any places of a sprite row, in order. -/
theorem drawBits_laidOut {x y row : Nat} (hx : x < 256) (hy : y < 256) (hrow : row < 16)
    (bits : Byte) (columns : List Nat) (hcolumns : ∀ c ∈ columns, c < 8)
    (state : Display × Bool) :
    columns.foldlM (Guarded.Machine.drawBit x y row bits) (laidOutDrawing state) =
      .ok (laidOutDrawing (drawOn state (rowPixels x y row bits columns))) := by
  induction columns generalizing state with
  | nil => rw [rowPixels, List.filter_nil, List.map_nil, drawOn_nil]; rfl
  | cons c columns ih =>
      have hsplit : rowPixels x y row bits (c :: columns) =
          rowPixels x y row bits [c] ++ rowPixels x y row bits columns := by
        rw [rowPixels, ← List.singleton_append, List.filter_append, List.map_append]
        rfl
      rw [List.foldlM_cons, drawBit_laidOut hx hy hrow (hcolumns c List.mem_cons_self),
        Guarded.ok_bind, ih fun c' hc' => hcolumns c' (List.mem_cons_of_mem c hc'),
        hsplit, drawOn_append]

/-- The rows of a sprite from the `k`-th on, in order. -/
theorem drawRows_from (m : Machine) {x y : Nat} (hx : x < 256) (hy : y < 256)
    (n k : Nat) (hfit : k + n ≤ 16) (state : Display × Bool) :
    (List.range' k n).foldlM (m.laidOut.drawRow x y) (laidOutDrawing state) =
      .ok (laidOutDrawing (drawOn state
        (((m.memory.readFrom (m.i + BitVec.ofNat 16 k).address n).zipIdx k).flatMap
          fun (bits, row) => rowPixels x y row bits (List.range 8)))) := by
  induction n generalizing k state with
  | zero => rw [Bank.readFrom, List.zipIdx_nil, List.flatMap_nil, drawOn_nil]; rfl
  | succ n ih =>
      have hcolumns : ∀ c ∈ List.range 8, c < 8 := fun c => List.mem_range.1
      rw [List.range'_succ, List.foldlM_cons, Guarded.Machine.drawRow, readAt_laidOut,
        Guarded.ok_bind, drawBits_laidOut hx hy (by omega) _ _ hcolumns, Guarded.ok_bind,
        ih (k + 1) (by omega), Bank.readFrom, List.zipIdx_cons, List.flatMap_cons,
        drawOn_append, Word.address_add_ofNat_succ]
      rfl

/-- **Drawing a sprite** passes the guards for all coordinates and all rows. -/
theorem drawSprite_laidOut (m : Machine) (x y : Byte) {n : Nat} (hn : n ≤ 16) :
    m.laidOut.drawSprite x y n = .ok (m.drawSprite x y n).laidOut := by
  have h := m.drawRows_from x.isLt y.isLt n 0 (by omega) (m.display, false)
  rw [← List.range_eq_range', show m.i + BitVec.ofNat 16 0 = m.i from BitVec.add_zero _] at h
  rw [Guarded.Machine.drawSprite, show (m.laidOut.display, false) =
    laidOutDrawing (m.display, false) from rfl, h, Guarded.ok_bind, drawOn, Bool.false_or]
  exact setFlag_laidOut { m with
    display := (m.display.draw (Sprite.pixels x.toNat y.toNat (m.readIndexed n))).1 } _

end Machine

end Chip8
