import Chip8.Proofs.Sprites

/-!
# Sprites in any order

A sprite is drawn at the place that Vx and Vy give, from the memory that the index
register points at.  A `Stroke` is a word Dxyn with its own values for the three.  No
stroke writes to memory, so the pixels that each of them flips are known before the first
is drawn, and drawing some strokes one after the other is flipping the pixels of all of
them (`display_drawAll`).  What that does to a pixel depends on how many turns it has in
all.  Hence strokes may be drawn in any order, and drawn again in any order they give
every pixel an even number of turns and restore the picture
(`strokes_commute_and_erase`).

A stroke that is drawn twice without setting the registers again is at the same place if
neither Vx nor Vy is VF.  The second time it finds lit what the first time was not.
-/

namespace Chip8

namespace Display

/-- Pixels that all have their turns twice, the second time in any order, restore the
picture. -/
theorem frame_draw_twice (d : Display) {ps qs : List Pixel} (hperm : ps.Perm qs) :
    (d.draw (ps ++ qs)).1.frame = d.frame := by
  ext p
  have htwice : (ps ++ qs).count p = 2 * ps.count p := by
    rw [List.count_append, ← hperm.count_eq, Nat.two_mul]
  rw [lit_draw, htwice, Nat.mul_mod_right]
  exact Bool.xor_false _

end Display

/-! ## Strokes -/

/-- The digits of a word Dxyn are its operands. -/
theorem Opcode.decode_of_draw {op : Opcode} (hdraw : op.family = 0xD) :
    op.decode = .draw op.x op.y op.n :=
  decode_of_pattern ⟨hdraw, rfl, rfl, rfl⟩

/-- A sprite to be drawn: a word Dxyn, and the values that Vx, Vy and the index register
are given before it. -/
structure Stroke where
  /-- The word. -/
  word : Opcode
  /-- It is a word Dxyn. -/
  draws : word.family = 0xD
  /-- The value for Vx. -/
  column : Byte
  /-- The value for Vy; it is the one that stays if x and y are the same register. -/
  row : Byte
  /-- The value for the index register. -/
  index : Word
  /-- The random byte of the step. -/
  random : Byte

namespace Stroke

variable (s : Stroke)

/-- A machine whose registers are set for a stroke. -/
def prepare (m : Machine) : Machine :=
  { (m.setRegister s.word.x s.column).setRegister s.word.y s.row with i := s.index }

/-- Sets the registers and executes the word. -/
def apply (m : Machine) : Machine := s.word.decode.execute s.random (s.prepare m)

/-- The pixels that a stroke flips, in the order of their turns. -/
def pixels (memory : Bank 12 Byte) : List Pixel :=
  Sprite.pixels (if s.word.y = s.word.x then s.row else s.column).toNat s.row.toNat
    (memory.readFrom s.index.address s.word.n.toNat)

/-- A stroke flips its pixels. -/
theorem display_apply (m : Machine) :
    (s.apply m).display = (m.display.draw (s.pixels m.memory)).1 := by
  have hcolumn : (s.prepare m).v[s.word.x] =
      if s.word.y = s.word.x then s.row else s.column := by
    simp [prepare, Machine.setRegister, Bank.getElem_set]
  have hrow : (s.prepare m).v[s.word.y] = s.row := Bank.getElem_set_self _ _ _
  rw [apply, Instruction.execute_display, Opcode.decode_of_draw s.draws]
  show ((s.prepare m).display.draw _).1 = _
  rw [hcolumn, hrow]
  rfl

/-- A stroke writes nothing to memory. -/
theorem memory_apply (m : Machine) : (s.apply m).memory = m.memory := by
  rw [apply, Instruction.execute_memory, Opcode.decode_of_draw s.draws]
  rfl

end Stroke

namespace Machine

variable (m : Machine)

/-- The machine after some strokes. -/
def drawAll (strokes : List Stroke) : Machine := strokes.foldl (fun m s => s.apply m) m

/-- **Strokes flip the pixels of all of them**, those of the first stroke first. -/
theorem display_drawAll (strokes : List Stroke) :
    (m.drawAll strokes).display =
      (m.display.draw (strokes.flatMap (·.pixels m.memory))).1 := by
  induction strokes generalizing m with
  | nil => rfl
  | cons s strokes ih =>
      have hfirst : m.drawAll (s :: strokes) = (s.apply m).drawAll strokes := rfl
      rw [hfirst, ih, s.memory_apply, s.display_apply, List.flatMap_cons,
        Display.fst_draw_append]

theorem memory_drawAll (strokes : List Stroke) : (m.drawAll strokes).memory = m.memory := by
  induction strokes generalizing m with
  | nil => rfl
  | cons s strokes ih => exact (ih (s.apply m)).trans (s.memory_apply m)

/-! ## A stroke that is drawn twice -/

/-- The flag tells exactly whether a pixel of the mask was lit. -/
theorem Overlaid.flag_iff {m after : Machine} {x y : Register} {n : BitVec 4}
    (h : m.Overlaid x y n after) :
    after.v[(0xF : Register)] = 1 ↔
      ∃ p, m.Covers m.v[x] m.v[y] n.toNat p ∧ m.display.frame.lit p = true := by
  constructor
  · intro hflag
    apply Classical.byContradiction
    intro hmiss
    rw [h.miss hmiss] at hflag
    exact absurd hflag (by decide)
  · exact h.hit

/-- A sprite that is drawn a second time finds a pixel lit exactly if it found one dark
the first time.  It is at the same place, since drawing changes no register but VF. -/
theorem flag_drawn_twice_iff (m : Machine) {x y : Register} (hx : x ≠ 0xF) (hy : y ≠ 0xF)
    (n : BitVec 4) (pc : Word) (delay sound : Byte) :
    let first := m.drawSprite m.v[x] m.v[y] n.toNat
    let again := { first with pc := pc, delay := delay, sound := sound }
    (again.drawSprite again.v[x] again.v[y] n.toNat).v[(0xF : Register)] = 1 ↔
      ∃ p, m.Covers m.v[x] m.v[y] n.toNat p ∧ m.display.frame.lit p = false := by
  intro first again
  have hfirst : m.Overlaid x y n first := m.overlaid_drawSprite x y n
  have hcolumn : again.v[x] = m.v[x] := hfirst.others x hx
  have hrow : again.v[y] = m.v[y] := hfirst.others y hy
  rw [(again.overlaid_drawSprite x y n).flag_iff, hcolumn, hrow]
  -- Of the mask, those pixels are lit after the first time that were not before it.
  refine exists_congr fun p => and_congr_right fun hcovered => ?_
  have hflipped : again.display.frame.lit p ≠ m.display.frame.lit p :=
    (hfirst.frame p).2 hcovered
  cases hbefore : m.display.frame.lit p <;> simp_all

end Machine

/-- **Strokes commute and erase themselves.**  Whatever the machine, some strokes leave
the same display in every order, and drawn a second time in any order they restore the
picture.  If a word Dxyn is executed twice in a row, where neither x nor y is F, then the
second time VF says whether some pixel of the sprite was dark before the first; the
timers and the program counter do not matter. -/
theorem strokes_commute_and_erase (m : Machine) {strokes strokes' : List Stroke}
    (hperm : strokes.Perm strokes') :
    (m.drawAll strokes).display = (m.drawAll strokes').display ∧
      ((m.drawAll strokes).drawAll strokes').display.frame = m.display.frame ∧
      ∀ (op : Opcode) (random random' : Byte), op.family = 0xD → op.x ≠ 0xF → op.y ≠ 0xF →
        let first := op.decode.execute random m
        ∀ pc delay sound,
          let second := op.decode.execute random'
            { first with pc := pc, delay := delay, sound := sound }
          second.v[(0xF : Register)] = 1 ↔
            ∃ p, m.Covers m.v[op.x] m.v[op.y] op.n.toNat p ∧
              m.display.frame.lit p = false := by
  have hpixels := hperm.flatMap_right fun s => s.pixels m.memory
  refine ⟨?_, ?_, ?_⟩
  · rw [m.display_drawAll, m.display_drawAll]
    exact m.display.fst_draw_perm hpixels
  · rw [Machine.display_drawAll, m.memory_drawAll, m.display_drawAll,
      ← Display.fst_draw_append]
    exact m.display.frame_draw_twice hpixels
  · intro op random random' hdraw hx hy first pc delay sound second
    simp only [second, first, Opcode.decode_of_draw hdraw]
    exact m.flag_drawn_twice_iff hx hy op.n pc delay sound

/-- Two glyphs that overlap around the corner of the picture, the second at a place that
VF gives for both directions; and a glyph that is drawn twice on a dark picture. -/
theorem strokes_commute_and_erase_around_corner :
    let zero : Stroke := ⟨⟨0xD015⟩, rfl, 62, 30, 0, 0⟩
    let one : Stroke := ⟨⟨0xDFF5⟩, rfl, 0, 63, 5, 0⟩
    let op : Opcode := ⟨0xD015⟩
    let first := op.decode.execute 0 Machine.fresh
    [zero, one].Perm [one, zero] ∧
      (Machine.fresh.drawAll [zero, one]).display =
        (Machine.fresh.drawAll [one, zero]).display ∧
      ((Machine.fresh.drawAll [zero, one]).drawAll [one, zero]).display.frame = .blank ∧
      (op.decode.execute 0 { first with pc := 0x204, delay := 0, sound := 0 }).v[(0xF : Register)]
        = 1 := by
  intro zero one op first
  have hperm : [zero, one].Perm [one, zero] := List.Perm.swap _ _ _
  obtain ⟨hsame, hrestored, htwice⟩ := strokes_commute_and_erase Machine.fresh hperm
  refine ⟨hperm, hsame, hrestored, ?_⟩
  have hdraw : op.family = 0xD := by decide
  have hcovered :
      Machine.fresh.Covers Machine.fresh.v[op.x] Machine.fresh.v[op.y] op.n.toNat ⟨0, 0⟩ :=
    ⟨0, by decide, 0, by decide, by decide +kernel, by decide +kernel, by decide +kernel⟩
  exact (htwice op 0 0 hdraw (by decide) (by decide) 0x204 0 0).2 ⟨⟨0, 0⟩, hcovered, rfl⟩

end Chip8
