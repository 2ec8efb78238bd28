import Chip8.Proofs.Sprites
import Chip8.Proofs.Timers

/-!
# The font stays readable

The font lies below the programs.  Loading never reaches it, so only two kinds of
words can spoil it, Fx33 and Fx55, and they write where the index register points,
around the end of memory.  As long as none of them writes among the bytes of the
font (`written`), every machine that was ever new has the font in place
(`hasFont_run`), whatever else is done to it.

Then the word Fx29 points at the rows of a digit (`spriteBit_of_glyph`), and a word
Dab5 after it flips the pixels of the glyph at (Va, Vb), and no others
(`font_survives`).
-/

namespace Chip8

namespace Machine

variable (m : Machine)

/-- Whether the font is in place. -/
def HasFont (m : Machine) : Prop :=
  m.memory.readFrom 0 Font.bytes.length = Font.bytes

theorem hasFont_iff {m : Machine} :
    m.HasFont ↔ ∀ k < Font.bytes.length,
      m.memory[BitVec.ofNat 12 k] = Font.bytes.getD k 0 := by
  have hread : ∀ k, (0 : Address) + .ofNat 12 k = .ofNat 12 k := fun k => BitVec.zero_add _
  constructor
  · intro hfont k hk
    have hlt : k < (m.memory.readFrom 0 Font.bytes.length).length := by
      rwa [Bank.length_readFrom]
    have hcell := Bank.getElem_readFrom m.memory 0 hlt
    rw [hread] at hcell
    rw [← hcell, ← List.getD_eq_getElem _ 0 hlt, hfont]
  · intro hcells
    apply List.ext_getElem (Bank.length_readFrom _ _ _)
    intro k hlt hk
    rw [Bank.getElem_readFrom, hread, hcells k hk, List.getD_eq_getElem _ _ hk]

/-- The addresses that a command has a word write to: those of the bytes that a word
Fx33 or Fx55 stores. -/
def written (m : Machine) (c : Command) : List Address :=
  (m.executes c).toList.flatMap fun op =>
    (List.range op.storedCount).map fun k => (m.i + .ofNat 16 k).address

/-- Below the programs, a byte that no word writes stays as it is. -/
theorem memory_after_of_not_written {m : Machine} {c : Command} {a : Address}
    (hreset : c ≠ .reset) (hlow : a < programStart.address) (hnot : a ∉ m.written c) :
    (m.after c).memory[a] = m.memory[a] := by
  have hload : ∀ program, (m.after (.load program)).memory[a] = m.memory[a] := by
    intro program
    rw [after_load]
    by_cases hfits : program.length ≤ maxProgramSize
    · have hsize : maxProgramSize = 3584 := rfl
      have hstart : programStart.address = 0x200#12 := rfl
      rw [hstart] at hlow ⊢
      rw [if_pos hfits]
      exact Bank.getElem_writeFrom_of_le _ (by omega) (by bv_omega)
    · simp only [if_neg hfits]
  cases c with
  | step random =>
      by_cases hpaused : m.paused = true
      · rw [after_step_of_paused hpaused]
      · have hrunning : m.paused = false := by simpa using hpaused
        rw [after_step_of_running hrunning]
        apply Classical.byContradiction
        intro hne
        obtain ⟨k, hk, rfl⟩ := m.fetch.memory_execute random m.advance hne
        apply hnot
        simp only [written, executes, hrunning]
        simpa using ⟨k, hk, rfl⟩
  | keyDown b => rw [after_keyDown]
  | keyUp b => rw [after_keyUp]
  | takeFrame => rw [after_takeFrame]
  | load program => exact hload program
  | loadFrom readings =>
      rw [after_loadFrom]
      split
      · exact hload _
      · rfl
  | reset => exact absurd rfl hreset

/-! ## Runs -/

theorem hasFont_withPeripherals {ρ : Type} (display : Display) (keyboard : Keyboard ρ) :
    (withPeripherals display keyboard).HasFont := by
  rw [hasFont_iff]
  intro k hk
  have hlength : Font.bytes.length = 80 := rfl
  have hplace : ((BitVec.ofNat 12 k : Address) - 0).toNat = k := by
    rw [show (BitVec.ofNat 12 k : Address) - 0 = .ofNat 12 k from BitVec.sub_zero _,
      BitVec.toNat_ofNat]
    omega
  have hcell := Bank.getElem_writeFrom (Bank.fill 0) (0 : Address) (.ofNat 12 k) Font.bytes
    (by decide)
  rw [hplace, Bank.getElem_fill] at hcell
  exact hcell

/-- A command that writes no byte of the font leaves it in place, and so does a reset. -/
theorem HasFont.after {m : Machine} (hfont : m.HasFont) {c : Command}
    (hsafe : ∀ a ∈ m.written c, Font.bytes.length ≤ a.toNat) : (m.after c).HasFont := by
  by_cases hreset : c = .reset
  · subst hreset
    exact hasFont_withPeripherals _ _
  · rw [hasFont_iff] at hfont ⊢
    intro k hk
    have hlength : Font.bytes.length = 80 := rfl
    have hplace : (BitVec.ofNat 12 k : Address).toNat = k := by
      rw [BitVec.toNat_ofNat]
      omega
    have hlow : (BitVec.ofNat 12 k : Address) < programStart.address := by
      have hstart : programStart.address.toNat = 512 := rfl
      rw [BitVec.lt_def]
      omega
    rw [← hfont k hk]
    apply memory_after_of_not_written hreset hlow
    intro hmem
    have hle := hsafe _ hmem
    omega

/-- **A run that writes no byte of the font keeps it.** -/
theorem hasFont_run {m : Machine} (hfont : m.HasFont) {cs : List Command}
    (hsafe : ∀ a ∈ m.observed written cs, Font.bytes.length ≤ a.toNat) :
    (m.run cs).HasFont := by
  induction cs generalizing m with
  | nil => exact hfont
  | cons c cs ih =>
      rw [observed_cons] at hsafe
      have hnext : (m.after c).HasFont :=
        hfont.after fun a ha => hsafe a (List.mem_append_left _ ha)
      exact ih hnext fun a ha => hsafe a (List.mem_append_right _ ha)

/-! ## Glyphs -/

/-- With the index register at the glyph of a digit, the sprite is the glyph. -/
theorem spriteBit_of_glyph {m : Machine} (hfont : m.HasFont) {digit : Byte}
    (hdigit : digit ≤ 0xF) (hi : m.i = Font.glyphAddress digit) {r : Nat}
    (hr : r < Font.glyphSize) (c : Nat) :
    m.spriteBit r c =
      (Font.bytes.getD (Font.glyphSize * digit.toNat + r) 0).getLsbD (7 - c) := by
  have hbound : digit.toNat ≤ 15 := hdigit
  have hsize : Font.glyphSize = 5 := rfl
  have hlength : Font.bytes.length = 80 := rfl
  have haddress : m.i.toNat = Font.glyphSize * digit.toNat := by
    rw [hi, Font.glyphAddress, hsize]
    bv_omega
  have hrow : Font.glyphSize * digit.toNat + r < Font.bytes.length := by
    rw [hsize] at hr ⊢
    omega
  rw [spriteBit, haddress, hasFont_iff.1 hfont _ hrow]

end Machine

/-- Two pictures differ on the pixels of a digit's glyph at (x, y), and on no others. -/
def Frame.DifferByGlyph (f g : Frame) (digit x y : Byte) : Prop :=
  ∀ p, g.lit p ≠ f.lit p ↔
    ∃ r < Font.glyphSize, ∃ c < 8,
      (Font.bytes.getD (Font.glyphSize * digit.toNat + r) 0).getLsbD (7 - c) = true ∧
        p.IsAt (x.toNat + c) (y.toNat + r)

namespace Machine

/-- A word Fx29 and then a word Dab5 draw the glyph of the digit in Vx at (Va, Vb). -/
theorem HasFont.draws_glyph {m : Machine} (hfont : m.HasFont) {pointing drawing : Opcode}
    (hpoint : pointing.IsTransfer 0x29) (hdraw : drawing.family = 0xD)
    (hrows : drawing.n = 5) (hdigit : m.v[pointing.x] ≤ 0xF) (random₁ random₂ : Byte) :
    m.display.frame.DifferByGlyph
      (drawing.decode.execute random₂
        (pointing.decode.execute random₁ m.advance).advance).display.frame
      m.v[pointing.x] m.v[drawing.x] m.v[drawing.y] := by
  have hpointing : pointing.decode = .glyph pointing.x :=
    Opcode.decode_of_pattern ⟨hpoint.1, hpoint.2, rfl⟩
  have hdrawing : drawing.decode = .draw drawing.x drawing.y 5 :=
    Opcode.decode_of_pattern ⟨hdraw, rfl, rfl, hrows.symm⟩
  rw [hpointing, hdrawing]
  -- Between the two words only the counters and the index register have changed.
  let n := ((Instruction.glyph pointing.x).execute random₁ m.advance).advance
  have hn : n.HasFont := hfont
  intro p
  refine ((n.overlaid_drawSprite drawing.x drawing.y 5).frame p).trans ?_
  unfold Covers
  constructor
  · rintro ⟨r, hr, c, hc, hbit, hat⟩
    rw [spriteBit_of_glyph hn hdigit rfl hr] at hbit
    exact ⟨r, hr, c, hc, hbit, hat⟩
  · rintro ⟨r, hr, c, hc, hbit, hat⟩
    rw [← spriteBit_of_glyph hn hdigit rfl hr] at hbit
    exact ⟨r, hr, c, hc, hbit, hat⟩

/-- What a machine has of its font. -/
structure DrawsDigits (m : Machine) : Prop where
  /-- The font is at the start of memory. -/
  font : m.memory.readFrom 0 Font.bytes.length = Font.bytes
  /-- A word Fx29 with a digit in Vx, and then a word Dab5, draw the glyph of the digit
  at (Va, Vb), with Va and Vb as they were before. -/
  words : ∀ (pointing drawing : Opcode) (random₁ random₂ : Byte),
    pointing.IsTransfer 0x29 → drawing.family = 0xD → drawing.n = 5 →
      m.v[pointing.x] ≤ 0xF →
        m.display.frame.DifferByGlyph
          (drawing.decode.execute random₂
            (pointing.decode.execute random₁ m.advance).advance).display.frame
          m.v[pointing.x] m.v[drawing.x] m.v[drawing.y]
  /-- So do two steps that come upon such words. -/
  steps : ∀ random₁ random₂ : Byte, m.paused = false →
    let pointing := m.fetch
    let drawing := (m.step random₁).fetch
    pointing.IsTransfer 0x29 → drawing.family = 0xD → drawing.n = 5 →
      m.v[pointing.x] ≤ 0xF →
        m.display.frame.DifferByGlyph ((m.step random₁).step random₂).display.frame
          m.v[pointing.x] m.v[drawing.x] m.v[drawing.y]

/-- Where the font is in place, its digits can be drawn. -/
theorem HasFont.drawsDigits {m : Machine} (hfont : m.HasFont) : m.DrawsDigits where
  font := hfont
  words := by
    intro pointing drawing random₁ random₂ hpoint hdraw hrows hdigit
    exact hfont.draws_glyph hpoint hdraw hrows hdigit random₁ random₂
  steps := by
    intro random₁ random₂ hrunning pointing drawing hpoint hdraw hrows hdigit
    have hfirst : m.step random₁ = pointing.decode.execute random₁ m.advance :=
      after_step_of_running hrunning random₁
    have hpointing : pointing.decode = .glyph pointing.x :=
      Opcode.decode_of_pattern ⟨hpoint.1, hpoint.2, rfl⟩
    have hpaused : (m.step random₁).paused = false := by
      rw [hfirst, hpointing]
      exact hrunning
    have hsecond : (m.step random₁).step random₂ =
        drawing.decode.execute random₂ (m.step random₁).advance :=
      after_step_of_running hpaused random₂
    rw [hsecond, hfirst]
    exact hfont.draws_glyph hpoint hdraw hrows hdigit random₁ random₂

end Machine

/-- **The font survives and draws.**  In every run of a machine that was just switched
on, with any display and keypad, resets and refused programs included, the font stays
in place as long as no word Fx33 or Fx55 writes an address below its end, and its
digits can be drawn with the words made for it. -/
theorem font_survives {ρ : Type} (display : Display) (keyboard : Keyboard ρ)
    {cs : List Command}
    (hsafe : ∀ a ∈ (Machine.withPeripherals display keyboard).observed Machine.written cs,
      Font.bytes.length ≤ a.toNat) :
    ((Machine.withPeripherals display keyboard).run cs).DrawsDigits :=
  (Machine.hasFont_run (Machine.hasFont_withPeripherals display keyboard) hsafe).drawsDigits

/-- A program that stores V0 right after the font, and then comes upon a word F029. -/
theorem font_survives_beside_store :
    let m := Machine.withPeripherals .blank (Keyboard.idle : Keyboard Nat)
    let cs : List Command := [.load [0xA0, 0x50, 0xF0, 0x55, 0xF0, 0x29], .step 0, .step 0]
    (∀ a ∈ m.observed Machine.written cs, Font.bytes.length ≤ a.toNat) ∧
      (m.run cs).DrawsDigits ∧ m.observed Machine.written cs = [0x050] ∧
      (m.run cs).fetch = ⟨0xF029⟩ := by
  intro m cs
  have hwritten : m.observed Machine.written cs = [0x050] := by decide +kernel
  have hsafe : ∀ a ∈ m.observed Machine.written cs, Font.bytes.length ≤ a.toNat := by
    rw [hwritten]
    simp [Font.bytes]
  exact ⟨hsafe, font_survives .blank Keyboard.idle hsafe, hwritten, by decide +kernel⟩

end Chip8
