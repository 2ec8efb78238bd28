import Chip8.Peripherals
import Chip8.Proofs.Sprites
import Mathlib.Algebra.Ring.Parity
import Mathlib.Data.List.DropRight

/-!
# A pixel tells how often it was flipped

A display on its own is flipped at any coordinates, cleared, and asked for its
picture.  Of this whole history a pixel shows one bit: whether it was flipped an odd
number of times since the picture was last cleared (`lit_receiveAll_blank`).  A flip
tells whether it found the pixel lit, and so the same bit of the history before it
(`pixel_parity`).

What one call does to a pixel is `lit_receive`, what it does to the number of flips is
`flipCount_concat`; the two go together call by call.
-/

namespace Chip8

namespace Display

/-! ## Histories -/

/-- Whether a call flips a pixel: its coordinates are those of the pixel, around both
edges. -/
def Call.flips (p : Pixel) : Call → Bool
  | .drawPixel x y => p.IsAt x y
  | .clear | .take => false

/-- The calls since the picture was last cleared, or all calls if it never was. -/
def sinceClear (calls : List Call) : List Call := calls.rtakeWhile (· ≠ .clear)

/-- How often a pixel was flipped since the picture was last cleared. -/
def flipCount (p : Pixel) (calls : List Call) : Nat := (sinceClear calls).countP (·.flips p)

/-- Clearing the picture starts the count again, and any other call is counted if it
flips the pixel. -/
theorem flipCount_concat (p : Pixel) (calls : List Call) (c : Call) :
    flipCount p (calls ++ [c]) =
      if c = .clear then 0 else flipCount p calls + (c.flips p).toNat := by
  by_cases hclear : c = .clear
  · simp [flipCount, sinceClear, hclear]
  · rw [if_neg hclear, flipCount, sinceClear, List.rtakeWhile_concat_pos _ _ _ (by simpa),
      List.countP_append, List.countP_singleton]
    cases c.flips p <;> rfl

/-! ## What a call does to a pixel -/

variable (d : Display)

@[simp] theorem receiveAll_nil : d.receiveAll [] = d := rfl

theorem receiveAll_concat (calls : List Call) (c : Call) :
    d.receiveAll (calls ++ [c]) = (d.receiveAll calls).receive c :=
  List.foldl_concat _ _ _ _

/-- A flip tells whether the pixel at its coordinates was lit. -/
theorem drawPixel_snd {p : Pixel} {x y : Nat} (hat : p.IsAt x y) :
    (d.drawPixel x y).2 = d.frame.lit p := by
  rw [Pixel.isAt_iff.1 hat]
  exact Bool.or_false _

/-- A pixel is lit after a call if it was lit and not flipped, or flipped and not lit;
only clearing the picture does not ask. -/
theorem lit_receive (p : Pixel) (c : Call) :
    (d.receive c).frame.lit p = if c = .clear then false else (d.frame.lit p ^^ c.flips p) := by
  cases c with
  | drawPixel x y =>
      have hflip : (d.receive (.drawPixel x y)).frame.lit p =
          if .wrap x y = p then !d.frame.lit p else d.frame.lit p := d.frame.lit_flip _ p
      have hclear : Call.drawPixel x y ≠ .clear := Call.noConfusion
      rw [hflip, if_neg hclear, Call.flips]
      by_cases hat : p.IsAt x y
      · rw [if_pos (Pixel.isAt_iff.1 hat).symm, decide_eq_true hat, Bool.xor_true]
      · rw [if_neg fun h => hat (Pixel.isAt_iff.2 h.symm), decide_eq_false hat,
          Bool.xor_false]
  | clear => exact Frame.lit_blank p
  | take => simp [receive, take_fst, Call.flips]

/-- **A pixel is lit if it was flipped an odd number of times** since the picture was
last cleared. -/
theorem lit_receiveAll_blank (calls : List Call) (p : Pixel) :
    (blank.receiveAll calls).frame.lit p = true ↔ Odd (flipCount p calls) := by
  induction calls using List.reverseRecOn with
  | nil => simp [flipCount, sinceClear, blank]
  | append_singleton calls c ih =>
      rw [receiveAll_concat, lit_receive, flipCount_concat]
      by_cases hclear : c = .clear
      · simp [hclear]
      · rw [if_neg hclear, if_neg hclear]
        cases c.flips p with
        | false => simpa using ih
        | true => simp [Nat.odd_add_one, ← ih]

end Display

/-- **The parity of a pixel.**  Whatever is done to a display that was blank, and at
whatever coordinates, a pixel is lit afterwards exactly if it was flipped an odd number
of times since the picture was last cleared; and each flip of it tells exactly whether
the number was odd just before. -/
theorem pixel_parity (calls : List Display.Call) (p : Pixel) :
    ((Display.blank.receiveAll calls).frame.lit p = true ↔
        Odd (Display.flipCount p calls)) ∧
      ∀ before x y after, calls = before ++ .drawPixel x y :: after → p.IsAt x y →
        (((Display.blank.receiveAll before).drawPixel x y).2 = true ↔
          Odd (Display.flipCount p before)) := by
  refine ⟨Display.lit_receiveAll_blank calls p, ?_⟩
  intro before x y after _ hat
  rw [Display.drawPixel_snd _ hat]
  exact Display.lit_receiveAll_blank before p

/-- A pixel that is lit when the picture is cleared, and then flipped twice, once at
coordinates that are as large as a 64-bit number can be. -/
theorem pixel_parity_at_far_corner :
    let before : List Display.Call := [.drawPixel 63 31, .take, .clear, .drawPixel 127 63]
    let calls := before ++ [.drawPixel (2 ^ 64 - 1) (2 ^ 64 - 1)]
    Pixel.IsAt ⟨63, 31⟩ (2 ^ 64 - 1) (2 ^ 64 - 1) ∧
      (Display.blank.receiveAll calls).frame.lit ⟨63, 31⟩ = false ∧
      ((Display.blank.receiveAll before).drawPixel (2 ^ 64 - 1) (2 ^ 64 - 1)).2 = true := by
  intro before calls
  have hat : Pixel.IsAt ⟨63, 31⟩ (2 ^ 64 - 1) (2 ^ 64 - 1) := by decide
  obtain ⟨hlit, hhit⟩ := pixel_parity calls ⟨63, 31⟩
  refine ⟨hat, ?_, (hhit before _ _ [] rfl hat).2 (by decide)⟩
  exact Bool.eq_false_iff.2 (mt hlit.1 (by decide))

end Chip8
