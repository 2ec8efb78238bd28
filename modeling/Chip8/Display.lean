import Chip8.Bank
import Chip8.Word

/-!
# The display

A picture of 64 by 32 pixels, each lit or dark, that changes only by flipping pixels or by clearing
it as a whole. Places beyond an edge wrap around to the opposite one. The display remembers whether
it changed since a host last took the picture from it.
-/

namespace Chip8

/-- A place in the picture. -/
structure Pixel where
  /-- Counted from the left. -/
  column : BitVec 6
  /-- Counted from the top. -/
  row : BitVec 5
deriving DecidableEq

namespace Pixel

/-- The place at any coordinates, wrapped around both edges. -/
def wrap (x y : Nat) : Pixel := ⟨.ofNat 6 x, .ofNat 5 y⟩

/-- The cell that holds a pixel when rows follow each other, the top one first. -/
def cell (p : Pixel) : BitVec 11 := p.row ++ p.column

/-- The pixel that a cell holds. -/
def ofCell (i : BitVec 11) : Pixel := ⟨i.extractLsb' 0 6, i.extractLsb' 6 5⟩

@[simp] theorem ofCell_cell (p : Pixel) : ofCell p.cell = p := by
  obtain ⟨column, row⟩ := p
  simp only [ofCell, cell, mk.injEq]
  constructor
  · ext i hi
    rw [BitVec.getElem_extractLsb']
    exact BitVec.getLsbD_append.trans (by simp [hi])
  · ext i hi
    rw [BitVec.getElem_extractLsb']
    exact BitVec.getLsbD_append.trans (by simp [hi])

@[simp] theorem cell_ofCell (i : BitVec 11) : (ofCell i).cell = i := by
  simp only [ofCell, cell]
  ext j hj
  rw [BitVec.getElem_append, ← BitVec.getLsbD_eq_getElem hj]
  split
  · simp
  · have hindex : 6 + (j - 6) = j := by omega
    simp [hindex]

/-- Different pixels are held by different cells. -/
theorem cell_inj {p q : Pixel} : p.cell = q.cell ↔ p = q :=
  ⟨fun h => by rw [← ofCell_cell p, h, ofCell_cell], congrArg cell⟩

end Pixel

/-- A picture: for each pixel whether it is lit. -/
structure Frame where
  /-- The pixels row by row. -/
  cells : Bank 11 Bool
deriving DecidableEq

namespace Frame

/-- How many columns a picture has. -/
def width : Nat := 64

/-- How many rows a picture has. -/
def height : Nat := 32

/-- The picture with every pixel dark. -/
def blank : Frame := ⟨.fill false⟩

/-- The picture whose lit pixels are those of a predicate. -/
def ofFn (f : Pixel → Bool) : Frame := ⟨.ofFn fun i => f (.ofCell i)⟩

/-- Whether a pixel is lit. -/
def lit (f : Frame) (p : Pixel) : Bool := f.cells[p.cell]

/-- Turns a dark pixel on and a lit one off. -/
def flip (f : Frame) (p : Pixel) : Frame := ⟨f.cells.set p.cell (!f.lit p)⟩

/-- The rows from the top, each with its pixels from the left. -/
def rows (f : Frame) : List (List Bool) :=
  (Bank.indices 5).map fun row => (Bank.indices 6).map fun column => f.lit ⟨column, row⟩

/-- Pictures with the same lit pixels are equal. -/
@[ext] theorem ext {f g : Frame} (h : ∀ p, f.lit p = g.lit p) : f = g := by
  cases f with | mk f => cases g with | mk g =>
  congr 1
  ext i
  have hi := h (.ofCell i)
  simpa only [lit, Pixel.cell_ofCell] using hi

@[simp] theorem lit_blank (p : Pixel) : blank.lit p = false := by
  simp [lit, blank]

@[simp] theorem lit_ofFn (f : Pixel → Bool) (p : Pixel) : (ofFn f).lit p = f p := by
  simp [lit, ofFn]

/-- Flipping a pixel changes that pixel and no other. -/
theorem lit_flip (f : Frame) (p q : Pixel) :
    (f.flip p).lit q = if p = q then !f.lit q else f.lit q := by
  by_cases h : p = q
  · subst h
    simp [lit, flip]
  · have hc : p.cell ≠ q.cell := fun hc => h (Pixel.cell_inj.1 hc)
    simp [lit, flip, h, Bank.getElem_set_ne _ _ hc]

end Frame

/-- The pixels that a sprite covers with its upper left corner at (x, y): one byte for each row,
its high bit at the left. They are listed row by row and from the left. -/
def Sprite.pixels (x y : Nat) (bytes : List Byte) : List Pixel :=
  bytes.zipIdx.flatMap fun (byte, r) =>
    ((List.range 8).filter byte.getMsbD).map fun c => .wrap (x + c) (y + r)

/-- A picture together with the news about it. -/
structure Display where
  /-- What is shown. -/
  frame : Frame
  /-- Whether the picture changed since it was last taken. -/
  changed : Bool
deriving DecidableEq

namespace Display

/-- A dark display that nobody has drawn on. -/
def blank : Display := ⟨.blank, false⟩

/-- Turns every pixel off; a dark display counts as changed too. -/
def clear (_ : Display) : Display := ⟨.blank, true⟩

/-- Flips a pixel. -/
def flip (d : Display) (p : Pixel) : Display := ⟨d.frame.flip p, true⟩

/-- Flips pixels one after the other, and says whether one of them was lit when its turn came. -/
def draw (d : Display) : List Pixel → Display × Bool
  | [] => (d, false)
  | p :: rest =>
    let (after, hit) := (d.flip p).draw rest
    (after, d.frame.lit p || hit)

/-- Flips the pixel at any coordinates, and says whether it was lit. -/
def drawPixel (d : Display) (x y : Nat) : Display × Bool := d.draw [.wrap x y]

/-- Hands the picture over if it changed since the last time. -/
def take (d : Display) : Display × Option Frame :=
  if d.changed then ({ d with changed := false }, some d.frame) else (d, none)

end Display

end Chip8
