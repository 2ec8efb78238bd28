import Chip8.Proofs.ShownPicture
import Mathlib.Data.List.GetD
import Mathlib.Data.List.Nodup
import Mathlib.Data.List.ProdSigma

/-!
# Sprites are masks

Drawing flips pixels one after the other, and remembers whether one of them was lit
when its turn came.  A pixel whose turn comes an odd number of times ends up flipped
(`lit_draw`).  So neither the order of the turns nor the collisions would matter if
no pixel had two turns; then a collision is a pixel that was lit at the start
(`hit_draw`), and the whole display is the same in every order (`draw_perm`).

A sprite is such a list.  It is at most fifteen rows high and eight columns wide,
and the picture is larger both ways, so places of a sprite that differ are on pixels
that differ, also around the edges (`nodup_visit`).  Hence a word Dxyn overlays the
picture with the mask of the set bits of the sprite (`draws_overlay`), and reads Vx,
Vy and the picture as they were before it, although it changes VF.
-/

namespace Chip8

/-! ## Flipping pixels -/

namespace Display

variable (d : Display)

theorem draw_cons (p : Pixel) (rest : List Pixel) :
    d.draw (p :: rest) =
      (((d.flip p).draw rest).1, d.frame.lit p || ((d.flip p).draw rest).2) :=
  rfl

/-- A pixel is flipped in the end if its turn came an odd number of times. -/
theorem lit_draw (pixels : List Pixel) (q : Pixel) :
    (d.draw pixels).1.frame.lit q =
      (d.frame.lit q ^^ decide (pixels.count q % 2 = 1)) := by
  induction pixels generalizing d with
  | nil => simp [draw]
  | cons p rest ih =>
      have hflip : (d.flip p).frame.lit q =
          if p = q then !d.frame.lit q else d.frame.lit q := d.frame.lit_flip p q
      rw [draw_cons, ih, hflip, List.count_cons]
      by_cases hpq : p = q
      · rcases Nat.mod_two_eq_zero_or_one (rest.count q) with h | h <;>
          simp [hpq, h, Nat.add_mod]
      · simp [hpq]

/-- If no pixel has two turns, then those that had one are those that differ. -/
theorem lit_draw_ne_iff {pixels : List Pixel} (hnodup : pixels.Nodup) (q : Pixel) :
    (d.draw pixels).1.frame.lit q ≠ d.frame.lit q ↔ q ∈ pixels := by
  rw [lit_draw]
  by_cases hq : q ∈ pixels
  · simp [hq, List.count_eq_one_of_mem hnodup hq]
  · simp [hq, List.count_eq_zero_of_not_mem hq]

/-- If no pixel has two turns, then a pixel is found lit exactly if one was lit at
the start. -/
theorem hit_draw {pixels : List Pixel} (hnodup : pixels.Nodup) :
    (d.draw pixels).2 = pixels.any d.frame.lit := by
  induction pixels generalizing d with
  | nil => rfl
  | cons p rest ih =>
      obtain ⟨hp, hrest⟩ := List.nodup_cons.1 hnodup
      have hother : ∀ q ∈ rest, (d.flip p).frame.lit q = d.frame.lit q := by
        intro q hq
        have hne : p ≠ q := fun h => hp (h ▸ hq)
        exact (d.frame.lit_flip p q).trans (if_neg hne)
      have hlater : rest.any (d.flip p).frame.lit = rest.any d.frame.lit := by
        rw [Bool.eq_iff_iff, List.any_eq_true, List.any_eq_true]
        exact exists_congr fun q => and_congr_right fun hq => by rw [hother q hq]
      rw [draw_cons, ih _ hrest, hlater, List.any_cons]

/-- The picture does not depend on the order of the turns. -/
theorem fst_draw_perm {ps qs : List Pixel} (hperm : ps.Perm qs) :
    (d.draw ps).1 = (d.draw qs).1 := by
  have hframe : (d.draw ps).1.frame = (d.draw qs).1.frame := by
    ext q
    rw [lit_draw, lit_draw, hperm.count_eq]
  have hchanged : (d.draw ps).1.changed = (d.draw qs).1.changed := by
    rw [changed_draw, changed_draw, hperm.isEmpty_eq]
  cases hps : (d.draw ps).1
  cases hqs : (d.draw qs).1
  simp_all

/-- Pixels have their turns one list after the other. -/
theorem fst_draw_append (ps qs : List Pixel) :
    (d.draw (ps ++ qs)).1 = ((d.draw ps).1.draw qs).1 := by
  induction ps generalizing d with
  | nil => rfl
  | cons p ps ih =>
      rw [List.cons_append, draw_cons, draw_cons]
      exact ih (d.flip p)

/-- If no pixel has two turns, then nothing depends on their order. -/
theorem draw_perm {ps qs : List Pixel} (hperm : ps.Perm qs) (hnodup : ps.Nodup) :
    d.draw ps = d.draw qs := by
  apply Prod.ext
  · exact d.fst_draw_perm hperm
  · rw [d.hit_draw hnodup, d.hit_draw (hperm.nodup hnodup)]
    exact hperm.any_eq

end Display

/-! ## Places of the picture -/

/-- A pixel is the one at some coordinates, around both edges. -/
def Pixel.IsAt (p : Pixel) (x y : Nat) : Prop :=
  p.column.toNat = x % Frame.width ∧ p.row.toNat = y % Frame.height

instance (p : Pixel) (x y : Nat) : Decidable (p.IsAt x y) :=
  inferInstanceAs (Decidable (_ ∧ _))

theorem Pixel.isAt_iff {p : Pixel} {x y : Nat} : p.IsAt x y ↔ p = .wrap x y := by
  obtain ⟨column, row⟩ := p
  simp only [IsAt, wrap, mk.injEq, ← BitVec.toNat_inj, BitVec.toNat_ofNat]
  rfl

/-- Within the width and the height of a picture, places that differ are on pixels
that differ. -/
theorem Pixel.wrap_add_inj {x y r c r' c' : Nat} (hr : r < Frame.height)
    (hr' : r' < Frame.height) (hc : c < Frame.width) (hc' : c' < Frame.width)
    (h : wrap (x + c) (y + r) = wrap (x + c') (y + r')) : r = r' ∧ c = c' := by
  have hat : (wrap (x + c) (y + r)).IsAt (x + c) (y + r) := isAt_iff.2 rfl
  have hat' : (wrap (x + c) (y + r)).IsAt (x + c') (y + r') := isAt_iff.2 h
  have hcolumn := hat.1.symm.trans hat'.1
  have hrow := hat.2.symm.trans hat'.2
  unfold Frame.width Frame.height at *
  omega

/-! ## The pixels of a sprite -/

namespace Sprite

/-- The pixels that a sprite covers, as they come up when its places, rows and columns,
are visited in some order. -/
def visit (bit : Nat → Nat → Bool) (x y : Nat) (places : List (Nat × Nat)) : List Pixel :=
  (places.filter fun (r, c) => bit r c).map fun (r, c) => .wrap (x + c) (y + r)

/-- All places of a sprite, row by row and from the left. -/
def places (height : Nat) : List (Nat × Nat) := List.range height ×ˢ List.range 8

theorem mem_places {height r c : Nat} : (r, c) ∈ places height ↔ r < height ∧ c < 8 := by
  rw [places, List.mem_product, List.mem_range, List.mem_range]

/-- Bytes with their numbers are the numbers of bytes, with their bytes. -/
theorem zipIdx_eq_map_range (bytes : List Byte) :
    bytes.zipIdx = (List.range bytes.length).map fun r => (bytes.getD r 0, r) := by
  apply List.ext_getElem
  · simp
  · intro r hr _
    have hlt : r < bytes.length := by simpa using hr
    simp [hlt]

/-- A sprite is drawn row by row and from the left. -/
theorem pixels_eq_visit (x y : Nat) (bytes : List Byte) :
    pixels x y bytes =
      visit (fun r c => (bytes.getD r 0).getMsbD c) x y (places bytes.length) := by
  have hplaces : places bytes.length =
      (List.range bytes.length).flatMap fun r => (List.range 8).map fun c => (r, c) := rfl
  rw [pixels, zipIdx_eq_map_range, visit, hplaces, List.flatMap_map, List.filter_flatMap,
    List.map_flatMap]
  simp only [List.filter_map, List.map_map]
  rfl

theorem mem_visit {bit : Nat → Nat → Bool} {x y height : Nat} {p : Pixel} :
    p ∈ visit bit x y (places height) ↔
      ∃ r < height, ∃ c < 8, bit r c = true ∧ p.IsAt (x + c) (y + r) := by
  simp only [visit, List.mem_map, List.mem_filter, Prod.exists, mem_places, Pixel.isAt_iff,
    eq_comm (a := p)]
  grind

/-- **No pixel of a sprite has two turns**, if the sprite is no higher than the
picture. -/
theorem nodup_visit (bit : Nat → Nat → Bool) (x y : Nat) {height : Nat}
    (hheight : height ≤ Frame.height) : (visit bit x y (places height)).Nodup := by
  have hplaces : (places height).Nodup := List.nodup_range.product List.nodup_range
  apply List.Nodup.map_on _ (hplaces.filter _)
  rintro ⟨r, c⟩ hmem ⟨r', c'⟩ hmem' heq
  have hin := mem_places.1 (List.mem_filter.1 hmem).1
  have hin' := mem_places.1 (List.mem_filter.1 hmem').1
  have hwidth : 8 ≤ Frame.width := by decide
  have hsame := Pixel.wrap_add_inj (by omega) (by omega) (by omega) (by omega) heq
  rw [hsame.1, hsame.2]

end Sprite

/-! ## Words that draw -/

namespace Machine

variable (m : Machine)

/-- Whether the sprite at the index register has its place in row `r` and column `c`
set: bit 7 - c of the byte `r` places on, around the end of memory. -/
def spriteBit (m : Machine) (r c : Nat) : Bool :=
  m.memory[BitVec.ofNat 12 (m.i.toNat + r)].getLsbD (7 - c)

/-- The mask of the sprite at the index register, with its upper left corner at
(x, y). -/
def Covers (m : Machine) (x y : Byte) (height : Nat) (p : Pixel) : Prop :=
  ∃ r < height, ∃ c < 8, m.spriteBit r c = true ∧ p.IsAt (x.toNat + c) (y.toNat + r)

theorem getMsbD_readIndexed {height r c : Nat} (hr : r < height) (hc : c < 8) :
    ((m.readIndexed height).getD r 0).getMsbD c = m.spriteBit r c := by
  have hlt : r < (m.memory.readFrom m.i.address height).length := by
    rwa [Bank.length_readFrom]
  have hbyte : (m.readIndexed height).getD r 0 = m.memory[m.i.address + .ofNat 12 r] := by
    rw [readIndexed, List.getD_eq_getElem _ _ hlt, Bank.getElem_readFrom]
  rw [hbyte, m.i.address_add_eq_ofNat, BitVec.getMsbD, decide_eq_true hc]
  rfl

/-- The pixels that are flipped for a sprite are those of the set places. -/
theorem pixels_readIndexed (x y height : Nat) :
    Sprite.pixels x y (m.readIndexed height) =
      Sprite.visit m.spriteBit x y (Sprite.places height) := by
  rw [Sprite.pixels_eq_visit, readIndexed, Bank.length_readFrom, Sprite.visit, Sprite.visit]
  congr 1
  apply List.filter_congr
  rintro ⟨r, c⟩ hmem
  obtain ⟨hr, hc⟩ := Sprite.mem_places.1 hmem
  exact m.getMsbD_readIndexed hr hc

/-- The set places of a sprite are on the pixels of its mask. -/
theorem mem_pixels_iff {x y : Byte} {height : Nat} {p : Pixel} :
    p ∈ Sprite.pixels x.toNat y.toNat (m.readIndexed height) ↔ m.Covers x y height p := by
  rw [pixels_readIndexed, Sprite.mem_visit]
  rfl

theorem nodup_pixels (x y : Nat) {height : Nat} (hheight : height ≤ Frame.height) :
    (Sprite.pixels x y (m.readIndexed height)).Nodup := by
  rw [pixels_readIndexed]
  exact Sprite.nodup_visit _ _ _ hheight

/-- A machine after a sprite was laid over its picture: the one at the index register,
`n` rows high, with its upper left corner where Vx and Vy were before. -/
structure Overlaid (m : Machine) (x y : Register) (n : BitVec 4) (after : Machine) :
    Prop where
  /-- The pixels that differ are those of the mask. -/
  frame : ∀ p, after.display.frame.lit p ≠ m.display.frame.lit p ↔
    m.Covers m.v[x] m.v[y] n.toNat p
  /-- Each of them is the place of one row and one column only. -/
  once : ∀ p : Pixel, ∀ r < n.toNat, ∀ c < 8, ∀ r' < n.toNat, ∀ c' < 8,
    p.IsAt (m.v[x].toNat + c) (m.v[y].toNat + r) →
      p.IsAt (m.v[x].toNat + c') (m.v[y].toNat + r') → r = r' ∧ c = c'
  /-- The flag is 1 if a pixel of the mask was lit before. -/
  hit : (∃ p, m.Covers m.v[x] m.v[y] n.toNat p ∧ m.display.frame.lit p = true) →
    after.v[(0xF : Register)] = 1
  /-- Else it is 0, also for a sprite without rows. -/
  miss : (¬ ∃ p, m.Covers m.v[x] m.v[y] n.toNat p ∧ m.display.frame.lit p = true) →
    after.v[(0xF : Register)] = 0
  /-- The display and the flag are those of any order in which the places of the sprite
  are visited. -/
  anyOrder : ∀ places, places.Perm (Sprite.places n.toNat) →
    let drawn := m.display.draw
      (Sprite.visit m.spriteBit m.v[x].toNat m.v[y].toNat places)
    after.display = drawn.1 ∧ after.v[(0xF : Register)] = .ofBool drawn.2
  /-- The other registers hold what they held. -/
  others : ∀ r : Register, r ≠ 0xF → after.v[r] = m.v[r]
  /-- Nothing else differs. -/
  rest : after = { m with v := after.v, display := after.display }

/-- A sprite of any instruction is laid over the picture. -/
theorem overlaid_drawSprite (x y : Register) (n : BitVec 4) :
    m.Overlaid x y n (m.drawSprite m.v[x] m.v[y] n.toNat) := by
  have hheight : n.toNat ≤ Frame.height := by
    have hlt := n.isLt
    unfold Frame.height
    omega
  have hnodup := m.nodup_pixels m.v[x].toNat m.v[y].toNat hheight
  have hflag : (m.drawSprite m.v[x] m.v[y] n.toNat).v[(0xF : Register)] =
      .ofBool ((Sprite.pixels m.v[x].toNat m.v[y].toNat (m.readIndexed n.toNat)).any
        m.display.frame.lit) := by
    rw [drawSprite_eq, ← m.display.hit_draw hnodup]
    exact Bank.getElem_set_self _ _ _
  have hany : (Sprite.pixels m.v[x].toNat m.v[y].toNat (m.readIndexed n.toNat)).any
        m.display.frame.lit = true ↔
      ∃ p, m.Covers m.v[x] m.v[y] n.toNat p ∧ m.display.frame.lit p = true := by
    rw [List.any_eq_true]
    exact exists_congr fun p => and_congr_left' m.mem_pixels_iff
  constructor
  case frame =>
    intro p
    exact (m.display.lit_draw_ne_iff hnodup p).trans m.mem_pixels_iff
  case once =>
    intro p r hr c hc r' hr' c' hc' hat hat'
    have hwidth : 8 ≤ Frame.width := by decide
    apply Pixel.wrap_add_inj (by omega) (by omega) (by omega) (by omega)
    exact (Pixel.isAt_iff.1 hat).symm.trans (Pixel.isAt_iff.1 hat')
  case hit =>
    intro h
    rw [hflag, hany.2 h]
    rfl
  case miss =>
    intro h
    rw [hflag, Bool.eq_false_iff.2 (mt hany.1 h)]
    rfl
  case anyOrder =>
    intro places hplaces drawn
    have hperm : (Sprite.pixels m.v[x].toNat m.v[y].toNat (m.readIndexed n.toNat)).Perm
        (Sprite.visit m.spriteBit m.v[x].toNat m.v[y].toNat places) := by
      rw [pixels_readIndexed]
      exact (hplaces.symm.filter _).map _
    have hsame : drawn = m.display.draw
        (Sprite.pixels m.v[x].toNat m.v[y].toNat (m.readIndexed n.toNat)) :=
      (m.display.draw_perm hperm hnodup).symm
    rw [hsame, drawSprite_eq]
    exact ⟨rfl, Bank.getElem_set_self _ _ _⟩
  case others =>
    intro r hr
    exact Bank.getElem_set_ne _ _ (Ne.symm hr)
  case rest => rfl

end Machine

/-- **A word Dxyn overlays the picture with a mask.**  Whatever the machine, the pixels
that change are those of the set bits of the n bytes from the index register on, at
(Vx, Vy) and around the edges; VF says whether one of them was lit, and the order in
which they are visited makes no difference.  This is so too if x or y is F. -/
theorem draws_overlay (m : Machine) (random : Byte) {op : Opcode}
    (hdraw : op.family = 0xD) :
    m.Overlaid op.x op.y op.n (op.decode.execute random m) := by
  have hdecode : op.decode = .draw op.x op.y op.n :=
    Opcode.decode_of_pattern ⟨hdraw, rfl, rfl, rfl⟩
  rw [hdecode]
  exact m.overlaid_drawSprite op.x op.y op.n

/-- A sprite that is read across the end of memory and drawn around the right edge, at
a column that VF gives. -/
theorem draws_overlay_across_ends :
    let m := { Machine.fresh with i := 0x2FFF, v := (Bank.fill 0).set 0xF 62 }
    let op : Opcode := ⟨0xDF32⟩
    op.family = 0xD ∧ m.Overlaid op.x op.y op.n (op.decode.execute 0 m) ∧
      (op.decode.execute 0 m).display.frame.lit ⟨1, 1⟩ = true := by
  intro m op
  have hdraw : op.family = 0xD := by decide
  exact ⟨hdraw, draws_overlay m 0 hdraw, by decide +kernel⟩

end Chip8
