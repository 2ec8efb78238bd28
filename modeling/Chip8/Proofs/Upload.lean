import Chip8.Host.Texture

/-!
# Uploaded pictures

A texture is addressed by rows: the byte `c` places into row `r` lies at
`r * pitch + c`, and as long as a row of a picture is no longer than the pitch, no
two rows get in each other's way (`in_row_iff`).  So what an upload does can be said
byte by byte: inside the first 192 bytes of each of the 32 rows it puts the bytes of
the picture, and it leaves every other byte alone (`upload?_of_fits`).  The picture
is then the one that the texture shows (`picture_upload`).
-/

namespace Chip8

/-- A picture is told exactly if all its pixels are. -/
theorem Frame.ofFn?_eq_some_iff {f : Pixel → Option Bool} {frame : Frame} :
    ofFn? f = some frame ↔ ∀ p, f p = some (frame.lit p) := by
  constructor
  · intro h p
    unfold ofFn? at h
    split at h
    case isTrue hall =>
        have hp := List.all_eq_true.1 hall p.cell (Bank.mem_indices _)
        rw [Pixel.ofCell_cell] at hp
        obtain ⟨lit, hlit⟩ := Option.isSome_iff_exists.1 hp
        rw [← Option.some.inj h, lit_ofFn, hlit, Option.getD_some]
    case isFalse => simp at h
  · intro h
    have hall : (Bank.indices 11).all (fun i => (f (.ofCell i)).isSome) = true :=
      List.all_eq_true.2 fun i _ => by rw [h, Option.isSome_some]
    have hframe : ofFn (fun p => (f p).getD false) = frame := by
      ext p
      rw [lit_ofFn, h, Option.getD_some]
    exact (if_pos hall).trans (congrArg some hframe)

/-- The pixels of a picture are listed row by row and from the left. -/
theorem Frame.getElem?_rows (f : Frame) (row : BitVec 5) :
    f.rows[row.toNat]? = some ((Bank.indices 6).map fun column => f.lit ⟨column, row⟩) := by
  rw [rows, List.getElem?_map, Bank.getElem?_indices, Option.map_some]

namespace Host

/-! ## The bytes of a row -/

/-- The byte of a pixel of some brightness. -/
def intensity (lit : Bool) : Byte := if lit then 255 else 0

/-- The bytes of a pixel are all of its brightness, if they say anything. -/
theorem litOfBytes?_eq_some_iff {bytes : List Byte} {lit : Bool} :
    litOfBytes? bytes = some lit ↔ bytes = .replicate bytesPerPixel (intensity lit) := by
  have hother : List.replicate bytesPerPixel (255 : Byte) ≠ .replicate bytesPerPixel 0 := by decide
  unfold litOfBytes?
  cases lit with
  | false =>
      split
      case isTrue hblack => exact iff_of_true rfl hblack
      case isFalse hblack => exact iff_of_false (by split <;> simp) hblack
  | true =>
      split
      case isTrue hblack =>
          refine iff_of_false (by simp) ?_
          rintro hwhite
          exact hother (hwhite.symm.trans hblack)
      case isFalse =>
          split
          case isTrue hwhite => exact iff_of_true rfl hwhite
          case isFalse hwhite => exact iff_of_false (by simp) hwhite

/-- Pieces of one length that follow each other are what their list is cut into. -/
theorem chunks_flatten {α : Type} {pieces : List (List α)} {width : Nat} (hwidth : 0 < width)
    (hpieces : ∀ piece ∈ pieces, piece.length = width) :
    chunks width pieces.flatten = pieces := by
  induction pieces with
  | nil => rw [List.flatten_nil, chunks]
  | cons piece pieces ih =>
      have hlength : piece.length = width := hpieces piece List.mem_cons_self
      have hrest := ih fun other hother => hpieces other (List.mem_cons_of_mem _ hother)
      cases piece with
      | nil => exact absurd hlength (Nat.ne_of_lt hwidth)
      | cons x piece =>
          have htail : piece.length = width - 1 := by
            rw [← hlength, List.length_cons, Nat.add_sub_cancel]
          rw [List.flatten_cons, List.cons_append, chunks, ← List.cons_append,
            List.take_left' hlength, List.drop_left' htail, hrest]

/-- Where pieces of one length follow each other, an index says which piece it is in, and
where in it. -/
theorem getElem?_flatten_of_length {α : Type} {pieces : List (List α)} {width : Nat}
    (hpieces : ∀ piece ∈ pieces, piece.length = width) (y : Nat) {c : Nat} (hc : c < width) :
    pieces.flatten[y * width + c]? = pieces[y]?.bind (·[c]?) := by
  induction pieces generalizing y with
  | nil => rfl
  | cons piece pieces ih =>
      have hlength : piece.length = width := hpieces piece List.mem_cons_self
      rw [List.flatten_cons]
      cases y with
      | zero =>
          rw [Nat.zero_mul, Nat.zero_add, List.getElem?_append_left (by omega)]
          rfl
      | succ y =>
          have hnext : (y + 1) * width + c - piece.length = y * width + c := by
            rw [hlength, Nat.add_one_mul]
            omega
          rw [List.getElem?_append_right (by rw [hlength, Nat.add_one_mul]; omega), hnext,
            ih fun other hother => hpieces other (List.mem_cons_of_mem _ hother)]
          rfl

/-- The three bytes of a pixel are alike. -/
theorem getElem?_rgbRow (row : List Bool) (column : Nat) {k : Nat} (hk : k < bytesPerPixel) :
    (rgbRow row)[column * bytesPerPixel + k]? = row[column]?.map intensity := by
  have hpieces : ∀ piece ∈ row.map fun lit => List.replicate bytesPerPixel (intensity lit),
      piece.length = bytesPerPixel := by
    intro piece hpiece
    obtain ⟨lit, -, rfl⟩ := List.mem_map.1 hpiece
    exact List.length_replicate
  have hrow : rgbRow row =
      (row.map fun lit => List.replicate bytesPerPixel (intensity lit)).flatten := rfl
  rw [hrow, getElem?_flatten_of_length hpieces _ hk, List.getElem?_map]
  cases row[column]? with
  | none => rfl
  | some lit => exact (List.getElem?_replicate).trans (if_pos hk)

theorem length_rgbRow (row : List Bool) : (rgbRow row).length = row.length * bytesPerPixel := by
  induction row with
  | nil => exact (Nat.zero_mul _).symm
  | cons lit row ih =>
      rw [rgbRow, List.flatMap_cons, List.length_append, ← rgbRow, ih, List.length_replicate,
        List.length_cons, Nat.add_one_mul, Nat.add_comm]

/-- The rows of a picture are of one length. -/
theorem length_of_mem_rows {frame : Frame} {bytes : List Byte}
    (hbytes : bytes ∈ frame.rows.map rgbRow) : bytes.length = rowBytes := by
  obtain ⟨row, hrow, rfl⟩ := List.mem_map.1 hbytes
  obtain ⟨y, -, rfl⟩ := List.mem_map.1 hrow
  rw [length_rgbRow, List.length_map]
  simp [Bank.indices, rowBytes, Frame.width]

/-- An upload copies the bytes of a picture row by row. -/
theorem chunks_rgbBytes (frame : Frame) :
    chunks rowBytes (rgbBytes frame) = frame.rows.map rgbRow := by
  rw [rgbBytes, List.flatMap_def]
  exact chunks_flatten (by decide) fun _ => length_of_mem_rows

theorem length_rows (frame : Frame) : (frame.rows.map rgbRow).length = Frame.height := by
  simp [Frame.rows, Bank.indices, Frame.height]

/-- A byte of a picture is in the row that its index says. -/
theorem getElem?_rgbBytes_row (frame : Frame) (y : Nat) {c : Nat} (hc : c < rowBytes) :
    (rgbBytes frame)[y * rowBytes + c]? = (frame.rows.map rgbRow)[y]?.bind (·[c]?) := by
  rw [rgbBytes, List.flatMap_def]
  exact getElem?_flatten_of_length (fun _ => length_of_mem_rows) y hc

/-- The bytes of a pixel lie in its row. -/
theorem byte_lt_rowBytes (p : Pixel) {k : Nat} (hk : k < bytesPerPixel) :
    p.column.toNat * bytesPerPixel + k < rowBytes := by
  have hcolumn := p.column.isLt
  simp only [rowBytes, Frame.width, bytesPerPixel] at hk ⊢
  omega

/-- The bytes of a pixel tell its brightness. -/
theorem getElem?_rgbBytes (frame : Frame) (p : Pixel) {k : Nat} (hk : k < bytesPerPixel) :
    (rgbBytes frame)[p.row.toNat * rowBytes + (p.column.toNat * bytesPerPixel + k)]? =
      some (intensity (frame.lit p)) := by
  rw [getElem?_rgbBytes_row frame _ (byte_lt_rowBytes p hk), List.getElem?_map, Frame.getElem?_rows,
    Option.map_some, Option.bind_some, getElem?_rgbRow _ _ hk, List.getElem?_map,
    Bank.getElem?_indices]
  rfl

/-! ## Copying rows -/

/-- Bytes that fit are copied: those inside the run are replaced, and all others stay. -/
theorem overwrite?_of_le {buffer : Array Byte} {offset : Nat} {bytes : List Byte}
    (hfits : offset + bytes.length ≤ buffer.size) :
    ∃ result, overwrite? buffer offset bytes = some result ∧ result.size = buffer.size ∧
      ∀ i, result[i]? =
        if offset ≤ i ∧ i < offset + bytes.length then bytes[i - offset]? else buffer[i]? := by
  refine ⟨_, if_pos hfits, ?_, ?_⟩
  · simp only [Array.size_append, Array.size_extract, List.size_toArray]
    omega
  · intro i
    have hbefore : (buffer.extract 0 offset).size = offset := by
      rw [Array.size_extract]
      omega
    have hinside : (buffer.extract 0 offset ++ bytes.toArray).size = offset + bytes.length := by
      rw [Array.size_append, hbefore, List.size_toArray]
    by_cases hlow : i < offset
    · rw [if_neg (by omega), Array.getElem?_append_left (by omega),
        Array.getElem?_append_left (by omega), Array.getElem?_extract, if_pos (by omega),
        Nat.zero_add]
    · by_cases hhigh : i < offset + bytes.length
      · rw [if_pos ⟨Nat.le_of_not_lt hlow, hhigh⟩, Array.getElem?_append_left (by omega),
          Array.getElem?_append_right (by omega), hbefore, List.getElem?_toArray]
      · rw [if_neg (by omega), Array.getElem?_append_right (by omega), hinside,
          Array.getElem?_extract]
        have hindex : offset + bytes.length + (i - (offset + bytes.length)) = i := by omega
        rw [hindex]
        split
        · rfl
        · rw [Array.getElem?_eq_none (by omega)]

/-- A place in one row is inside another only if the rows are the same. -/
theorem in_row_iff {pitch width r c y : Nat} (hwidth : width ≤ pitch) (hc : c < pitch) :
    y * pitch ≤ r * pitch + c ∧ r * pitch + c < y * pitch + width ↔ r = y ∧ c < width := by
  constructor
  · rintro ⟨hlow, hhigh⟩
    obtain hlt | rfl | hgt := Nat.lt_trichotomy r y
    · have hnext : (r + 1) * pitch ≤ y * pitch := Nat.mul_le_mul_right pitch hlt
      rw [Nat.add_one_mul] at hnext
      omega
    · exact ⟨rfl, by omega⟩
    · have hnext : (y + 1) * pitch ≤ r * pitch := Nat.mul_le_mul_right pitch hgt
      rw [Nat.add_one_mul] at hnext
      omega
  · rintro ⟨rfl, hinside⟩
    omega

namespace Texture

/-- Rows that fit are copied to the starts of the rows from `y` on, and what lies
between them stays. -/
theorem copyRows?_of_fits {t : Texture} {y width : Nat} {rows : List (List Byte)}
    (hrows : ∀ row ∈ rows, row.length = width) (hpitch : width ≤ t.pitch)
    (hfits : ∀ k < rows.length, (y + k) * t.pitch + width ≤ t.bytes.size) :
    ∃ result, t.copyRows? y rows = some result ∧ result.pitch = t.pitch ∧
      result.bytes.size = t.bytes.size ∧
      ∀ r c, c < t.pitch → result.bytes[r * t.pitch + c]? =
        if y ≤ r ∧ r < y + rows.length ∧ c < width then rows[r - y]?.bind (·[c]?)
        else t.bytes[r * t.pitch + c]? := by
  induction rows generalizing t y with
  | nil =>
      refine ⟨t, rfl, rfl, rfl, ?_⟩
      intro r c _
      rw [if_neg (by simp; omega)]
  | cons row rows ih =>
      have hlength : row.length = width := hrows row List.mem_cons_self
      have hfirst : y * t.pitch + row.length ≤ t.bytes.size := by
        rw [hlength]
        exact hfits 0 (Nat.zero_lt_succ _)
      obtain ⟨bytes, hbytes, hsize, hget⟩ := overwrite?_of_le hfirst
      have hrest : ∀ k < rows.length, (y + 1 + k) * t.pitch + width ≤ bytes.size := by
        intro k hk
        have hnext := hfits (k + 1) (Nat.succ_lt_succ hk)
        rwa [hsize, Nat.add_assoc, Nat.add_comm 1]
      obtain ⟨result, hresult, hpitch', hsize', hget'⟩ :=
        ih (t := ⟨t.pitch, bytes⟩) (fun row hrow => hrows row (List.mem_cons_of_mem _ hrow))
          hpitch hrest
      refine ⟨result, ?_, hpitch', hsize'.trans hsize, ?_⟩
      · rw [copyRows?, hbytes]
        exact hresult
      · intro r c hc
        rw [hget' r c hc, hget, hlength]
        simp only [in_row_iff hpitch hc, List.length_cons]
        obtain hlt | rfl | hgt := Nat.lt_trichotomy r y
        · rw [if_neg (by omega), if_neg (by omega), if_neg (by omega)]
        · -- the row that was copied first
          rw [if_neg (by omega), Nat.mul_comm, Nat.add_sub_cancel_left, Nat.sub_self]
          by_cases hinside : c < width
          · rw [if_pos ⟨rfl, hinside⟩, if_pos (by omega)]
            rfl
          · rw [if_neg (by omega), if_neg (by omega)]
        · have hindex : r - y = (r - (y + 1)) + 1 := by omega
          rw [if_neg (show ¬(r = y ∧ c < width) by omega), hindex, List.getElem?_cons_succ]
          congr 1
          simp only [eq_iff_iff]
          omega

/-- **What an upload does**: row after row it copies the bytes of the picture, and the
bytes between the rows stay as they are. -/
theorem upload?_of_fits {t : Texture} (hfits : t.Fits) (frame : Frame) :
    ∃ result, t.upload? frame = some result ∧ result.pitch = t.pitch ∧
      result.bytes.size = t.bytes.size ∧
      ∀ r c, c < t.pitch → result.bytes[r * t.pitch + c]? =
        if r < Frame.height ∧ c < rowBytes then (rgbBytes frame)[r * rowBytes + c]?
        else t.bytes[r * t.pitch + c]? := by
  obtain ⟨hpitch, hlast⟩ := hfits
  have hlength := length_rows frame
  have hinside : ∀ k < (frame.rows.map rgbRow).length,
      (0 + k) * t.pitch + rowBytes ≤ t.bytes.size := by
    intro k hk
    have hle : (0 + k) * t.pitch ≤ (Frame.height - 1) * t.pitch :=
      Nat.mul_le_mul_right _ (by omega)
    omega
  obtain ⟨result, hresult, hpitch', hsize, hget⟩ :=
    copyRows?_of_fits (fun _ => length_of_mem_rows) hpitch hinside
  refine ⟨result, ?_, hpitch', hsize, ?_⟩
  · rw [upload?, chunks_rgbBytes]
    exact hresult
  intro r c hc
  rw [hget r c hc, hlength, Nat.sub_zero, Nat.zero_add]
  by_cases hpart : r < Frame.height ∧ c < rowBytes
  · rw [if_pos ⟨Nat.zero_le _, hpart⟩, if_pos hpart, getElem?_rgbBytes_row frame r hpart.2]
  · rw [if_neg (fun h => hpart h.2), if_neg hpart]

/-- A texture shows a picture exactly if all bytes of all pixels are those of the picture. -/
theorem picture?_eq_some_iff {t : Texture} {frame : Frame} :
    t.picture? = some frame ↔
      ∀ p, t.pixelBytes p = .replicate bytesPerPixel (intensity (frame.lit p)) := by
  rw [picture?, Frame.ofFn?_eq_some_iff]
  simp only [litOfBytes?_eq_some_iff]

/-- The bytes of a pixel are alike if each of them is the same. -/
theorem pixelBytes_eq {t : Texture} {p : Pixel} {b : Byte}
    (hbyte : ∀ k < bytesPerPixel,
      t.bytes[p.row.toNat * t.pitch + (p.column.toNat * bytesPerPixel + k)]? = some b) :
    t.pixelBytes p = .replicate bytesPerPixel b := by
  apply List.ext_getElem?
  intro k
  rw [pixelBytes, Array.getElem?_toList, Array.getElem?_extract, List.getElem?_replicate]
  by_cases hk : k < bytesPerPixel
  · have hget := hbyte k hk
    obtain ⟨hinside, -⟩ := Array.getElem?_eq_some_iff.1 hget
    rw [if_pos hk, if_pos (by omega), Nat.add_assoc, hget]
  · rw [if_neg hk, if_neg (by omega)]

/-- **A texture that took a picture shows it**, and no other. -/
theorem picture_upload {t : Texture} (hfits : t.Fits) (frame : Frame) :
    ∃ result, t.upload? frame = some result ∧ result.picture? = some frame := by
  obtain ⟨result, hresult, hpitch, -, hget⟩ := upload?_of_fits hfits frame
  refine ⟨result, hresult, picture?_eq_some_iff.2 fun p => pixelBytes_eq fun k hk => ?_⟩
  have hinside := byte_lt_rowBytes p hk
  rw [hpitch, hget _ _ (Nat.lt_of_lt_of_le hinside hfits.1), if_pos ⟨p.row.isLt, hinside⟩,
    getElem?_rgbBytes frame p hk]

end Texture

/-- A black texture without anything between its rows. -/
def Canvas.tight : Canvas where
  pitch := rowBytes
  bytes := .replicate (Frame.height * rowBytes) 0
  fits := by
    refine ⟨Nat.le_refl _, ?_⟩
    rw [Array.size_replicate]
    decide

end Host

end Chip8
