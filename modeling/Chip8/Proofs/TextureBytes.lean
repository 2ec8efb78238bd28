import Chip8.Proofs.Upload
import Mathlib.Logic.Function.Basic

/-!
# The bytes of a picture

A picture is handed to the graphics system as 6144 bytes: three for each pixel, each 255
times the pixel, row after row (`encodes_rgbBytes`).  Nothing is lost by that, since the
three bytes of each pixel can be decoded (`ofRgbBytes?_rgbBytes`).

A locked texture takes these bytes row by row, at the starts of its own rows.  For every
pitch that is not shorter than a row, and every buffer that holds the last row, all of
them lie inside the buffer, and whatever lies between two rows or behind the last one is
what it was (`exists_uploaded`).
-/

namespace Chip8.Host

/-! ## Decoding -/

/-- Bytes that encode a picture: its rows follow each other, and in them the pixels. -/
structure Encodes (bytes : List Byte) (frame : Frame) : Prop where
  /-- There are three bytes for each of the 64 by 32 pixels. -/
  length : bytes.length = 6144
  /-- Each of the three is 255 times the pixel, which is 0 or 1. -/
  byte : ∀ p : Pixel, ∀ c < 3,
    bytes[3 * (64 * p.row.toNat + p.column.toNat) + c]? = some (255 * Byte.ofBool (frame.lit p))

/-- The picture that bytes decode to when nothing stands between the rows, if every pixel is
black or white in its three bytes. -/
def ofRgbBytes? (bytes : List Byte) : Option Frame := (Texture.mk rowBytes bytes.toArray).picture?

theorem intensity_eq_mul (lit : Bool) : intensity lit = 255 * Byte.ofBool lit := by
  cases lit <;> rfl

theorem length_rgbBytes (frame : Frame) : (rgbBytes frame).length = 6144 := by
  have hlengths : (frame.rows.map rgbRow).map List.length =
      List.replicate Frame.height rowBytes := by
    refine List.eq_replicate_iff.2 ⟨?_, ?_⟩
    · rw [List.length_map, length_rows]
    · intro n hn
      obtain ⟨bytes, hbytes, rfl⟩ := List.mem_map.1 hn
      exact length_of_mem_rows hbytes
  rw [rgbBytes, List.flatMap_def, List.length_flatten, hlengths]
  decide

/-- **The bytes of a picture encode it.** -/
theorem encodes_rgbBytes (frame : Frame) : Encodes (rgbBytes frame) frame where
  length := length_rgbBytes frame
  byte := by
    intro p c hc
    have hindex : 3 * (64 * p.row.toNat + p.column.toNat) + c =
        p.row.toNat * rowBytes + (p.column.toNat * bytesPerPixel + c) := by
      simp only [rowBytes, Frame.width, bytesPerPixel]
      omega
    rw [hindex, getElem?_rgbBytes frame p hc, intensity_eq_mul]

/-- Decoding finds the picture that was encoded. -/
theorem Encodes.ofRgbBytes?_eq {bytes : List Byte} {frame : Frame} (h : Encodes bytes frame) :
    ofRgbBytes? bytes = some frame := by
  refine Texture.picture?_eq_some_iff.2 fun p => Texture.pixelBytes_eq fun k hk => ?_
  have hindex : p.row.toNat * rowBytes + (p.column.toNat * bytesPerPixel + k) =
      3 * (64 * p.row.toNat + p.column.toNat) + k := by
    simp only [rowBytes, Frame.width, bytesPerPixel]
    omega
  rw [hindex, List.getElem?_toArray, h.byte p k hk, intensity_eq_mul]

theorem ofRgbBytes?_rgbBytes (frame : Frame) : ofRgbBytes? (rgbBytes frame) = some frame :=
  (encodes_rgbBytes frame).ofRgbBytes?_eq

/-! ## Buffers -/

namespace Texture

/-- What a texture is like after a picture was copied into it. -/
structure Uploaded (t : Texture) (frame : Frame) (result : Texture) : Prop where
  /-- Rows start where they did. -/
  pitch : result.pitch = t.pitch
  /-- There are as many bytes as before. -/
  size : result.bytes.size = t.bytes.size
  /-- All bytes of all rows lie inside the buffer. -/
  inside : ∀ y < 32, ∀ k < 192, y * t.pitch + k < t.bytes.size
  /-- The rows hold the bytes of the picture. -/
  row : ∀ y < 32, ∀ k < 192, result.bytes[y * t.pitch + k]? = (rgbBytes frame)[y * 192 + k]?
  /-- A byte in no row is what it was. -/
  padding : ∀ i, (∀ y < 32, ¬(y * t.pitch ≤ i ∧ i < y * t.pitch + 192)) →
    result.bytes[i]? = t.bytes[i]?

/-- **A texture with room for a picture takes it.** -/
theorem exists_uploaded {t : Texture} (hfits : t.Fits) (frame : Frame) :
    ∃ result, t.upload? frame = some result ∧ t.Uploaded frame result := by
  obtain ⟨result, hresult, hpitch, hsize, hget⟩ := upload?_of_fits hfits frame
  obtain ⟨hwidth, hlast⟩ := hfits
  have hrow : rowBytes = 192 := rfl
  have hheight : Frame.height = 32 := rfl
  rw [hrow] at hwidth
  rw [hrow, hheight] at hlast
  refine ⟨result, hresult, hpitch, hsize, ?_, ?_, ?_⟩
  · intro y hy k hk
    have hbefore : y * t.pitch ≤ 31 * t.pitch := Nat.mul_le_mul_right _ (by omega)
    omega
  · intro y hy k hk
    rw [hget y k (by omega), if_pos ⟨hy, hk⟩, hrow]
  · intro i hi
    -- Every index is some place in some row of the buffer, drawn on or not.
    have hpos : 0 < t.pitch := by omega
    have hindex : i / t.pitch * t.pitch + i % t.pitch = i := Nat.div_add_mod' i t.pitch
    have houtside : ¬(i / t.pitch < Frame.height ∧ i % t.pitch < rowBytes) := by
      rintro ⟨hy, hc⟩
      apply hi (i / t.pitch) hy
      omega
    have hbyte := hget (i / t.pitch) (i % t.pitch) (Nat.mod_lt i hpos)
    rwa [if_neg houtside, hindex] at hbyte

end Texture

/-- **The encoding of pictures is faithful, for every pitch.**  The bytes of a picture are
6144, those of a pixel are 255 times the pixel, and decoding each three of them gives the
picture back; so different pictures have different bytes.  A buffer whose rows are at
least 192 bytes apart, and which holds the last row, takes row `y` of these bytes at
`y * pitch`, for all 32 rows and within its bounds, and keeps every other byte. -/
theorem encoding_faithful :
    (∀ frame, Encodes (rgbBytes frame) frame ∧ ofRgbBytes? (rgbBytes frame) = some frame) ∧
      Function.Injective rgbBytes ∧
      ∀ (t : Texture) (frame : Frame), 192 ≤ t.pitch → 31 * t.pitch + 192 ≤ t.bytes.size →
        ∃ result, t.upload? frame = some result ∧ t.Uploaded frame result := by
  refine ⟨?_, ?_, ?_⟩
  · intro frame
    exact ⟨encodes_rgbBytes frame, ofRgbBytes?_rgbBytes frame⟩
  · intro frame frame' hbytes
    apply Option.some.inj
    rw [← ofRgbBytes?_rgbBytes, hbytes, ofRgbBytes?_rgbBytes]
  · intro t frame hpitch hsize
    exact Texture.exists_uploaded ⟨hpitch, hsize⟩ frame

/-- A picture with its last pixel lit, in a buffer that has padding between its rows but
no byte behind the last one. -/
theorem encoding_faithful_with_padding :
    let t : Texture := ⟨256, .replicate 8128 7⟩
    let frame := Frame.blank.flip ⟨63, 31⟩
    192 ≤ t.pitch ∧ 31 * t.pitch + 192 ≤ t.bytes.size ∧
      ∃ result, t.upload? frame = some result ∧ t.Uploaded frame result ∧
        result.bytes[8127]? = some 255 ∧ result.bytes[7935]? = some 7 := by
  intro t frame
  have hsize : t.bytes.size = 8128 := Array.size_replicate
  have hfits : 31 * t.pitch + 192 ≤ t.bytes.size := Nat.le_of_eq hsize.symm
  obtain ⟨hbytes, -, hupload⟩ := encoding_faithful
  obtain ⟨result, hresult, huploaded⟩ := hupload t frame (by decide) hfits
  refine ⟨by decide, hfits, result, hresult, huploaded, ?_, ?_⟩
  · have hlast := huploaded.row 31 (by decide) 191 (by decide)
    have hlit : frame.lit ⟨63, 31⟩ = true := by decide +kernel
    have hbyte := (hbytes frame).1.byte ⟨63, 31⟩ 2 (by decide)
    rw [hlit] at hbyte
    exact hlast.trans hbyte
  · have hpadding := huploaded.padding 7935 (fun y hy => by simp only [t]; omega)
    rw [hpadding, Array.getElem?_replicate]
    rfl

end Chip8.Host
