import Chip8.Display

/-!
# Textures

A window shows a picture by way of a texture: a buffer of bytes, three for each pixel, whose rows
start a fixed number of bytes apart. That number, the pitch, is chosen by the graphics system and
may be more than a row needs; the bytes between two rows belong to nobody and are left alone.

A texture shows a picture if every pixel is black or white in all of its three bytes. Of a texture
that the graphics system hands out nothing is known but that there is room for a picture in it.
-/

namespace Chip8

/-- The picture that is told pixel by pixel, if every pixel is told. -/
def Frame.ofFn? (f : Pixel → Option Bool) : Option Frame :=
  if (Bank.indices 11).all fun i => (f (.ofCell i)).isSome then
    some (.ofFn fun p => (f p).getD false)
  else none

namespace Host

/-- How many bytes a pixel takes: one each for red, green and blue. -/
def bytesPerPixel : Nat := 3

/-- How many bytes a row of a picture takes. -/
def rowBytes : Nat := Frame.width * bytesPerPixel

/-- The bytes of a row of pixels: white for a lit pixel and black for a dark one. -/
def rgbRow (row : List Bool) : List Byte :=
  row.flatMap fun lit => .replicate bytesPerPixel (if lit then 255 else 0)

/-- The bytes of a picture, row after row from the top. -/
def rgbBytes (frame : Frame) : List Byte := frame.rows.flatMap rgbRow

/-- Cuts a list into pieces of one size, but for the last, which has what is left. -/
def chunks {α : Type} (size : Nat) : List α → List (List α)
  | [] => []
  | x :: rest => (x :: rest).take size :: chunks size (rest.drop (size - 1))
termination_by xs => xs.length
decreasing_by simp only [List.length_drop, List.length_cons]; omega

/-- Whether a pixel of some bytes is lit: black is dark, and white is lit. -/
def litOfBytes? (bytes : List Byte) : Option Bool :=
  if bytes = .replicate bytesPerPixel 0 then some false
  else if bytes = .replicate bytesPerPixel 255 then some true
  else none

/-- Overwrites the bytes of a buffer from an offset on, if they all lie inside. -/
def overwrite? (buffer : Array Byte) (offset : Nat) (bytes : List Byte) : Option (Array Byte) :=
  if offset + bytes.length ≤ buffer.size then
    some (buffer.extract 0 offset ++ bytes.toArray ++
      buffer.extract (offset + bytes.length) buffer.size)
  else none

/-- A buffer of pixels whose rows start `pitch` bytes apart. -/
structure Texture where
  /-- How many bytes lie between the starts of two rows. -/
  pitch : Nat
  /-- The bytes of the pixels, and of what lies between the rows. -/
  bytes : Array Byte
deriving DecidableEq

namespace Texture

/-- A texture has room for a picture if a row fits into the pitch, and the last row into the
bytes. -/
def Fits (t : Texture) : Prop :=
  rowBytes ≤ t.pitch ∧ (Frame.height - 1) * t.pitch + rowBytes ≤ t.bytes.size

/-- Copies rows of bytes to the starts of the rows from `y` on, if they all lie inside. -/
def copyRows? (t : Texture) (y : Nat) : List (List Byte) → Option Texture
  | [] => some t
  | row :: rest => do
    let bytes ← overwrite? t.bytes (y * t.pitch) row
    copyRows? { t with bytes } (y + 1) rest

/-- Copies a picture into the texture, if it is large enough. -/
def upload? (t : Texture) (frame : Frame) : Option Texture :=
  t.copyRows? 0 (chunks rowBytes (rgbBytes frame))

/-- The bytes of a pixel. -/
def pixelBytes (t : Texture) (p : Pixel) : List Byte :=
  let start := p.row.toNat * t.pitch + p.column.toNat * bytesPerPixel
  (t.bytes.extract start (start + bytesPerPixel)).toList

/-- The picture that a texture shows, if it shows one. -/
def picture? (t : Texture) : Option Frame :=
  Frame.ofFn? fun p => litOfBytes? (t.pixelBytes p)

end Texture

/-- A texture as the graphics system hands it out: with room for a picture. -/
structure Canvas extends Texture where
  /-- A row fits into the pitch, and the last row into the bytes. -/
  fits : toTexture.Fits

end Host

end Chip8
