import Chip8.Word

/-!
# Noise

A supply of random bytes: the bits of each vary with its place and with the seed.
-/

namespace Chip8

/-- Spreads each bit of a word over all of it. -/
def stir (z : UInt64) : UInt64 :=
  let z := (z ^^^ (z >>> 30)) * 0xBF58476D1CE4E5B9
  let z := (z ^^^ (z >>> 27)) * 0x94D049BB133111EB
  z ^^^ (z >>> 31)

/-- The `k`-th byte of the supply with some seed. -/
def noise (seed : UInt64) (k : Nat) : Byte :=
  .ofNat 8 (stir (seed + (.ofNat k + 1) * 0x9E3779B97F4A7C15)).toNat

end Chip8
