import Chip8.Bank
import Chip8.Word

/-!
# The keyboard

A keypad with the sixteen keys 0 to F. It knows which keys are held down, and at most one request
for the next key press. Requests are made on behalf of someone, and the press that fulfils one says
for whom it was. Bytes from 16 on name no key: pressing one changes nothing, and none is ever held.
-/

namespace Chip8

/-- The state of the keypad; `ρ` names those who can ask for a key. -/
structure Keyboard (ρ : Type) where
  /-- For each key whether it is held down. -/
  held : Bank 4 Bool
  /-- Who waits for the next key press. -/
  request : Option ρ
deriving DecidableEq

namespace Keyboard

variable {ρ : Type}

/-- How many keys the keypad has. -/
def keyCount : Nat := 16

/-- The keypad with no key held and nobody waiting. -/
def idle : Keyboard ρ := ⟨.fill false, none⟩

/-- A key goes down. The press fulfils the request, also if the key was already held. -/
def keyDown (k : Keyboard ρ) (b : Byte) : Keyboard ρ × Option ρ :=
  match Key.ofByte? b with
  | some key => (⟨k.held.set key true, none⟩, k.request)
  | none => (k, none)

/-- A key goes up. -/
def keyUp (k : Keyboard ρ) (b : Byte) : Keyboard ρ :=
  match Key.ofByte? b with
  | some key => { k with held := k.held.set key false }
  | none => k

/-- Whether the key that a byte names is held. -/
def isHeld (k : Keyboard ρ) (b : Byte) : Bool :=
  match Key.ofByte? b with
  | some key => k.held[key]
  | none => false

/-- Asks for the next key press; an older request is forgotten. -/
def ask (k : Keyboard ρ) (who : ρ) : Keyboard ρ := { k with request := some who }

/-- Forgets the request, so that others may ask from here on. -/
def withoutRequest {σ : Type} (k : Keyboard ρ) : Keyboard σ := ⟨k.held, none⟩

/-- The keys held down, in ascending order. -/
def heldKeys (k : Keyboard ρ) : List Key := (Bank.indices 4).filter (k.held[·])

@[simp] theorem mem_heldKeys {k : Keyboard ρ} {key : Key} :
    key ∈ k.heldKeys ↔ k.held[key] = true := by
  simp [heldKeys]

end Keyboard

end Chip8
