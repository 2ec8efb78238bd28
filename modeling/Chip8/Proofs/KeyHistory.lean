import Chip8.Peripherals
import Chip8.Proofs.KeyWait
import Mathlib.Data.List.Basic
import Mathlib.Data.List.Induction

/-!
# A keypad knows its history

A keypad on its own is used in any order: keys go down and up, somebody asks for the next
key press or withdraws the request, and somebody looks whether a key is held.  Two things
of the whole history matter to it.  A key is held if the last that happened to it was that
it went down (`isHeld_afterUses`).  A press is handed to whoever asked last, unless
another press or a withdrawal came in between (`keyDown_hands_afterUses`).  Bytes that are
no keys leave no trace in either.

What one use does to a key and to the request is `isHeld_afterUse` and `request_afterUse`;
the histories follow by induction from their end.
-/

namespace Chip8

namespace Keyboard

variable {ρ : Type}

/-! ## Histories -/

/-- A use of a keypad: something is done to it, or somebody looks whether a key is held. -/
inductive Use (ρ : Type) where
  /-- A call of the keypad. -/
  | call (c : Call ρ)
  /-- Somebody looks whether the key that a byte names is held. -/
  | look (b : Byte)

/-- The keypad after a use; looking leaves it as it is. -/
def afterUse (k : Keyboard ρ) : Use ρ → Keyboard ρ
  | .call c => k.receive c
  | .look _ => k

/-- The keypad after some uses. -/
def afterUses (k : Keyboard ρ) (uses : List (Use ρ)) : Keyboard ρ := uses.foldl afterUse k

/-- The last use of some kind in a history. -/
def lastOf (kind : Use ρ → Bool) (uses : List (Use ρ)) : Option (Use ρ) :=
  (uses.filter kind).getLast?

/-- Whether a use is that the key of a byte goes down or up. -/
def Use.moves (b : Byte) : Use ρ → Bool
  | .call (.keyDown b') | .call (.keyUp b') => b' = b
  | _ => false

/-- Whether a use decides about the request: it is made, withdrawn, or fulfilled by a
key. -/
def Use.settles : Use ρ → Bool
  | .call (.ask _) | .call .withdraw => true
  | .call (.keyDown b) => b < 16
  | _ => false

/-- Who asks for a key by a use. -/
def Use.asker? : Use ρ → Option ρ
  | .call (.ask who) => some who
  | _ => none

variable (k : Keyboard ρ)

@[simp] theorem afterUses_nil : k.afterUses [] = k := rfl

theorem afterUses_concat (uses : List (Use ρ)) (u : Use ρ) :
    k.afterUses (uses ++ [u]) = (k.afterUses uses).afterUse u :=
  List.foldl_concat _ _ _ _

theorem afterUses_append (uses more : List (Use ρ)) :
    k.afterUses (uses ++ more) = (k.afterUses uses).afterUses more :=
  List.foldl_append

section

variable (kind : Use ρ → Bool)

@[simp] theorem lastOf_nil : lastOf kind [] = none := rfl

theorem lastOf_append (us vs : List (Use ρ)) :
    lastOf kind (us ++ vs) = (lastOf kind vs).or (lastOf kind us) := by
  rw [lastOf, List.filter_append, List.getLast?_append]
  rfl

theorem lastOf_singleton (u : Use ρ) : lastOf kind [u] = if kind u then some u else none := by
  cases hu : kind u <;> simp [lastOf, hu]

/-- One more use is the last of its kind, and no use of another kind makes a
difference. -/
theorem lastOf_concat (uses : List (Use ρ)) (u : Use ρ) :
    lastOf kind (uses ++ [u]) = if kind u then some u else lastOf kind uses := by
  rw [lastOf_append, lastOf_singleton]
  cases kind u <;> rfl

theorem mem_of_lastOf {uses : List (Use ρ)} {u : Use ρ} (hlast : lastOf kind uses = some u) :
    u ∈ uses :=
  (List.mem_filter.1 (List.mem_of_getLast? hlast)).1

end

/-! ## Keys -/

/-- Bytes that are no keys are never held. -/
theorem isHeld_of_le {b : Byte} (hbyte : 16 ≤ b) : k.isHeld b = false := by
  rw [isHeld, Key.ofByte?_of_le hbyte]

/-- A byte from 16 on is no key to be released. -/
theorem keyUp_of_le {b : Byte} (hbyte : 16 ≤ b) : k.keyUp b = k := by
  rw [keyUp, Key.ofByte?_of_le hbyte]

/-- The key that went up is not held, and of the others those that were. -/
theorem isHeld_keyUp {b : Byte} (hkey : b < 16) (other : Byte) :
    (k.keyUp b).isHeld other = (!decide (other = b) && k.isHeld other) := by
  rw [keyUp, Key.ofByte?_of_lt hkey, isHeld, isHeld]
  by_cases hother : other < 16
  · have hsame : b.setWidth 4 = other.setWidth 4 ↔ other = b := by bv_omega
    simp only [Key.ofByte?_of_lt hother, Bank.getElem_set, hsame]
    by_cases heq : other = b <;> simp [heq]
  · simp only [Key.ofByte?_of_le (BitVec.not_lt.1 hother), Bool.and_false]

/-- A use that moves a key decides whether it is held, and no other use does. -/
theorem isHeld_afterUse {b : Byte} (hkey : b < 16) (u : Use ρ) :
    (k.afterUse u).isHeld b = true ↔
      if u.moves b then u = .call (.keyDown b) else k.isHeld b = true := by
  cases u with
  | look b' => exact Iff.rfl
  | call c =>
      cases c with
      | ask who => exact Iff.rfl
      | withdraw => exact Iff.rfl
      | keyDown b' =>
          show (k.keyDown b').1.isHeld b = true ↔ _
          by_cases hkey' : b' < 16
          · rw [isHeld_keyDown _ hkey']
            by_cases heq : b = b'
            · simp [Use.moves, heq]
            · simp [Use.moves, heq, Ne.symm heq]
          · have hne : b' ≠ b := fun heq => hkey' (heq ▸ hkey)
            rw [keyDown_of_le _ (BitVec.not_lt.1 hkey')]
            simp [Use.moves, hne]
      | keyUp b' =>
          show (k.keyUp b').isHeld b = true ↔ _
          by_cases hkey' : b' < 16
          · rw [isHeld_keyUp _ hkey']
            by_cases heq : b = b'
            · simp [Use.moves, heq]
            · simp [Use.moves, heq, Ne.symm heq]
          · have hne : b' ≠ b := fun heq => hkey' (heq ▸ hkey)
            rw [keyUp_of_le _ (BitVec.not_lt.1 hkey')]
            simp [Use.moves, hne]

/-- Looking back over a history, a key is held if it last went down. -/
theorem isHeld_afterUses {b : Byte} (hkey : b < 16) (uses : List (Use ρ)) :
    (idle.afterUses uses).isHeld b = true ↔
      lastOf (Use.moves b) uses = some (.call (.keyDown b)) := by
  induction uses using List.reverseRecOn with
  | nil => simp [isHeld, idle, Key.ofByte?_of_lt hkey]
  | append_singleton uses u ih =>
      rw [afterUses_concat, isHeld_afterUse _ hkey, lastOf_concat]
      by_cases hmoves : u.moves b
      · rw [if_pos hmoves, if_pos hmoves, Option.some_inj]
      · rw [if_neg hmoves, if_neg hmoves, ih]

/-! ## Requests -/

/-- The press of a key settles the request, and the press of another byte does not. -/
theorem Use.settles_keyDown {b : Byte} : (call (.keyDown b) : Use ρ).settles = true ↔ b < 16 :=
  decide_eq_true_iff

/-- A press is handed to the one who waits, if it is the press of a key. -/
theorem keyDown_hands_iff {b : Byte} {who : ρ} :
    (k.keyDown b).2 = some who ↔ b < 16 ∧ k.request = some who := by
  by_cases hkey : b < 16
  · rw [keyDown_of_lt _ hkey]
    exact (and_iff_right hkey).symm
  · rw [keyDown_of_le _ (BitVec.not_lt.1 hkey)]
    exact iff_of_false nofun fun h => hkey h.1

/-- A use that settles the request leaves the one who asked by it, and no other use changes
the request. -/
theorem request_afterUse (u : Use ρ) :
    (k.afterUse u).request = if u.settles then u.asker? else k.request := by
  cases u with
  | look b => rfl
  | call c =>
      cases c with
      | ask who => rfl
      | withdraw => rfl
      | keyUp b => exact request_keyUp k b
      | keyDown b =>
          show (k.keyDown b).1.request = _
          by_cases hkey : b < 16
          · rw [keyDown_of_lt _ hkey]
            exact (if_pos (Use.settles_keyDown.2 hkey)).symm
          · rw [keyDown_of_le _ (BitVec.not_lt.1 hkey)]
            exact (if_neg (mt Use.settles_keyDown.1 hkey)).symm

/-- Looking back over a history, the one waits who asked by the last use that settled the
request. -/
theorem request_afterUses (uses : List (Use ρ)) :
    (idle.afterUses uses).request = (lastOf Use.settles uses).bind Use.asker? := by
  induction uses using List.reverseRecOn with
  | nil => rfl
  | append_singleton uses u ih =>
      rw [afterUses_concat, request_afterUse, lastOf_concat]
      by_cases hsettles : u.settles
      · rw [if_pos hsettles, if_pos hsettles, Option.bind_some]
      · rw [if_neg hsettles, if_neg hsettles, ih]

theorem Use.asker?_eq_some_iff {u : Use ρ} {who : ρ} :
    u.asker? = some who ↔ u = .call (.ask who) := by
  cases u with
  | look b => simp [Use.asker?]
  | call c => cases c <;> simp [Use.asker?]

/-- Looking back over a history, a press is handed to the one who asked by the last use that
settled the request. -/
theorem keyDown_hands_afterUses {b : Byte} {who : ρ} (uses : List (Use ρ)) :
    ((idle.afterUses uses).keyDown b).2 = some who ↔
      b < 16 ∧ lastOf Use.settles uses = some (.call (.ask who)) := by
  rw [keyDown_hands_iff, request_afterUses, Option.bind_eq_some_iff]
  simp only [Use.asker?_eq_some_iff, exists_eq_right]

/-- The key press that hands out a request ends it: nothing more is handed out before
somebody asks again. -/
theorem keyDown_hands_once {uses more : List (Use ρ)} {b b' : Byte} {who who' : ρ}
    (hhanded : ((idle.afterUses uses).keyDown b).2 = some who)
    (hnoAsk : ∀ other, Use.call (.ask other) ∉ more) :
    ((((idle.afterUses uses).keyDown b).1.afterUses more).keyDown b').2 ≠ some who' := by
  intro hagain
  have hkey : b < 16 := ((keyDown_hands_afterUses uses).1 hhanded).1
  -- The press counts as a use of its own, between those before and those after it.
  have hpress : ((idle.afterUses uses).keyDown b).1.afterUses more =
      idle.afterUses (uses ++ [.call (.keyDown b)] ++ more) := by
    rw [afterUses_append, afterUses_concat]
    rfl
  rw [hpress] at hagain
  have hlast := ((keyDown_hands_afterUses _).1 hagain).2
  rw [lastOf_append, lastOf_concat, if_pos (Use.settles_keyDown.2 hkey),
    Option.or_eq_some_iff] at hlast
  rcases hlast with hask | ⟨-, hpressed⟩
  · exact hnoAsk who' (mem_of_lastOf _ hask)
  · cases hpressed

/-! ## The keypad as its history tells -/

/-- What a keypad shows is told by its history. -/
structure ToldBy (uses : List (Use ρ)) : Prop where
  /-- Held are the keys that last went down. -/
  held : ∀ b, k.isHeld b = true ↔
    b < 16 ∧ lastOf (Use.moves b) uses = some (.call (.keyDown b))
  /-- A press is handed to the one who asked by the last use that settled the request. -/
  hands : ∀ b who, (k.keyDown b).2 = some who ↔
    b < 16 ∧ lastOf Use.settles uses = some (.call (.ask who))
  /-- After a press that was handed to somebody, no other is until somebody asks. -/
  once : ∀ b who more b', (k.keyDown b).2 = some who →
    (∀ other, Use.call (.ask other) ∉ more) →
    (((k.keyDown b).1.afterUses more).keyDown b').2 = none
  /-- Bytes that are no keys change nothing and are never held. -/
  ignores : ∀ b, 16 ≤ b → k.keyDown b = (k, none) ∧ k.keyUp b = k ∧ k.isHeld b = false

end Keyboard

open Keyboard

/-- However a new keypad was used, in any order, its keys and the answer to the next press are
told by its history. -/
theorem keypad_told_by_history {ρ : Type} (uses : List (Use ρ)) :
    (idle.afterUses uses).ToldBy uses where
  held b := by
    by_cases hkey : b < 16
    · rw [isHeld_afterUses hkey, and_iff_right hkey]
    · rw [isHeld_of_le _ (BitVec.not_lt.1 hkey)]
      exact iff_of_false Bool.false_ne_true fun h => hkey h.1
  hands _ _ := keyDown_hands_afterUses uses
  once _ _ _ _ hhanded hnoAsk :=
    Option.eq_none_iff_forall_ne_some.2 fun _ => keyDown_hands_once hhanded hnoAsk
  ignores _ hbyte :=
    ⟨keyDown_of_le _ hbyte, keyUp_of_le _ hbyte, isHeld_of_le _ hbyte⟩

end Chip8
