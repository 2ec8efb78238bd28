import Chip8.Word

/-!
# Hexadecimal digits

Words are written in upper-case hexadecimal with a fixed number of digits, so that columns line up
and a word can be read back (`digits_inj`).
-/

namespace Chip8.Hex

/-- The digit for a number below 16. -/
def digit (n : Nat) : Char :=
  ['0', '1', '2', '3', '4', '5', '6', '7', '8', '9', 'A', 'B', 'C', 'D', 'E', 'F'].getD n '0'

/-- The lowest `k` digits of `n`, the most significant first. -/
def digits : Nat → Nat → List Char
  | 0, _ => []
  | k + 1, n => digits k (n / 16) ++ [digit (n % 16)]

/-- A word written with `k` digits. -/
def text {w : Nat} (k : Nat) (x : BitVec w) : String := .ofList (digits k x.toNat)

/-- Numbers below 16 have different digits. -/
theorem digit_inj {m n : Nat} (hm : m < 16) (hn : n < 16) (h : digit m = digit n) : m = n := by
  have hall : ∀ m : Fin 16, ∀ n : Fin 16, digit m = digit n → m = n := by decide
  exact congrArg Fin.val (hall ⟨m, hm⟩ ⟨n, hn⟩ h)

/-- There are as many digits as were asked for. -/
@[simp] theorem length_digits (k n : Nat) : (digits k n).length = k := by
  induction k generalizing n with
  | zero => rfl
  | succ k ih => simp [digits, ih]

/-- Enough digits determine the number. -/
theorem digits_inj {k m n : Nat} (hm : m < 16 ^ k) (hn : n < 16 ^ k)
    (h : digits k m = digits k n) : m = n := by
  induction k generalizing m n with
  | zero => omega
  | succ k ih =>
    obtain ⟨hhigh, hlow⟩ := List.append_inj' h rfl
    have hd := digit_inj (Nat.mod_lt m (by decide)) (Nat.mod_lt n (by decide)) (by simpa using hlow)
    have hq := ih (by omega) (by omega) hhigh
    omega

/-- A word is written with its digits. -/
@[simp] theorem toList_text {w : Nat} (k : Nat) (x : BitVec w) :
    (text k x).toList = digits k x.toNat :=
  String.toList_ofList

/-- Enough digits determine the word. -/
theorem digits_toNat_inj {w k : Nat} (hw : 2 ^ w ≤ 16 ^ k) {x y : BitVec w} :
    digits k x.toNat = digits k y.toNat ↔ x = y :=
  ⟨fun h => BitVec.eq_of_toNat_eq (digits_inj (by omega) (by omega) h), fun h => h ▸ rfl⟩

/-- Digits are letters and numerals. -/
theorem isAlphanum_digit (n : Nat) : (digit n).isAlphanum = true := by
  by_cases h : n < 16
  · have hall : ∀ m : Fin 16, (digit m).isAlphanum = true := by decide
    exact hall ⟨n, h⟩
  · have hdefault : digit n = '0' := by
      rw [digit, List.getD_eq_getElem?_getD, List.getElem?_eq_none (Nat.not_lt.1 h)]
      rfl
    rw [hdefault]
    rfl

theorem isAlphanum_of_mem_digits {k n : Nat} {c : Char} (hc : c ∈ digits k n) :
    c.isAlphanum = true := by
  induction k generalizing n with
  | zero => simp [digits] at hc
  | succ k ih =>
    rcases List.mem_append.1 hc with hc | hc
    · exact ih hc
    · rw [List.mem_singleton.1 hc]
      exact isAlphanum_digit _

end Chip8.Hex
