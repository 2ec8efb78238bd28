import Chip8.Guarded.Run
import Chip8.Host.Texture

/-!
# Machines laid out in rows of cells

A machine is laid out for guarded access by listing its banks.  Every cell of a
bank has a number below the number of cells, and so the guards of the accesses
that come from a bank's own indices let them pass: reading gives the cell
(`readCell_toList`), and writing gives the layout of the written bank
(`writeCell_toList`).
-/

namespace Chip8

/-! ## Banks -/

namespace Bank

variable {w : Nat} {α : Type}

@[simp] theorem length_toList (b : Bank w α) : b.toList.length = 2 ^ w :=
  b.cells.length_toList

/-- A bank lists its cells at their own numbers. -/
theorem getElem?_toList (b : Bank w α) (i : BitVec w) :
    b.toList[i.toNat]? = some b[i] := by
  have hlt : i.toNat < b.toList.length := by
    rw [length_toList]
    exact i.isLt
  rw [List.getElem?_eq_getElem hlt]
  rfl

/-- Numbers below the number of cells are those of the cells. -/
theorem getElem?_toList_of_lt (b : Bank w α) {k : Nat} (hk : k < 2 ^ w) :
    b.toList[k]? = some b[BitVec.ofNat w k] := by
  have h := b.getElem?_toList (BitVec.ofNat w k)
  rwa [BitVec.toNat_ofNat, Nat.mod_eq_of_lt hk] at h

/-- Banks are listed alike when every cell holds the same. -/
theorem toList_eq_of_getElem? (b : Bank w α) {cells : List α}
    (hlength : cells.length = 2 ^ w)
    (h : ∀ i : BitVec w, cells[i.toNat]? = some b[i]) : cells = b.toList := by
  apply List.ext_getElem?
  intro k
  by_cases hk : k < 2 ^ w
  · have hcell := h (BitVec.ofNat w k)
    rw [BitVec.toNat_ofNat, Nat.mod_eq_of_lt hk] at hcell
    rw [hcell, b.getElem?_toList_of_lt hk]
  · rw [List.getElem?_eq_none (by omega),
      List.getElem?_eq_none (by rw [length_toList]; omega)]

@[simp] theorem toList_fill (a : α) : (fill a : Bank w α).toList = .replicate (2 ^ w) a := by
  symm
  apply toList_eq_of_getElem?
  · simp
  · intro i
    rw [getElem_fill, List.getElem?_replicate, if_pos i.isLt]

/-- Writing a cell of the list is writing a cell of the bank. -/
theorem set_toList (b : Bank w α) (i : BitVec w) (a : α) :
    b.toList.set i.toNat a = (b.set i a).toList := by
  apply toList_eq_of_getElem?
  · simp
  · intro j
    rw [List.getElem?_set, getElem?_toList, getElem_set, length_toList]
    by_cases h : i = j
    · subst h
      simp [i.isLt]
    · have hne : i.toNat ≠ j.toNat := fun heq => h (BitVec.eq_of_toNat_eq heq)
      simp [h, hne]

end Bank

namespace Guarded

variable {w : Nat} {α : Type}

/-- The rest of a computation goes on with what the first part gives. -/
@[simp] theorem ok_bind {β : Type} (a : α) (f : α → Except Fault β) :
    (Except.ok a >>= f) = f a := rfl

@[simp] theorem pure_eq_ok (a : α) : (pure a : Except Fault α) = .ok a := rfl

/-- Reading at a bank's own index passes the guard. -/
@[simp] theorem readCell_toList (b : Bank w α) (i : BitVec w) :
    readCell b.toList i.toNat = .ok b[i] := by
  simp [readCell, Bank.getElem?_toList]

/-- Writing at a bank's own index passes the guard. -/
@[simp] theorem writeCell_toList (b : Bank w α) (i : BitVec w) (a : α) :
    writeCell b.toList i.toNat a = .ok (b.set i a).toList := by
  simp [writeCell, i.isLt, Bank.set_toList]

/-- A small sum passes the guard. -/
theorem add_ok {w a b : Nat} (h : a + b < 2 ^ w) : add w a b = .ok (a + b) :=
  if_pos h

/-- A small product passes the guard. -/
theorem mul_ok {w a b : Nat} (h : a * b < 2 ^ w) : mul w a b = .ok (a * b) :=
  if_pos h

/-- A short shift to the right passes the guard. -/
theorem shiftRight_ok {a : BitVec w} {places : Nat} (h : places < w) :
    shiftRight a places = .ok (a >>> places) :=
  if_pos h

/-- A short shift to the left passes the guard. -/
theorem shiftLeft_ok {a : BitVec w} {places : Nat} (h : places < w) :
    shiftLeft a places = .ok (a <<< places) :=
  if_pos h

/-- Copying values that fit behind a cell is writing them to the bank from that
cell on. -/
theorem copyInto_toList (b : Bank w α) (i : BitVec w) (values : List α)
    (hfit : i.toNat + values.length ≤ 2 ^ w) (hwidth : w < indexWidth) :
    copyInto b.toList i.toNat values = .ok (b.writeFrom i values).toList := by
  have hcount : 2 ^ w < 2 ^ indexWidth := Nat.pow_lt_pow_right (by decide) hwidth
  rw [copyInto, add_ok (by omega), ok_bind, if_pos (by simpa using hfit)]
  congr 1
  apply Bank.toList_eq_of_getElem?
  · simp only [List.length_append, List.length_take, List.length_drop, Bank.length_toList]
    omega
  · intro j
    rw [Bank.getElem_writeFrom _ _ _ _ (by omega)]
    have hj := j.isLt
    have hi := i.isLt
    have hlength := b.length_toList
    rw [List.append_assoc]
    by_cases hbefore : j.toNat < i.toNat
    · -- the offset of a cell before the first one written wraps around
      have hoffset : values.length ≤ (j - i).toNat := by
        rw [BitVec.toNat_sub_of_lt hbefore]
        omega
      rw [List.getElem?_append_left (by simp; omega), List.getElem?_take_of_lt hbefore,
        Bank.getElem?_toList, List.getD_eq_getElem?_getD, List.getElem?_eq_none hoffset]
      rfl
    · have hle : i ≤ j := by
        rw [BitVec.le_def]
        omega
      have hoffset : (j - i).toNat = j.toNat - i.toNat := BitVec.toNat_sub_of_le hle
      have htake : (b.toList.take i.toNat).length = i.toNat := by
        simp
        omega
      rw [List.getElem?_append_right (by omega), htake, hoffset, List.getD_eq_getElem?_getD]
      by_cases hinside : j.toNat - i.toNat < values.length
      · rw [List.getElem?_append_left hinside, List.getElem?_eq_getElem hinside]
        rfl
      · have hnone : values[j.toNat - i.toNat]? = none :=
          List.getElem?_eq_none (by omega)
        have hcell : i.toNat + values.length + (j.toNat - i.toNat - values.length) = j.toNat := by
          omega
        rw [List.getElem?_append_right (by omega), List.getElem?_drop, hcell,
          Bank.getElem?_toList, hnone]
        rfl

end Guarded

end Chip8
