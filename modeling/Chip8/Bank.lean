import Chip8.Word

/-!
# Banks of cells

A bank holds one cell for each word of `w` bits, so every index of the right width names a cell and
a look-up cannot miss. Registers, the return stack, memory, the keypad and the picture are banks.
An index that runs past the last cell goes on at the first, which is the arithmetic of its width.

* `getElem_set`: a write changes the cell written and no other;
* `getElem_readFrom`: what a run of cells reads as;
* `getElem_writeFrom`: what every cell holds after a run of cells was written;
* `readFrom_writeFrom`, `writeFrom_readFrom`: reading and writing a run undo each other.
-/

namespace Chip8

/-- One cell for each word of `w` bits. -/
structure Bank (w : Nat) (α : Type) where
  /-- The cells in the order of their indices. -/
  cells : Vector α (2 ^ w)
deriving DecidableEq

namespace Bank

variable {w : Nat} {α : Type}

instance : GetElem (Bank w α) (BitVec w) α (fun _ _ => True) where
  getElem b i _ := b.cells.get i.toFin

/-- The bank whose cells all hold `a`. -/
def fill (a : α) : Bank w α := ⟨.replicate _ a⟩

/-- The bank whose cell `i` holds `f i`. -/
def ofFn (f : BitVec w → α) : Bank w α := ⟨.ofFn fun i => f (.ofFin i)⟩

/-- Writes one cell. -/
def set (b : Bank w α) (i : BitVec w) (a : α) : Bank w α := ⟨b.cells.set i.toNat a i.isLt⟩

/-- The cells in the order of their indices. -/
def toList (b : Bank w α) : List α := b.cells.toList

/-- All indices of a bank, in ascending order. -/
def indices (w : Nat) : List (BitVec w) := List.ofFn fun i : Fin (2 ^ w) => .ofFin i

/-- Reads `n` cells from `i` on. -/
def readFrom (b : Bank w α) (i : BitVec w) : Nat → List α
  | 0 => []
  | n + 1 => b[i] :: b.readFrom (i + 1) n

/-- Writes cells from `i` on, one value after the other. -/
def writeFrom (b : Bank w α) (i : BitVec w) : List α → Bank w α
  | [] => b
  | a :: rest => (b.set i a).writeFrom (i + 1) rest

/-- Banks with equal cells are equal. -/
@[ext] theorem ext {b₁ b₂ : Bank w α} (h : ∀ i : BitVec w, b₁[i] = b₂[i]) : b₁ = b₂ := by
  cases b₁ with | mk b₁ => cases b₂ with | mk b₂ =>
  congr 1
  ext i hi
  exact h (.ofFin ⟨i, hi⟩)

/-- Every cell of a filled bank holds the value. -/
@[simp] theorem getElem_fill (a : α) (i : BitVec w) : (fill a : Bank w α)[i] = a := by
  show (Vector.replicate (2 ^ w) a)[i.toNat] = a
  exact Vector.getElem_replicate _

/-- A bank given cell by cell holds in each cell what was given. -/
@[simp] theorem getElem_ofFn (f : BitVec w → α) (i : BitVec w) : (ofFn f)[i] = f i := by
  show (Vector.ofFn fun i => f (.ofFin i))[i.toNat] = f i
  rw [Vector.getElem_ofFn]
  rfl

/-- A write changes the cell written and no other. -/
theorem getElem_set (b : Bank w α) (i j : BitVec w) (a : α) :
    (b.set i a)[j] = if i = j then a else b[j] := by
  show (b.cells.set i.toNat a i.isLt)[j.toNat] = if i = j then a else b.cells[j.toNat]
  rw [Vector.getElem_set]
  simp only [BitVec.toNat_inj]

/-- The cell written holds what was written. -/
@[simp] theorem getElem_set_self (b : Bank w α) (i : BitVec w) (a : α) : (b.set i a)[i] = a := by
  simp [getElem_set]

/-- Another cell keeps what it held. -/
theorem getElem_set_ne (b : Bank w α) {i j : BitVec w} (a : α) (h : i ≠ j) :
    (b.set i a)[j] = b[j] := by
  simp [getElem_set, h]

/-- Every index is listed. -/
@[simp] theorem mem_indices (i : BitVec w) : i ∈ indices w := by
  simp only [indices, List.mem_ofFn]
  exact ⟨i.toFin, rfl⟩

/-- Each index is listed at its own number. -/
theorem getElem?_indices (i : BitVec w) : (indices w)[i.toNat]? = some i := by
  have hlt : i.toNat < (indices w).length := by
    rw [indices, List.length_ofFn]
    exact i.isLt
  rw [List.getElem?_eq_getElem hlt]
  simp [indices]

/-- The cells are listed by their indices. -/
theorem toList_eq_map (b : Bank w α) : b.toList = (indices w).map (b[·]) := by
  apply List.ext_getElem
  · simp [toList, indices]
  · intro i h₁ h₂
    simp [toList, indices]
    rfl

/-- As many cells are read as were asked for. -/
@[simp] theorem length_readFrom (b : Bank w α) (i : BitVec w) (n : Nat) :
    (b.readFrom i n).length = n := by
  induction n generalizing i with
  | zero => rfl
  | succ n ih => simp [readFrom, ih]

/-- The `k`-th value read is that of the cell `k` places on. -/
theorem getElem_readFrom (b : Bank w α) (i : BitVec w) {n k : Nat}
    (h : k < (b.readFrom i n).length) : (b.readFrom i n)[k] = b[i + BitVec.ofNat w k] := by
  induction n generalizing i k with
  | zero => simp [readFrom] at h
  | succ n ih =>
    cases k with
    | zero => simp [readFrom]
    | succ k =>
      have hk : i + BitVec.ofNat w (k + 1) = i + 1 + BitVec.ofNat w k := by
        rw [BitVec.ofNat_add, BitVec.add_comm (BitVec.ofNat w k), ← BitVec.add_assoc]
        rfl
      simp only [readFrom, List.getElem_cons_succ, hk]
      exact ih (i + 1) (by simpa [readFrom] using h)

/-- Going one place further makes the offset of a later cell one smaller. -/
theorem toNat_sub_add_one {i j : BitVec w} (h : i ≠ j) :
    (j - (i + 1)).toNat + 1 = (j - i).toNat := by
  have hsub : j - (i + 1) = j - i - 1 := by grind
  have hne : j - i ≠ 0 := by grind
  have hpos : (j - i).toNat ≠ 0 := fun h0 => hne (BitVec.eq_of_toNat_eq (by simp [h0]))
  have hone : (1 : BitVec w).toNat ≤ 1 := Nat.mod_le 1 (2 ^ w)
  have hle : (1 : BitVec w) ≤ j - i := by
    rw [BitVec.le_def]
    omega
  have hw : 1 < 2 ^ w := by
    have := (j - i).isLt
    omega
  have heq : (1 : BitVec w).toNat = 1 := Nat.mod_eq_of_lt hw
  rw [hsub, BitVec.toNat_sub_of_le hle, heq]
  omega

/-- The cell just passed is the farthest away. -/
theorem toNat_sub_self_add_one (i : BitVec w) : (i - (i + 1)).toNat = 2 ^ w - 1 := by
  have hsub : i - (i + 1) = -1#w := by grind
  rw [hsub, BitVec.neg_one_eq_allOnes, BitVec.toNat_allOnes]

/-- After a run of cells was written, the cell `k` places on holds the `k`-th value, and the cells
beyond the run hold what they held. -/
theorem getElem_writeFrom (b : Bank w α) (i j : BitVec w) (values : List α)
    (hfit : values.length ≤ 2 ^ w) :
    (b.writeFrom i values)[j] = values.getD (j - i).toNat b[j] := by
  induction values generalizing b i with
  | nil => simp [writeFrom]
  | cons a rest ih =>
    simp only [List.length_cons] at hfit
    rw [writeFrom, ih _ _ (by omega), getElem_set]
    by_cases h : i = j
    · subst h
      rw [toNat_sub_self_add_one, if_pos rfl, List.getD_eq_getElem?_getD,
        List.getElem?_eq_none (by omega)]
      simp
    · rw [← toNat_sub_add_one h, if_neg h, List.getD_cons_succ]

/-- A run of cells that ends before a cell leaves it as it is. -/
theorem getElem_writeFrom_of_le (b : Bank w α) {i j : BitVec w} {values : List α}
    (hfit : values.length ≤ 2 ^ w) (hend : values.length ≤ (j - i).toNat) :
    (b.writeFrom i values)[j] = b[j] := by
  rw [getElem_writeFrom b i j values hfit, List.getD_eq_getElem?_getD,
    List.getElem?_eq_none hend]
  rfl

/-- A cell is as many places on as its offset says. -/
theorem add_ofNat_toNat_sub (i j : BitVec w) : i + .ofNat w (j - i).toNat = j := by
  rw [BitVec.ofNat_toNat, BitVec.setWidth_eq, BitVec.add_comm, BitVec.sub_add_cancel]

/-- A cell that a run of writes changes is one of those that the run covers. -/
theorem exists_of_getElem_writeFrom_ne {b : Bank w α} {i j : BitVec w} {values : List α}
    (hfit : values.length ≤ 2 ^ w) (hne : (b.writeFrom i values)[j] ≠ b[j]) :
    ∃ k < values.length, j = i + .ofNat w k := by
  have hlt : (j - i).toNat < values.length := by
    apply Nat.lt_of_not_le
    exact fun hend => hne (getElem_writeFrom_of_le b hfit hend)
  exact ⟨(j - i).toNat, hlt, (add_ofNat_toNat_sub i j).symm⟩

/-- The first of the values read are those of a shorter run. -/
theorem take_readFrom (b : Bank w α) (i : BitVec w) {k n : Nat} (hk : k ≤ n) :
    (b.readFrom i n).take k = b.readFrom i k := by
  apply List.ext_getElem
  · rw [List.length_take, length_readFrom, length_readFrom, Nat.min_eq_left hk]
  · intro j _ _
    rw [List.getElem_take, getElem_readFrom, getElem_readFrom]

/-- A run of cells reads as what was written to it. -/
theorem readFrom_writeFrom (b : Bank w α) (i : BitVec w) {values : List α} {n : Nat}
    (hfit : values.length ≤ 2 ^ w) (hn : n ≤ values.length) :
    (b.writeFrom i values).readFrom i n = values.take n := by
  apply List.ext_getElem
  · rw [length_readFrom, List.length_take, Nat.min_eq_left hn]
  · intro k hk _
    rw [length_readFrom] at hk
    have hoffset : (i + BitVec.ofNat w k - i).toNat = k := by
      rw [BitVec.add_comm, BitVec.add_sub_cancel, BitVec.toNat_ofNat]
      exact Nat.mod_eq_of_lt (by omega)
    rw [getElem_readFrom, getElem_writeFrom b _ _ _ hfit, hoffset, List.getElem_take,
      List.getD_eq_getElem?_getD, List.getElem?_eq_getElem (by omega)]
    rfl

/-- A run of cells that is copied from another bank holds what that one holds there. -/
theorem getElem_writeFrom_readFrom (b other : Bank w α) (i j : BitVec w) {n : Nat}
    (hfit : n ≤ 2 ^ w) :
    (other.writeFrom i (b.readFrom i n))[j] = if (j - i).toNat < n then b[j] else other[j] := by
  have hlength := b.length_readFrom i n
  rw [getElem_writeFrom other i j _ (by omega), List.getD_eq_getElem?_getD]
  by_cases h : (j - i).toNat < n
  · rw [if_pos h, List.getElem?_eq_getElem (by omega), getElem_readFrom,
      add_ofNat_toNat_sub]
    rfl
  · rw [if_neg h, List.getElem?_eq_none (by omega)]
    rfl

/-- So writing back what was read changes nothing. -/
theorem writeFrom_readFrom (b : Bank w α) (i : BitVec w) {n : Nat} (hfit : n ≤ 2 ^ w) :
    b.writeFrom i (b.readFrom i n) = b := by
  apply ext
  intro j
  rw [getElem_writeFrom_readFrom b b i j hfit, ite_self]

end Bank

end Chip8
