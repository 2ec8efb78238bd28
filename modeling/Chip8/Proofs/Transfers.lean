import Chip8.Proofs.Timers

/-!
# Registers in memory and back

Three kinds of words move bytes between the registers and the memory at the index
register.  Fx55 stores V0 to Vx there, Fx33 stores the three decimal digits of Vx, and
Fx65 loads V0 to Vx.  They go byte by byte, around the end of memory, and leave the
index register where it is.

A transfer is at most sixteen bytes long, so none of its bytes runs over another.  So
what is loaded is what was stored (`stored_registers_come_back`), or its digits
(`decimal_digits_come_back`), and storing what was just loaded changes no byte.  What a
program does between the two words makes no difference, as long as the memory and the
index register are the same when it comes to the second.
-/

namespace Chip8

/-! ## Digits -/

namespace Byte

variable (b : Byte)

/-- Three decimal digits, and the number that they make up. -/
theorem toNat_decimalDigits :
    ∃ hundreds tens ones : Byte, b.decimalDigits = [hundreds, tens, ones] ∧
      hundreds.toNat ≤ 9 ∧ tens.toNat ≤ 9 ∧ ones.toNat ≤ 9 ∧
      100 * hundreds.toNat + 10 * tens.toNat + ones.toNat = b.toNat := by
  have hlt := b.isLt
  have hhundreds : (b / 100).toNat = b.toNat / 100 := BitVec.toNat_udiv
  have htens : (b / 10 % 10).toNat = b.toNat / 10 % 10 := by
    rw [BitVec.toNat_umod, BitVec.toNat_udiv]
    rfl
  have hones : (b % 10).toNat = b.toNat % 10 := BitVec.toNat_umod
  refine ⟨_, _, _, rfl, ?_⟩
  rw [hhundreds, htens, hones]
  omega

end Byte

/-- V0 to Vx are sixteen registers at most. -/
theorem Register.countTo_le (x : Register) : x.countTo ≤ Machine.registerCount := x.isLt

/-! ## Bytes at the index register -/

namespace Machine

variable (m : Machine)

/-- The address `k` places on from the index register, around the end of memory. -/
def place (m : Machine) (k : Nat) : Address := .ofNat 12 (m.i.toNat + k)

/-- A byte that differs after a transfer to memory is at one of its places. -/
theorem exists_place_of_writeIndexed_ne {bytes : List Byte} {a : Address}
    (hfit : bytes.length ≤ registerCount)
    (hne : (m.writeIndexed bytes).memory[a] ≠ m.memory[a]) :
    ∃ k < bytes.length, a = m.place k := by
  have hmemory : bytes.length ≤ 2 ^ 12 := Nat.le_trans hfit (by decide)
  obtain ⟨k, hk, rfl⟩ := Bank.exists_of_getElem_writeFrom_ne hmemory hne
  exact ⟨k, hk, m.i.address_add_eq_ofNat k⟩

/-- The bytes of a transfer to memory are read where they were written, by any machine
with the same memory and index register. -/
theorem readIndexed_of_writeIndexed {m n : Machine} {bytes : List Byte} {count : Nat}
    (hfit : bytes.length ≤ registerCount) (hcount : count ≤ bytes.length)
    (hmemory : n.memory = (m.writeIndexed bytes).memory) (hi : n.i = m.i) :
    n.readIndexed count = bytes.take count := by
  rw [readIndexed, hmemory, hi]
  exact Bank.readFrom_writeFrom _ _ (Nat.le_trans hfit (by decide)) hcount

end Machine

/-! ## Stored, then loaded -/

namespace Machine

/-- Registers that were stored and loaded again: V0 to Vx of the machine `m` were stored,
then the registers were replaced by `w`, and then V0 to Vy were loaded. -/
structure BroughtBack (m : Machine) (x y : Register) (w : Bank 4 Byte) (after : Machine) :
    Prop where
  /-- V0 to Vy are those that were stored. -/
  stored : ∀ r, r ≤ y → after.v[r] = m.v[r]
  /-- The registers after Vy are those that they were replaced by. -/
  others : ∀ r, y < r → after.v[r] = w[r]
  /-- Memory differs at most at the x + 1 places of the transfer. -/
  memory : ∀ a : Address, after.memory[a] ≠ m.memory[a] → ∃ k ≤ x.toNat, a = m.place k
  /-- The index register is where it was. -/
  i : after.i = m.i

theorem broughtBack_load {m n : Machine} {x y : Register} (hle : y ≤ x)
    (random₁ random₂ : Byte)
    (hmemory : n.memory = ((Instruction.store x).execute random₁ m).memory)
    (hi : n.i = m.i) :
    m.BroughtBack x y n.v ((Instruction.load y).execute random₂ n) := by
  have hlength : (m.v.readFrom 0 x.countTo).length = x.countTo := Bank.length_readFrom _ _ _
  have hfit : (m.v.readFrom 0 x.countTo).length ≤ registerCount := by
    rw [hlength]
    exact x.countTo_le
  have hcount : y.countTo ≤ x.countTo := Nat.succ_le_succ hle
  have hread : n.readIndexed y.countTo = m.v.readFrom 0 y.countTo := by
    rw [readIndexed_of_writeIndexed hfit (by omega) hmemory hi, Bank.take_readFrom _ _ hcount]
  have hv : ∀ r, ((Instruction.load y).execute random₂ n).v[r] =
      if r ≤ y then m.v[r] else n.v[r] := by
    intro r
    show (n.v.writeFrom 0 (n.readIndexed y.countTo))[r] = _
    have hoffset : (r - 0 : Register) = r := BitVec.sub_zero r
    have hplace : r.toNat < y.countTo ↔ r ≤ y := Nat.lt_succ_iff
    rw [hread, Bank.getElem_writeFrom_readFrom _ _ _ _ y.countTo_le, hoffset]
    simp only [hplace]
  constructor
  case stored =>
    intro r hr
    rw [hv, if_pos hr]
  case others =>
    intro r hr
    rw [hv, if_neg (BitVec.not_le.2 hr)]
  case memory =>
    intro a hne
    have hkept : ((Instruction.load y).execute random₂ n).memory =
        (m.writeIndexed (m.v.readFrom 0 x.countTo)).memory := hmemory
    rw [hkept] at hne
    obtain ⟨k, hk, hplace⟩ := m.exists_place_of_writeIndexed_ne hfit hne
    rw [hlength] at hk
    exact ⟨k, Nat.le_of_lt_succ hk, hplace⟩
  case i => exact hi

/-- What was loaded and is stored again was there before. -/
theorem memory_store_of_load {m n : Machine} {x : Register} (random₁ random₂ : Byte)
    (hv : n.v = ((Instruction.load x).execute random₁ m).v) (hmemory : n.memory = m.memory)
    (hi : n.i = m.i) : ((Instruction.store x).execute random₂ n).memory = m.memory := by
  have hlength : (m.readIndexed x.countTo).length = x.countTo := Bank.length_readFrom _ _ _
  have hread : n.v.readFrom 0 x.countTo = m.readIndexed x.countTo := by
    have hfit : (m.readIndexed x.countTo).length ≤ 2 ^ 4 := by
      rw [hlength]
      exact x.countTo_le
    rw [hv]
    show (m.v.writeFrom 0 (m.readIndexed x.countTo)).readFrom 0 x.countTo = _
    rw [Bank.readFrom_writeFrom _ _ hfit (by omega), List.take_of_length_le (by omega)]
  have hfit : x.countTo ≤ 2 ^ 12 := Nat.le_trans x.countTo_le (by decide)
  show n.memory.writeFrom n.i.address (n.v.readFrom 0 x.countTo) = m.memory
  rw [hread, hmemory, hi]
  exact Bank.writeFrom_readFrom _ _ hfit

end Machine

/-- **Stored registers come back.**  Whatever the machine, and wherever its index register
points: if a word Fx55 is executed, then the registers are replaced by any others while
the memory and the index register stay, and then a word Fy65 with y up to x is executed,
V0 to Vy are as they were at first.  And if a word Fx65 is executed first and then, with
the registers that it loaded, a word Fx55 with the same x, then no byte of memory differs.
The index register stays in all of this. -/
theorem stored_registers_come_back (m : Machine) {store load : Opcode}
    (hstore : store.IsTransfer 0x55) (hload : load.IsTransfer 0x65)
    (random₁ random₂ : Byte) :
    (load.x ≤ store.x →
      let stored := store.decode.execute random₁ m
      stored.i = m.i ∧ ∀ n : Machine, n.memory = stored.memory → n.i = stored.i →
        m.BroughtBack store.x load.x n.v (load.decode.execute random₂ n)) ∧
    (store.x = load.x →
      let loaded := load.decode.execute random₁ m
      loaded.i = m.i ∧
        ∀ n : Machine, n.v = loaded.v → n.memory = loaded.memory → n.i = loaded.i →
          (store.decode.execute random₂ n).memory = m.memory ∧
            (store.decode.execute random₂ n).i = m.i) := by
  have hstoring : store.decode = .store store.x :=
    Opcode.decode_of_pattern ⟨hstore.1, hstore.2, rfl⟩
  have hloading : load.decode = .load load.x :=
    Opcode.decode_of_pattern ⟨hload.1, hload.2, rfl⟩
  rw [hstoring, hloading]
  constructor
  · intro hle stored
    exact ⟨rfl, fun n hmemory hi => Machine.broughtBack_load hle random₁ random₂ hmemory hi⟩
  · intro hsame loaded
    rw [hsame]
    exact ⟨rfl, fun n hv hmemory hi =>
      ⟨Machine.memory_store_of_load random₁ random₂ hv hmemory hi, hi⟩⟩

/-- Four registers are stored across the end of memory, all sixteen are replaced, and
three of the four are loaded again; and four are loaded there and stored again. -/
theorem stored_registers_come_back_across_end :
    let m := { Machine.fresh with i := 0xFFFE, v := .ofFn fun r => r.setWidth 8 + 0x30 }
    let store : Opcode := ⟨0xF355⟩
    let load : Opcode := ⟨0xF265⟩
    let reload : Opcode := ⟨0xF365⟩
    let n := { store.decode.execute 0 m with v := .fill 0xAA }
    let after := load.decode.execute 0 n
    store.IsTransfer 0x55 ∧ load.IsTransfer 0x65 ∧ reload.IsTransfer 0x65 ∧
      m.BroughtBack store.x load.x n.v after ∧
      after.v[(2 : Register)] = 0x32 ∧ after.v[(3 : Register)] = 0xAA ∧
      (store.decode.execute 0 (reload.decode.execute 0 m)).memory = m.memory := by
  intro m store load reload n after
  have hstore : store.IsTransfer 0x55 := by decide
  have hload : load.IsTransfer 0x65 := by decide
  have hreload : reload.IsTransfer 0x65 := by decide
  have hback : m.BroughtBack store.x load.x n.v after :=
    ((stored_registers_come_back m hstore hload 0 0).1 (by decide)).2 n rfl rfl
  have hkept : (store.decode.execute 0 (reload.decode.execute 0 m)).memory = m.memory :=
    (((stored_registers_come_back m hstore hreload 0 0).2 (by decide)).2 _ rfl rfl rfl).1
  have hthird : m.v[(2 : Register)] = 0x32 := by decide
  refine ⟨hstore, hload, hreload, hback, ?_, ?_, hkept⟩
  · exact (hback.stored 2 (by decide)).trans hthird
  · exact (hback.others 3 (by decide)).trans (Bank.getElem_fill _ _)

/-! ## Digits, then loaded -/

namespace Machine

/-- The digits of a register that were stored and loaded: those of Vx of the machine `m`
were stored, and then V0 to V2 were loaded. -/
structure DigitsLoaded (m : Machine) (x : Register) (after : Machine) : Prop where
  hundreds : after.v[(0 : Register)].toNat ≤ 9
  tens : after.v[(1 : Register)].toNat ≤ 9
  ones : after.v[(2 : Register)].toNat ≤ 9
  /-- They make up what Vx was before, also if Vx is one of V0 to V2. -/
  value : 100 * after.v[(0 : Register)].toNat + 10 * after.v[(1 : Register)].toNat +
    after.v[(2 : Register)].toNat = m.v[x].toNat
  /-- V3 to VF hold what they held. -/
  others : ∀ r : Register, 3 ≤ r → after.v[r] = m.v[r]
  /-- The index register is where it was. -/
  i : after.i = m.i
  /-- Memory is as it was but for the three places of the digits. -/
  memory : ∀ a : Address, (∀ k < 3, a ≠ m.place k) → after.memory[a] = m.memory[a]

theorem digitsLoaded_load {m n : Machine} {x : Register} (random₁ random₂ : Byte)
    (hv : n.v = m.v)
    (hmemory : n.memory = ((Instruction.decimal x).execute random₁ m).memory)
    (hi : n.i = m.i) :
    m.DigitsLoaded x ((Instruction.load 2).execute random₂ n) := by
  obtain ⟨hundreds, tens, ones, hdigits, h100, h10, h1, hvalue⟩ :=
    m.v[x].toNat_decimalDigits
  have hwritten : n.memory = (m.writeIndexed [hundreds, tens, ones]).memory := by
    rw [hmemory, ← hdigits]
    rfl
  have hfit : [hundreds, tens, ones].length ≤ registerCount := by
    show 3 ≤ registerCount
    decide
  have hread : n.readIndexed 3 = [hundreds, tens, ones] :=
    readIndexed_of_writeIndexed hfit (Nat.le_refl 3) hwritten hi
  have hloaded : ∀ r : Register, ((Instruction.load 2).execute random₂ n).v[r] =
      [hundreds, tens, ones].getD r.toNat m.v[r] := by
    intro r
    show (n.v.writeFrom 0 (n.readIndexed 3))[r] = _
    have hoffset : (r - 0 : Register) = r := BitVec.sub_zero r
    rw [hread, hv, Bank.getElem_writeFrom _ _ _ _ hfit, hoffset]
  constructor
  case hundreds => rw [hloaded]; exact h100
  case tens => rw [hloaded]; exact h10
  case ones => rw [hloaded]; exact h1
  case value =>
    rw [hloaded, hloaded, hloaded]
    exact hvalue
  case others =>
    intro r hr
    rw [hloaded, List.getD_eq_getElem?_getD, List.getElem?_eq_none hr]
    rfl
  case i => exact hi
  case memory =>
    intro a hother
    show n.memory[a] = m.memory[a]
    rw [hwritten]
    apply Classical.byContradiction
    intro hne
    obtain ⟨k, hk, hplace⟩ := m.exists_place_of_writeIndexed_ne hfit hne
    exact hother k hk hplace

end Machine

/-- **Decimal digits come back.**  Whatever the machine, and wherever its index register
points: after a word Fx33 and then a word F265, before which the registers, the memory and
the index register stay, V0, V1 and V2 are the hundreds, tens and ones of what Vx was
before.  V3 to VF, the index register and all of memory but the three digits are as they
were. -/
theorem decimal_digits_come_back (m : Machine) {decimal load : Opcode}
    (hdecimal : decimal.IsTransfer 0x33) (hload : load.IsTransfer 0x65) (hx : load.x = 2)
    (random₁ random₂ : Byte) :
    let stored := decimal.decode.execute random₁ m
    ∀ n : Machine, n.v = stored.v → n.memory = stored.memory → n.i = stored.i →
      m.DigitsLoaded decimal.x (load.decode.execute random₂ n) := by
  intro stored n hv hmemory hi
  have hstoring : decimal.decode = .decimal decimal.x :=
    Opcode.decode_of_pattern ⟨hdecimal.1, hdecimal.2, rfl⟩
  have hloading : load.decode = .load 2 :=
    Opcode.decode_of_pattern ⟨hload.1, hload.2, hx.symm⟩
  rw [hloading]
  have hstored : stored = (Instruction.decimal decimal.x).execute random₁ m := by
    rw [← hstoring]
  rw [hstored] at hv hmemory hi
  exact Machine.digitsLoaded_load random₁ random₂ hv hmemory hi

/-- The digits of V1 are stored across the end of memory and loaded over V1. -/
theorem decimal_digits_come_back_across_end :
    let m := { Machine.fresh with i := 0xFFFE, v := (Bank.fill 0xAA).set 1 254 }
    let decimal : Opcode := ⟨0xF133⟩
    let load : Opcode := ⟨0xF265⟩
    let after := load.decode.execute 0 (decimal.decode.execute 0 m)
    decimal.IsTransfer 0x33 ∧ load.IsTransfer 0x65 ∧ load.x = 2 ∧
      m.DigitsLoaded decimal.x after ∧ after.v[(3 : Register)] = 0xAA := by
  intro m decimal load after
  have hdecimal : decimal.IsTransfer 0x33 := by decide
  have hload : load.IsTransfer 0x65 := by decide
  have hx : load.x = 2 := by decide
  have hdigits : m.DigitsLoaded decimal.x after :=
    decimal_digits_come_back m hdecimal hload hx 0 0 _ rfl rfl rfl
  have hfourth : m.v[(3 : Register)] = 0xAA := by decide
  exact ⟨hdecimal, hload, hx, hdigits, (hdigits.others 3 (by decide)).trans hfourth⟩

end Chip8
