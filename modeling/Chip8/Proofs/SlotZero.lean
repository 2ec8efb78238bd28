import Chip8.Proofs.CallStack

/-!
# Who reads slot 0

The stack pointer of a new machine is 0, and a call moves it up before it writes to its
slot.  So the first call leaves slot 0 alone, and as long as fewer than sixteen calls are
open, only a return to which no call belongs reads it.

The ring has sixteen slots, though, and the sixteenth open call has slot 0: the return
that belongs to it finds its address there, as it should
(`slot_zero_read_by_balanced_return`).  How many calls are open tells which of the two a
return is.  It reads slot 0 exactly if the calls less the returns are a multiple of
sixteen (`atSlotZero_run_iff`); so either there are no more calls than returns, or the
open calls go around the ring a whole number of times
(`slot_zero_unbalanced_or_full`).
-/

namespace Chip8

namespace Machine

/-- Whether the stack pointer, modulo the size of the ring, is at slot 0. -/
def AtSlotZero (m : Machine) : Prop := m.sp.toNat % stackSize = 0

instance (m : Machine) : Decidable m.AtSlotZero := inferInstanceAs (Decidable (_ = _))

/-- A return there goes on at the address in slot 0. -/
theorem AtSlotZero.pc_after {m : Machine} (hzero : m.AtSlotZero) {c : Command}
    (hreturn : m.isReturn c = true) : (m.after c).pc = m.stack[(0 : BitVec 4)] := by
  have hslot : m.sp.setWidth 4 = (0 : BitVec 4) := by
    apply BitVec.eq_of_toNat_eq
    rw [BitVec.toNat_setWidth]
    exact hzero
  rw [pc_after_of_isReturn hreturn, hslot]

/-- A run that starts at slot 0 is there again whenever its calls and its returns are as
many, modulo the size of the ring. -/
theorem atSlotZero_run_iff {m : Machine} (hsp : m.sp = 0) {cs : List Command}
    (hreset : .reset ∉ cs) :
    (m.run cs).AtSlotZero ↔ m.calls cs % stackSize = m.returns cs % stackSize := by
  have hcount : (m.run cs).sp.toNat =
      (256 - m.returns cs % 256 + m.calls cs % 256) % 256 := by
    rw [m.sp_run hreset, hsp, BitVec.toNat_sub, BitVec.toNat_add]
    simp
  rw [AtSlotZero, hcount, stackSize]
  omega

/-- Then there are no more calls than returns, or whole rounds of the ring more. -/
theorem unbalanced_or_full_of_atSlotZero {m : Machine} (hsp : m.sp = 0) {cs : List Command}
    (hreset : .reset ∉ cs) (hzero : (m.run cs).AtSlotZero) :
    m.calls cs ≤ m.returns cs ∨
      ∃ rounds, 0 < rounds ∧ m.calls cs = m.returns cs + stackSize * rounds := by
  have hcount := (atSlotZero_run_iff hsp hreset).1 hzero
  by_cases hle : m.calls cs ≤ m.returns cs
  · exact Or.inl hle
  · refine Or.inr ⟨(m.calls cs - m.returns cs) / stackSize, ?_⟩
    unfold stackSize at hcount ⊢
    omega

/-- The returns of a run that read slot 0. -/
structure SlotZeroReads (start : Machine) (cs : List Command) : Prop where
  /-- A return at slot 0 goes on at the address there. -/
  reads : ∀ pre c, pre ++ [c] <+: cs → (start.run pre).isReturn c = true →
    (start.run pre).AtSlotZero →
      (start.run (pre ++ [c])).pc = (start.run pre).stack[(0 : BitVec 4)]
  /-- There are no more calls than returns before it, or the calls that are open go
  around the ring a whole number of times. -/
  unbalanced : ∀ pre c, pre ++ [c] <+: cs → (start.run pre).isReturn c = true →
    (start.run pre).AtSlotZero →
      start.calls pre ≤ start.returns pre ∨
        ∃ rounds, 0 < rounds ∧ start.calls pre = start.returns pre + stackSize * rounds
  /-- So there are no more calls than returns as long as fewer than sixteen are open. -/
  shallow : ∀ pre c, pre ++ [c] <+: cs → (start.run pre).isReturn c = true →
    (start.run pre).AtSlotZero → start.calls pre < start.returns pre + stackSize →
      start.calls pre ≤ start.returns pre
  /-- And open calls that do go around the ring leave a return at slot 0. -/
  full : ∀ pre c rounds, pre ++ [c] <+: cs → (start.run pre).isReturn c = true →
    start.calls pre = start.returns pre + stackSize * rounds → (start.run pre).AtSlotZero

theorem slotZeroReads_of_sp_eq_zero {start : Machine} (hsp : start.sp = 0)
    {cs : List Command} (hreset : .reset ∉ cs) : start.SlotZeroReads cs := by
  have hrest : ∀ {pre c}, pre ++ [c] <+: cs → .reset ∉ pre := by
    intro pre c hpre hmem
    exact hreset (hpre.subset (List.mem_append_left _ hmem))
  constructor
  case reads =>
    intro pre c _ hreturn hzero
    rw [run_append]
    exact hzero.pc_after hreturn
  case unbalanced =>
    intro pre c hpre _ hzero
    exact unbalanced_or_full_of_atSlotZero hsp (hrest hpre) hzero
  case shallow =>
    intro pre c hpre _ hzero hfew
    rcases unbalanced_or_full_of_atSlotZero hsp (hrest hpre) hzero with
      hle | ⟨rounds, hpos, hcalls⟩
    · exact hle
    · unfold stackSize at hfew hcalls
      omega
  case full =>
    intro pre c rounds hpre _ hcalls
    rw [atSlotZero_run_iff hsp (hrest hpre), hcalls, Nat.add_mul_mod_self_left]

end Machine

/-- **Slot 0 is read by unbalanced returns and after full rounds.**  In every run without
a reset of a machine that was just switched on, a return that reads slot 0 has no more
calls than returns before it, or so many more that they go around the ring a whole number
of times; and every return of the second kind does read it. -/
theorem slot_zero_unbalanced_or_full {ρ : Type} (display : Display)
    (keyboard : Keyboard ρ) {cs : List Command} (hreset : .reset ∉ cs) :
    (Machine.withPeripherals display keyboard).SlotZeroReads cs :=
  Machine.slotZeroReads_of_sp_eq_zero rfl hreset

namespace Machine

/-- A program of sixteen calls, each of the next one, and a return. -/
def nestedCalls : List Byte :=
  ((List.range 16).flatMap fun k => [0x22, .ofNat 8 (2 * k + 2)]) ++ [0x00, 0xEE]

/-- A run of that program as far as its return. -/
def untilReturn : List Command := .load nestedCalls :: .replicate 16 (.step 0)

theorem counts_untilReturn :
    fresh.calls untilReturn = 16 ∧ fresh.returns untilReturn = 0 ∧
      (fresh.run untilReturn).isReturn (.step 0) = true := by
  decide +kernel

theorem reset_notMem_untilReturn : .reset ∉ untilReturn ++ [.step 0] := by
  simp [untilReturn]

end Machine

/-- The return that belongs to the last of the sixteen calls is at slot 0. -/
theorem slot_zero_unbalanced_or_full_of_nested_calls :
    let start := Machine.withPeripherals .blank (Keyboard.idle : Keyboard Register)
    let cs := Machine.untilReturn ++ [.step 0]
    .reset ∉ cs ∧ start.SlotZeroReads cs ∧ (start.run Machine.untilReturn).AtSlotZero := by
  intro start cs
  have hreads : start.SlotZeroReads cs :=
    slot_zero_unbalanced_or_full .blank .idle Machine.reset_notMem_untilReturn
  obtain ⟨hcalls, hreturns, hreturn⟩ := Machine.counts_untilReturn
  refine ⟨Machine.reset_notMem_untilReturn, hreads, ?_⟩
  apply hreads.full _ _ 1 (List.prefix_refl _) hreturn
  exact hcalls.trans (congrArg (· + 16) hreturns.symm)

/-- A return reads slot 0 although sixteen calls and no return come before it. -/
theorem slot_zero_read_by_balanced_return :
    let m := Machine.fresh.run Machine.untilReturn
    .reset ∉ Machine.untilReturn ++ [.step 0] ∧ m.isReturn (.step 0) = true ∧
      m.sp.toNat % Machine.stackSize = 0 ∧
      (m.after (.step 0)).pc = m.stack[(0 : BitVec 4)] ∧
      ¬ Machine.fresh.calls Machine.untilReturn ≤
        Machine.fresh.returns Machine.untilReturn := by
  intro m
  have hreset := Machine.reset_notMem_untilReturn
  obtain ⟨hcalls, hreturns, hreturn⟩ := Machine.counts_untilReturn
  have hzero : m.AtSlotZero := by
    rw [Machine.atSlotZero_run_iff rfl fun hmem => hreset (List.mem_append_left _ hmem),
      hcalls, hreturns]
    decide
  refine ⟨hreset, hreturn, hzero, hzero.pc_after hreturn, ?_⟩
  rw [hcalls, hreturns]
  decide

end Chip8
