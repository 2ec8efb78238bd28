import Chip8.Proofs.Decoding
import Chip8.Proofs.Effect

/-!
# Sums, differences and shifts with their flag

Five kinds of words 8xyN leave a result in Vx and what was carried, borrowed or
shifted out in VF.  As long as x is not F, result and flag together are the exact
number, and nothing is lost.

Registers overlap, though, and then the order of the two writes shows.  A sum writes
the flag last, so a sum into VF leaves the flag.  The other four write the flag first
and read their operands again: an operand that is VF reads as the new flag
(`flagged`), and a result for VF replaces it (`v_setFlag_setRegister`).
`arithmetic_closed_forms` gives the numbers for every way in which x, y and F can
coincide.
-/

namespace Chip8

/-! ## Bytes as numbers -/

namespace Byte

variable (a b : Byte)

theorem toNat_ofBool (c : Bool) : (ofBool c).toNat = c.toNat := by
  cases c <;> rfl

/-- A sum and its carry are the exact sum. -/
theorem toNat_add_carry :
    (a + b).toNat + 256 * (ofBool (decide (256 ≤ a.toNat + b.toNat))).toNat =
      a.toNat + b.toNat := by
  have ha := a.isLt
  have hb := b.isLt
  rw [toNat_ofBool, BitVec.toNat_add]
  by_cases hcarry : 256 ≤ a.toNat + b.toNat <;> simp [hcarry] <;> omega

/-- A difference is the exact one, modulo 256. -/
theorem toNat_sub_eq_emod : ((a - b).toNat : Int) = (a.toNat - b.toNat) % 256 := by
  have ha := a.isLt
  have hb := b.isLt
  rw [BitVec.toNat_sub]
  omega

/-- What is shifted out on the right is the remainder. -/
theorem toNat_half :
    2 * (a >>> 1).toNat + (a &&& 0x01).toNat = a.toNat ∧ (a &&& 0x01).toNat ≤ 1 := by
  have hbit : (a &&& 0x01).toNat = a.toNat % 2 := by
    rw [BitVec.toNat_and]
    exact Nat.and_one_is_mod _
  rw [hbit, BitVec.toNat_ushiftRight, Nat.shiftRight_eq_div_pow]
  omega

/-- What is shifted out on the left stays in place, and so counts twice. -/
theorem toNat_double :
    ((a &&& 0x80).toNat = 0 ∨ (a &&& 0x80).toNat = 128) ∧
      (a <<< 1).toNat + 2 * (a &&& 0x80).toNat = 2 * a.toNat := by
  revert a
  decide +kernel

/-- A bit that is shifted out once more is gone. -/
theorem shifted_out_twice : (a &&& 0x01) >>> 1 = 0 ∧ (a &&& 0x80) <<< 1 = 0 := by
  revert a
  decide +kernel

end Byte

/-! ## Results and their flag -/

namespace Machine

variable (m : Machine)

/-- What a register reads as when the flag was written first. -/
def flagged (m : Machine) (flag : Byte) (r : Register) : Byte :=
  if r = 0xF then flag else m.v[r]

theorem v_setFlag (flag : Byte) (r : Register) : (m.setFlag flag).v[r] = m.flagged flag r := by
  show (m.v.set 0xF flag)[r] = _
  rw [Bank.getElem_set, flagged]
  simp only [eq_comm]

/-- A result that is written after the flag replaces it if it goes to VF. -/
theorem v_setFlag_setRegister (x : Register) (flag b : Byte) :
    ((m.setFlag flag).setRegister x b).v[x] = b ∧
      ((m.setFlag flag).setRegister x b).v[(0xF : Register)] =
        if x = 0xF then b else flag := by
  constructor
  · exact Bank.getElem_set_self _ _ _
  · show ((m.setFlag flag).v.set x b)[(0xF : Register)] = _
    rw [Bank.getElem_set, v_setFlag]
    rfl

/-- The numbers after a sum and its carry went to Vx and VF, the flag last. -/
theorem toNat_sum {m n : Machine} {x y : Register}
    (hn : n = (m.setRegister x (m.v[x] + m.v[y])).setFlag
      (.ofBool (decide (256 ≤ m.v[x].toNat + m.v[y].toNat)))) :
    n.v[(0xF : Register)].toNat = (decide (256 ≤ m.v[x].toNat + m.v[y].toNat)).toNat ∧
      (x ≠ 0xF → n.v[x].toNat + 256 * n.v[(0xF : Register)].toNat =
        m.v[x].toNat + m.v[y].toNat) := by
  have hflag : n.v[(0xF : Register)] =
      .ofBool (decide (256 ≤ m.v[x].toNat + m.v[y].toNat)) := by
    rw [hn]
    exact Bank.getElem_set_self _ _ _
  refine ⟨by rw [hflag, Byte.toNat_ofBool], fun hne => ?_⟩
  have hx : n.v[x] = m.v[x] + m.v[y] := by
    rw [hn, v_setFlag, flagged, if_neg hne]
    exact Bank.getElem_set_self _ _ _
  rw [hx, hflag]
  exact Byte.toNat_add_carry _ _

/-- A register that is shifted after its flag was written: if it is VF, then the flag is
shifted in its place. -/
theorem v_shift {m n : Machine} {x : Register} {flag : Byte} (shift : Byte → Byte)
    (hn : n = (m.setFlag flag).setRegister x (shift (m.setFlag flag).v[x])) :
    (x ≠ 0xF → n.v[x] = shift m.v[x] ∧ n.v[(0xF : Register)] = flag) ∧
      (x = 0xF → n.v[(0xF : Register)] = shift flag) := by
  obtain ⟨hx, hflag⟩ := m.v_setFlag_setRegister x flag (shift (m.flagged flag x))
  rw [v_setFlag] at hn
  rw [hn, hx, hflag, flagged]
  constructor
  · intro hne
    rw [if_neg hne, if_neg hne]
    exact ⟨rfl, rfl⟩
  · intro heq
    rw [if_pos heq, if_pos heq]

/-- The numbers after the difference of two registers went to Vx, the flag first: the
operands are read again, and the flag may be one of them, or both. -/
theorem toNat_difference {m n : Machine} {x u w : Register}
    (hn : n =
      let flagged := m.setFlag (.ofBool (decide (m.v[w] < m.v[u])))
      flagged.setRegister x (flagged.v[u] - flagged.v[w])) :
    let f := (decide (m.v[u].toNat > m.v[w].toNat)).toNat
    n.v[(0xF : Register)].toNat = (if x = 0xF then n.v[x].toNat else f) ∧
      (u ≠ 0xF → w ≠ 0xF →
        (n.v[x].toNat : Int) = (m.v[u].toNat - m.v[w].toNat) % 256) ∧
      (u ≠ 0xF → w = 0xF → (n.v[x].toNat : Int) = (m.v[u].toNat - f) % 256) ∧
      (u = 0xF → w ≠ 0xF → (n.v[x].toNat : Int) = (f - m.v[w].toNat) % 256) ∧
      (u = 0xF → w = 0xF → n.v[x].toNat = 0) := by
  intro f
  have hf : (Byte.ofBool (decide (m.v[w] < m.v[u]))).toNat = f := Byte.toNat_ofBool _
  obtain ⟨hx, hflag⟩ := m.v_setFlag_setRegister x (.ofBool (decide (m.v[w] < m.v[u])))
    (m.flagged (.ofBool (decide (m.v[w] < m.v[u]))) u -
      m.flagged (.ofBool (decide (m.v[w] < m.v[u]))) w)
  simp only [v_setFlag] at hn
  rw [← hn] at hx hflag
  unfold flagged at hx hflag
  refine ⟨?_, ?_, ?_, ?_, ?_⟩
  · rw [hflag, hx, apply_ite BitVec.toNat, hf]
  · intro hu hw
    rw [hx, if_neg hu, if_neg hw, Byte.toNat_sub_eq_emod]
  · intro hu hw
    rw [hx, if_neg hu, if_pos hw, Byte.toNat_sub_eq_emod, hf]
  · intro hu hw
    rw [hx, if_pos hu, if_neg hw, Byte.toNat_sub_eq_emod, hf]
  · intro hu hw
    rw [hx, if_pos hu, if_pos hw, BitVec.sub_self]
    rfl

end Machine

/-! ## The words -/

/-- The numbers that a word 8xyN leaves in Vx and VF, if `a` and `b` were in Vx and Vy
before.  If x is F, then both are the same number, and the one in VF is named. -/
structure Opcode.ClosedForm (op : Opcode) (a b vx vf : Nat) : Prop where
  /-- 8xy4: the sum with its carry, or the carry alone. -/
  sum : op.n = 0x4 →
    (op.x ≠ 0xF → vx + 256 * vf = a + b) ∧
    (op.x = 0xF → vf = (decide (255 < a + b)).toNat)
  /-- 8xy5: Vx less Vy; the flag says whether Vx was the greater. -/
  difference : op.n = 0x5 →
    let f := (decide (a > b)).toNat
    (op.x ≠ 0xF → op.y ≠ 0xF → vf = f ∧ (vx : Int) = (a - b) % 256) ∧
    (op.x ≠ 0xF → op.y = 0xF → vf = f ∧ (vx : Int) = (a - f) % 256) ∧
    (op.x = 0xF → op.y ≠ 0xF → (vf : Int) = (f - b) % 256) ∧
    (op.x = 0xF → op.y = 0xF → vf = 0)
  /-- 8xy7: Vy less Vx; the flag says whether Vy was the greater. -/
  reverse : op.n = 0x7 →
    let f := (decide (b > a)).toNat
    (op.x ≠ 0xF → op.y ≠ 0xF → vf = f ∧ (vx : Int) = (b - a) % 256) ∧
    (op.x ≠ 0xF → op.y = 0xF → vf = f ∧ (vx : Int) = (f - a) % 256) ∧
    (op.x = 0xF → op.y ≠ 0xF → (vf : Int) = (b - f) % 256) ∧
    (op.x = 0xF → op.y = 0xF → vf = 0)
  /-- 8xy6: the half with its remainder. -/
  half : op.n = 0x6 →
    (op.x ≠ 0xF → 2 * vx + vf = a ∧ vf ≤ 1) ∧ (op.x = 0xF → vf = 0)
  /-- 8xyE: the double, less twice the bit that was shifted out. -/
  double : op.n = 0xE →
    (op.x ≠ 0xF → (vf = 0 ∨ vf = 128) ∧ vx + 2 * vf = 2 * a) ∧ (op.x = 0xF → vf = 0)

/-- A word 8xyN reaches no registers but Vx and VF. -/
theorem Opcode.v_execute_of_arithmetic {op : Opcode} (hfamily : op.family = 0x8)
    (random : Byte) (m : Machine) {r : Register} (hx : r ≠ op.x) (hflag : r ≠ 0xF) :
    (op.decode.execute random m).v[r] = m.v[r] := by
  apply Instruction.execute_v_of_not_writes
  intro hwrites
  have hpattern := op.decode_pattern
  cases hop : op.decode <;>
    simp_all [Instruction.Writes, Instruction.Pattern]

/-- **Sums, differences and shifts in closed form**, in every machine and for every x
and y, equal or not and F or not. -/
theorem arithmetic_closed_forms (m : Machine) (random : Byte) {op : Opcode}
    (hfamily : op.family = 0x8) :
    let n := op.decode.execute random m
    (∀ r : Register, r ≠ op.x → r ≠ 0xF → n.v[r] = m.v[r]) ∧
      op.ClosedForm m.v[op.x].toNat m.v[op.y].toNat n.v[op.x].toNat
        n.v[(0xF : Register)].toNat := by
  intro n
  have hexecute : ∀ {i}, op.decode = i → n = i.execute random m := by
    rintro i rfl
    rfl
  refine ⟨fun r hx hflag => op.v_execute_of_arithmetic hfamily random m hx hflag, ?_⟩
  constructor
  case sum =>
    intro hn
    have hadd : n = (Instruction.add op.x op.y).execute random m :=
      hexecute (Opcode.decode_of_pattern ⟨hfamily, hn, rfl, rfl⟩)
    obtain ⟨hflag, hsum⟩ := Machine.toNat_sum hadd
    exact ⟨hsum, fun _ => hflag⟩
  case difference =>
    intro hn f
    have hsub : n = (Instruction.sub op.x op.y).execute random m :=
      hexecute (Opcode.decode_of_pattern ⟨hfamily, hn, rfl, rfl⟩)
    obtain ⟨hflag, hneither, hy, hx, hboth⟩ := Machine.toNat_difference hsub
    refine ⟨fun hxF hyF => ?_, fun hxF hyF => ?_, fun hxF hyF => ?_, fun hxF hyF => ?_⟩
    · exact ⟨hflag.trans (if_neg hxF), hneither hxF hyF⟩
    · exact ⟨hflag.trans (if_neg hxF), hy hxF hyF⟩
    · rw [hflag, if_pos hxF]
      exact hx hxF hyF
    · rw [hflag, if_pos hxF]
      exact hboth hxF hyF
  case reverse =>
    intro hn f
    have hsub : n = (Instruction.subFrom op.x op.y).execute random m :=
      hexecute (Opcode.decode_of_pattern ⟨hfamily, hn, rfl, rfl⟩)
    obtain ⟨hflag, hneither, hx, hy, hboth⟩ := Machine.toNat_difference hsub
    refine ⟨fun hxF hyF => ?_, fun hxF hyF => ?_, fun hxF hyF => ?_, fun hxF hyF => ?_⟩
    · exact ⟨hflag.trans (if_neg hxF), hneither hyF hxF⟩
    · exact ⟨hflag.trans (if_neg hxF), hy hyF hxF⟩
    · rw [hflag, if_pos hxF]
      exact hx hyF hxF
    · rw [hflag, if_pos hxF]
      exact hboth hyF hxF
  case half =>
    intro hn
    have hshift : n = (Instruction.shiftRight op.x).execute random m :=
      hexecute (Opcode.decode_of_pattern ⟨hfamily, hn, rfl⟩)
    obtain ⟨hother, hsame⟩ := Machine.v_shift (· >>> 1) hshift
    constructor
    · intro hne
      obtain ⟨hx, hflag⟩ := hother hne
      rw [hx, hflag]
      exact Byte.toNat_half _
    · intro heq
      rw [hsame heq, (Byte.shifted_out_twice _).1]
      rfl
  case double =>
    intro hn
    have hshift : n = (Instruction.shiftLeft op.x).execute random m :=
      hexecute (Opcode.decode_of_pattern ⟨hfamily, hn, rfl⟩)
    obtain ⟨hother, hsame⟩ := Machine.v_shift (· <<< 1) hshift
    constructor
    · intro hne
      obtain ⟨hx, hflag⟩ := hother hne
      rw [hx, hflag]
      exact Byte.toNat_double _
    · intro heq
      rw [hsame heq, (Byte.shifted_out_twice _).2]
      rfl

/-- A difference into VF: 200 is more than 100, and the flag less 100 is what is left. -/
theorem arithmetic_closed_forms_into_flag :
    let m := { Machine.fresh with v := ((Bank.fill 0).set 0xF 200).set 0x2 100 }
    let op : Opcode := ⟨0x8F25⟩
    let n := op.decode.execute 0 m
    op.family = 0x8 ∧ (∀ r : Register, r ≠ op.x → r ≠ 0xF → n.v[r] = m.v[r]) ∧
      op.ClosedForm m.v[op.x].toNat m.v[op.y].toNat n.v[op.x].toNat
        n.v[(0xF : Register)].toNat ∧
      n.v[(0xF : Register)] = 157 := by
  intro m op n
  have hfamily : op.family = 0x8 := by decide
  obtain ⟨hothers, hform⟩ := arithmetic_closed_forms m 0 hfamily
  exact ⟨hfamily, hothers, hform, by decide +kernel⟩

end Chip8
