import Chip8.Proofs.Effect
import Chip8.Proofs.Runs
import Mathlib.Data.List.Induction
import Mathlib.Data.List.Infix

/-!
# Calls and returns

The machine keeps return addresses in a ring of sixteen slots, and the stack
pointer that picks a slot is a byte that wraps around.  While no more than
sixteen calls are open, this is a stack: a return goes back to the call that it
belongs to.

The calls and returns of a run are counted (`calls`, `returns`).  The stack
pointer is off its start by their difference (`sp_run`), so what a call pushed
stays in its slot as long as it is open (`stack_run_of_open`), whatever else is
executed meanwhile.  Which call a return belongs to is a matter of the counts
alone: between the two, calls and returns balance.  Such a call is found by
going back from the return (`exists_leavesOpen`).
-/

namespace Chip8

/-! ## The words that call and return -/

namespace Opcode

/-- Whether a word is a call, 2nnn. -/
def isCall (op : Opcode) : Bool := op.family = 0x2

/-- Whether a word is a return, 00EE. -/
def isReturn (op : Opcode) : Bool := op.word = 0x00EE

variable {op : Opcode}

/-- A word is a call exactly if its instruction is one. -/
theorem isCall_iff_decode : op.isCall = true ↔ ∃ target, op.decode = .call target := by
  rw [isCall, decide_eq_true_eq]
  constructor
  · intro hfamily
    have hcall : op.decode = .call op.address :=
      (decode_eq_iff (fun _ => Instruction.noConfusion)).2 ⟨hfamily, rfl⟩
    exact ⟨op.address, hcall⟩
  · rintro ⟨target, htarget⟩
    have hpattern := op.decode_pattern
    rw [htarget] at hpattern
    exact hpattern.1

/-- A word is a return exactly if its instruction is one. -/
theorem isReturn_iff_decode : op.isReturn = true ↔ op.decode = .ret := by
  rw [decode_eq_iff (fun _ => Instruction.noConfusion), isReturn, decide_eq_true_eq]
  rfl

/-- No word is both. -/
theorem isReturn_of_isCall (hcall : op.isCall = true) : op.isReturn = false := by
  obtain ⟨target, htarget⟩ := isCall_iff_decode.1 hcall
  rw [Bool.eq_false_iff]
  intro hreturn
  rw [isReturn_iff_decode.1 hreturn] at htarget
  exact Instruction.noConfusion htarget

/-- A call moves the stack pointer up, a return down. -/
theorem sp_execute (op : Opcode) (random : Byte) (m : Machine) :
    (op.decode.execute random m).sp =
      m.sp + .ofNat 8 op.isCall.toNat - .ofNat 8 op.isReturn.toNat := by
  rw [Instruction.execute_sp]
  split
  case h_1 target hdecode =>
      have hcall : op.isCall = true := isCall_iff_decode.2 ⟨target, hdecode⟩
      rw [isReturn_of_isCall hcall, hcall]
      simp
  case h_2 hdecode =>
      have hreturn : op.isReturn = true := isReturn_iff_decode.2 hdecode
      have hcall : op.isCall = false := by
        rw [Bool.eq_false_iff]
        intro hcall
        exact Bool.noConfusion ((isReturn_of_isCall hcall).symm.trans hreturn)
      rw [hcall, hreturn]
      simp
  case h_3 hcall hreturn =>
      have hnotCall : op.isCall = false := by
        rw [Bool.eq_false_iff, ne_eq, isCall_iff_decode]
        exact fun ⟨target, htarget⟩ => hcall target htarget
      have hnotReturn : op.isReturn = false := by
        rw [Bool.eq_false_iff, ne_eq, isReturn_iff_decode]
        exact hreturn
      rw [hnotCall, hnotReturn]
      simp

/-- A call writes the program counter to the slot above the stack pointer. -/
theorem stack_execute (op : Opcode) (random : Byte) (m : Machine) :
    (op.decode.execute random m).stack =
      if op.isCall then m.stack.set ((m.sp + 1).setWidth 4) m.pc else m.stack := by
  rw [Instruction.execute_stack]
  split
  case h_1 target hdecode => rw [if_pos (isCall_iff_decode.2 ⟨target, hdecode⟩)]
  case h_2 hother =>
      have hcall : ¬ op.isCall = true := by
        rw [isCall_iff_decode]
        exact fun ⟨target, htarget⟩ => hother target htarget
      rw [if_neg hcall]

end Opcode

namespace Machine

variable (m : Machine)

/-! ## One command -/

/-- Whether a command executes a call. -/
def isCall (m : Machine) (c : Command) : Bool := (m.executes c).any Opcode.isCall

/-- Whether a command executes a return. -/
def isReturn (m : Machine) (c : Command) : Bool := (m.executes c).any Opcode.isReturn

/-- No command executes both. -/
theorem isReturn_of_isCall {m : Machine} {c : Command} (hcall : m.isCall c = true) :
    m.isReturn c = false := by
  obtain ⟨op, hop, hcall⟩ := (Option.any_eq_true _ _).1 hcall
  rw [isReturn, hop]
  exact Opcode.isReturn_of_isCall hcall

theorem isCall_of_isReturn {m : Machine} {c : Command} (hreturn : m.isReturn c = true) :
    m.isCall c = false := by
  rw [Bool.eq_false_iff]
  intro hcall
  exact Bool.noConfusion ((isReturn_of_isCall hcall).symm.trans hreturn)

/-- What a command does to the stack pointer. -/
theorem sp_after {c : Command} (hreset : c ≠ .reset) :
    (m.after c).sp =
      m.sp + .ofNat 8 (m.isCall c).toNat - .ofNat 8 (m.isReturn c).toNat := by
  cases hop : m.executes c with
  | none =>
      rw [after_of_executes_none hreset hop]
      simp [isCall, isReturn, hop]
  | some op =>
      obtain ⟨random, -, hafter⟩ := after_of_executes hop
      rw [hafter, Opcode.sp_execute]
      simp [isCall, isReturn, hop, advance]

/-- What a command does to the ring: a call leaves in the next slot where the
word after it is. -/
theorem stack_after {c : Command} (hreset : c ≠ .reset) :
    (m.after c).stack =
      if m.isCall c then m.stack.set ((m.sp + 1).setWidth 4) (m.pc + 2) else m.stack := by
  cases hop : m.executes c with
  | none =>
      rw [after_of_executes_none hreset hop]
      simp [isCall, hop]
  | some op =>
      obtain ⟨random, -, hafter⟩ := after_of_executes hop
      rw [hafter, Opcode.stack_execute]
      simp [isCall, hop, advance]

/-- A return goes on where the slot at the stack pointer says. -/
theorem pc_after_of_isReturn {m : Machine} {c : Command} (hreturn : m.isReturn c = true) :
    (m.after c).pc = m.stack[(m.sp.setWidth 4 : BitVec 4)] := by
  obtain ⟨op, hop, hreturn⟩ := (Option.any_eq_true _ _).1 hreturn
  obtain ⟨random, -, hafter⟩ := after_of_executes hop
  rw [hafter, Opcode.isReturn_iff_decode.1 hreturn]
  rfl

/-! ## Counting calls and returns -/

/-- How many calls are executed in a run. -/
def calls (m : Machine) (cs : List Command) : Nat := m.count Opcode.isCall cs

/-- How many returns are executed in a run. -/
def returns (m : Machine) (cs : List Command) : Nat := m.count Opcode.isReturn cs

@[simp] theorem calls_nil : m.calls [] = 0 := rfl

@[simp] theorem returns_nil : m.returns [] = 0 := rfl

@[simp] theorem calls_append (cs ds : List Command) :
    m.calls (cs ++ ds) = m.calls cs + (m.run cs).calls ds :=
  m.count_append _ cs ds

@[simp] theorem returns_append (cs ds : List Command) :
    m.returns (cs ++ ds) = m.returns cs + (m.run cs).returns ds :=
  m.count_append _ cs ds

@[simp] theorem calls_singleton (c : Command) : m.calls [c] = (m.isCall c).toNat :=
  m.count_singleton _ c

@[simp] theorem returns_singleton (c : Command) :
    m.returns [c] = (m.isReturn c).toNat :=
  m.count_singleton _ c

theorem calls_cons (c : Command) (cs : List Command) :
    m.calls (c :: cs) = (m.isCall c).toNat + (m.after c).calls cs :=
  m.count_cons _ c cs

theorem returns_cons (c : Command) (cs : List Command) :
    m.returns (c :: cs) = (m.isReturn c).toNat + (m.after c).returns cs :=
  m.count_cons _ c cs

/-- **The stack pointer counts.**  It is off its start by the calls less the
returns, as far as a byte can tell. -/
theorem sp_run {cs : List Command} (hreset : .reset ∉ cs) :
    (m.run cs).sp = m.sp + .ofNat 8 (m.calls cs) - .ofNat 8 (m.returns cs) := by
  induction cs using List.reverseRecOn with
  | nil => simp
  | append_singleton cs c ih =>
      rw [List.mem_append, not_or, List.mem_singleton] at hreset
      have hlast := (m.run cs).sp_after (Ne.symm hreset.2)
      rw [ih hreset.1] at hlast
      simp only [run_append, run_cons, run_nil, calls_append, returns_append,
        calls_singleton, returns_singleton, BitVec.ofNat_add, hlast]
      grind

/-! ## Open calls -/

/-- A piece of a run leaves `e` of its calls open: at no point has it returned
from more calls than it made, and at its end `e` fewer. -/
structure LeavesOpen (m : Machine) (cs : List Command) (e : Nat) : Prop where
  /-- No call made before the piece is returned from. -/
  within : ∀ pre, pre <+: cs → m.returns pre ≤ m.calls pre
  /-- So many calls are left. -/
  left : m.calls cs = m.returns cs + e

/-- The calls and returns of a piece of a run balance. -/
def Balanced (m : Machine) (cs : List Command) : Prop := m.LeavesOpen cs 0

theorem leavesOpen_nil : m.LeavesOpen [] 0 where
  within := by
    intro pre hpre
    rw [List.prefix_nil.1 hpre, returns_nil]
    exact Nat.zero_le _
  left := rfl

/-- One more command leaves one call more, one fewer or as many. -/
theorem LeavesOpen.snoc {m : Machine} {cs : List Command} {e f : Nat} {c : Command}
    (h : m.LeavesOpen cs e)
    (hlast : e + ((m.run cs).isCall c).toNat = f + ((m.run cs).isReturn c).toNat) :
    m.LeavesOpen (cs ++ [c]) f where
  within := by
    intro pre hpre
    rcases List.prefix_concat_iff.1 hpre with rfl | hpre
    · have hleft := h.left
      rw [calls_append, returns_append, calls_singleton, returns_singleton]
      omega
    · exact h.within pre hpre
  left := by
    have hleft := h.left
    rw [calls_append, returns_append, calls_singleton, returns_singleton]
    omega

/-- **Open calls can be found.**  If a run leaves more than `e` calls open, then
one of them is followed by a piece that leaves just `e` open. -/
theorem exists_leavesOpen {cs : List Command} {e : Nat}
    (hopen : m.returns cs + e < m.calls cs) :
    ∃ before call between, cs = before ++ call :: between ∧
      (m.run before).isCall call = true ∧
      ((m.run before).after call).LeavesOpen between e := by
  induction cs using List.reverseRecOn generalizing e with
  | nil => simp at hopen
  | append_singleton cs c ih =>
      rw [calls_append, returns_append, calls_singleton, returns_singleton] at hopen
      by_cases hlast : (m.run cs).isCall c = true ∧ e = 0
      · obtain ⟨hcall, rfl⟩ := hlast
        exact ⟨cs, c, [], rfl, hcall, leavesOpen_nil _⟩
      · -- The call is in the rest, and so many are open between it and the last command.
        obtain ⟨f, hf⟩ : ∃ f, e + ((m.run cs).isReturn c).toNat =
            f + ((m.run cs).isCall c).toNat := by
          apply Nat.exists_eq_add_of_le'
          cases hcall : (m.run cs).isCall c with
          | false => exact Nat.zero_le _
          | true =>
              have he : e ≠ 0 := fun he => hlast ⟨hcall, he⟩
              rw [Bool.toNat_true]
              omega
        have hrest : m.returns cs + f < m.calls cs := by omega
        obtain ⟨before, call, between, rfl, hcall, hbetween⟩ := ih hrest
        refine ⟨before, call, between ++ [c], by simp, hcall, hbetween.snoc ?_⟩
        rw [run_append, run_cons] at hf
        exact hf.symm

/-! ## The slot of an open call -/

/-- Less than a round further is another slot. -/
theorem slot_ne (sp : Byte) {d : Nat} (hpos : 0 < d) (hround : d < 16) :
    (sp + .ofNat 8 d).setWidth 4 ≠ (sp.setWidth 4 : BitVec 4) := by
  bv_omega

/-- **A slot keeps its address** while the calls that are made after it are
returned from first and never more than fifteen of them are open. -/
theorem stack_run_of_open {cs : List Command} (hreset : .reset ∉ cs)
    (hdepth : ∀ pre, pre <+: cs →
      m.returns pre ≤ m.calls pre ∧ m.calls pre < m.returns pre + 16) :
    (m.run cs).stack[(m.sp.setWidth 4 : BitVec 4)] =
      m.stack[(m.sp.setWidth 4 : BitVec 4)] := by
  induction cs using List.reverseRecOn with
  | nil => rfl
  | append_singleton cs c ih =>
      rw [List.mem_append, not_or, List.mem_singleton] at hreset
      have hcs : cs <+: cs ++ [c] := List.prefix_append cs [c]
      have hrest := ih hreset.1 fun pre hpre => hdepth pre (hpre.trans hcs)
      rw [run_append, run_cons, run_nil, stack_after _ (Ne.symm hreset.2)]
      by_cases hcall : (m.run cs).isCall c = true
      · obtain ⟨d, hd⟩ := Nat.exists_eq_add_of_le (hdepth cs hcs).1
        have hlast := (hdepth (cs ++ [c]) (List.prefix_refl _)).2
        rw [calls_append, returns_append, calls_singleton, returns_singleton, hcall,
          isReturn_of_isCall hcall, Bool.toNat_true, Bool.toNat_false, hd] at hlast
        have hsp : (m.run cs).sp + 1 = m.sp + .ofNat 8 (d + 1) := by
          rw [m.sp_run hreset.1, hd]
          simp only [BitVec.ofNat_add]
          grind
        have hslot := slot_ne m.sp (Nat.succ_pos d) (by omega)
        rw [if_pos hcall, hsp, Bank.getElem_set_ne _ _ hslot, hrest]
      · rw [if_neg hcall, hrest]

/-- In a run that starts with a call and never has more than sixteen calls open,
that call's slot is still what it was when the calls after it balance. -/
theorem top_run_of_balanced {call : Command} {between : List Command}
    (hreset : .reset ∉ call :: between) (hcall : m.isCall call = true)
    (hbalanced : (m.after call).Balanced between)
    (hdepth : ∀ pre, pre <+: between →
      (m.after call).calls pre < (m.after call).returns pre + 16) :
    ((m.after call).run between).stack[
        (((m.after call).run between).sp.setWidth 4 : BitVec 4)] = m.pc + 2 := by
  rw [List.mem_cons, not_or] at hreset
  have hsp : (m.after call).sp = m.sp + 1 := by
    rw [m.sp_after (Ne.symm hreset.1), hcall, isReturn_of_isCall hcall]
    simp
  have hback : ((m.after call).run between).sp = (m.after call).sp := by
    rw [sp_run _ hreset.2, hbalanced.left, Nat.add_zero, BitVec.add_sub_cancel]
  have hkept := (m.after call).stack_run_of_open hreset.2 fun pre hpre =>
    ⟨hbalanced.within pre hpre, hdepth pre hpre⟩
  rw [hback, hkept, hsp, m.stack_after (Ne.symm hreset.1), if_pos hcall,
    Bank.getElem_set_self]

/-! ## The stack of calls -/

/-- A call in a run belongs to the return right after it, if what is executed
between them balances: it is the last call that is still open. -/
structure IsMatchingCall (start : Machine) (before : List Command) (call : Command)
    (between : List Command) : Prop where
  isCall : (start.run before).isCall call = true
  balanced : ((start.run before).after call).Balanced between

/-- The ring is a stack of calls in a run. -/
structure CallStack (start : Machine) (cs : List Command) : Prop where
  /-- Every return has a call that it belongs to. -/
  matched : ∀ pre c, pre ++ [c] <+: cs → (start.run pre).isReturn c = true →
    ∃ before call between, pre = before ++ call :: between ∧
      start.IsMatchingCall before call between
  /-- Every return goes on right after the call that it belongs to. -/
  returns : ∀ before call between c, before ++ call :: between ++ [c] <+: cs →
    start.IsMatchingCall before call between →
    (start.run (before ++ call :: between)).isReturn c = true →
      (start.run (before ++ call :: between ++ [c])).pc = (start.run before).pc + 2
  /-- At every point the stack pointer is off its start by the calls less the
  returns, modulo 256. -/
  sp : ∀ pre, pre <+: cs →
    (start.run pre).sp =
      start.sp + .ofNat 8 (start.calls pre) - .ofNat 8 (start.returns pre)

end Machine

/-- **The ring is a call stack** from whatever state a run starts, as long as at
every point of the run the calls so far are as many as the returns, or up to
sixteen more. -/
theorem ring_is_call_stack (start : Machine) {cs : List Command} (hreset : .reset ∉ cs)
    (hdepth : ∀ pre, pre <+: cs →
      start.returns pre ≤ start.calls pre ∧
        start.calls pre ≤ start.returns pre + Machine.stackSize) :
    start.CallStack cs where
  matched := by
    intro pre c hpre hreturn
    have hlast := (hdepth _ hpre).1
    rw [Machine.calls_append, Machine.returns_append, Machine.calls_singleton,
      Machine.returns_singleton, hreturn, Machine.isCall_of_isReturn hreturn,
      Bool.toNat_true, Bool.toNat_false] at hlast
    have hopen : start.returns pre + 0 < start.calls pre := by omega
    obtain ⟨before, call, between, hsplit, hcall, hbetween⟩ := start.exists_leavesOpen hopen
    exact ⟨before, call, between, hsplit, hcall, hbetween⟩
  returns := by
    rintro before call between c hpre ⟨hcall, hbalanced⟩ hreturn
    have hpiece : before ++ call :: between <+: cs :=
      (List.prefix_append _ [c]).trans hpre
    have hnoReset : .reset ∉ call :: between := fun hmem =>
      hreset (hpiece.subset (List.mem_append_right before hmem))
    have hround : ∀ q, q <+: between →
        ((start.run before).after call).calls q <
          ((start.run before).after call).returns q + 16 := by
      intro q hq
      have hprefix : before ++ call :: q <+: cs :=
        ((List.prefix_append_right_inj before).2
          (List.cons_prefix_cons.2 ⟨rfl, hq⟩)).trans hpiece
      have hbefore := (hdepth before ((List.prefix_append _ _).trans hpiece)).1
      have hopen := (hdepth _ hprefix).2
      rw [Machine.calls_append, Machine.returns_append, Machine.calls_cons,
        Machine.returns_cons, hcall, Machine.isReturn_of_isCall hcall, Bool.toNat_true,
        Bool.toNat_false, Machine.stackSize] at hopen
      omega
    rw [Machine.run_append, Machine.run_cons, Machine.run_nil,
      Machine.pc_after_of_isReturn hreturn, Machine.run_append, Machine.run_cons]
    exact (start.run before).top_run_of_balanced hnoReset hcall hbalanced hround
  sp := fun pre hpre => start.sp_run fun hmem => hreset (hpre.subset hmem)

/-- A machine whose stack pointer is about to wrap around executes a call and the
return that belongs to it, and a picture is taken in between. -/
theorem ring_is_call_stack_at_wrap :
    let start := { Machine.fresh with
      sp := 0xFF
      memory := .ofFn fun a => if a = 0x200 then 0x22 else if a = 0x201 then 0x04
        else if a = 0x205 then 0xEE else 0 }
    let cs : List Command := [.step 0, .takeFrame, .step 0]
    .reset ∉ cs ∧
      (∀ pre, pre <+: cs →
        start.returns pre ≤ start.calls pre ∧
          start.calls pre ≤ start.returns pre + Machine.stackSize) ∧
      start.CallStack cs := by
  intro start cs
  have hreset : .reset ∉ cs := by simp [cs]
  have hfirst : start.executes (.step 0) = some ⟨0x2204⟩ := by
    simp [start, Machine.executes, Machine.paused, Machine.waiting, Machine.fresh,
      Machine.withPeripherals, Machine.programStart, Keyboard.withoutRequest, Machine.fetch,
      Machine.read, Opcode.ofBytes, Word.address]
  have hafter : start.after (.step 0) = start.advance.call 0x204 := by
    obtain ⟨random, -, hafter⟩ := Machine.after_of_executes hfirst
    rw [hafter]
    rfl
  have hsecond : ((start.after (.step 0)).after .takeFrame).executes (.step 0) =
      some ⟨0x00EE⟩ := by
    rw [hafter, Machine.after_takeFrame]
    simp [start, Machine.executes, Machine.paused, Machine.waiting, Machine.fresh,
      Machine.withPeripherals, Keyboard.withoutRequest, Machine.fetch, Machine.read,
      Opcode.ofBytes, Word.address, Machine.call, Machine.advance]
  have hbetween : (start.after (.step 0)).executes .takeFrame = none := rfl
  have hdepth : ∀ pre, pre <+: cs →
      start.returns pre ≤ start.calls pre ∧
        start.calls pre ≤ start.returns pre + Machine.stackSize := by
    intro pre hpre
    have hmem : pre ∈ cs.inits := (List.mem_inits _ _).2 hpre
    simp only [cs, List.inits, List.map_cons, List.map_nil, List.mem_cons, List.not_mem_nil,
      or_false] at hmem
    rcases hmem with rfl | rfl | rfl | rfl <;>
      simp only [Machine.calls_nil, Machine.calls_cons, Machine.returns_nil, Machine.returns_cons,
        Machine.isCall, Machine.isReturn, hfirst, hbetween, hsecond, Option.any_some,
        Option.any_none] <;>
      decide
  exact ⟨hreset, hdepth, ring_is_call_stack start hreset hdepth⟩

end Chip8
