import Chip8.Proofs.LogLines
import Mathlib.Algebra.BigOperators.Group.List.Lemmas
import Mathlib.Algebra.GroupWithZero.Nat

/-!
# The columns of a trace

The traces of a run are the rows of a table.  Words are written with a fixed number of
digits and no assembly line is longer than its sixteen columns (`length_text_le`), so
what stands in front of a field takes the same room in every row: each field has columns
of its own (`cut_trace`), and all rows are of one length (`length_trace`).

So a row can be read back field by field.  It determines the word that is executed, the
program counter that it was fetched from, and all registers (`trace_determines_state`);
timers, memory and return addresses it does not show.
-/

namespace Chip8

/-! ## The length of an assembly line -/

theorem Operand.length_height_le : ∀ n : BitVec 4, (height n).text.toList.length ≤ 2 := by
  decide

namespace Instruction

variable (i : Instruction)

theorem length_mnemonic_le : i.mnemonic.toList.length ≤ 4 := by
  cases i <;> simp [mnemonic]

/-- Drawing has the longest operands: two registers, and a height of up to two digits. -/
theorem length_operandsText_le : (operandsText i.operands).length ≤ 11 := by
  cases i with
  | draw x y n =>
      have hlength : (operandsText (draw x y n).operands).length =
          9 + (Operand.height n).text.toList.length := by
        simp +arith [operands, operandsText, Operand.text]
      have hheight := Operand.length_height_le n
      omega
  | _ => simp [operands, operandsText, Operand.text]

theorem length_text_le : i.text.length ≤ 16 := by
  have hmnemonic := i.length_mnemonic_le
  have hoperands := i.length_operandsText_le
  rw [← String.length_toList, toList_text, List.length_append]
  omega

end Instruction

/-- An assembly line fits into its columns. -/
theorem Opcode.length_text_le (op : Opcode) : op.text.length ≤ 16 := by
  rw [text_eq]
  exact op.decode.length_text_le

/-! ## Fields -/

/-- What a trace shows of a machine. -/
inductive TraceField where
  /-- The word that is about to be executed. -/
  | word
  /-- Its assembly line. -/
  | assembly
  /-- The program counter. -/
  | pc
  /-- The index register. -/
  | i
  /-- The stack pointer. -/
  | sp
  /-- A general register. -/
  | v (x : Register)
deriving DecidableEq

namespace TraceField

/-- The column that a field starts in. -/
def column : TraceField → Nat
  | word => 0
  | assembly => 5
  | pc => 24
  | i => 30
  | sp => 37
  | v x => 42 + 4 * x.toNat

/-- How many columns a field takes. -/
def width : TraceField → Nat
  | word | pc | i => 4
  | assembly => 16
  | sp | v _ => 2

/-- What a field shows. -/
def shown (m : Machine) : TraceField → String
  | word => Hex.text 4 m.fetch.word
  | assembly => Notice.padded 16 m.fetch.text
  | pc => Hex.text 4 m.pc
  | i => Hex.text 4 m.i
  | sp => Hex.text 2 m.sp
  | v x => Hex.text 2 m.v[x]

/-- What stands between a field and the one before it. -/
def label : TraceField → String
  | word => ""
  | assembly => " "
  | pc => " pc"
  | i => " i"
  | sp => " sp"
  | v x => if x = 0 then " v[" else ", "

/-- The fields in the order in which they are shown. -/
def all : List TraceField := [word, assembly, pc, i, sp] ++ (Bank.indices 4).map v

/-- How many fields stand before a field. -/
def place : TraceField → Nat
  | word => 0
  | assembly => 1
  | pc => 2
  | i => 3
  | sp => 4
  | v x => 5 + x.toNat

/-- A field of some machine, with what stands in front of it. -/
def piece (m : Machine) (f : TraceField) : List Char := f.label.toList ++ (f.shown m).toList

/-- How many columns a field takes together with what stands in front of it. -/
def span (f : TraceField) : Nat := f.label.toList.length + f.width

variable (m : Machine) (f : TraceField)

theorem getElem?_all : all[f.place]? = some f := by
  cases f with
  | v x =>
      rw [all, place, List.getElem?_append_right (by simp), List.length_cons]
      simp [Bank.getElem?_indices]
  | _ => rfl

/-- Columns are counted by the room that the fields before take. -/
theorem sum_span_place :
    ((all.take f.place).map span).sum + f.label.toList.length = f.column := by
  cases f with
  | v x => revert x; decide
  | _ => decide

theorem column_add_width_le : f.column + f.width ≤ (all.map span).sum := by
  cases f with
  | v x => revert x; decide
  | _ => decide

theorem length_shown : (f.shown m).toList.length = f.width := by
  cases f with
  | assembly =>
      have hline := m.fetch.length_text_le
      rw [shown, width, Notice.padded, String.toList_append, String.toList_ofList,
        List.length_append, List.length_replicate, String.length_toList]
      omega
  | _ => simp [shown, width]

theorem map_length_piece : (all.map (piece m)).map List.length = all.map span := by
  rw [List.map_map]
  apply List.map_congr_left
  intro f _
  rw [Function.comp_apply, piece, List.length_append, length_shown, span]

end TraceField

/-! ## The line -/

namespace Machine

variable {m n : Machine}

/-- The registers are shown like the other fields, and a bracket ends them. -/
theorem toList_registersText (m : Machine) :
    " v".toList ++ (Notice.registersText m.v).toList =
      ((Bank.indices 4).map .v).flatMap (TraceField.piece m) ++ "]".toList := by
  obtain ⟨rest, hindices, hrest⟩ :
      ∃ rest, Bank.indices 4 = 0 :: rest ∧ ∀ x ∈ rest, x ≠ 0 :=
    ⟨(Bank.indices 4).tail, by decide, by decide⟩
  have hfirst : TraceField.piece m (.v 0) =
      " v".toList ++ ("[".toList ++ (Hex.text 2 m.v[(0 : Register)]).toList) := by
    simp [TraceField.piece, TraceField.label, TraceField.shown]
  have hothers : rest.flatMap (fun x => TraceField.piece m (.v x)) =
      rest.flatMap fun x => ", ".toList ++ (Hex.text 2 m.v[x]).toList := by
    apply List.flatMap_congr
    intro x hx
    rw [TraceField.piece, TraceField.label, if_neg (hrest x hx), TraceField.shown]
  rw [List.flatMap_map, hindices, List.flatMap_cons, hfirst, hothers, Notice.registersText,
    Bank.toList_eq_map, hindices]
  simp only [String.toList_append, String.toList_intercalate, List.map_cons,
    intercalate_eq_append_flatMap, List.map_map, List.flatMap_map, Function.comp_def,
    List.append_assoc]

/-- A trace is made of its fields, each after what stands in front of it. -/
theorem toList_trace (m : Machine) :
    m.trace.2.toList = TraceField.all.flatMap (TraceField.piece m) ++ "]".toList := by
  unfold trace Notice.text
  rw [TraceField.all, List.flatMap_append, List.append_assoc, ← toList_registersText]
  simp only [String.toList_append, List.append_assoc, List.flatMap_cons, List.flatMap_nil,
    TraceField.piece, TraceField.label, TraceField.shown, String.toList_empty, List.nil_append,
    Notice.assemblyWidth]

example : (Machine.fresh.run [.load [0x60, 0x05]]).trace.2 =
    "6005 LD V0, 0x05      pc0200 i0000 sp00 v[" ++
      ", ".intercalate (List.replicate 16 "00") ++ "]" := by
  decide +kernel

/-- **Every field of a trace stands in its own columns.** -/
theorem cut_trace (m : Machine) (f : TraceField) :
    (m.trace.2.toList.drop f.column).take f.width = (f.shown m).toList := by
  obtain ⟨hlt, hget⟩ := List.getElem?_eq_some_iff.1 f.getElem?_all
  have hcolumn := f.sum_span_place
  have hlength := congrArg List.sum (TraceField.map_length_piece m)
  rw [← List.length_flatten, ← List.flatMap_def] at hlength
  have hinside : ((TraceField.all.take f.place).map TraceField.span).sum ≤
      (TraceField.all.flatMap (TraceField.piece m)).length := by
    have hend := f.column_add_width_le
    omega
  -- The fields before this one are dropped, and then what stands in front of it.
  have hdrop := List.drop_sum_flatten (TraceField.all.map (TraceField.piece m)) f.place
  rw [TraceField.map_length_piece, ← List.map_take, ← List.flatMap_def, ← List.map_drop,
    List.drop_eq_getElem_cons hlt, hget, List.map_cons, List.flatten_cons, TraceField.piece,
    List.append_assoc] at hdrop
  rw [toList_trace, ← hcolumn, ← List.drop_drop, List.drop_append_of_le_length hinside, hdrop,
    List.append_assoc, List.drop_left' rfl, List.append_assoc,
    List.take_left' (f.length_shown m)]

theorem length_trace (m : Machine) : m.trace.2.length = 105 := by
  have hfields : (TraceField.all.flatMap (TraceField.piece m)).length = 104 := by
    rw [List.flatMap_def, List.length_flatten, TraceField.map_length_piece]
    decide
  rw [← String.length_toList, toList_trace, List.length_append, hfields]
  rfl

/-- Traces that are alike show the same in every field. -/
theorem shown_eq_of_trace_eq (htrace : m.trace.2 = n.trace.2) (f : TraceField) :
    (f.shown m).toList = (f.shown n).toList := by
  rw [← cut_trace, ← cut_trace, htrace]

/-- What traces that are alike have in common. -/
theorem eq_of_trace_eq (htrace : m.trace.2 = n.trace.2) :
    m.fetch = n.fetch ∧ m.pc = n.pc ∧ m.i = n.i ∧ m.sp = n.sp ∧ m.v = n.v := by
  have hshown := shown_eq_of_trace_eq htrace
  have hword : m.fetch.word = n.fetch.word := by
    simpa [TraceField.shown, Hex.digits_toNat_inj] using hshown .word
  have hpc : m.pc = n.pc := by
    simpa [TraceField.shown, Hex.digits_toNat_inj] using hshown .pc
  have hi : m.i = n.i := by
    simpa [TraceField.shown, Hex.digits_toNat_inj] using hshown .i
  have hsp : m.sp = n.sp := by
    simpa [TraceField.shown, Hex.digits_toNat_inj] using hshown .sp
  have hv : m.v = n.v := by
    ext x : 1
    simpa [TraceField.shown, Hex.digits_toNat_inj] using hshown (.v x)
  exact ⟨congrArg Opcode.mk hword, hpc, hi, hsp, hv⟩

/-! ## What a step writes -/

/-- The texts that a step adds to a log at the level of traces. -/
def traceTexts (m : Machine) (random : Byte) : List String :=
  ((m.notices (.step random)).filter (·.level = .trace)).map Notice.text

theorem filter_opcode_notices (op : Opcode) : op.notices.filter (·.level = .trace) = [] := by
  unfold Opcode.notices
  split <;> rfl

/-- A step of a machine that does not wait writes one trace, of the state before it. -/
theorem traceTexts_of_running (hrunning : m.paused = false) (random : Byte) :
    m.traceTexts random = [m.trace.2] := by
  have hnotices : m.notices (.step random) =
      .executing m.fetch m.pc m.i m.sp m.v :: m.fetch.notices := if_neg (by simp [hrunning])
  rw [traceTexts, hnotices, List.filter_cons_of_pos rfl, filter_opcode_notices]
  rfl

/-- A line shows a machine, each field in its own columns. -/
structure Tabulated (m : Machine) (line : String) : Prop where
  /-- All lines are of one length. -/
  length : line.length = 105
  /-- What is cut out of the columns of a field is what the field shows. -/
  field : ∀ f : TraceField, (line.toList.drop f.column).take f.width = (f.shown m).toList

end Machine

/-- **A trace determines the state that it is taken from.**  No assembly line takes more
than 16 columns.  So each step of a machine that does not wait writes one trace of 105
columns, in which every field starts in the same column whatever the state is.  And when
the steps of two machines write the same trace, then both fetched the same word, and had
the same program counter before it moved, index register, stack pointer and registers. -/
theorem trace_determines_state :
    (∀ op : Opcode, op.text.length ≤ 16) ∧
      (∀ (m : Machine) (random : Byte), m.paused = false →
        ∃ line, m.traceTexts random = [line] ∧ m.Tabulated line) ∧
      ∀ (m n : Machine) (random random' : Byte), m.paused = false → n.paused = false →
        m.traceTexts random = n.traceTexts random' →
          m.fetch = n.fetch ∧ m.pc = n.pc ∧ m.i = n.i ∧ m.sp = n.sp ∧ m.v = n.v := by
  refine ⟨Opcode.length_text_le, ?_, ?_⟩
  · intro m random hrunning
    exact ⟨m.trace.2, Machine.traceTexts_of_running hrunning random, m.length_trace, m.cut_trace⟩
  · intro m n random random' hm hn htraces
    rw [Machine.traceTexts_of_running hm, Machine.traceTexts_of_running hn] at htraces
    exact Machine.eq_of_trace_eq (List.singleton_inj.1 htraces)

/-- Two machines that differ in a timer, in the return addresses and in memory, but
write the same trace, whose assembly line is as long as they get. -/
theorem trace_determines_state_of_drawing :
    let m := Machine.fresh.run [.load [0x6A, 0x2A, 0xDA, 0xBF], .step 0]
    let n := { m with delay := 9, stack := .fill 7, memory := m.memory.set 0x300 1 }
    m.paused = false ∧ n.paused = false ∧ m.traceTexts 0 = n.traceTexts 1 ∧
      (∃ line, m.traceTexts 0 = [line] ∧ m.Tabulated line) ∧
      m.fetch = n.fetch ∧ m.pc = n.pc ∧ m.i = n.i ∧ m.sp = n.sp ∧ m.v = n.v ∧
      m.fetch.text = "DRW VA, VB, 15" := by
  intro m n
  have hm : m.paused = false := by decide +kernel
  have hn : n.paused = false := by decide +kernel
  have hfetch : n.fetch = m.fetch := by decide +kernel
  have htraces : m.traceTexts 0 = n.traceTexts 1 := by
    rw [Machine.traceTexts_of_running hm, Machine.traceTexts_of_running hn, Machine.trace,
      Machine.trace, hfetch]
  obtain ⟨-, hline, hsame⟩ := trace_determines_state
  obtain ⟨hword, hpc, hi, hsp, hv⟩ := hsame m n 0 1 hm hn htraces
  exact ⟨hm, hn, htraces, hline m 0 hm, hword, hpc, hi, hsp, hv, by decide +kernel⟩

end Chip8
