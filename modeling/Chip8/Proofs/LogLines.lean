import Chip8.Proofs.Assembly
import Chip8.Proofs.KeyWait
import Chip8.Proofs.Timers

/-!
# What a log tells

A log is all that is left of a run, and it tells the run.  `Machine.lines` says which
lines a command adds to it, in terms of what can be seen from outside: the text of
the trace, the digits of the word, whether a wait ended, whether a program was
accepted.  The machine itself goes by other things, by what it decodes and by who
asked the keypad; `lines_eq_notices` says that it comes to the same, and
`log_eq_lines` that a log is made of these lines and no others.

Two kinds of lines belong together, those of a wait that begins and those of a key
that was stored.  They alternate, and each pair of them names one register
(`waitLines_eq`), since a machine that waits does nothing until it gets its key.
-/

namespace Chip8

/-! ## Lines -/

/-- A line of a log: how much it matters, and its text. -/
abbrev LogLine := Level × String

/-- The line of a notice. -/
def Notice.line (n : Notice) : LogLine := (n.level, n.text)

namespace LogLine

/-- A register begins to wait for a key. -/
def waiting (x : Register) : LogLine :=
  (.debug, "Waiting for key press into V" ++ Hex.text 1 x)

/-- A key was stored in the register that waited for it. -/
def stored (x : Register) (k : Byte) : LogLine :=
  (.debug, "Stored key " ++ Hex.text 1 k ++ " in V" ++ Hex.text 1 x ++ ", resuming")

/-- A word is no instruction. -/
def ignoring (op : Opcode) : LogLine :=
  (.debug, "Ignoring unrecognised opcode " ++ Hex.text 4 op.word)

/-- A byte is no key. -/
def unknownKey (b : Byte) : LogLine :=
  (.warn, "ignoring key down for unknown key 0x" ++ Hex.text 2 b)

/-- A program of some size was accepted. -/
def loaded (size : Nat) : LogLine :=
  (.info, "Loaded program [size: " ++ toString size ++ "]")

/-- Whether the text of a line is that of a wait that begins or ends. -/
def isOfWait (l : LogLine) : Bool :=
  "Waiting for key press into V".toList.isPrefixOf l.2.toList ||
    "Stored key ".toList.isPrefixOf l.2.toList

/-- The lines of a wait start with W or S. -/
theorem isOfWait_of_head {l : LogLine} {c : Char} {rest : List Char}
    (htext : l.2.toList = c :: rest) (hW : c ≠ 'W') (hS : c ≠ 'S') : l.isOfWait = false := by
  unfold isOfWait
  rw [htext]
  simp [List.isPrefixOf, Ne.symm hW, Ne.symm hS]

@[simp] theorem isOfWait_waiting (x : Register) : (waiting x).isOfWait = true := by
  simp [isOfWait, waiting]

@[simp] theorem isOfWait_stored (x : Register) (k : Byte) : (stored x k).isOfWait = true := by
  simp [isOfWait, stored]

@[simp] theorem isOfWait_ignoring (op : Opcode) : (ignoring op).isOfWait = false := by
  simp [isOfWait, ignoring, List.isPrefixOf]

@[simp] theorem isOfWait_unknownKey (b : Byte) : (unknownKey b).isOfWait = false := by
  simp [isOfWait, unknownKey, List.isPrefixOf]

@[simp] theorem isOfWait_loaded (size : Nat) : (loaded size).isOfWait = false := by
  simp [isOfWait, loaded, List.isPrefixOf]

end LogLine

/-- The digits tell which words ask for a key. -/
theorem Opcode.operation_eq_awaitKey_iff {op : Opcode} :
    op.operation = .awaitKey ↔ op.IsTransfer 0x0A := by
  constructor
  · intro hawait
    have hpattern := op.decode_pattern
    rw [← op.instruction_operation, hawait] at hpattern
    exact ⟨hpattern.1, hpattern.2.1⟩
  · rintro ⟨hfamily, hkk⟩
    obtain ⟨hy, hn⟩ := op.digits_of_kk
    simp [operation, hfamily, hy, hn, hkk]

/-- The program that a command offers to the machine, if it offers one. -/
def Command.program? : Command → Option (List Byte)
  | .load program => some program
  | .loadFrom readings => (Reading.collect readings).toOption
  | _ => none

namespace Machine

variable (m : Machine)

/-- The trace of the word that the program counter points at. -/
def trace (m : Machine) : LogLine :=
  (.trace, (Notice.executing m.fetch m.pc m.i m.sp m.v).text)

/-- Whether the trace shows the word as data: after its four digits and a blank, the
text goes on with DATA. -/
def tracesData (m : Machine) : Bool :=
  "DATA".toList.isPrefixOf (m.trace.2.toList.drop 5)

/-- The register whose wait a command ends. -/
def waitEnded (m : Machine) (c : Command) : Option Register :=
  if (m.after c).paused then none else m.waiting

/-- The lines that a command adds to a log. -/
def lines (m : Machine) (c : Command) : List LogLine :=
  match c with
  | .step _ =>
    if m.paused then [] else
      m.trace ::
        ((if m.tracesData then [.ignoring m.fetch] else []) ++
          if m.fetch.IsTransfer 0x0A then [.waiting m.fetch.x] else [])
  | .keyDown b =>
    if 16 ≤ b then [.unknownKey b] else (m.waitEnded c).toList.map (.stored · b)
  | .load _ | .loadFrom _ =>
    if (m.perform c).2 = .done then c.program?.toList.map (.loaded ·.length) else []
  | .keyUp _ | .takeFrame | .reset => []

/-! ## The trace -/

/-- What has no blank in it is at the start of a text exactly if it is so before the
first blank that follows. -/
theorem prefix_append_blank_iff {p s rest : List Char} (hp : ' ' ∉ p) :
    p <+: s ++ ' ' :: rest ↔ p <+: s := by
  constructor
  · intro h
    have hs : s <+: s ++ ' ' :: rest := List.prefix_append _ _
    rcases Nat.lt_or_ge s.length p.length with hlt | hle
    · -- A longer prefix would reach the blank.
      have hblank : s ++ [' '] <+: s ++ ' ' :: rest := by simp
      have hmore : s ++ [' '] <+: p :=
        List.prefix_of_prefix_length_le hblank h (by simpa [Nat.succ_le_iff] using hlt)
      exact absurd (hmore.subset (by simp)) hp
    · exact List.prefix_of_prefix_length_le h hs hle
  · exact fun h => h.trans (List.prefix_append _ _)

/-- After four digits and a blank, a trace goes on with the assembly line, and a blank. -/
theorem exists_drop_trace :
    ∃ rest, m.trace.2.toList.drop 5 = m.fetch.text.toList ++ ' ' :: rest := by
  obtain ⟨tail, htail⟩ : ∃ tail, m.trace.2.toList.drop 5 =
      m.fetch.text.toList ++
        (List.replicate (Notice.assemblyWidth - m.fetch.text.length) ' ' ++
          ' ' :: tail) := by
    have hblank : " pc".toList = ' ' :: "pc".toList := by simp
    have hdigits : (Hex.digits 4 m.fetch.word.toNat ++ " ".toList).length = 5 := by simp
    unfold trace Notice.text Notice.padded
    simp only [String.toList_append, Hex.toList_text, String.toList_ofList, hblank,
      List.append_assoc, List.cons_append]
    rw [← List.append_assoc (Hex.digits 4 m.fetch.word.toNat), List.drop_left' hdigits]
    exact ⟨_, rfl⟩
  -- A line that fills its column is not padded, and the blank is the one before pc.
  cases hpadding : Notice.assemblyWidth - m.fetch.text.length with
  | zero =>
      rw [hpadding] at htail
      exact ⟨_, htail⟩
  | succ k =>
      rw [hpadding, List.replicate_succ] at htail
      exact ⟨_, htail⟩

/-- The trace shows a word as data exactly if no operation is selected for it. -/
theorem tracesData_iff : m.tracesData = true ↔ m.fetch.operation = .nop := by
  obtain ⟨rest, hrest⟩ := m.exists_drop_trace
  rw [tracesData, List.isPrefixOf_iff_prefix, hrest, prefix_append_blank_iff (by decide),
    Opcode.data_prefix_text_iff]

theorem isOfWait_trace : m.trace.isOfWait = false := by
  obtain ⟨rest, hrest⟩ : ∃ rest, m.trace.2.toList =
      Hex.digit (m.fetch.word.toNat / 16 / 16 / 16 % 16) :: rest := by
    unfold trace Notice.text
    simp [Hex.digits]
  have hdigit : ∀ n : Fin 16, Hex.digit n ≠ 'W' ∧ Hex.digit n ≠ 'S' := by decide
  have hfirst := hdigit ⟨m.fetch.word.toNat / 16 / 16 / 16 % 16, Nat.mod_lt _ (by decide)⟩
  exact LogLine.isOfWait_of_head hrest hfirst.1 hfirst.2

/-! ## What a command reports -/

theorem lines_step_of_paused {m : Machine} (hpaused : m.paused = true) (random : Byte) :
    m.lines (.step random) = [] :=
  if_pos hpaused

theorem lines_step_of_running {m : Machine} (hrunning : m.paused = false) (random : Byte) :
    m.lines (.step random) =
      m.trace ::
        ((if m.tracesData then [.ignoring m.fetch] else []) ++
          if m.fetch.IsTransfer 0x0A then [.waiting m.fetch.x] else []) :=
  if_neg (by simp [hrunning])

theorem waiting_after_keyDown {b : Byte} (hkey : b < 16) :
    (m.after (.keyDown b)).waiting = none := by
  rw [m.waiting_after _ (by simp)]
  exact if_pos hkey

/-- A key is reported if a register waits for it. -/
theorem lines_keyDown_of_lt {b : Byte} (hkey : b < 16) :
    m.lines (.keyDown b) = m.waiting.toList.map (.stored · b) := by
  have hended : m.waitEnded (.keyDown b) = m.waiting := by
    rw [waitEnded, paused_eq_false_iff.2 (m.waiting_after_keyDown hkey)]
    rfl
  rw [← hended]
  exact if_neg (BitVec.not_le.2 hkey)

theorem lines_keyDown_of_le {b : Byte} (hbyte : 16 ≤ b) :
    m.lines (.keyDown b) = [.unknownKey b] :=
  if_pos hbyte

theorem lines_load (program : List Byte) :
    m.lines (.load program) =
      if program.length ≤ maxProgramSize then [.loaded program.length] else [] := by
  show (if (m.afterLoad (m.load program)).2 = .done then _ else _) = _
  unfold load
  by_cases hsize : program.length ≤ maxProgramSize
  · simp only [if_pos hsize, afterLoad]
    rfl
  · simp only [if_neg hsize, afterLoad]
    rfl

theorem lines_loadFrom (readings : List Reading) :
    m.lines (.loadFrom readings) =
      match Reading.collect readings with
      | .ok program => m.lines (.load program)
      | .error _ => [] := by
  show (if (m.afterLoad (m.loadFrom readings)).2 = .done then
    (Reading.collect readings).toOption.toList.map _ else []) = _
  unfold loadFrom
  cases Reading.collect readings with
  | ok program => rfl
  | error reason => exact if_neg (by simp [afterLoad])

/-- What a word reports: that it is ignored, if the trace shows it as data, and who
waits, if it asks for a key. -/
theorem line_opcode_notices :
    m.fetch.notices.map Notice.line =
      (if m.tracesData then [.ignoring m.fetch] else []) ++
        if m.fetch.IsTransfer 0x0A then [.waiting m.fetch.x] else [] := by
  have hdata := m.tracesData_iff
  have hawait : m.fetch.operation = .awaitKey ↔ m.fetch.IsTransfer 0x0A :=
    Opcode.operation_eq_awaitKey_iff
  unfold Opcode.notices
  split
  case h_1 hop =>
      have hother : ¬ m.fetch.IsTransfer 0x0A := by
        intro h
        cases hop.symm.trans (hawait.2 h)
      simp only [if_pos (hdata.2 hop), if_neg hother]
      rfl
  case h_2 hop =>
      have htraces : ¬ m.tracesData = true := by
        intro h
        cases hop.symm.trans (hdata.1 h)
      simp only [if_neg htraces, if_pos (hawait.1 hop)]
      rfl
  case h_3 hnotNop hnotAwait =>
      have htraces : ¬ m.tracesData = true := fun h => hnotNop (hdata.1 h)
      have hother : ¬ m.fetch.IsTransfer 0x0A := fun h => hnotAwait (hawait.2 h)
      simp only [if_neg htraces, if_neg hother]
      rfl

theorem line_keyDownNotices (b : Byte) :
    (m.keyDownNotices b).map Notice.line = m.lines (.keyDown b) := by
  unfold keyDownNotices Keyboard.keyDownNotices
  by_cases hkey : b < 16
  · have hnumber : (b.setWidth 4).toNat = b.toNat := by
      rw [BitVec.toNat_setWidth]
      exact Nat.mod_eq_of_lt hkey
    have hstored : ∀ x, (Notice.storedKey (b.setWidth 4) x).line = .stored x b := by
      intro x
      have htext : Hex.text 1 b = Hex.text 1 (b.setWidth 4 : Key) :=
        congrArg (fun n => String.ofList (Hex.digits 1 n)) hnumber.symm
      unfold LogLine.stored
      rw [htext]
      rfl
    rw [Key.ofByte?_of_lt hkey, m.lines_keyDown_of_lt hkey]
    cases m.waiting with
    | none => rfl
    | some x => exact congrArg ([·]) (hstored x)
  · have hbyte : 16 ≤ b := BitVec.not_lt.1 hkey
    rw [Key.ofByte?_of_le hbyte, m.lines_keyDown_of_le hbyte]
    rfl

theorem line_loadNotices (program : List Byte) :
    (loadNotices program).map Notice.line = m.lines (.load program) := by
  rw [lines_load, loadNotices]
  split <;> rfl

/-- **What a command reports** is what can be seen from outside that it did. -/
theorem lines_eq_notices (c : Command) :
    (m.notices c).map Notice.line = m.lines c := by
  cases c with
  | step random =>
      show m.stepNotices.map Notice.line = _
      unfold stepNotices
      by_cases hpaused : m.paused = true
      · rw [if_pos hpaused, lines_step_of_paused hpaused]
        rfl
      · have hrunning : m.paused = false := by simpa using hpaused
        rw [if_neg hpaused, lines_step_of_running hrunning, List.map_cons, line_opcode_notices]
        rfl
  | keyDown b => exact m.line_keyDownNotices b
  | load program => exact m.line_loadNotices program
  | loadFrom readings =>
      rw [lines_loadFrom, notices]
      cases Reading.collect readings with
      | ok program => exact m.line_loadNotices program
      | error reason => rfl
  | keyUp b => rfl
  | takeFrame => rfl
  | reset => rfl

/-- A log is made of the lines of its commands. -/
theorem log_eq_lines (cs : List Command) :
    (m.log cs).map Notice.line = m.observed lines cs := by
  induction cs generalizing m with
  | nil => rfl
  | cons c cs ih => rw [log, observed_cons, List.map_append, lines_eq_notices, ih]

/-! ## Waits -/

/-- The two lines of a wait that is over. -/
def waitLines (d : Register × Byte) : List LogLine := [.waiting d.1, .stored d.1 d.2]

theorem delivers_keyDown_of_lt {b : Byte} (hkey : b < 16) :
    m.delivers (.keyDown b) = m.waiting.map (·, b) := by
  rw [delivers, Keyboard.keyDown_of_lt _ hkey]
  rfl

theorem delivers_keyDown_of_le {b : Byte} (hbyte : 16 ≤ b) :
    m.delivers (.keyDown b) = none := by
  rw [delivers, Keyboard.keyDown_of_le _ hbyte]
  rfl

theorem delivers_eq_some_iff {m : Machine} {c : Command} {x : Register} {k : Byte} :
    m.delivers c = some (x, k) ↔ c = .keyDown k ∧ k < 16 ∧ m.waiting = some x := by
  cases c with
  | keyDown b =>
      by_cases hkey : b < 16
      · rw [m.delivers_keyDown_of_lt hkey]
        simp only [Option.map_eq_some_iff, Prod.mk.injEq, Command.keyDown.injEq]
        constructor
        · rintro ⟨y, hwaiting, rfl, rfl⟩
          exact ⟨rfl, hkey, hwaiting⟩
        · rintro ⟨rfl, -, hwaiting⟩
          exact ⟨x, hwaiting, rfl, rfl⟩
      · rw [m.delivers_keyDown_of_le (BitVec.not_lt.1 hkey)]
        constructor
        · intro h
          cases h
        · rintro ⟨hc, hlt, -⟩
          cases hc
          exact absurd hlt hkey
  | _ => simp [delivers]

/-- A load reports no wait. -/
theorem filter_lines_load (program : List Byte) :
    (m.lines (.load program)).filter LogLine.isOfWait = [] := by
  rw [lines_load]
  split <;> simp

/-- The lines of a command that are of waits: who asks by it, and who gets a key. -/
theorem filter_lines (c : Command) :
    (m.lines c).filter LogLine.isOfWait =
      (m.asks c).toList.map .waiting ++
        (m.delivers c).toList.map fun d => .stored d.1 d.2 := by
  cases c with
  | step random =>
      by_cases hpaused : m.paused = true
      · rw [lines_step_of_paused hpaused, asks_of_paused hpaused]
        rfl
      · have hrunning : m.paused = false := by simpa using hpaused
        have hasks : m.asks (.step random) = m.fetch.awaited? := by
          simp [asks, executes, hrunning]
        have hwaits : (if m.fetch.IsTransfer 0x0A then [LogLine.waiting m.fetch.x] else []) =
            m.fetch.awaited?.toList.map .waiting := by
          by_cases htransfer : m.fetch.IsTransfer 0x0A
          · have hawaited : m.fetch.awaited? = some m.fetch.x := if_pos htransfer
            rw [if_pos htransfer, hawaited]
            rfl
          · have hawaited : m.fetch.awaited? = none := if_neg htransfer
            rw [if_neg htransfer, hawaited]
            rfl
        have hdata : (if m.tracesData then [LogLine.ignoring m.fetch] else []).filter
            LogLine.isOfWait = [] := by
          split <;> simp
        have htrace : ¬ m.trace.isOfWait = true := by simp [isOfWait_trace]
        rw [lines_step_of_running hrunning, hasks, hwaits, List.filter_cons_of_neg htrace,
          List.filter_append, hdata]
        cases m.fetch.awaited? <;> simp [delivers]
  | keyDown b =>
      by_cases hkey : b < 16
      · rw [m.lines_keyDown_of_lt hkey, m.delivers_keyDown_of_lt hkey]
        cases m.waiting <;> simp [asks, executes]
      · have hbyte : 16 ≤ b := BitVec.not_lt.1 hkey
        rw [m.lines_keyDown_of_le hbyte, m.delivers_keyDown_of_le hbyte]
        simp [asks, executes]
  | load program => exact m.filter_lines_load program
  | loadFrom readings =>
      rw [lines_loadFrom]
      cases Reading.collect readings with
      | ok program => exact m.filter_lines_load program
      | error reason => rfl
  | _ => rfl

/-- **The step of the alternation.**  What is reported of waits by a command, after the
line of the wait that was open, is the wait that it ends, and then the line of the wait
that is open after it. -/
theorem waiting_filter_lines {c : Command} (hreset : c ≠ .reset) :
    m.waiting.toList.map .waiting ++ (m.lines c).filter LogLine.isOfWait =
      (m.delivers c).toList.flatMap waitLines ++ (m.after c).waiting.toList.map .waiting := by
  have hcount := congrArg (List.map LogLine.waiting) (m.waiting_asks_eq hreset)
  rw [List.map_append, List.map_append] at hcount
  rw [filter_lines, ← List.append_assoc, hcount]
  cases hdelivers : m.delivers c with
  | none => simp
  | some d =>
      obtain ⟨rfl, hkey, -⟩ := delivers_eq_some_iff.1 hdelivers
      rw [m.waiting_after_keyDown hkey]
      rfl

/-- **The lines of waits alternate.**  In a run they are those of the waits that are
over, pair by pair, and then that of the wait that is open at its end. -/
theorem waitLines_eq {cs : List Command} (hreset : .reset ∉ cs) :
    m.waiting.toList.map .waiting ++ (m.observed lines cs).filter LogLine.isOfWait =
      (m.delivered cs).flatMap waitLines ++ (m.run cs).waiting.toList.map .waiting := by
  induction cs generalizing m with
  | nil => simp [delivered]
  | cons c cs ih =>
      rw [List.mem_cons, not_or] at hreset
      have hstep := m.waiting_filter_lines (Ne.symm hreset.1)
      have htail := ih (m.after c) hreset.2
      unfold delivered at htail ⊢
      rw [observed_cons, observed_cons, run_cons, List.filter_append, List.flatMap_append,
        ← List.append_assoc, hstep, List.append_assoc, htail, List.append_assoc]

/-- A log tells the run that it is the log of. -/
structure ToldByLog (start : Machine) (cs : List Command) : Prop where
  /-- The log is made of the lines of the commands, in their order. -/
  lines : (start.log cs).map Notice.line = start.observed lines cs
  /-- The lines of waits come in pairs, one pair for each register that got a key, and
  one line more if a register still waits. -/
  alternate : ((start.log cs).map Notice.line).filter LogLine.isOfWait =
    (start.delivered cs).flatMap waitLines ++ (start.run cs).waiting.toList.map .waiting
  /-- The second line of a pair stands where its key is written to its register. -/
  written : ∀ pre c x k, pre ++ [c] <+: cs → (start.run pre).delivers c = some (x, k) →
    (start.run pre).lines c = [.stored x k] ∧ (start.run (pre ++ [c])).v[x] = k

/-- **Every run of a machine that does not wait at the start** is told by its log. -/
theorem toldByLog_of_running {start : Machine} (hrunning : start.paused = false)
    {cs : List Command} (hreset : .reset ∉ cs) : start.ToldByLog cs where
  lines := start.log_eq_lines cs
  alternate := by
    have hwaits := start.waitLines_eq hreset
    rw [paused_eq_false_iff.1 hrunning] at hwaits
    rw [log_eq_lines]
    exact hwaits
  written := by
    intro pre c x k hpre hdelivers
    obtain ⟨rfl, hkey, hwaiting⟩ := delivers_eq_some_iff.1 hdelivers
    constructor
    · rw [lines_keyDown_of_lt _ hkey, hwaiting]
      rfl
    · rw [run_append, run_cons, run_nil, (resumed_keyDown hwaiting hkey).v x]
      exact if_pos rfl

end Machine

/-- **The log tells the run.**  Whatever display and keypad a new machine takes
possession of, and whatever it is told to do without a reset, its log is this: a trace
for each word that it executes, and after it a line if the trace shows data, or if the
word is Fx0A; a warning for each byte pressed that is no key, and a line for each key
that ends a wait; a line for each program that it accepts; nothing else.  So lines of
registers that wait and lines of keys that are stored alternate, a stored key goes to
the register that the line before it named, and it is written there. -/
theorem log_tells_run {ρ : Type} (display : Display) (keyboard : Keyboard ρ)
    {cs : List Command} (hreset : .reset ∉ cs) :
    (Machine.withPeripherals display keyboard).ToldByLog cs :=
  Machine.toldByLog_of_running rfl hreset

/-- A program that waits twice and runs into data, with a byte that is no key, a key that
ends no wait and a program that does not fit. -/
theorem log_tells_run_of_two_waits :
    let keyboard : Keyboard Nat := (Keyboard.idle.keyDown 7).1.ask 77
    let cs : List Command := [.load [0xF3, 0x0A, 0xF5, 0x0A], .keyDown 1, .step 0, .step 0,
      .keyDown 0x10, .keyUp 2, .keyDown 7, .loadFrom [.failed ""], .takeFrame, .step 0,
      .keyDown 0xC, .step 0]
    let m := Machine.withPeripherals .blank keyboard
    .reset ∉ cs ∧ m.ToldByLog cs ∧ m.delivered cs = [(0x3, 7), (0x5, 0xC)] := by
  intro keyboard cs m
  have hreset : .reset ∉ cs := by simp [cs]
  exact ⟨hreset, log_tells_run .blank keyboard hreset, by decide +kernel⟩

end Chip8
