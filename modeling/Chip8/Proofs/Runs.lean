import Chip8.Machine.Command
import Chip8.Proofs.Decoding

/-!
# Runs

A run is a list of commands.  It splits wherever the list splits (`run_append`),
and so does everything that an observer notes down about it from one command to
the next (`observed_append`).  The observation that matters most is which words
were executed.

The second half says what each command does to the whole machine, as one
equation; what a command leaves alone can be read off it.
-/

namespace Chip8

/-- A picture handed over is no longer news. -/
theorem Display.take_fst (d : Display) : d.take.1 = { d with changed := false } := by
  obtain ⟨frame, changed⟩ := d
  cases changed <;> rfl

namespace Machine

variable (m : Machine)

@[simp] theorem run_nil : m.run [] = m := rfl

@[simp] theorem run_cons (c : Command) (cs : List Command) :
    m.run (c :: cs) = (m.after c).run cs := rfl

@[simp] theorem run_append (cs ds : List Command) :
    m.run (cs ++ ds) = (m.run cs).run ds :=
  List.foldl_append

/-! ## Observations -/

/-- The notes that are taken over a run, if something is noted at each command
in view of the machine that it is given to. -/
def observed {α : Type} (note : Machine → Command → List α) (m : Machine) :
    List Command → List α
  | [] => []
  | c :: rest => note m c ++ (m.after c).observed note rest

section

variable {α : Type} (note : Machine → Command → List α)

@[simp] theorem observed_nil : m.observed note [] = [] := rfl

theorem observed_cons (c : Command) (cs : List Command) :
    m.observed note (c :: cs) = note m c ++ (m.after c).observed note cs := rfl

@[simp] theorem observed_singleton (c : Command) :
    m.observed note [c] = note m c :=
  List.append_nil _

/-- The notes over a run are those over its first part, then those over the rest. -/
@[simp] theorem observed_append (cs ds : List Command) :
    m.observed note (cs ++ ds) =
      m.observed note cs ++ (m.run cs).observed note ds := by
  induction cs generalizing m with
  | nil => rfl
  | cons c cs ih => simp [observed_cons, ih]

end

/-- The word that a command executes: only a step executes one, and none while
the machine waits for a key. -/
def executes (m : Machine) : Command → Option Opcode
  | .step _ => if m.paused then none else some m.fetch
  | _ => none

/-- The words executed in a run, in order. -/
def executed (m : Machine) (cs : List Command) : List Opcode :=
  m.observed (fun m c => (m.executes c).toList) cs

@[simp] theorem executed_append (cs ds : List Command) :
    m.executed (cs ++ ds) = m.executed cs ++ (m.run cs).executed ds :=
  m.observed_append _ cs ds

@[simp] theorem executed_singleton (c : Command) :
    m.executed [c] = (m.executes c).toList :=
  m.observed_singleton _ c

/-- How many of the words executed in a run are of some kind. -/
def count (p : Opcode → Bool) (m : Machine) (cs : List Command) : Nat :=
  (m.executed cs).countP p

section

variable (p : Opcode → Bool)

theorem count_append (cs ds : List Command) :
    m.count p (cs ++ ds) = m.count p cs + (m.run cs).count p ds := by
  rw [count, executed_append, List.countP_append]
  rfl

theorem count_singleton (c : Command) :
    m.count p [c] = ((m.executes c).any p).toNat := by
  rw [count, executed_singleton]
  cases m.executes c with
  | none => rfl
  | some op =>
      rw [Option.toList_some, Option.any_some, List.countP_singleton]
      cases p op <;> rfl

theorem count_cons (c : Command) (cs : List Command) :
    m.count p (c :: cs) = ((m.executes c).any p).toNat + (m.after c).count p cs := by
  rw [← List.singleton_append, count_append, count_singleton]
  rfl

end

/-! ## One command -/

/-- While the machine waits for a key, a step does nothing. -/
theorem after_step_of_paused {m : Machine} (hpaused : m.paused = true) (random : Byte) :
    m.after (.step random) = m := by
  simp [after, perform, step_eq, hpaused]

/-- Otherwise it executes the word that the program counter points at. -/
theorem after_step_of_running {m : Machine} (hrunning : m.paused = false)
    (random : Byte) :
    m.after (.step random) = m.fetch.decode.execute random m.advance := by
  simp [after, perform, step_eq, hrunning]

/-- Only a step executes a word, which is the one that the program counter points at. -/
theorem after_of_executes {m : Machine} {c : Command} {op : Opcode}
    (hop : m.executes c = some op) :
    ∃ random, c = .step random ∧ m.after c = op.decode.execute random m.advance := by
  cases c with
  | step random =>
      by_cases hpaused : m.paused = true
      · simp [executes, hpaused] at hop
      · have hrunning : m.paused = false := by simpa using hpaused
        have hfetch : m.fetch = op := by simpa [executes, hrunning] using hop
        exact ⟨random, rfl, hfetch ▸ after_step_of_running hrunning random⟩
  | _ => simp [executes] at hop

/-- A key press changes the keypad, and a register if one waits. -/
theorem after_keyDown (b : Byte) :
    m.after (.keyDown b) =
      { m with
        keyboard := (m.keyboard.keyDown b).1
        v := match (m.keyboard.keyDown b).2 with
          | some x => m.v.set x b
          | none => m.v } := by
  simp only [after, perform, keyDown]
  split <;> simp_all

/-- A key release changes the keypad. -/
theorem after_keyUp (b : Byte) :
    m.after (.keyUp b) = { m with keyboard := m.keyboard.keyUp b } :=
  rfl

/-- Handing over the picture leaves it as it is. -/
theorem after_takeFrame :
    m.after .takeFrame =
      { m with display := { m.display with changed := false } } := by
  show { m with display := m.display.take.1 } = _
  rw [Display.take_fst]

/-- Loading a program changes memory, if the program fits. -/
theorem after_load (program : List Byte) :
    m.after (.load program) =
      { m with
        memory := if program.length ≤ maxProgramSize
          then m.memory.writeFrom programStart.address program
          else m.memory } := by
  simp only [after, perform, load]
  split <;> rfl

/-- Loading from a reader is loading what it hands out, if it does so to the end. -/
theorem after_loadFrom (readings : List Reading) :
    m.after (.loadFrom readings) =
      match Reading.collect readings with
      | .ok program => m.after (.load program)
      | .error _ => m := by
  simp only [after, perform, loadFrom]
  split <;> simp_all [afterLoad]

/-- Loading touches memory only. -/
theorem after_loadFrom_eq (readings : List Reading) :
    m.after (.loadFrom readings) =
      { m with memory := (m.after (.loadFrom readings)).memory } := by
  rw [after_loadFrom]
  split
  · rw [after_load]
  · rfl

/-- A command that executes no word reaches neither the counters nor the timers
nor the ring of return addresses. -/
theorem after_of_executes_none {m : Machine} {c : Command} (hreset : c ≠ .reset)
    (hnone : m.executes c = none) :
    m.after c =
      { m with
        v := (m.after c).v
        memory := (m.after c).memory
        display := (m.after c).display
        keyboard := (m.after c).keyboard } := by
  cases c with
  | step random =>
      have hpaused : m.paused = true := by simpa [executes] using hnone
      rw [after_step_of_paused hpaused]
  | keyDown b => rw [after_keyDown]
  | keyUp b => rw [after_keyUp]
  | takeFrame => rw [after_takeFrame]
  | load program => rw [after_load]
  | loadFrom readings => rw [after_loadFrom_eq]
  | reset => exact absurd rfl hreset

end Machine

end Chip8
