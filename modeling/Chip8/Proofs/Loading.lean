import Chip8.Host.Program
import Chip8.Machine.Command
import Mathlib.Data.List.GetD

/-!
# Programs load as a whole or not at all

A reader is a list of answers.  The first of them that hands out no byte ends it, well or
with a failure (`Reading.failure?`), and what was handed out before is what it contains
(`Reading.contents`); interruptions and the sizes of the pieces leave no trace
(`collect_eq`).

A program that fits is copied to where execution starts, and nothing else of the machine
differs (`loaded_load`); a program that does not fit and a reader that fails leave the
machine as it is.  A program that comes from a file is taken or rejected for the same
reason and is copied to the same place.  `programs_load_whole` has all of this.
-/

namespace Chip8

/-! ## Readers -/

namespace Reading

/-- Whether one reads on after an answer: it hands out bytes, or is interrupted. -/
def goesOn : Reading → Bool
  | .bytes chunk => !chunk.isEmpty
  | .interrupted => true
  | .failed _ => false

/-- The bytes that an answer hands out. -/
def chunk : Reading → List Byte
  | .bytes chunk => chunk
  | .interrupted | .failed _ => []

/-- The failure that comes before the end, if one does. -/
def failure? (readings : List Reading) : Option String :=
  match readings.find? (!·.goesOn) with
  | some (.failed reason) => some reason
  | _ => none

/-- All that is handed out before the end. -/
def contents (readings : List Reading) : List Byte :=
  (readings.takeWhile goesOn).flatMap chunk

/-- **Collecting gives the contents**, unless a failure comes before the end. -/
theorem collect_eq (readings : List Reading) :
    collect readings =
      match failure? readings with
      | some reason => .error reason
      | none => .ok (contents readings) := by
  induction readings with
  | nil => rfl
  | cons r rest ih =>
      cases r with
      | interrupted => exact ih
      | failed reason => rfl
      | bytes chunk =>
          cases chunk with
          | nil => rfl
          | cons b chunk =>
              have hcollect : collect (.bytes (b :: chunk) :: rest) =
                  (collect rest).map ((b :: chunk) ++ ·) := rfl
              have hfailure : failure? (.bytes (b :: chunk) :: rest) = failure? rest := rfl
              have hcontents : contents (.bytes (b :: chunk) :: rest) =
                  (b :: chunk) ++ contents rest := rfl
              rw [hcollect, ih, hfailure, hcontents]
              cases failure? rest <;> rfl

end Reading

/-! ## Memory -/

namespace Machine

/-- A machine after a program was copied into its memory. -/
structure Loaded (m : Machine) (program : List Byte) (after : Machine) : Prop where
  /-- The byte `j` places after 0x200 is byte `j` of the program. -/
  copied : ∀ j (hj : j < program.length),
    after.memory[BitVec.ofNat 12 (0x200 + j)] = program[j]
  /-- Every other byte is as it was, also where a longer program was before. -/
  others : ∀ a : Address, a.toNat < 0x200 ∨ 0x200 + program.length ≤ a.toNat →
    after.memory[a] = m.memory[a]
  /-- Nothing but memory differs. -/
  rest : after = { m with memory := after.memory }

variable (m : Machine) {program : List Byte}

theorem load_of_le (hfits : program.length ≤ maxProgramSize) :
    m.load program =
      .ok { m with memory := m.memory.writeFrom programStart.address program } :=
  if_pos hfits

theorem load_of_lt (hlarge : maxProgramSize < program.length) :
    m.load program = .error (.tooLarge program.length) :=
  if_neg (Nat.not_le.2 hlarge)

/-- Loading from a reader is loading its contents, unless it fails before its end. -/
theorem loadFrom_eq (readings : List Reading) :
    m.loadFrom readings =
      match Reading.failure? readings with
      | some reason => .error (.unreadable reason)
      | none => m.load (Reading.contents readings) := by
  rw [loadFrom, Reading.collect_eq]
  cases Reading.failure? readings <;> rfl

theorem toNat_start : programStart.address.toNat = 0x200 := rfl

/-- Writing from 0x200 on does not get past the end of memory if the program fits. -/
theorem loaded_load (hfits : program.length ≤ maxProgramSize) :
    m.Loaded program
      { m with memory := m.memory.writeFrom programStart.address program } := by
  have hmax : maxProgramSize = 3584 := rfl
  have hstart := toNat_start
  constructor
  case copied =>
    intro j hj
    have hoffset : (BitVec.ofNat 12 (0x200 + j) - programStart.address).toNat = j := by
      bv_omega
    show (m.memory.writeFrom _ program)[_] = _
    rw [Bank.getElem_writeFrom _ _ _ _ (by omega), hoffset, List.getD_eq_getElem _ _ hj]
  case others =>
    intro a ha
    have hend : program.length ≤ (a - programStart.address).toNat := by bv_omega
    exact Bank.getElem_writeFrom_of_le _ (by omega) hend
  case rest => rfl

/-- How a machine takes programs, whatever its state: as a whole or not at all. -/
structure LoadsWhole (m : Machine) : Prop where
  /-- A reader that fails before its end leaves the machine as it is. -/
  failing : ∀ readings reason, Reading.failure? readings = some reason →
    m.perform (.loadFrom readings) = (m, .refused (.unreadable reason))
  /-- Any other reader does what its contents do at once, and is answered the same. -/
  reading : ∀ readings, Reading.failure? readings = none →
    m.perform (.loadFrom readings) = m.perform (.load (Reading.contents readings))
  /-- A program that does not fit leaves the machine as it is. -/
  large : ∀ program : List Byte, maxProgramSize < program.length →
    m.perform (.load program) = (m, .refused (.tooLarge program.length))
  /-- A program that fits is copied. -/
  fitting : ∀ program : List Byte, program.length ≤ maxProgramSize →
    ∃ after, m.perform (.load program) = (after, .done) ∧ m.Loaded program after

theorem loadsWhole : m.LoadsWhole where
  failing := by
    intro readings reason hfailure
    show m.afterLoad (m.loadFrom readings) = _
    rw [loadFrom_eq, hfailure]
    rfl
  reading := by
    intro readings hfailure
    show m.afterLoad (m.loadFrom readings) = m.afterLoad (m.load _)
    rw [loadFrom_eq, hfailure]
  large := by
    intro program hlarge
    show m.afterLoad (m.load program) = _
    rw [m.load_of_lt hlarge]
    rfl
  fitting := by
    intro program hfits
    refine ⟨_, ?_, m.loaded_load hfits⟩
    show m.afterLoad (m.load program) = _
    rw [m.load_of_le hfits]
    rfl

end Machine

/-! ## Files -/

namespace Host

/-- What becomes of the bytes in the file that the settings name. -/
structure Settings.TakesFile (s : Settings) (storage : Storage) (program : List Byte) :
    Prop where
  /-- If they do not fit, they are rejected as a machine rejects them. -/
  large : Machine.maxProgramSize < program.length → ∀ graphics random script,
    s.playFile graphics storage random script = .error (.rejected (.tooLarge program.length))
  /-- If they fit, a machine that was just switched on has them copied into its memory
  and is played, if there is a window to play in. -/
  fitting : program.length ≤ Machine.maxProgramSize → ∀ graphics : Graphics,
    ∃ session, Session.start graphics.canvas program = .ok session ∧
      Machine.fresh.Loaded program session.machine ∧
      ∀ random script, s.playFile graphics storage random script =
        (s.openWindow graphics).map fun window =>
          ⟨window, (session.play random s.stepsPerFrame.toNat script).2⟩

theorem Settings.takesFile {s : Settings} {storage : Storage} {program : List Byte}
    (hread : storage.read s.rom = .ok program) : s.TakesFile storage program where
  large := by
    intro hlarge graphics random script
    rw [playFile, hread]
    show s.play graphics program random script = _
    rw [play, Session.start, Machine.load_of_lt _ hlarge]
    rfl
  fitting := by
    intro hfits graphics
    have hload := Machine.fresh.load_of_le hfits
    refine ⟨_, by rw [Session.start, hload]; rfl, Machine.fresh.loaded_load hfits, ?_⟩
    intro random script
    rw [playFile, hread]
    show s.play graphics program random script = _
    rw [play, Session.start, hload]
    show (s.openWindow graphics).bind _ = _
    cases s.openWindow graphics with
    | error e => rfl
    | ok window => rfl

end Host

/-- **Programs load as a whole or not at all.**  In every state, also while it waits for
a key, a machine takes what a reader contains however the reader hands it out, or stays
as it is; and a file is taken or rejected, and copied into memory, in the same way. -/
theorem programs_load_whole (m : Machine) :
    m.LoadsWhole ∧
      ∀ (settings : Host.Settings) (storage : Host.Storage) (program : List Byte),
        storage.read settings.rom = .ok program → settings.TakesFile storage program :=
  ⟨m.loadsWhole, fun _ _ _ hread => Host.Settings.takesFile hread⟩

/-- A machine that waits for a key takes three bytes from a reader that is interrupted
and that would fail only after its end, and keeps the bytes after them. -/
theorem programs_load_whole_while_waiting :
    let m : Machine := { Machine.fresh with
      memory := .fill 0xFF
      keyboard := Machine.fresh.keyboard.ask 3 }
    let readings : List Reading :=
      [.bytes [0x12], .interrupted, .bytes [0x34, 0x56], .bytes [], .failed "late"]
    m.paused = true ∧ Reading.failure? readings = none ∧
      m.perform (.loadFrom readings) = m.perform (.load [0x12, 0x34, 0x56]) ∧
      (m.after (.load [0x12, 0x34, 0x56])).memory[0x202#12] = 0x56 ∧
      (m.after (.load [0x12, 0x34, 0x56])).memory[0x203#12] = 0xFF := by
  intro m readings
  have hwhole := (programs_load_whole m).1
  obtain ⟨after, hperform, hloaded⟩ := hwhole.fitting [0x12, 0x34, 0x56] (by decide)
  have hafter : m.after (.load [0x12, 0x34, 0x56]) = after := congrArg Prod.fst hperform
  refine ⟨rfl, rfl, hwhole.reading readings rfl, ?_, ?_⟩
  · rw [hafter]
    exact hloaded.copied 2 (by decide)
  · rw [hafter, hloaded.others 0x203#12 (Or.inr (by decide))]
    exact Bank.getElem_fill _ _

end Chip8
