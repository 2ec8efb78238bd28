import Chip8.Host.CommandLine
import Chip8.Host.Session
import Chip8.Host.Storage

/-!
# The program

From the command line to the exit code: the settings are read, the file is loaded, a window is
opened, and a session is played in it. All that the outside world has a say in is an argument: the
reader of the command line, the stored files, the graphics system, the random bytes and the events.
-/

namespace Chip8.Host

/-- A system that shows pictures in windows. -/
structure Graphics where
  /-- Why nothing can be shown at all, if that is so. -/
  unavailable : Option String
  /-- Why a window cannot be opened, if that is so. -/
  refusal : Window → Option String
  /-- The textures for the pictures, by the number of steps taken. -/
  canvas : Nat → Canvas

/-- Why a session cannot start. -/
inductive StartError where
  /-- The file cannot be read. -/
  | unreadable (path : String) (cause : FileError)
  /-- The machine does not take the program. -/
  | rejected (error : LoadError)
  /-- There is no window to play in. -/
  | noWindow (reason : String)
  /-- The measures of the window cannot be computed. This is no error that the program returns:
  it ends on the spot. -/
  | crashed (fault : Guarded.Fault)
deriving DecidableEq

namespace StartError

/-- The message for a session that cannot start. -/
def message : StartError → String
  | .unreadable path _ => "unable to read ROM " ++ path
  | .rejected e => e.message
  | .noWindow reason => reason
  | .crashed _ => "attempt to multiply with overflow"

/-- The messages of what lies behind an error, the nearest cause first. -/
def causes : StartError → List String
  | .unreadable _ cause => [cause.message]
  | .rejected (.unreadable reason) => [reason]
  | .rejected (.tooLarge _) | .noWindow _ | .crashed _ => []

end StartError

/-- What a session showed. -/
structure Showing where
  /-- The window it was shown in. -/
  window : Window
  /-- Each frame begun. -/
  frames : List Report
deriving DecidableEq

/-- Opens the window that the settings ask for. -/
def Settings.openWindow (s : Settings) (graphics : Graphics) : Except StartError Window :=
  match graphics.unavailable with
  | some reason => .error (.noWindow reason)
  | none =>
    match Window.ofScale s.scale with
    | .error fault => .error (.crashed fault)
    | .ok window =>
      match graphics.refusal window with
      | some reason => .error (.noWindow reason)
      | none => .ok window

/-- Loads bytes and plays them in a window. -/
def Settings.play (s : Settings) (graphics : Graphics) (program : List Byte)
    (random : Nat → Byte) (script : List (List Event)) : Except StartError Showing := do
  let session ← (Session.start graphics.canvas program).mapError .rejected
  let window ← s.openWindow graphics
  return ⟨window, (session.play random s.stepsPerFrame.toNat script).2⟩

/-- Reads the file that the settings name and plays it. -/
def Settings.playFile (s : Settings) (graphics : Graphics) (storage : Storage)
    (random : Nat → Byte) (script : List (List Event)) : Except StartError Showing :=
  match storage.read s.rom with
  | .error cause => .error (.unreadable s.rom cause)
  | .ok program => s.play graphics program random script

/-- How a run of the program ends. -/
inductive Outcome where
  /-- The reader of the command line ended it. -/
  | stopped (stop : Stop)
  /-- The session could not start. -/
  | failed (error : StartError)
  /-- The session was played to its end. -/
  | finished (showing : Showing)
deriving DecidableEq

namespace Outcome

/-- The exit code, if the program comes as far as to give one. -/
def exitCode : Outcome → Option Nat
  | .stopped stop => some stop.exitCode
  | .failed (.crashed _) => none
  | .failed _ => some 1
  | .finished _ => some 0

end Outcome

/-- Up to which level the program shows its log: errors only. -/
def verbosity : Level := .error

/-- A report with the lines that are shown up to some level. -/
def Report.shownAt (threshold : Level) (r : Report) : Report :=
  { r with log := r.log.filter (·.level.shownAt threshold) }

/-- A run of the program with the given arguments. -/
def launch (reader : CommandReader) (graphics : Graphics) (storage : Storage)
    (random : Nat → Byte) (script : List (List Event)) (arguments : List String) : Outcome :=
  match reader.parse Settings.declared arguments with
  | .error stop => .stopped stop
  | .ok a =>
    match (Settings.ofArguments a).playFile graphics storage random script with
    | .error e => .failed e
    | .ok showing =>
      .finished { showing with frames := showing.frames.map (·.shownAt verbosity) }

end Chip8.Host
