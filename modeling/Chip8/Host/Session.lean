import Chip8.Host.Event
import Chip8.Host.Texture
import Chip8.Machine.Command

/-!
# Sessions

A session plays a machine in a window. Time passes in frames: in each the session first hears all
events that have come up, then steps the machine a fixed number of times unless it is suspended,
then uploads the picture if it changed, and last says whether a tone starts or stops. An event that
ends the program ends its frame on the spot: nothing after it is heard or done.

What the outside world decides is an argument: the events of each frame, a supply of random bytes
of which the `k`-th step of the session draws the `k`-th, and a supply of textures of which a
picture that is uploaded after `k` steps gets the `k`-th.
-/

namespace Chip8.Host

/-- A line of a session's log. -/
inductive Record where
  /-- The machine reports something. -/
  | machine (notice : Notice)
  /-- The machine is no longer stepped. -/
  | suspended
  /-- The machine is stepped again. -/
  | resumed
  /-- A tone starts. -/
  | toneOn
  /-- The tone stops. -/
  | toneOff
deriving DecidableEq

namespace Record

/-- How much a line matters. -/
def level : Record → Level
  | .machine notice => notice.level
  | .suspended | .resumed => .info
  | .toneOn | .toneOff => .debug

/-- The line that a log shows. -/
def text : Record → String
  | .machine notice => notice.text
  | .suspended => "Suspended"
  | .resumed => "Resumed"
  | .toneOn => "Tone on"
  | .toneOff => "Tone off"

/-- Whether the machine reported the line, and not the session itself. -/
def ofMachine : Record → Bool
  | .machine _ => true
  | _ => false

end Record

/-- A machine that is played, and what the player has to remember. -/
structure Session where
  /-- The machine that is played. -/
  machine : Machine
  /-- Whether the machine is not stepped. -/
  suspended : Bool
  /-- Whether a tone sounds. -/
  beeping : Bool
  /-- How many steps the session took: the place of the next random byte in the supply. -/
  cycles : Nat
  /-- The lines that belong to the next report. -/
  log : Array Record
  /-- The textures for the pictures, by the number of steps taken. -/
  canvas : Nat → Canvas

/-- What a frame showed. -/
structure Report where
  /-- The lines logged, in order. -/
  log : List Record
  /-- The texture shown, if the picture changed. -/
  texture : Option Texture
deriving DecidableEq

namespace Session

/-- A session with a machine that was just switched on and into which a program was loaded. -/
def start (canvas : Nat → Canvas) (program : List Byte) : Except LoadError Session :=
  (Machine.fresh.load program).map fun machine =>
    { machine
      suspended := false
      beeping := false
      cycles := 0
      log := ((Machine.loadNotices program).map Record.machine).toArray
      canvas }

/-- Adds a line to the log. -/
def note (s : Session) (r : Record) : Session := { s with log := s.log.push r }

/-- Gives the machine a command, and adds what it reports to the log. -/
def command (s : Session) (c : Command) : Session :=
  { s with
    machine := s.machine.after c
    log := s.log ++ ((s.machine.notices c).map Record.machine).toArray }

/-- Suspends the machine or resumes it. -/
def toggle (s : Session) : Session :=
  { s with suspended := !s.suspended }.note (if s.suspended then .resumed else .suspended)

/-- Hears an event. Repeated presses, keys without a meaning and other events do nothing. -/
def hear (s : Session) : Event → Session
  | .keyDown (some key) false =>
    match key.keypad? with
    | some k => s.command (.keyDown k.toByte)
    | none => if key = .space then s.toggle else s
  | .keyUp (some key) =>
    match key.keypad? with
    | some k => s.command (.keyUp k.toByte)
    | none => s
  | _ => s

/-- Steps the machine `n` times. -/
def steps (random : Nat → Byte) : Nat → Session → Session
  | 0, s => s
  | n + 1, s =>
    steps random n { s.command (.step (random s.cycles)) with cycles := s.cycles + 1 }

/-- Steps the machine `n` times unless it is suspended. -/
def advance (random : Nat → Byte) (n : Nat) (s : Session) : Session :=
  if s.suspended then s else s.steps random n

/-- Takes the picture from the machine if it changed, and uploads it. -/
def render (s : Session) : Session × Option Texture :=
  (s.command .takeFrame, s.machine.takeFrame.2.bind (s.canvas s.cycles).upload?)

/-- Says whether a tone starts or stops. -/
def soundTone (s : Session) : Session :=
  if s.machine.sounding = s.beeping then s
  else { s with beeping := !s.beeping }.note (if s.beeping then .toneOff else .toneOn)

/-- Ends a frame: its lines go into its report. -/
def report (s : Session) (texture : Option Texture) : Session × Report :=
  ({ s with log := #[] }, ⟨s.log.toList, texture⟩)

/-- Plays one frame with `n` steps, in which some events come up. -/
def frame (random : Nat → Byte) (n : Nat) (events : List Event) (s : Session) :
    Session × Report :=
  let heard := (events.takeWhile (!·.ends)).foldl hear s
  if events.any (·.ends) then heard.report none
  else
    let (shown, texture) := (heard.advance random n).render
    shown.soundTone.report texture

/-- Plays a script that has the events of each frame, and that closes the window in the frame after
its last. Gives the session at the end and a report of each frame begun. -/
def play (random : Nat → Byte) (n : Nat) : List (List Event) → Session → Session × List Report
  | [], s =>
    let (s, r) := s.frame random n [.quit]
    (s, [r])
  | events :: rest, s =>
    let (s, r) := s.frame random n events
    if events.any (·.ends) then (s, [r])
    else
      let (s, rs) := s.play random n rest
      (s, r :: rs)

end Session

end Chip8.Host
