import Chip8.Machine.Load
import Chip8.Machine.Step

/-!
# Commands

Everything that can be done to a machine from outside, as data: a run of a machine is a list of
commands. Each command has an effect, an answer and notices, all three determined by the machine
that it is given to.
-/

namespace Chip8

/-- Something done to a machine from outside. -/
inductive Command where
  /-- A step, with the random byte that it may draw. -/
  | step (random : Byte)
  /-- A key goes down. -/
  | keyDown (b : Byte)
  /-- A key goes up. -/
  | keyUp (b : Byte)
  /-- The host asks for the picture. -/
  | takeFrame
  /-- A program is loaded. -/
  | load (program : List Byte)
  /-- A program is loaded from a reader. -/
  | loadFrom (readings : List Reading)
  /-- The machine is switched off and on again; its program is gone. -/
  | reset
deriving DecidableEq

/-- What a command gives back. -/
inductive Answer where
  /-- Nothing. -/
  | done
  /-- The picture, if it changed. -/
  | picture (frame : Option Frame)
  /-- The load failed. -/
  | refused (error : LoadError)
deriving DecidableEq

namespace Machine

/-- The machine after an attempt to load a program: a failed one leaves it as it was. -/
def afterLoad (m : Machine) : Except LoadError Machine → Machine × Answer
  | .ok loaded => (loaded, .done)
  | .error e => (m, .refused e)

/-- Carries out a command. -/
def perform (m : Machine) : Command → Machine × Answer
  | .step random => (m.step random, .done)
  | .keyDown b => (m.keyDown b, .done)
  | .keyUp b => (m.keyUp b, .done)
  | .takeFrame => let (after, frame) := m.takeFrame; (after, .picture frame)
  | .load program => m.afterLoad (m.load program)
  | .loadFrom readings => m.afterLoad (m.loadFrom readings)
  | .reset => (fresh, .done)

/-- What an attempt to load reports: the size of the program if it was loaded. -/
def loadNotices (program : List Byte) : List Notice :=
  if program.length ≤ maxProgramSize then [.loaded program.length] else []

/-- What a command reports. -/
def notices (m : Machine) : Command → List Notice
  | .step _ => m.stepNotices
  | .keyDown b => m.keyDownNotices b
  | .keyUp _ | .takeFrame | .reset => []
  | .load program => loadNotices program
  | .loadFrom readings => ((Reading.collect readings).map loadNotices).toOption.getD []

/-- The machine after one command. -/
def after (m : Machine) (c : Command) : Machine := (m.perform c).1

/-- The machine after a list of commands. -/
def run (m : Machine) (cs : List Command) : Machine := cs.foldl after m

/-- All that a list of commands reports, in order. -/
def log (m : Machine) : List Command → List Notice
  | [] => []
  | c :: rest => m.notices c ++ (m.after c).log rest

/-- The answers to a list of commands, in order. -/
def answers (m : Machine) : List Command → List Answer
  | [] => []
  | c :: rest => (m.perform c).2 :: (m.after c).answers rest

end Machine

end Chip8
