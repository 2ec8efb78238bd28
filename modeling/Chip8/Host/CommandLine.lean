import Chip8.Host.Settings

/-!
# The command line

The command line names the program to play, and may set three numbers. What it declares stands
here: how each of the options is written, which numbers it takes, and what holds when it is left
out.

Texts are not read here. That is done by a reader of command lines, which is told what is declared
and looks at the arguments one after the other, from the left. It ends with a value for everything
that is declared, or with a reason to stop.
-/

namespace Chip8.Host

/-- An option that sets a number, as a command line declares it. -/
structure NumberOption where
  /-- The letter of the option, written after one dash. -/
  letter : Char
  /-- The name of the option, written after two dashes. -/
  name : String
  /-- The least number that it takes. -/
  least : Nat
  /-- What holds when it is left out. -/
  standard : Count
deriving DecidableEq

namespace NumberOption

/-- The option by its letter. -/
def flag (o : NumberOption) : String := String.ofList ['-', o.letter]

/-- The option by its name. -/
def longFlag (o : NumberOption) : String := "--" ++ o.name

end NumberOption

/-- A command line as it is understood. -/
structure Arguments where
  /-- The name of the program. -/
  rom : String
  /-- The number of each option. -/
  count : NumberOption → Count

/-- Why nothing is to be played: the command line is refused, or it asks for a text. -/
structure Stop where
  /-- What is printed. -/
  output : String
  /-- The exit code. -/
  exitCode : Nat
deriving DecidableEq

/-- A reader of command lines. -/
structure CommandReader where
  /-- What the reader remembers between two arguments. -/
  State : Type
  /-- What it remembers at first: the options that are declared. -/
  start : List NumberOption → State
  /-- Looks at the next argument. -/
  read : State → String → Except Stop State
  /-- Ends after the last argument. -/
  finish : State → Except Stop Arguments
  /-- The number that a text stands for, if an option with some least number takes it. -/
  number? : Nat → String → Option Count
  /-- The name that a text stands for, if it can be the name of a file. -/
  path? : String → Option String

/-- Reads a command line with some options from left to right. -/
def CommandReader.parse (reader : CommandReader) (declared : List NumberOption)
    (arguments : List String) : Except Stop Arguments := do
  let last ← arguments.foldlM reader.read (reader.start declared)
  reader.finish last

namespace Settings

/-- The option for the frames in a second. -/
def frameRateOption : NumberOption where
  letter := 'f'
  name := "frame-rate"
  least := 1
  standard := .ofNat 32 Machine.timerFrequency

/-- The option for the steps in a frame. -/
def stepsPerFrameOption : NumberOption where
  letter := 'n'
  name := "steps-per-frame"
  least := 0
  standard := 1

/-- The option for the scale. -/
def scaleOption : NumberOption where
  letter := 's'
  name := "scale"
  least := 1
  standard := 10

/-- The options of the program. -/
def declared : List NumberOption := [frameRateOption, stepsPerFrameOption, scaleOption]

/-- The settings that a command line asks for. -/
def ofArguments (a : Arguments) : Settings where
  rom := a.rom
  frameRate := a.count frameRateOption
  stepsPerFrame := a.count stepsPerFrameOption
  scale := a.count scaleOption

end Settings

end Chip8.Host
