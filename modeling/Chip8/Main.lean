import Chip8.Host.Program
import Chip8.Host.Script
import Chip8.Noise

/-!
# The command line program

Plays a program from a file. The events of each frame are read from standard input, one line for a
frame, and each new picture goes to standard output at the pace that the settings ask for. How the
command line is read and what shows windows is up to whoever builds a program of this.
-/

namespace Chip8.Host

/-- The lines of an input up to its end. -/
partial def readLines (input : IO.FS.Stream) (lines : Array String) : IO (Array String) := do
  let line ← input.getLine
  if line.isEmpty then return lines
  readLines input (lines.push line)

/-- Prints what a session showed, at its pace. -/
def printShowing (settings : Settings) (showing : Showing) : IO Unit := do
  for report in showing.frames do
    for line in (report.shownAt verbosity).log do
      IO.eprintln (line.level.name ++ " " ++ line.text)
    if let some frame := report.texture.bind Texture.picture? then
      IO.println (frame.text ++ "\n")
    IO.sleep (.ofNat (settings.framePeriod / 1000000))

/-- Plays bytes with the events of standard input, and prints what is shown. -/
def playHere (graphics : Graphics) (settings : Settings) (program : List Byte) : IO UInt32 := do
  let script := (← readLines (← IO.getStdin) #[]).toList.map Event.ofLine
  let seed ← IO.rand 0 (2 ^ (64 : Nat) - 1)
  match settings.play graphics program (noise (.ofNat seed)) script with
  | .ok showing => printShowing settings showing; return 0
  | .error (.crashed fault) => throw (IO.userError (StartError.crashed fault).message)
  | .error e => IO.eprintln ("Error: " ++ e.message); return 1

/-- Runs the program with the arguments that follow its name. -/
def runWith (reader : CommandReader) (graphics : Graphics) (arguments : List String) :
    IO UInt32 := do
  match reader.parse Settings.declared arguments with
  | .error stop => IO.print stop.output; return .ofNat stop.exitCode
  | .ok a =>
    let settings := Settings.ofArguments a
    match ← (IO.FS.readBinFile settings.rom).toBaseIO with
    | .ok bytes => playHere graphics settings (bytes.toList.map (·.toBitVec))
    | .error e =>
      IO.eprintln ("Error: unable to read ROM " ++ settings.rom ++ ": " ++ toString e)
      return 1

end Chip8.Host
