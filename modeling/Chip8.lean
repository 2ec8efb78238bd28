import Chip8.Bank
import Chip8.Display
import Chip8.Font
import Chip8.Guarded.Access
import Chip8.Guarded.Machine
import Chip8.Guarded.Run
import Chip8.Hex
import Chip8.Host.CommandLine
import Chip8.Host.Event
import Chip8.Host.Program
import Chip8.Host.Script
import Chip8.Host.Session
import Chip8.Host.Settings
import Chip8.Host.Storage
import Chip8.Host.Texture
import Chip8.Instruction
import Chip8.Instruction.Text
import Chip8.Keyboard
import Chip8.Machine
import Chip8.Machine.Command
import Chip8.Machine.Execute
import Chip8.Machine.Load
import Chip8.Machine.Step
import Chip8.Main
import Chip8.Noise
import Chip8.Notice
import Chip8.Opcode
import Chip8.Opcode.Text
import Chip8.Operation
import Chip8.Peripherals
import Chip8.Proofs.Aliasing
import Chip8.Proofs.CallStack
import Chip8.Proofs.CommandReading
import Chip8.Proofs.Decoding
import Chip8.Proofs.Effect
import Chip8.Proofs.GuardedLoops
import Chip8.Proofs.KeyWait
import Chip8.Proofs.LaidOut
import Chip8.Proofs.Layout
import Chip8.Proofs.NoFault
import Chip8.Proofs.PlainReader
import Chip8.Proofs.Rounds
import Chip8.Proofs.Runs
import Chip8.Word
import Chip8.Proofs.Footprint
import Chip8.Proofs.Assembly
import Chip8.Proofs.Playing
import Chip8.Proofs.ShownPicture
import Chip8.Proofs.News
import Chip8.Proofs.Frames
import Chip8.Proofs.Upload
import Chip8.Proofs.Mirror
import Chip8.Proofs.Suspension
import Chip8.Proofs.Batching
import Chip8.Proofs.IdleEvents
import Chip8.Proofs.Timers
import Chip8.Proofs.Alike
import Chip8.Proofs.Unseen
import Chip8.Proofs.Sprites
import Chip8.Proofs.Arithmetic
import Chip8.Proofs.Glyphs
import Chip8.Proofs.LogLines
import Chip8.Proofs.PixelParity
import Chip8.Proofs.SpriteOrder
import Chip8.Proofs.Loading
import Chip8.Proofs.StartUp
import Chip8.Proofs.Transfers
import Chip8.Proofs.SlotZero
import Chip8.Proofs.KeyHistory
import Chip8.Proofs.TraceColumns
import Chip8.Proofs.TextureBytes
import Chip8.Proofs.WrittenLines
