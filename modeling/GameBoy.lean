import GameBoy.Bus.Flat
import GameBoy.Bus.Monitor
import GameBoy.Bus.Program
import GameBoy.CommandLine.Program
import GameBoy.Cpu.Disassembly
import GameBoy.Main
import GameBoy.Proofs.Accounting
import GameBoy.Proofs.Accumulator
import GameBoy.Proofs.Banks
import GameBoy.Proofs.BareHandler
import GameBoy.Proofs.BinaryShifts
import GameBoy.Proofs.BoundedMemory
import GameBoy.Proofs.Branches
import GameBoy.Proofs.Catalogue
import GameBoy.Proofs.Decimal
import GameBoy.Proofs.Direct
import GameBoy.Proofs.Disassembly
import GameBoy.Proofs.EnableShadow
import GameBoy.Proofs.ExtendedPage
import GameBoy.Proofs.Failure
import GameBoy.Proofs.FirstFault
import GameBoy.Proofs.Frames
import GameBoy.Proofs.Grammar
import GameBoy.Proofs.Headers
import GameBoy.Proofs.Hooks
import GameBoy.Proofs.InterruptEnable
import GameBoy.Proofs.Limit
import GameBoy.Proofs.Lines
import GameBoy.Proofs.LowNibble
import GameBoy.Proofs.Mapped
import GameBoy.Proofs.Picture
import GameBoy.Proofs.Requests
import GameBoy.Proofs.Reset
import GameBoy.Proofs.Schedule
import GameBoy.Proofs.ShortForms
import GameBoy.Proofs.StackDiscipline
import GameBoy.Proofs.Transfers
import GameBoy.Proofs.Waiting
import GameBoy.Proofs.Words
