import GameBoy.Cpu.Step
import GameBoy.Memory

/-!
# The console

The whole console: a processor on the console's memory. With a boot program it starts as it is when
the power comes on; without one it starts in the state that a boot program would have left.
-/

namespace GameBoy

/-- How a console is set up. -/
structure Config where
  /-- The boot program. -/
  bootRom : Option ByteArray
  /-- How many instructions and idle steps may be made. -/
  stepLimit : Option Nat
  /-- Whether each instruction leaves a line of trace. -/
  trace : Bool

/-- Why a console cannot be set up. -/
inductive BuildError where
  /-- The image is no cartridge. -/
  | cartridge (error : CartridgeError)
  /-- The boot program does not have the right size. -/
  | badBootRom (size : Nat)
  deriving DecidableEq, Repr

/-- What an error says. -/
def BuildError.message : BuildError → String
  | cartridge error => s!"failed to load cartridge: {error.message}"
  | badBootRom size => s!"boot ROM must be exactly {bootRomSize} bytes, got {size}"

/-- A processor on the console's memory. -/
abbrev Console := Machine Memory

namespace Console

/-! ## Setting up -/

/-- The boot program as a block of the right size. -/
def bootImage (bytes : ByteArray) : Except BuildError (Vector UInt8 bootRomSize) :=
  if h : bytes.data.size = bootRomSize then .ok ⟨bytes.data, h⟩
  else .error (.badBootRom bytes.data.size)

/-- The boot program of a configuration, if it has one. -/
def bootImage? (config : Config) : Except BuildError (Option (Vector UInt8 bootRomSize)) :=
  match config.bootRom with
  | none => .ok none
  | some bytes => (bootImage bytes).map some

/-- The processor of a console before its first step. -/
def startCpu (config : Config) (hasBoot : Bool) : Cpu :=
  { (if hasBoot then Cpu.powerOn else Cpu.booted) with
    limit := config.stepLimit
    hook := if config.trace then some .trace else none }

/-- A console with a cartridge, or with none. -/
def build (cartridge : Option Cartridge) (config : Config) : Except BuildError Console := do
  let bootRom ← bootImage? config
  return Machine.start (startCpu config bootRom.isSome) (Memory.start cartridge bootRom)

/-- A console with the cartridge of an image. The notices of loading it are added to the journal,
whether the console can be set up or not. -/
def ofRom (rom : ByteArray) (config : Config) : EStateM BuildError Journal Console := do
  match Cartridge.load rom with
  | .error e => throw (.cartridge e)
  | .ok cartridge =>
    modify fun journal => journal.appendList cartridge.loadNotices
    match build (some cartridge) config with
    | .error e => throw e
    | .ok console => return console

/-! ## Running -/

/-- Run until the boot program takes itself away, for at most `fuel` steps. -/
def runBoot (fuel : Nat) (console : Console) : Option (Except Fault Unit) × Console :=
  Machine.runUntil (fun s => !s.bus.bootActive) fuel console

/-- The most steps that a frame can take: each takes at least four cycles. -/
def frameSteps : Nat := cyclesPerFrame / 4

/-- Run for the cycles of a frame; the last step may go beyond. The result is the number of cycles
spent, and is absent if the frame has not ended after all the steps that it can take. -/
def frame (console : Console) : Option (Except Fault Nat) × Console :=
  let start := console.cpu.cycles
  let isOver (s : Console) : Bool := s.cpu.cycles - start ≥ cyclesPerFrame
  let last := Machine.stepUntil (fun s => isOver s || s.hasStopped) frameSteps console
  if isOver last then (some (.ok (last.cpu.cycles - start)), last)
  else (last.cpu.fault.map .error, last)

end Console

end GameBoy
