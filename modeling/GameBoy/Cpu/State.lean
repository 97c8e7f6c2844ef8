import GameBoy.Cpu.Fault
import GameBoy.Cpu.Instruction

/-!
# The processor's state

The registers, the interrupt enable with the two latches that delay it, the counters, the fault
that stopped the processor, and the hook that watches it. Resetting keeps only what belongs to the
observer: the step limit and the hook.
-/

namespace GameBoy

/-- What watches each executed instruction. -/
inductive Hook where
  /-- Report a line of trace. -/
  | trace
  /-- Keep a record. -/
  | record
  deriving DecidableEq, Repr

/-- The state of the processor. -/
structure Cpu where
  /-- The registers. -/
  regs : Registers
  /-- Whether interrupts are enabled. -/
  ime : Bool
  /-- Whether the processor waits for an interrupt. -/
  halted : Bool
  /-- Enabling was asked for by the instruction that is ending. -/
  enablePending : Bool
  /-- Enabling takes effect when the running instruction ends. -/
  enableArmed : Bool
  /-- The cycles spent since the power came on. They are taken not to pass 2^64, where a counter of
  64 bits would end. -/
  cycles : Nat
  /-- The instructions executed since the power came on, taken not to pass 2^64 either. -/
  instructions : Nat
  /-- The steps spent waiting since the power came on, taken not to pass 2^64 either. -/
  idleSteps : Nat
  /-- How many instructions and idle steps may be made in all. -/
  limit : Option Nat
  /-- The first fault; once there is one, nothing more happens. -/
  fault : Option Fault
  /-- The instruction that was decoded last. -/
  current : Option Instruction
  /-- What watches the processor. -/
  hook : Option Hook

namespace Cpu

/-- The processor when the power comes on: it starts at address zero with all registers zero. -/
def powerOn : Cpu where
  regs := .powerOn
  ime := false
  halted := false
  enablePending := false
  enableArmed := false
  cycles := 0
  instructions := 0
  idleSteps := 0
  limit := none
  fault := none
  current := none
  hook := none

/-- The processor as the boot program leaves it. -/
def booted : Cpu := { powerOn with regs := .booted }

/-- Switch the power off and on. The limit and the hook stay. -/
def resetPowerOn (cpu : Cpu) : Cpu := { powerOn with limit := cpu.limit, hook := cpu.hook }

/-- Go back to the state in which the boot program leaves the processor. The limit and the hook
stay. -/
def reset (cpu : Cpu) : Cpu := { cpu.resetPowerOn with regs := .booted }

/-- Whether a step would do anything. -/
def isRunning (cpu : Cpu) : Bool := cpu.fault.isNone

/-- The steps that count toward the limit. -/
@[inline] def countedSteps (cpu : Cpu) : Nat := cpu.instructions + cpu.idleSteps

/-- The flags. -/
@[inline] def flags (cpu : Cpu) : Flags := cpu.regs.flags

/-- Store all four flags. -/
@[inline] def setFlags (cpu : Cpu) (flags : Flags) : Cpu :=
  { cpu with regs := cpu.regs.setFlags flags }

/-- Enabling interrupts takes effect one instruction after the one that asks for it: a request moves
on by one stage whenever an instruction ends. -/
@[inline] def advanceEnable (cpu : Cpu) : Cpu :=
  if cpu.enableArmed then { cpu with ime := true, enableArmed := false }
  else if cpu.enablePending then { cpu with enablePending := false, enableArmed := true }
  else cpu

end Cpu

end GameBoy
