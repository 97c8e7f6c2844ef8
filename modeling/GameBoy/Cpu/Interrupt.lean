import GameBoy.Cpu.Report

/-!
# Interrupts

Five lines can interrupt the processor. The lowest-numbered line that is requested and enabled is
served first. A pending line always ends the wait of a halted processor, but it is served only if
interrupts are enabled; serving it disables them, withdraws the request, pushes the program counter
and continues at the line's own address.
-/

namespace GameBoy

/-- An interrupt line. -/
inductive Interrupt where
  | vblank
  | stat
  | timer
  | serial
  | joypad
  deriving DecidableEq, Repr

namespace Interrupt

/-- The lines from the highest priority to the lowest. -/
def all : List Interrupt := [vblank, stat, timer, serial, joypad]

/-- The bit of a line in the interrupt registers. -/
def line : Interrupt → Fin 8
  | vblank => ⟨0, by decide⟩
  | stat => ⟨1, by decide⟩
  | timer => ⟨2, by decide⟩
  | serial => ⟨3, by decide⟩
  | joypad => ⟨4, by decide⟩

/-- The name of a line. -/
def name : Interrupt → String
  | vblank => "VBlank"
  | stat => "STAT"
  | timer => "Timer"
  | serial => "Serial"
  | joypad => "Joypad"

/-- The address at which a line is served. -/
def vector (i : Interrupt) : UInt16 := 0x40 + 8 * i.line.val.toUInt16

/-- The line to serve among those pending; bits above the fifth do not count. -/
def first? (pending : UInt8) : Option Interrupt := all.find? fun i => Byte.testBit pending i.line

/-- The cycles that serving an interrupt takes. -/
def serviceCycles : Nat := 20

/-- The notice of an interrupt that was served at `pc`, with the stack pointer afterwards. -/
def notice (i : Interrupt) (pc sp : UInt16) : Notice :=
  ⟨.debug, s!"interrupt {i.line.val} ({i.name}): vector=0x{Text.hexWord i.vector} " ++
    s!"pc=0x{Text.hexWord pc} sp=0x{Text.hexWord sp}"⟩

end Interrupt

namespace Exec

variable {β : Type} [Bus β]

/-- The interrupt lines that are requested and enabled. -/
@[inline] def pending : Exec β UInt8 := fun s => .ok (Bus.pending s.bus) s

/-- Withdraw the request of a line. -/
@[inline] def acknowledge (line : Fin 8) : Exec β Unit := fun ⟨cpu, bus, journal, records⟩ =>
  .ok () ⟨cpu, Bus.acknowledge bus line, journal, records⟩

/-- Serve an interrupt: the program counter is pushed and the line's address takes its place. -/
def serve (i : Interrupt) : Exec β Unit := do
  let pc := (← getRegs).pc
  modifyCpu ({ · with ime := false })
  acknowledge i.line
  push pc
  modifyRegs ({ · with pc := i.vector })
  note (i.notice pc (← getRegs).sp)

/-- Serve the first pending interrupt, if interrupts are enabled. The result is the line served. -/
def serveInterrupt : Exec β (Option Interrupt) := do
  match Interrupt.first? (← pending) with
  | none => return none
  | some i =>
    modifyCpu ({ · with halted := false })
    if (← getCpu).ime then
      serve i
      return some i
    else
      return none

end Exec

end GameBoy
