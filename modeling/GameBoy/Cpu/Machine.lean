import GameBoy.Cpu.State

/-!
# A processor on a bus

A machine is a processor together with the bus that it drives and with what has been observed of
it so far: the journal of notices and the records of the hook. An execution acts on a machine and
may end in a fault; the state it leaves behind is kept in either case.

This module has the actions out of which all operations are built: single bus accesses, fetches
at the program counter, and the stack.
-/

namespace GameBoy

/-- What a recording hook keeps of one instruction. -/
structure Record where
  /-- Where the instruction was fetched from. -/
  pc : UInt16
  /-- The instruction. -/
  instruction : Instruction
  /-- The processor after the whole step. -/
  cpu : Cpu

/-- A processor on a bus, with what has been observed of it. -/
structure Machine (β : Type) where
  /-- The processor. -/
  cpu : Cpu
  /-- The bus. -/
  bus : β
  /-- The notices so far. -/
  journal : Journal
  /-- The records of the hook so far. -/
  records : Array Record

/-- An execution: it acts on a machine and gives a result or ends in a fault. -/
abbrev Exec (β α : Type) := EStateM Fault (Machine β) α

namespace Exec

variable {β : Type} [Bus β]

/-! ## The processor -/

/-- The processor's state. -/
@[inline] def getCpu : Exec β Cpu := fun s => .ok s.cpu s

/-- Change the processor's state. -/
@[inline] def modifyCpu (f : Cpu → Cpu) : Exec β Unit := fun ⟨cpu, bus, journal, records⟩ =>
  .ok () ⟨f cpu, bus, journal, records⟩

/-- The registers. -/
@[inline] def getRegs : Exec β Registers := fun s => .ok s.cpu.regs s

/-- Change the registers. -/
@[inline] def modifyRegs (f : Registers → Registers) : Exec β Unit :=
  modifyCpu fun cpu => { cpu with regs := f cpu.regs }

/-- The flags. -/
@[inline] def getFlags : Exec β Flags := fun s => .ok s.cpu.flags s

/-- Store all four flags. -/
@[inline] def setFlags (flags : Flags) : Exec β Unit := modifyRegs (·.setFlags flags)

/-- Report something. -/
@[inline] def note (notice : Notice) : Exec β Unit := fun ⟨cpu, bus, journal, records⟩ =>
  .ok () ⟨cpu, bus, journal.push notice, records⟩

/-! ## The bus -/

/-- Perform an access on the bus; a failure becomes the given fault. -/
@[inline] def access {α : Type} (x : EStateM BusError β α) (fault : BusError → Fault) : Exec β α :=
  fun ⟨cpu, bus, journal, records⟩ =>
    match x bus with
    | .ok a bus => .ok a ⟨cpu, bus, journal, records⟩
    | .error e bus => .error (fault e) ⟨cpu, bus, journal, records⟩

/-- Read a byte. -/
def read (address : UInt16) : Exec β UInt8 := access (Bus.read address) .bus

/-- Read a word, low byte first. -/
def readWord (address : UInt16) : Exec β UInt16 := access (Bus.readWord address) .bus

/-- Write a byte. -/
def write (address : UInt16) (value : UInt8) : Exec β Unit :=
  fun ⟨cpu, bus, journal, records⟩ =>
    match Bus.write address value bus with
    | .ok notice bus => .ok () ⟨cpu, bus, journal.note notice, records⟩
    | .error e bus => .error (.bus e) ⟨cpu, bus, journal, records⟩

/-! ## Fetching -/

/-- Move the program counter over `n` bytes. -/
@[inline] def skip (n : UInt16) : Exec β Unit := modifyRegs fun r => { r with pc := r.pc + n }

/-- Fetch an opcode. If nothing is mapped there, the program has ended. -/
def fetchOpcode : Exec β UInt8 := do
  let opcode ← access (Bus.read (← getRegs).pc) fun _ => .endOfProgram
  skip 1
  return opcode

/-- Fetch the byte after the opcode. -/
def fetchByte : Exec β UInt8 := do
  let value ← read (← getRegs).pc
  skip 1
  return value

/-- Fetch the signed byte after the opcode, as a word. -/
def fetchOffset : Exec β UInt16 := do
  return Word.signExtend (← fetchByte)

/-- Fetch the word after the opcode. Nothing is fetched unless both bytes can be read. -/
def fetchWord : Exec β UInt16 := do
  let value ← readWord (← getRegs).pc
  skip 2
  return value

/-! ## The stack -/

/-- Push a byte. The stack pointer moves before the byte is written. -/
def pushByte (value : UInt8) : Exec β Unit := do
  modifyRegs fun r => { r with sp := r.sp - 1 }
  write (← getRegs).sp value

/-- Push a word, high byte first, so that it lies in memory low byte first. -/
def push (value : UInt16) : Exec β Unit := do
  pushByte (Word.high value)
  pushByte (Word.low value)

/-- Pop a word. The stack pointer moves only after both bytes have been read. -/
def pop : Exec β UInt16 := do
  let value ← readWord (← getRegs).sp
  modifyRegs fun r => { r with sp := r.sp + 2 }
  return value

end Exec

end GameBoy
