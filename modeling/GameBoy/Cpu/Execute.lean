import GameBoy.Cpu.Machine

/-!
# Execution

What each operation does to the registers, the memory and the interrupt enable. An operation says
whether it branched, and the cost of an instruction follows from that.

The order of accesses is part of the meaning, because any access may fail and what was done before
stays done: a source is fetched before the destination's address, a step of HL comes after the
transfer, and flags are stored last.
-/

namespace GameBoy

open Arithmetic

variable {β : Type} [Bus β]

/-! ## Places -/

/-- Find an address, fetching the bytes after the opcode that it needs. -/
def Address.resolve : Address → Exec β UInt16
  | bc => return (← Exec.getRegs).bc
  | de => return (← Exec.getRegs).de
  | hl | hlInc | hlDec => return (← Exec.getRegs).hl
  | absolute => Exec.fetchWord
  | page => return 0xFF00 ||| (← Exec.fetchByte).toUInt16
  | pageC => return 0xFF00 ||| (← Exec.getRegs).c.toUInt16

/-- Step HL after a transfer through this address. -/
def Address.stepHL : Address → Exec β Unit
  | hlInc => Exec.modifyRegs fun r => r.setHL (r.hl + 1)
  | hlDec => Exec.modifyRegs fun r => r.setHL (r.hl - 1)
  | _ => return ()

/-- Take the byte from a place. -/
def Place.read : Place → Exec β UInt8
  | reg r => return (← Exec.getRegs).byte r
  | mem address => do
    let value ← Exec.read (← address.resolve)
    address.stepHL
    return value

/-- Put a byte into a place. -/
def Place.write (place : Place) (value : UInt8) : Exec β Unit :=
  match place with
  | reg r => Exec.modifyRegs (·.setByte r value)
  | mem address => do
    Exec.write (← address.resolve) value
    address.stepHL

/-- Replace the byte in a place and then store the flags. -/
def Place.modify (place : Place) (f : UInt8 → Flags → UInt8 × Flags) : Exec β Unit := do
  let value ← place.read
  let (result, flags) := f value (← Exec.getFlags)
  place.write result
  Exec.setFlags flags

/-- Take the byte from a source. -/
def Source.read : Source → Exec β UInt8
  | place p => p.read
  | immediate => Exec.fetchByte

/-! ## The extended page -/

/-- Perform an operation of the extended page. -/
def BitOperation.perform : BitOperation → Exec β Unit
  | shift op target => target.modify op.apply
  | bit n target => do
    let value ← target.read
    Exec.setFlags (bitTest value n (← Exec.getFlags))
  | res n target => do
    target.write (Byte.clearBit (← target.read) n)
  | set n target => do
    target.write (Byte.setBit (← target.read) n)

/-! ## The first page -/

/-- Whether a branch is taken. One without a condition always is. -/
def branchTaken (condition : Option Cond) : Exec β Bool := do
  match condition with
  | none => return true
  | some condition => return condition.holds (← Exec.getFlags)

/-- Continue at an address. -/
@[inline] def jump (address : UInt16) : Exec β Unit := Exec.modifyRegs ({ · with pc := address })

/-- Perform an operation of the first page. The result tells whether it branched. -/
def Operation.perform : Operation → Exec β Bool
  | nop => return false
  | stop => do
    let _ ← Exec.fetchByte
    return false
  | halt => do
    Exec.modifyCpu ({ · with halted := true })
    return false
  | di => do
    Exec.modifyCpu ({ · with ime := false, enablePending := false, enableArmed := false })
    return false
  | ei => do
    Exec.modifyCpu fun cpu => if cpu.ime then cpu else { cpu with enablePending := true }
    return false
  | load target source => do
    target.write (← source.read)
    return false
  | loadWord r => do
    let value ← Exec.fetchWord
    Exec.modifyRegs (·.setWord r value)
    return false
  | storeSP => do
    let sp := (← Exec.getRegs).sp
    let address ← Exec.fetchWord
    Exec.write address (Word.low sp)
    Exec.write (address + 1) (Word.high sp)
    return false
  | loadSP => do
    Exec.modifyRegs fun r => { r with sp := r.hl }
    return false
  | loadHL => do
    let offset ← Exec.fetchOffset
    Exec.modifyRegs fun r =>
      let (value, flags) := addOffset r.sp offset
      (r.setFlags flags).setHL value
    return false
  | push r => do
    Exec.push ((← Exec.getRegs).word r)
    return false
  | pop r => do
    let value ← Exec.pop
    Exec.modifyRegs (·.setWord r value)
    return false
  | alu op source => do
    let value ← source.read
    Exec.modifyRegs fun r =>
      let (result, flags) := op.apply r.a value r.flags
      ({ r with a := result }).setFlags flags
    return false
  | inc target => do
    target.modify inc8
    return false
  | dec target => do
    target.modify dec8
    return false
  | incWord r => do
    Exec.modifyRegs fun regs => regs.setWord r (regs.word r + 1)
    return false
  | decWord r => do
    Exec.modifyRegs fun regs => regs.setWord r (regs.word r - 1)
    return false
  | addHL r => do
    Exec.modifyRegs fun regs =>
      let (result, flags) := add16 regs.hl (regs.word r)
      (regs.setHL result).setFlags { flags with z := regs.flags.z }
    return false
  | addSP => do
    let offset ← Exec.fetchOffset
    Exec.modifyRegs fun r =>
      let (result, flags) := addOffset r.sp offset
      ({ r with sp := result }).setFlags flags
    return false
  | rotate direction circular => do
    Exec.modifyRegs fun r =>
      let (result, flags) := Arithmetic.rotate r.a direction r.flags circular
      ({ r with a := result }).setFlags { flags with z := false }
    return false
  | daa => do
    Exec.modifyRegs fun r =>
      let (result, flags) := Arithmetic.daa r.a r.flags
      ({ r with a := result }).setFlags flags
    return false
  | cpl => do
    Exec.modifyRegs fun r => ({ r with a := ~~~r.a }).setFlags { r.flags with n := true, h := true }
    return false
  | scf => do
    Exec.modifyRegs fun r => r.setFlags { r.flags with n := false, h := false, c := true }
    return false
  | ccf => do
    Exec.modifyRegs fun r => r.setFlags { r.flags with n := false, h := false, c := !r.flags.c }
    return false
  | jr condition => do
    let offset ← Exec.fetchOffset
    let taken ← branchTaken condition
    if taken then Exec.skip offset
    return taken
  | jp condition => do
    let address ← Exec.fetchWord
    let taken ← branchTaken condition
    if taken then jump address
    return taken
  | jpHL => do
    Exec.modifyRegs fun r => { r with pc := r.hl }
    return true
  | call condition => do
    let address ← Exec.fetchWord
    let taken ← branchTaken condition
    if taken then
      Exec.push (← Exec.getRegs).pc
      jump address
    return taken
  | ret condition => do
    let taken ← branchTaken condition
    if taken then
      jump (← Exec.pop)
    return taken
  | reti => do
    jump (← Exec.pop)
    Exec.modifyCpu ({ · with ime := true })
    return true
  | rst n => do
    Exec.push (← Exec.getRegs).pc
    jump (restartAddress n).toUInt16
    return true

/-! ## Instructions -/

/-- Perform an operation of the extended page and give its cost. -/
def BitOperation.execute (op : BitOperation) : Exec β Nat := do
  op.perform
  return op.cycles

/-- Perform the action of an opcode and give its cost. An opcode without a meaning is reported with
the address before the program counter. -/
def Action.execute (action : Action) (opcode : UInt8) : Exec β Nat := do
  match action with
  | operation op => return op.cost (← op.perform)
  | bits op => op.execute
  | extend => (BitOperation.ofOpcode (← Exec.fetchByte)).execute
  | illegal => throw (.illegalOpcode opcode ((← Exec.getRegs).pc - 1))

/-- Execute an instruction whose opcode has been fetched, and give its cost. -/
def Instruction.execute (i : Instruction) : Exec β Nat := i.action.execute i.opcode

end GameBoy
