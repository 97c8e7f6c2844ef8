import GameBoy.Cpu.Instruction
import GameBoy.Bus

/-!
# Disassembly

Reading one instruction from the bus without executing it: its bytes, the value of the bytes after
the opcode, and the address of the instruction that follows.
-/

namespace GameBoy

/-- An instruction together with its encoding at an address. -/
structure Disassembly where
  /-- Where the instruction starts. -/
  address : UInt16
  /-- The instruction. -/
  instruction : Instruction
  /-- All its bytes. -/
  bytes : List UInt8
  deriving Repr

namespace Disassembly

/-- The value of the bytes after the opcode, low byte first, if there are any. -/
def immediate (d : Disassembly) : Option UInt16 :=
  match d.bytes.drop d.instruction.opcodeLength with
  | [] => none
  | [low] => some low.toUInt16
  | low :: high :: _ => some (Word.ofBytes high low)

/-- The length of the instruction in bytes. -/
def length (d : Disassembly) : Nat := d.bytes.length

/-- The address of the instruction that follows. -/
def nextAddress (d : Disassembly) : UInt16 := d.address + d.length.toUInt16

/-- A line of a listing: address, bytes and text. -/
def text (d : Disassembly) : String :=
  let bytes := " ".intercalate (d.bytes.map Text.hexByte)
  s!"{Text.hexWord d.address}: {Text.padRight 9 bytes} {d.instruction.textWith d.immediate}"

end Disassembly

namespace Bus

variable {β : Type} [Bus β]

/-- Read the bytes at each of the given distances from an address. -/
def readAt (address : UInt16) : List Nat → EStateM BusError β (List UInt8)
  | [] => return []
  | offset :: offsets => do
    let value ← read (address + offset.toUInt16)
    return value :: (← readAt address offsets)

/-- Read the opcode at an address and find its instruction. -/
def instructionAt (address : UInt16) : EStateM BusError β Instruction := do
  let opcode ← read address
  if opcode = Opcode.extend then
    return ⟨← read (address + 1), true⟩
  else
    return ⟨opcode, false⟩

/-- Decode the instruction at an address. The opcode is read first, and then all bytes in order. -/
def disassemble (address : UInt16) : EStateM BusError β Disassembly := do
  let instruction ← instructionAt address
  let bytes ← readAt address (List.range instruction.length)
  return { address, instruction, bytes }

end Bus

end GameBoy
