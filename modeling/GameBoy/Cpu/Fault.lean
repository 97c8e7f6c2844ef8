import GameBoy.Bus
import GameBoy.Text

/-!
# Faults

The conditions that stop the processor, and their texts.
-/

namespace GameBoy

/-- What a failed access says. -/
def BusError.message : BusError → String
  | unmapped address => s!"no memory mapped at 0x{Text.hexWord address}"

/-- The failed access by name. -/
def BusError.inspect : BusError → String
  | unmapped address => s!"Unmapped({address})"

/-- Why the processor stopped. -/
inductive Fault where
  /-- Nothing is mapped where the next opcode should be. -/
  | endOfProgram
  /-- An opcode without a meaning was executed. -/
  | illegalOpcode (opcode : UInt8) (pc : UInt16)
  /-- An opcode has a meaning but nothing to perform it. -/
  | unimplemented (opcode : UInt8) (prefixed : Bool)
  /-- A bus access inside an instruction failed. What was done before it stays done. -/
  | bus (error : BusError)
  /-- The allowed number of steps has been made. -/
  | stepLimit (steps : Nat)
  deriving DecidableEq, Repr

namespace Fault

/-- What a fault says. -/
def message : Fault → String
  | endOfProgram => "end of program"
  | illegalOpcode opcode pc => s!"illegal opcode 0x{Text.hexByte opcode} at PC=0x{Text.hexWord pc}"
  | unimplemented opcode prefixed =>
    s!"unimplemented opcode 0x{Text.hexByte opcode} (CB-prefixed: {prefixed})"
  | bus error => s!"bus error: {error.message}"
  | stepLimit steps => s!"step limit of {steps} steps reached"

/-- Whether the program ran out, which counts as a normal end of a run. -/
def isEndOfProgram : Fault → Bool
  | endOfProgram => true
  | _ => false

/-- The fault field by field. -/
def inspect : Fault → String
  | endOfProgram => "EndOfProgram"
  | illegalOpcode opcode pc =>
    Text.record "IllegalOpcode" [("opcode", toString opcode), ("pc", toString pc)]
  | unimplemented opcode prefixed =>
    Text.record "Unimplemented" [("opcode", toString opcode), ("prefixed", toString prefixed)]
  | bus error => s!"Bus({error.inspect})"
  | stepLimit steps => s!"StepLimit({steps})"

end Fault

end GameBoy
