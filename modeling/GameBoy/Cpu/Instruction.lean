import GameBoy.Cpu.Operation

/-!
# Instructions

An instruction is an opcode of one of the two pages. Its operation follows from the bits of the
opcode, which fall into fields: two bits that select a group, and two three-bit fields that select
an operation, a place, a register pair or a condition inside it. Everything else that is known of
an instruction, its text, length and cost, follows from the operation.
-/

namespace GameBoy

open Arithmetic

/-! ## Opcode fields -/

namespace Opcode

/-- The opcode that makes the next byte an opcode of the extended page. -/
def extend : UInt8 := 0xCB

/-- The group of an opcode: its two top bits. -/
@[inline] def group (opcode : UInt8) : Fin 4 :=
  ⟨opcode.toNat / 64, by have := opcode.toNat_lt; omega⟩

/-- The upper three-bit field of an opcode. -/
@[inline] def upper (opcode : UInt8) : Fin 8 := ⟨opcode.toNat / 8 % 8, Nat.mod_lt _ (by decide)⟩

/-- The lower three-bit field of an opcode. -/
@[inline] def lower (opcode : UInt8) : Fin 8 := ⟨opcode.toNat % 8, Nat.mod_lt _ (by decide)⟩

end Opcode

/-- The condition that two bits of an opcode name. -/
def Cond.ofField : Fin 4 → Cond
  | 0 => nz
  | 1 => z
  | 2 => nc
  | 3 => c

/-- The word register that two bits of an opcode name. -/
def Reg16.ofField : Fin 4 → Reg16
  | 0 => bc
  | 1 => de
  | 2 => hl
  | 3 => sp

/-- The word register that two bits of a stack operation name. -/
def Reg16.ofStackField : Fin 4 → Reg16
  | 0 => bc
  | 1 => de
  | 2 => hl
  | 3 => af

/-- The address that two bits of a load through a register pair name. -/
def Address.ofField : Fin 4 → Address
  | 0 => bc
  | 1 => de
  | 2 => hlInc
  | 3 => hlDec

/-- The operation of the accumulator that a field names. -/
def Arithmetic.AluOp.ofField : Fin 8 → AluOp
  | 0 => add
  | 1 => adc
  | 2 => sub
  | 3 => sbc
  | 4 => and
  | 5 => xor
  | 6 => or
  | 7 => cp

/-- The rotation or shift that a field names. -/
def Arithmetic.ShiftOp.ofField : Fin 8 → ShiftOp
  | 0 => rlc
  | 1 => rrc
  | 2 => rl
  | 3 => rr
  | 4 => sla
  | 5 => sra
  | 6 => swap
  | 7 => srl

/-! ## Decoding -/

/-- The operation of an opcode of the extended page. -/
def BitOperation.ofOpcode (opcode : UInt8) : BitOperation :=
  let target := Place.ofField (Opcode.lower opcode)
  let n := Opcode.upper opcode
  match Opcode.group opcode with
  | 0 => shift (.ofField n) target
  | 1 => bit n target
  | 2 => res n target
  | 3 => set n target

/-- What an opcode makes the processor do. -/
inductive Action where
  /-- Perform an operation. -/
  | operation (op : Operation)
  /-- Perform an operation of the extended page. -/
  | bits (op : BitOperation)
  /-- Fetch another opcode and perform its operation of the extended page. -/
  | extend
  /-- Nothing: the opcode has no meaning. -/
  | illegal
  deriving DecidableEq, Repr

namespace Action

/-- Group 0: loads of registers and through pairs, counting, relative jumps, and the operations on
the accumulator that have no operand. -/
def ofGroup0 (upper lower : Fin 8) : Action :=
  let pair : Fin 4 := ⟨upper.val / 2, by omega⟩
  let isOdd := upper.val % 2 == 1
  match lower with
  | 0 =>
    match upper with
    | 0 => operation .nop
    | 1 => operation .storeSP
    | 2 => operation .stop
    | 3 => operation (.jr none)
    | 4 => operation (.jr (some .nz))
    | 5 => operation (.jr (some .z))
    | 6 => operation (.jr (some .nc))
    | 7 => operation (.jr (some .c))
  | 1 => operation (if isOdd then .addHL (.ofField pair) else .loadWord (.ofField pair))
  | 2 =>
    let memory := Place.mem (.ofField pair)
    operation (if isOdd then .load (.reg .a) (.place memory) else .load memory (.place (.reg .a)))
  | 3 => operation (if isOdd then .decWord (.ofField pair) else .incWord (.ofField pair))
  | 4 => operation (.inc (.ofField upper))
  | 5 => operation (.dec (.ofField upper))
  | 6 => operation (.load (.ofField upper) .immediate)
  | 7 =>
    match upper with
    | 0 => operation (.rotate .left true)
    | 1 => operation (.rotate .right true)
    | 2 => operation (.rotate .left false)
    | 3 => operation (.rotate .right false)
    | 4 => operation .daa
    | 5 => operation .cpl
    | 6 => operation .scf
    | 7 => operation .ccf

/-- Group 1: loads from place to place. The one that would load memory from itself halts. -/
def ofGroup1 (upper lower : Fin 8) : Action :=
  if upper = 6 ∧ lower = 6 then operation .halt
  else operation (.load (.ofField upper) (.place (.ofField lower)))

/-- Group 3: branches, the stack, loads in the page `FF00`, and what is left. -/
def ofGroup3 (upper lower : Fin 8) : Action :=
  let pair : Fin 4 := ⟨upper.val / 2, by omega⟩
  match lower with
  | 0 =>
    match upper with
    | 0 => operation (.ret (some .nz))
    | 1 => operation (.ret (some .z))
    | 2 => operation (.ret (some .nc))
    | 3 => operation (.ret (some .c))
    | 4 => operation (.load (.mem .page) (.place (.reg .a)))
    | 5 => operation .addSP
    | 6 => operation (.load (.reg .a) (.place (.mem .page)))
    | 7 => operation .loadHL
  | 1 =>
    match upper with
    | 1 => operation (.ret none)
    | 3 => operation .reti
    | 5 => operation .jpHL
    | 7 => operation .loadSP
    | _ => operation (.pop (.ofStackField pair))
  | 2 =>
    match upper with
    | 0 => operation (.jp (some .nz))
    | 1 => operation (.jp (some .z))
    | 2 => operation (.jp (some .nc))
    | 3 => operation (.jp (some .c))
    | 4 => operation (.load (.mem .pageC) (.place (.reg .a)))
    | 5 => operation (.load (.mem .absolute) (.place (.reg .a)))
    | 6 => operation (.load (.reg .a) (.place (.mem .pageC)))
    | 7 => operation (.load (.reg .a) (.place (.mem .absolute)))
  | 3 =>
    match upper with
    | 0 => operation (.jp none)
    | 1 => extend
    | 6 => operation .di
    | 7 => operation .ei
    | _ => illegal
  | 4 =>
    match upper with
    | 0 => operation (.call (some .nz))
    | 1 => operation (.call (some .z))
    | 2 => operation (.call (some .nc))
    | 3 => operation (.call (some .c))
    | _ => illegal
  | 5 =>
    match upper with
    | 1 => operation (.call none)
    | 3 | 5 | 7 => illegal
    | _ => operation (.push (.ofStackField pair))
  | 6 => operation (.alu (.ofField upper) .immediate)
  | 7 => operation (.rst upper)

/-- What an opcode of the first page makes the processor do. -/
def ofOpcode (opcode : UInt8) : Action :=
  let upper := Opcode.upper opcode
  let lower := Opcode.lower opcode
  match Opcode.group opcode with
  | 0 => ofGroup0 upper lower
  | 1 => ofGroup1 upper lower
  | 2 => operation (.alu (.ofField upper) (.place (.ofField lower)))
  | 3 => ofGroup3 upper lower

/-- The name of an action in assembler text. -/
def mnemonic : Action → String
  | operation op => op.mnemonic
  | bits op => op.mnemonic
  | extend => "PREFIX"
  | illegal => "ILLEGAL"

/-- The operands of an action. -/
def operands : Action → List Operand
  | operation op => op.operands
  | bits op => op.operands
  | extend | illegal => []

/-- The cycles that an action takes; for a conditional branch, those of a branch not taken. -/
def cycles : Action → Nat
  | operation op => op.cycles
  | bits op => op.cycles
  | extend | illegal => 4

/-- The cycles of a conditional branch that is taken. -/
def takenCycles : Action → Option Nat
  | operation op => op.takenCycles
  | _ => none

/-- The cycles that an action takes, given whether it branches. -/
def cost (action : Action) (taken : Bool) : Nat :=
  match action with
  | operation op => op.cost taken
  | _ => action.cycles

/-- The condition of a conditional branch. -/
def condition : Action → Option Cond
  | operation op => op.condition
  | _ => none

end Action

/-! ## Instructions -/

/-- An opcode together with the page that it belongs to. -/
structure Instruction where
  /-- The opcode. -/
  opcode : UInt8
  /-- Whether it belongs to the extended page. -/
  prefixed : Bool
  deriving DecidableEq, Repr

namespace Instruction

/-- What the instruction makes the processor do. -/
@[inline] def action (i : Instruction) : Action :=
  if i.prefixed then .bits (.ofOpcode i.opcode) else .ofOpcode i.opcode

/-- The name of the instruction in assembler text. -/
def mnemonic (i : Instruction) : String := i.action.mnemonic

/-- The operands of the instruction. -/
def operands (i : Instruction) : List Operand := i.action.operands

/-- How many bytes name the operation: one on the first page and two on the extended page. -/
def opcodeLength (i : Instruction) : Nat := if i.prefixed then 2 else 1

/-- The length of the instruction in bytes. -/
def length (i : Instruction) : Nat := i.opcodeLength + Operand.totalLength i.operands

/-- The cycles that the instruction takes; for a conditional branch, those of a branch not
taken. -/
def cycles (i : Instruction) : Nat := i.action.cycles

/-- The cycles of a conditional branch that is taken. -/
def takenCycles (i : Instruction) : Option Nat := i.action.takenCycles

/-- The cycles that the instruction takes, given whether it branches. -/
def cost (i : Instruction) (taken : Bool) : Nat := i.action.cost taken

/-- Whether the opcode has no meaning. -/
def isIllegal (i : Instruction) : Bool := i.action == .illegal

/-- Whether the instruction is a conditional branch. -/
def isConditional (i : Instruction) : Bool := i.takenCycles.isSome

/-- The condition of a conditional branch. -/
def condition (i : Instruction) : Option Cond := i.action.condition

/-- The assembler text of the instruction, with the bytes after the opcode if they are known. -/
def textWith (i : Instruction) (immediate : Option UInt16) : String :=
  match i.operands.map (·.text immediate) with
  | [] => i.mnemonic
  | operands => i.mnemonic ++ " " ++ ", ".intercalate operands

/-- The assembler text of the instruction, with placeholders for the bytes after the opcode. -/
def text (i : Instruction) : String := i.textWith none

/-- The instruction field by field. -/
def inspect (i : Instruction) : String :=
  Text.record "Instruction"
    [("opcode", s!"0x{Text.hexByte i.opcode}"), ("prefixed", toString i.prefixed),
      ("text", Text.quoted i.text), ("bytes", toString i.length), ("cycles", toString i.cycles),
      ("cycles_taken", Text.optional (i.takenCycles.map toString))]

end Instruction

end GameBoy
