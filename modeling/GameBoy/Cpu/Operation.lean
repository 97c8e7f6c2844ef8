import GameBoy.Cpu.Arithmetic
import GameBoy.Cpu.Operand

/-!
# Operations

What the processor can be told to do, apart from how it is encoded. Sources and destinations of a
transfer are places; a place in memory is given by the way in which its address is found. The
operations of the extended page, which all work on one byte, form a type of their own.
-/

namespace GameBoy

open Arithmetic

/-! ## Places -/

/-- How the address of a byte in memory is found. -/
inductive Address where
  | bc
  | de
  | hl
  /-- HL, which grows by one after the transfer. -/
  | hlInc
  /-- HL, which shrinks by one after the transfer. -/
  | hlDec
  /-- The word after the opcode. -/
  | absolute
  /-- The byte after the opcode, in the page `FF00`. -/
  | page
  /-- Register C, in the page `FF00`. -/
  | pageC
  deriving DecidableEq, Repr

namespace Address

/-- The address as an operand. -/
def operand : Address → Operand
  | bc => .indirect .bc
  | de => .indirect .de
  | hl => .indirect .hl
  | hlInc => .hlInc
  | hlDec => .hlDec
  | absolute => .deref .a16
  | page => .deref .a8
  | pageC => .deref (.reg8 .c)

/-- Whether the address lies in the page `FF00` by construction. -/
def isPaged : Address → Bool
  | page | pageC => true
  | _ => false

end Address

/-- A place that holds a byte. -/
inductive Place where
  | reg (r : Reg8)
  | mem (address : Address)
  deriving DecidableEq, Repr

namespace Place

/-- The place as an operand. -/
def operand : Place → Operand
  | reg r => .r8 r
  | mem address => address.operand

/-- Whether the place is found in the page `FF00` by construction. -/
def isPaged : Place → Bool
  | reg _ => false
  | mem address => address.isPaged

/-- How many bytes cross the bus to find the place and reach it once. -/
def transfers : Place → Nat
  | reg _ => 0
  | mem address => 1 + address.operand.length

/-- The place that a three-bit field of an opcode names. -/
def ofField : Fin 8 → Place
  | 0 => reg .b
  | 1 => reg .c
  | 2 => reg .d
  | 3 => reg .e
  | 4 => reg .h
  | 5 => reg .l
  | 6 => mem .hl
  | 7 => reg .a

end Place

/-- Where an operation takes a byte from. -/
inductive Source where
  | place (p : Place)
  /-- The byte after the opcode. -/
  | immediate
  deriving DecidableEq, Repr

namespace Source

/-- The source as an operand. -/
def operand : Source → Operand
  | place p => p.operand
  | immediate => .value .n8

/-- How many bytes cross the bus to fetch the source. -/
def transfers : Source → Nat
  | place p => p.transfers
  | immediate => 1

/-- Whether the source is found in the page `FF00` by construction. -/
def isPaged : Source → Bool
  | place p => p.isPaged
  | immediate => false

end Source

/-! ## The extended page -/

/-- An operation of the extended page. -/
inductive BitOperation where
  /-- Rotate or shift the byte. -/
  | shift (op : ShiftOp) (target : Place)
  /-- Test a bit. -/
  | bit (n : Fin 8) (target : Place)
  /-- Clear a bit. -/
  | res (n : Fin 8) (target : Place)
  /-- Set a bit. -/
  | set (n : Fin 8) (target : Place)
  deriving DecidableEq, Repr

namespace BitOperation

/-- The name of an operation in assembler text. -/
def mnemonic : BitOperation → String
  | shift op _ => op.name
  | bit .. => "BIT"
  | res .. => "RES"
  | set .. => "SET"

/-- The number of a bit as an operand. -/
def bitOperand (n : Fin 8) : Operand := .value (.bit n.val.toUInt8)

/-- The operands of an operation. -/
def operands : BitOperation → List Operand
  | shift _ target => [target.operand]
  | bit n target | res n target | set n target => [bitOperand n, target.operand]

/-- The cycles that an operation takes: four for each of the two opcode bytes, for a read of memory
and for a write of memory. A test does not write. -/
def cycles : BitOperation → Nat
  | bit _ target => 8 + 4 * target.transfers
  | shift _ target | res _ target | set _ target => 8 + 8 * target.transfers

end BitOperation

/-! ## The first page -/

/-- An operation of the first page. -/
inductive Operation where
  | nop
  | stop
  | halt
  | di
  | ei
  /-- Load a byte. -/
  | load (target : Place) (source : Source)
  /-- Load a word register with the word after the opcode. -/
  | loadWord (r : Reg16)
  /-- Store the stack pointer at the address after the opcode. -/
  | storeSP
  /-- Load the stack pointer from HL. -/
  | loadSP
  /-- Load HL with the stack pointer plus an offset. -/
  | loadHL
  | push (r : Reg16)
  | pop (r : Reg16)
  /-- Combine the accumulator with a byte. -/
  | alu (op : AluOp) (source : Source)
  | inc (target : Place)
  | dec (target : Place)
  | incWord (r : Reg16)
  | decWord (r : Reg16)
  /-- Add a word register to HL. -/
  | addHL (r : Reg16)
  /-- Add an offset to the stack pointer. -/
  | addSP
  /-- Rotate the accumulator. -/
  | rotate (direction : Direction) (circular : Bool)
  | daa
  | cpl
  | scf
  | ccf
  /-- Jump by an offset. -/
  | jr (condition : Option Cond)
  /-- Jump to an address. -/
  | jp (condition : Option Cond)
  /-- Jump to the address in HL. -/
  | jpHL
  | call (condition : Option Cond)
  | ret (condition : Option Cond)
  | reti
  /-- Call the fixed address eight times `n`. -/
  | rst (n : Fin 8)
  deriving DecidableEq, Repr

namespace Operation

/-- The name of an operation in assembler text. -/
def mnemonic : Operation → String
  | nop => "NOP"
  | stop => "STOP"
  | halt => "HALT"
  | di => "DI"
  | ei => "EI"
  | load target source => if target.isPaged || source.isPaged then "LDH" else "LD"
  | loadWord _ | storeSP | loadSP | loadHL => "LD"
  | push _ => "PUSH"
  | pop _ => "POP"
  | alu op _ => op.name
  | inc _ | incWord _ => "INC"
  | dec _ | decWord _ => "DEC"
  | addHL _ | addSP => "ADD"
  | rotate .left true => "RLCA"
  | rotate .right true => "RRCA"
  | rotate .left false => "RLA"
  | rotate .right false => "RRA"
  | daa => "DAA"
  | cpl => "CPL"
  | scf => "SCF"
  | ccf => "CCF"
  | jr _ => "JR"
  | jp _ | jpHL => "JP"
  | call _ => "CALL"
  | ret _ => "RET"
  | reti => "RETI"
  | rst _ => "RST"

/-- The address that a restart calls. -/
def restartAddress (n : Fin 8) : UInt8 := 8 * n.val.toUInt8

/-- The condition of a branch, if any, as an operand. -/
def conditionOperand (condition : Option Cond) : List Operand :=
  (condition.map Operand.cond).toList

/-- The operands of an operation. -/
def operands : Operation → List Operand
  | nop | halt | di | ei | rotate .. | daa | cpl | scf | ccf | reti => []
  | stop => [.value .n8]
  | load target source => [target.operand, source.operand]
  | loadWord r => [.r16 r, .value .n16]
  | storeSP => [.deref .a16, .r16 .sp]
  | loadSP => [.r16 .sp, .r16 .hl]
  | loadHL => [.r16 .hl, .value .spPlusE8]
  | push r | pop r | incWord r | decWord r => [.r16 r]
  | alu _ source => [.r8 .a, source.operand]
  | inc target | dec target => [target.operand]
  | addHL r => [.r16 .hl, .r16 r]
  | addSP => [.r16 .sp, .value .e8]
  | jr condition => conditionOperand condition ++ [.value .e8]
  | jp condition | call condition => conditionOperand condition ++ [.value .a16]
  | jpHL => [.r16 .hl]
  | ret condition => conditionOperand condition
  | rst n => [.value (.vector (restartAddress n))]

/-- The condition of a conditional branch. -/
def condition : Operation → Option Cond
  | jr condition | jp condition | call condition | ret condition => condition
  | _ => none

/-- The cycles that an operation takes; for a conditional branch, those of a branch not taken. A
load or an operation of the accumulator takes four for the opcode and for each byte moved. -/
def cycles : Operation → Nat
  | nop | stop | halt | di | ei | rotate .. | daa | cpl | scf | ccf | jpHL => 4
  | load target source => 4 + 4 * target.transfers + 4 * source.transfers
  | alu _ source => 4 + 4 * source.transfers
  | inc target | dec target => 4 + 8 * target.transfers
  | loadSP | incWord _ | decWord _ | addHL _ => 8
  | loadWord _ | loadHL | pop _ => 12
  | addSP | push _ | reti | rst _ => 16
  | storeSP => 20
  | jr condition => if condition.isSome then 8 else 12
  | jp condition => if condition.isSome then 12 else 16
  | call condition => if condition.isSome then 12 else 24
  | ret condition => if condition.isSome then 8 else 16

/-- The cycles of a conditional branch that is taken. -/
def takenCycles : Operation → Option Nat
  | jr (some _) => some 12
  | jp (some _) => some 16
  | call (some _) => some 24
  | ret (some _) => some 20
  | _ => none

/-- The cycles that an operation takes, given whether it branches. -/
def cost (op : Operation) (taken : Bool) : Nat :=
  if taken then op.takenCycles.getD op.cycles else op.cycles

end Operation

end GameBoy
