import GameBoy.Cpu.Registers

/-!
# Operands

The operands of an instruction as its text shows them: what they name, whether they stand for a
value or for the memory at it, and how many bytes of the instruction they take up.
-/

namespace GameBoy

/-- What an operand names. -/
inductive OperandKind where
  | reg8 (r : Reg8)
  | reg16 (r : Reg16)
  | cond (condition : Cond)
  /-- A byte after the opcode. -/
  | n8
  /-- A word after the opcode. -/
  | n16
  /-- An address after the opcode. -/
  | a16
  /-- A signed byte after the opcode. -/
  | e8
  /-- A byte after the opcode that names an address in the page `FF00`. -/
  | a8
  /-- The stack pointer plus a signed byte after the opcode. -/
  | spPlusE8
  /-- The number of a bit. -/
  | bit (n : UInt8)
  /-- A fixed address in the first page. -/
  | vector (address : UInt8)
  deriving DecidableEq, Repr

namespace OperandKind

/-- How many bytes of the instruction hold the operand. -/
def length : OperandKind → Nat
  | n8 | e8 | a8 | spPlusE8 => 1
  | n16 | a16 => 2
  | _ => 0

/-- The low byte of a word as a number from -128 to 127, with its sign. -/
def signedLow (w : UInt16) : String := Text.signed w.toUInt8.toInt8.toInt

/-- The operand's text. The bytes that hold it appear as a placeholder if they are not known. -/
def text (kind : OperandKind) (immediate : Option UInt16) : String :=
  match kind, immediate with
  | reg8 r, _ => r.name
  | reg16 r, _ => r.name
  | cond condition, _ => condition.name
  | bit n, _ => toString n
  | vector address, _ => "$" ++ Text.hexByte address
  | n8, some v => "$" ++ Text.hexByte v.toUInt8
  | n8, none => "n8"
  | n16, some v => "$" ++ Text.hexWord v
  | n16, none => "n16"
  | a16, some v => "$" ++ Text.hexWord v
  | a16, none => "a16"
  | e8, some v => signedLow v
  | e8, none => "e8"
  | a8, some v => "$FF" ++ Text.hexByte v.toUInt8
  | a8, none => "a8"
  | spPlusE8, some v => "SP" ++ signedLow v
  | spPlusE8, none => "SP+e8"

/-- The kind by name. -/
def inspect : OperandKind → String
  | reg8 r => s!"Reg8({r.name})"
  | reg16 r => s!"Reg16({r.name})"
  | cond condition => s!"Cond({condition.name})"
  | n8 => "N8"
  | n16 => "N16"
  | a16 => "A16"
  | e8 => "E8"
  | a8 => "A8"
  | spPlusE8 => "SpPlusE8"
  | bit n => s!"Bit({n})"
  | vector address => s!"Vector({address})"

end OperandKind

/-- What happens to HL after a transfer through it. -/
inductive HLStep where
  | none
  | inc
  | dec
  deriving DecidableEq, Repr

namespace HLStep

/-- The sign that marks a step in assembler text. -/
def mark : HLStep → String
  | none => ""
  | inc => "+"
  | dec => "-"

/-- The step by name. -/
def inspect : HLStep → String
  | none => "None"
  | inc => "Inc"
  | dec => "Dec"

end HLStep

/-- An operand of an instruction. -/
structure Operand where
  /-- What it names. -/
  kind : OperandKind
  /-- Whether it stands for the named value itself and not for the memory at that address. -/
  immediate : Bool
  /-- What happens to HL afterwards. -/
  step : HLStep
  deriving DecidableEq, Repr

namespace Operand

/-- The named value itself. -/
def value (kind : OperandKind) : Operand := ⟨kind, true, .none⟩

/-- The memory at the named address. -/
def deref (kind : OperandKind) : Operand := ⟨kind, false, .none⟩

/-- A byte register. -/
def r8 (r : Reg8) : Operand := value (.reg8 r)

/-- A word register. -/
def r16 (r : Reg16) : Operand := value (.reg16 r)

/-- A branch condition. -/
def cond (condition : Cond) : Operand := value (.cond condition)

/-- The memory at a word register. -/
def indirect (r : Reg16) : Operand := deref (.reg16 r)

/-- The memory at HL, which then grows by one. -/
def hlInc : Operand := ⟨.reg16 .hl, false, .inc⟩

/-- The memory at HL, which then shrinks by one. -/
def hlDec : Operand := ⟨.reg16 .hl, false, .dec⟩

/-- How many bytes of the instruction hold the operand. -/
def length (op : Operand) : Nat := op.kind.length

/-- How many bytes of the instruction hold some operands. -/
def totalLength (operands : List Operand) : Nat := operands.foldr (fun op n => op.length + n) 0

/-- The operand's text: memory stands in parentheses. -/
def text (op : Operand) (immediate : Option UInt16) : String :=
  let body := op.kind.text immediate ++ op.step.mark
  if op.immediate then body else s!"({body})"

end Operand

end GameBoy
