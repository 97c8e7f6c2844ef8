import GameBoy.Cpu.Flags
import GameBoy.Word
import GameBoy.Text

/-!
# Registers

Seven byte registers, the flag register, the stack pointer and the program counter. The byte
registers also serve as the pairs AF, BC, DE and HL, the first-named register being the high byte.
Only F is special: read or written as part of AF, its low nibble counts as zero.
-/

namespace GameBoy

/-- A byte register. -/
inductive Reg8 where
  | a
  | b
  | c
  | d
  | e
  | h
  | l
  deriving DecidableEq, Repr

/-- The name of a byte register in assembler text. -/
def Reg8.name : Reg8 → String
  | a => "A"
  | b => "B"
  | c => "C"
  | d => "D"
  | e => "E"
  | h => "H"
  | l => "L"

/-- A word register or register pair. -/
inductive Reg16 where
  | af
  | bc
  | de
  | hl
  | sp
  deriving DecidableEq, Repr

/-- The name of a word register in assembler text. -/
def Reg16.name : Reg16 → String
  | af => "AF"
  | bc => "BC"
  | de => "DE"
  | hl => "HL"
  | sp => "SP"

/-- The contents of the registers. -/
structure Registers where
  a : UInt8
  f : UInt8
  b : UInt8
  c : UInt8
  d : UInt8
  e : UInt8
  h : UInt8
  l : UInt8
  sp : UInt16
  pc : UInt16
  deriving DecidableEq, Repr

namespace Registers

/-- The registers when the power comes on. -/
def powerOn : Registers := ⟨0, 0, 0, 0, 0, 0, 0, 0, 0, 0⟩

/-- The registers as the boot program leaves them when it enters the cartridge at `0100`. -/
def booted : Registers :=
  ⟨0x01, 0xB0, 0x00, 0x13, 0x00, 0xD8, 0x01, 0x4D, 0xFFFE, 0x0100⟩

/-! ## Flags -/

/-- The flags in F. -/
@[inline] def flags (r : Registers) : Flags := Flags.ofByte r.f

/-- Store all four flags. The low nibble of F becomes zero. -/
@[inline] def setFlags (r : Registers) (flags : Flags) : Registers := { r with f := flags.toByte }

/-! ## Pairs -/

/-- The pair AF, with a zero low nibble. -/
@[inline] def af (r : Registers) : UInt16 := Word.ofBytes r.a (r.f &&& 0xF0)

/-- The pair BC. -/
@[inline] def bc (r : Registers) : UInt16 := Word.ofBytes r.b r.c

/-- The pair DE. -/
@[inline] def de (r : Registers) : UInt16 := Word.ofBytes r.d r.e

/-- The pair HL. -/
@[inline] def hl (r : Registers) : UInt16 := Word.ofBytes r.h r.l

/-- Store the pair AF. The low nibble of F becomes zero. -/
@[inline] def setAF (r : Registers) (w : UInt16) : Registers :=
  { r with a := Word.high w, f := Word.low w &&& 0xF0 }

/-- Store the pair BC. -/
@[inline] def setBC (r : Registers) (w : UInt16) : Registers :=
  { r with b := Word.high w, c := Word.low w }

/-- Store the pair DE. -/
@[inline] def setDE (r : Registers) (w : UInt16) : Registers :=
  { r with d := Word.high w, e := Word.low w }

/-- Store the pair HL. -/
@[inline] def setHL (r : Registers) (w : UInt16) : Registers :=
  { r with h := Word.high w, l := Word.low w }

/-! ## Access by name -/

/-- The contents of a byte register. -/
@[inline] def byte (r : Registers) : Reg8 → UInt8
  | .a => r.a
  | .b => r.b
  | .c => r.c
  | .d => r.d
  | .e => r.e
  | .h => r.h
  | .l => r.l

/-- Store a byte in a register. -/
@[inline] def setByte (r : Registers) (reg : Reg8) (v : UInt8) : Registers :=
  match reg with
  | .a => { r with a := v }
  | .b => { r with b := v }
  | .c => { r with c := v }
  | .d => { r with d := v }
  | .e => { r with e := v }
  | .h => { r with h := v }
  | .l => { r with l := v }

/-- The contents of a word register. -/
@[inline] def word (r : Registers) : Reg16 → UInt16
  | .af => r.af
  | .bc => r.bc
  | .de => r.de
  | .hl => r.hl
  | .sp => r.sp

/-- Store a word in a register. -/
@[inline] def setWord (r : Registers) (reg : Reg16) (w : UInt16) : Registers :=
  match reg with
  | .af => r.setAF w
  | .bc => r.setBC w
  | .de => r.setDE w
  | .hl => r.setHL w
  | .sp => { r with sp := w }

/-- The registers field by field, in decimal. -/
def inspect (r : Registers) : String :=
  Text.record "Registers"
    [("a", toString r.a), ("f", toString r.f), ("b", toString r.b), ("c", toString r.c),
      ("d", toString r.d), ("e", toString r.e), ("h", toString r.h), ("l", toString r.l),
      ("sp", toString r.sp), ("pc", toString r.pc)]

end Registers

end GameBoy
