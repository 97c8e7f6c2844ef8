import GameBoy.Cpu.Flags
import GameBoy.Word

/-!
# Arithmetic

The operations of the arithmetic unit as functions on bytes and words. Each gives its result
together with all the flags that it produces; an instruction may keep some of the old flags
instead.
-/

namespace GameBoy.Arithmetic

/-! ## Addition and subtraction -/

/-- Add two bytes and a carry. -/
def adc8 (a b : UInt8) (carry : Bool) : UInt8 × Flags :=
  let half := (a &&& 0x0F) + (b &&& 0x0F) + carry.toUInt8
  let full := a.toUInt16 + b.toUInt16 + carry.toUInt16
  let result := full.toUInt8
  (result, { z := result == 0, n := false, h := half > 0x0F, c := full > 0xFF })

/-- Add two bytes. -/
def add8 (a b : UInt8) : UInt8 × Flags := adc8 a b false

/-- Subtract a byte and a borrow from a byte. The differences are taken as signed words, so that a
borrow shows in the sign. -/
def sbc8 (a b : UInt8) (borrow : Bool) : UInt8 × Flags :=
  let half := (a &&& 0x0F).toUInt16.toInt16 - (b &&& 0x0F).toUInt16.toInt16 - borrow.toInt16
  let full := a.toUInt16.toInt16 - b.toUInt16.toInt16 - borrow.toInt16
  let result := full.toUInt16.toUInt8
  (result, { z := result == 0, n := true, h := half < 0, c := full < 0 })

/-- Subtract a byte from a byte. -/
def sub8 (a b : UInt8) : UInt8 × Flags := sbc8 a b false

/-- Add two words. H is the carry out of bit 11 and C the carry out of bit 15. -/
def add16 (a b : UInt16) : UInt16 × Flags :=
  let result := a + b
  (result,
    { z := result == 0
      n := false
      h := (a &&& 0x0FFF) + (b &&& 0x0FFF) > 0x0FFF
      c := a.toUInt32 + b.toUInt32 > 0xFFFF })

/-- Add a sign-extended offset to the stack pointer. H and C are those of the unsigned addition of
the low bytes, and Z and N are clear. -/
def addOffset (sp offset : UInt16) : UInt16 × Flags :=
  (sp + offset,
    { z := false
      n := false
      h := (sp &&& 0x000F) + (offset &&& 0x000F) > 0x000F
      c := (sp &&& 0x00FF) + (offset &&& 0x00FF) > 0x00FF })

/-- Add one. The carry stays as it was. -/
def inc8 (v : UInt8) (flags : Flags) : UInt8 × Flags :=
  let result := v + 1
  (result, { z := result == 0, n := false, h := v &&& 0x0F == 0x0F, c := flags.c })

/-- Subtract one. The carry stays as it was. -/
def dec8 (v : UInt8) (flags : Flags) : UInt8 × Flags :=
  let result := v - 1
  (result, { z := result == 0, n := true, h := v &&& 0x0F == 0, c := flags.c })

/-! ## Sums and differences as numbers -/

section

variable (a b : UInt8) (carry : Bool)

theorem toNat_lowNibble : (a &&& 0x0F).toNat = a.toNat % 16 :=
  Nat.and_two_pow_sub_one_eq_mod a.toNat 4

theorem toNat_toUInt8 : carry.toUInt8.toNat = carry.toNat := by
  cases carry <;> rfl

theorem toNat_toUInt16 : carry.toUInt16.toNat = carry.toNat := by
  cases carry <;> rfl

theorem toInt_toInt16 : carry.toInt16.toInt = carry.toNat := by
  cases carry <;> rfl

/-- A byte as a signed word is never negative. -/
theorem toInt_widened : a.toUInt16.toInt16.toInt = a.toNat := by
  have hbound : 2 * a.toUInt16.toBitVec.toNat < 2 ^ 16 := by
    have ha := a.toNat_lt
    change 2 * a.toNat < 65536
    omega
  exact BitVec.toInt_eq_toNat_of_lt hbound

theorem value_adc8 : (adc8 a b carry).1 = a + b + carry.toUInt8 := by
  simp only [adc8, UInt16.toUInt8_add, UInt8.toUInt8_toUInt16]
  cases carry <;> rfl

theorem half_adc8 :
    (adc8 a b carry).2.h = true ↔ 15 < a.toNat % 16 + b.toNat % 16 + carry.toNat := by
  have hcarry := carry.toNat_le
  simp only [adc8, decide_eq_true_iff, gt_iff_lt, UInt8.lt_iff_toNat_lt, UInt8.toNat_add,
    toNat_lowNibble, toNat_toUInt8]
  change 15 < _ ↔ _
  omega

theorem carry_adc8 : (adc8 a b carry).2.c = true ↔ 255 < a.toNat + b.toNat + carry.toNat := by
  have ha := a.toNat_lt
  have hb := b.toNat_lt
  have hcarry := carry.toNat_le
  simp only [adc8, decide_eq_true_iff, gt_iff_lt, UInt16.lt_iff_toNat_lt, UInt16.toNat_add,
    UInt8.toNat_toUInt16, toNat_toUInt16]
  change 255 < _ ↔ _
  omega

theorem value_sbc8 : (sbc8 a b carry).1 = a - b - carry.toUInt8 := by
  have hunsigned : (a.toUInt16.toInt16 - b.toUInt16.toInt16 - carry.toInt16).toUInt16 =
      a.toUInt16 - b.toUInt16 - carry.toUInt16 := by
    cases carry <;> rfl
  simp only [sbc8, hunsigned, UInt16.toUInt8_sub, UInt8.toUInt8_toUInt16]
  cases carry <;> rfl

/-- A difference of bytes as signed words is negative just if it needs a borrow. -/
theorem difference_neg : a.toUInt16.toInt16 - b.toUInt16.toInt16 - carry.toInt16 < 0 ↔
    a.toNat < b.toNat + carry.toNat := by
  have ha := a.toNat_lt
  have hb := b.toNat_lt
  have hcarry := carry.toNat_le
  have hdifference :
      (a.toUInt16.toInt16 - b.toUInt16.toInt16).toInt = (a.toNat : Int) - b.toNat := by
    rw [Int16.toInt_sub, toInt_widened, toInt_widened]
    exact Int.bmod_eq_of_le (by omega) (by omega)
  rw [Int16.lt_iff_toInt_lt, Int16.toInt_sub, hdifference, toInt_toInt16,
    Int.bmod_eq_of_le (by omega) (by omega)]
  change _ < 0 ↔ _
  omega

theorem half_sbc8 : (sbc8 a b carry).2.h = true ↔ a.toNat % 16 < b.toNat % 16 + carry.toNat := by
  simp only [sbc8, decide_eq_true_iff, difference_neg, toNat_lowNibble]

theorem borrow_sbc8 : (sbc8 a b carry).2.c = true ↔ a.toNat < b.toNat + carry.toNat := by
  simp only [sbc8, decide_eq_true_iff, difference_neg]

end

section

variable (a b : UInt16)

theorem half_add16 : (add16 a b).2.h = true ↔ 4095 < a.toNat % 4096 + b.toNat % 4096 := by
  have hlow (w : UInt16) : (w &&& 0x0FFF).toNat = w.toNat % 4096 :=
    Nat.and_two_pow_sub_one_eq_mod w.toNat 12
  simp only [add16, decide_eq_true_iff, gt_iff_lt, UInt16.lt_iff_toNat_lt, UInt16.toNat_add, hlow]
  change 4095 < _ ↔ _
  omega

theorem carry_add16 : (add16 a b).2.c = true ↔ 65535 < a.toNat + b.toNat := by
  have ha := a.toNat_lt
  have hb := b.toNat_lt
  simp only [add16, decide_eq_true_iff, gt_iff_lt, UInt32.lt_iff_toNat_lt, UInt32.toNat_add,
    UInt16.toNat_toUInt32]
  change 65535 < _ ↔ _
  omega

theorem half_addOffset : (addOffset a b).2.h = true ↔ 15 < a.toNat % 16 + b.toNat % 16 := by
  have hlow (w : UInt16) : (w &&& 0x000F).toNat = w.toNat % 16 :=
    Nat.and_two_pow_sub_one_eq_mod w.toNat 4
  simp only [addOffset, decide_eq_true_iff, gt_iff_lt, UInt16.lt_iff_toNat_lt, UInt16.toNat_add,
    hlow]
  change 15 < _ ↔ _
  omega

theorem carry_addOffset :
    (addOffset a b).2.c = true ↔ 255 < a.toNat % 256 + b.toNat % 256 := by
  have hlow (w : UInt16) : (w &&& 0x00FF).toNat = w.toNat % 256 :=
    Nat.and_two_pow_sub_one_eq_mod w.toNat 8
  simp only [addOffset, decide_eq_true_iff, gt_iff_lt, UInt16.lt_iff_toNat_lt, UInt16.toNat_add,
    hlow]
  change 255 < _ ↔ _
  omega

end

/-! ## Rotations and shifts -/

/-- The direction of a rotation. -/
inductive Direction where
  | left
  | right
  deriving DecidableEq, Repr

/-- A shifted byte with the bit that was shifted out as its carry. -/
@[inline] def shifted (result : UInt8) (out : Bool) : UInt8 × Flags :=
  (result, { z := result == 0, n := false, h := false, c := out })

/-- The top bit of a byte. -/
@[inline] def topBit (v : UInt8) : Bool := v &&& 0x80 != 0

/-- The lowest bit of a byte. -/
@[inline] def lowBit (v : UInt8) : Bool := v &&& 0x01 != 0

/-- Rotate by one bit. A circular rotation brings the bit that leaves back in at the other end; any
other one brings in the old carry. -/
def rotate (v : UInt8) (direction : Direction) (flags : Flags) (circular : Bool) :
    UInt8 × Flags :=
  match direction with
  | .left =>
    let entering := if circular then topBit v else flags.c
    shifted (v <<< 1 ||| entering.toUInt8) (topBit v)
  | .right =>
    let entering := if circular then lowBit v else flags.c
    shifted (v >>> 1 ||| entering.toUInt8 <<< 7) (lowBit v)

/-- Shift left; a zero enters. -/
def sla (v : UInt8) : UInt8 × Flags := shifted (v <<< 1) (topBit v)

/-- Shift right; the top bit keeps its value. -/
def sra (v : UInt8) : UInt8 × Flags := shifted (v >>> 1 ||| v &&& 0x80) (lowBit v)

/-- Shift right; a zero enters. -/
def srl (v : UInt8) : UInt8 × Flags := shifted (v >>> 1) (lowBit v)

/-- Exchange the two nibbles. The carry is cleared. -/
def swap (v : UInt8) : UInt8 × Flags := shifted (v <<< 4 ||| v >>> 4) false

/-- Test one bit: Z tells that it is clear, and the carry stays as it was. -/
def bitTest (v : UInt8) (bit : Fin 8) (flags : Flags) : Flags :=
  { z := !Byte.testBit v bit, n := false, h := true, c := flags.c }

/-! ## Decimal adjustment -/

/-- Bring the result of an addition or subtraction of packed decimals back to packed decimal form.
Each digit that overflowed is corrected by six; after a subtraction only the flags tell which. -/
def daa (a : UInt8) (flags : Flags) : UInt8 × Flags :=
  let low := flags.h || (!flags.n && a &&& 0x0F > 9)
  let high := flags.c || (!flags.n && a > 0x99)
  let adjust : UInt8 := (if low then 0x06 else 0) ||| (if high then 0x60 else 0)
  let result := if flags.n then a - adjust else a + adjust
  (result, { z := result == 0, n := flags.n, h := false, c := high })

/-! ## Families of operations -/

/-- An operation of the accumulator with another byte. -/
inductive AluOp where
  | add
  | adc
  | sub
  | sbc
  | and
  | xor
  | or
  | cp
  deriving DecidableEq, Repr

namespace AluOp

/-- The name of an operation in assembler text. -/
def name : AluOp → String
  | add => "ADD"
  | adc => "ADC"
  | sub => "SUB"
  | sbc => "SBC"
  | and => "AND"
  | xor => "XOR"
  | or => "OR"
  | cp => "CP"

/-- The result of a bitwise operation; of these only `and` sets H. -/
@[inline] def bitwise (result : UInt8) (half : Bool) : UInt8 × Flags :=
  (result, { z := result == 0, n := false, h := half, c := false })

/-- The accumulator and the flags after an operation. A comparison is a subtraction that leaves the
accumulator alone. -/
def apply (op : AluOp) (a v : UInt8) (flags : Flags) : UInt8 × Flags :=
  match op with
  | add => add8 a v
  | adc => adc8 a v flags.c
  | sub => sub8 a v
  | sbc => sbc8 a v flags.c
  | and => bitwise (a &&& v) true
  | xor => bitwise (a ^^^ v) false
  | or => bitwise (a ||| v) false
  | cp => (a, (sub8 a v).2)

end AluOp

/-- A rotation or shift of the extended page. -/
inductive ShiftOp where
  | rlc
  | rrc
  | rl
  | rr
  | sla
  | sra
  | swap
  | srl
  deriving DecidableEq, Repr

namespace ShiftOp

/-- The name of an operation in assembler text. -/
def name : ShiftOp → String
  | rlc => "RLC"
  | rrc => "RRC"
  | rl => "RL"
  | rr => "RR"
  | sla => "SLA"
  | sra => "SRA"
  | swap => "SWAP"
  | srl => "SRL"

/-- The byte and the flags after an operation. -/
def apply (op : ShiftOp) (v : UInt8) (flags : Flags) : UInt8 × Flags :=
  match op with
  | rlc => rotate v .left flags true
  | rrc => rotate v .right flags true
  | rl => rotate v .left flags false
  | rr => rotate v .right flags false
  | sla => Arithmetic.sla v
  | sra => Arithmetic.sra v
  | swap => Arithmetic.swap v
  | srl => Arithmetic.srl v

end ShiftOp

end GameBoy.Arithmetic
