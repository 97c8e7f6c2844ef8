import GameBoy.Proofs.Accumulator
import GameBoy.Proofs.Chains

/-!
# Binary numbers of any length

A byte is a digit in base 256, so additions and subtractions with a carry, worked through byte by
byte, are right for numbers of any length. The addition of two words is a chain of two bytes, though
it is written as one sum, and an offset leaves the flags of the low bytes.

Main statement: `byte_arithmetic`.
-/

namespace GameBoy

namespace Word

/-- A sign extension only adds a high byte. -/
theorem low_signExtend (e : UInt8) : low (signExtend e) = e := by
  rw [signExtend]
  split
  · exact UInt8.toUInt8_toUInt16 e
  · exact low_ofBytes 0xFF e

theorem toNat_signExtend_mod (e : UInt8) : (signExtend e).toNat % 256 = e.toNat := by
  rw [← toNat_low, low_signExtend]

end Word

namespace Arithmetic

/-! ## Bytes as digits -/

/-- Every byte is a digit. -/
def binary : Coding where
  base := 256
  one_lt := by decide
  IsDigit _ := True
  digit b := b.toNat
  byte n := n.toUInt8
  digit_lt {b} _ := b.toNat_lt
  byte_digit _ := UInt8.ofNat_toNat

/-- Addition with a carry. -/
def binarySum (c : Bool) (a v : UInt8) : UInt8 × Flags := adc8 a v c

/-- Subtraction with a borrow. -/
def binaryDifference (c : Bool) (a v : UInt8) : UInt8 × Flags := sbc8 a v c

section

variable (a v : UInt8) (c : Bool)

/-- What does not fit in the byte of a sum is its carry. -/
theorem toNat_carry_adc8 : (adc8 a v c).2.c.toNat = (a.toNat + v.toNat + c.toNat) / 256 := by
  have ha := a.toNat_lt
  have hv := v.toNat_lt
  have hc := c.toNat_le
  have hcarry := (isSum_adc8 a v c).c
  cases hout : (adc8 a v c).2.c with
  | false =>
    rw [hout, Bool.false_eq_true, false_iff] at hcarry
    rw [Bool.toNat_false]
    omega
  | true =>
    have hover := hcarry.1 hout
    rw [Bool.toNat_true]
    omega

/-- What is missing from the byte of a difference is its borrow. -/
theorem toNat_carry_sbc8 :
    (-(sbc8 a v c).2.c.toNat : Int) = ((a.toNat : Int) - v.toNat - c.toNat) / 256 := by
  have ha := a.toNat_lt
  have hv := v.toNat_lt
  have hc := c.toNat_le
  have hborrow := (isDifference_sbc8 a v c).c
  cases hout : (sbc8 a v c).2.c with
  | false =>
    rw [hout, Bool.false_eq_true, false_iff] at hborrow
    rw [Bool.toNat_false]
    omega
  | true =>
    have hunder := hborrow.1 hout
    rw [Bool.toNat_true]
    omega

end

theorem computes_binarySum : binary.Computes 1 binarySum where
  isDigit _ _ _ _ _ := trivial
  digit c a v _ _ := by
    have hvalue := (isSum_adc8 a v c).value
    have hcarry := toNat_carry_adc8 a v c
    simp only [binarySum, binary]
    omega

theorem computes_binaryDifference : binary.Computes (-1) binaryDifference where
  isDigit _ _ _ _ _ := trivial
  digit c a v _ _ := by
    have hvalue := (isDifference_sbc8 a v c).value
    have hborrow := toNat_carry_sbc8 a v c
    simp only [binaryDifference, binary]
    omega

/-! ## Numbers of any length -/

/-- Calculations on two numbers of `n` bytes, given from the lowest byte up, with a carry that goes
in. -/
structure ChainArithmetic {n : Nat} (xs ys : Vector UInt8 n) (c : Bool) : Prop where
  sum : binary.value (chain binarySum c (xs.zip ys).toList).1 =
    (binary.value xs.toList + binary.value ys.toList + c.toNat) % 256 ^ n
  carry : (chain binarySum c (xs.zip ys).toList).2 = true ↔
    256 ^ n ≤ binary.value xs.toList + binary.value ys.toList + c.toNat
  difference : binary.value (chain binaryDifference c (xs.zip ys).toList).1 =
    (binary.value xs.toList - binary.value ys.toList - c.toNat : Int) % 256 ^ n
  borrow : (chain binaryDifference c (xs.zip ys).toList).2 = true ↔
    binary.value xs.toList < binary.value ys.toList + c.toNat
  length : (chain binarySum c (xs.zip ys).toList).1.length = n ∧
    (chain binaryDifference c (xs.zip ys).toList).1.length = n

theorem chainArithmetic {n : Nat} (xs ys : Vector UInt8 n) (c : Bool) :
    ChainArithmetic xs ys c := by
  let ps := (xs.zip ys).toList
  have hps : ∀ p ∈ ps, binary.IsDigit p.1 ∧ binary.IsDigit p.2 := fun _ _ => ⟨trivial, trivial⟩
  have hzip : ps = xs.toList.zip ys.toList := Vector.toList_zip
  have hfst : ps.map Prod.fst = xs.toList := by
    rw [hzip]
    exact List.map_fst_zip (by rw [Vector.length_toList, Vector.length_toList])
  have hsnd : ps.map Prod.snd = ys.toList := by
    rw [hzip]
    exact List.map_snd_zip (by rw [Vector.length_toList, Vector.length_toList])
  have hlength : ps.length = n := Vector.length_toList
  have hsum := computes_binarySum.value_emod hps c
  have hcarry := Coding.Computes.carry_sum hps c computes_binarySum
  have hdifference := computes_binaryDifference.value_emod hps c
  have hborrow := Coding.Computes.carry_difference hps c computes_binaryDifference
  rw [hfst, hsnd] at hsum hcarry hdifference hborrow
  rw [hlength] at hsum hcarry hdifference
  have hplus : (binary.value xs.toList + 1 * (binary.value ys.toList + c.toNat) : Int) =
      (binary.value xs.toList + binary.value ys.toList + c.toNat : Nat) := by
    push_cast
    ring
  have hminus : (binary.value xs.toList + -1 * (binary.value ys.toList + c.toNat) : Int) =
      binary.value xs.toList - binary.value ys.toList - c.toNat := by ring
  have hpower : ((binary.base ^ n : Nat) : Int) = 256 ^ n := Int.natCast_pow 256 _
  refine ⟨?_, hcarry, ?_, hborrow, ?_, ?_⟩
  · rw [hplus, ← Int.natCast_mod] at hsum
    exact (Int.ofNat_inj.1 hsum).symm
  · rw [hminus, hpower] at hdifference
    exact hdifference.symm
  · exact (length_chain _ _ _).trans hlength
  · exact (length_chain _ _ _).trans hlength

/-! ## Words -/

/-- The sum of two words is that of their low bytes and, with the carry of these, that of their high
bytes; its flags, but for Z, are those of the high bytes. -/
structure AddsByBytes (a b : UInt16) : Prop where
  value : (add16 a b).1 = Word.ofBytes
    (adc8 (Word.high a) (Word.high b) (add8 (Word.low a) (Word.low b)).2.c).1
    (add8 (Word.low a) (Word.low b)).1
  h : (add16 a b).2.h =
    (adc8 (Word.high a) (Word.high b) (add8 (Word.low a) (Word.low b)).2.c).2.h
  c : (add16 a b).2.c =
    (adc8 (Word.high a) (Word.high b) (add8 (Word.low a) (Word.low b)).2.c).2.c

theorem addsByBytes (a b : UInt16) : AddsByBytes a b := by
  have hlow := (isSum_adc8 (Word.low a) (Word.low b) false).value
  have hbetween := toNat_carry_adc8 (Word.low a) (Word.low b) false
  obtain ⟨hhigh, -, -, hh, hc⟩ :=
    isSum_adc8 (Word.high a) (Word.high b) (add8 (Word.low a) (Word.low b)).2.c
  rw [Bool.toNat_false, Word.toNat_low, Word.toNat_low] at hlow hbetween
  rw [add8, hbetween, Word.toNat_high, Word.toNat_high] at hhigh hh hc
  refine ⟨?value, ?h, ?c⟩
  case value =>
    apply UInt16.toNat_inj.1
    rw [Word.toNat_ofBytes, add8, hhigh, hlow, add16, UInt16.toNat_add]
    omega
  case h =>
    rw [Bool.eq_iff_iff, add8, hh, half_add16]
    omega
  case c =>
    rw [Bool.eq_iff_iff, add8, hc, carry_add16]
    omega

/-- An offset leaves the flags H and C of the sum of the low bytes. -/
theorem addOffset_flags (sp : UInt16) (e : UInt8) :
    (addOffset sp (Word.signExtend e)).2.h = (add8 (Word.low sp) e).2.h ∧
    (addOffset sp (Word.signExtend e)).2.c = (add8 (Word.low sp) e).2.c := by
  have hoffset := Word.toNat_signExtend_mod e
  obtain ⟨-, -, -, hh, hc⟩ := isSum_adc8 (Word.low sp) e false
  rw [Bool.toNat_false, Word.toNat_low] at hh hc
  constructor
  · rw [Bool.eq_iff_iff, add8, hh, half_addOffset]
    omega
  · rw [Bool.eq_iff_iff, add8, hc, carry_addOffset]
    omega

/-- Arithmetic byte by byte is right for numbers of any length, and the additions of words are made
of additions of bytes. -/
theorem byte_arithmetic :
    (∀ (n : Nat) (xs ys : Vector UInt8 n) (c : Bool), ChainArithmetic xs ys c) ∧
    (∀ a b : UInt16, AddsByBytes a b) ∧
    ∀ (sp : UInt16) (e : UInt8),
      (addOffset sp (Word.signExtend e)).2.h = (add8 (Word.low sp) e).2.h ∧
      (addOffset sp (Word.signExtend e)).2.c = (add8 (Word.low sp) e).2.c :=
  ⟨fun _ => chainArithmetic, addsByBytes, addOffset_flags⟩

/-- A carry runs through bytes that are full, and a borrow through bytes that are zero. -/
example : chain binarySum true [(0xFF, 0xFF), (0xFF, 0x00), (0x12, 0x00)] =
      ([0xFF, 0x00, 0x13], false) ∧
    chain binaryDifference false [(0x00, 0x01), (0x00, 0x00)] = ([0xFF, 0xFF], true) := by decide

end Arithmetic

end GameBoy
