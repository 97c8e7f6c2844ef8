import GameBoy.Word

/-!
# Bits of a byte

What the operations on bytes do bit by bit. The bits that the processor tests and sets are numbered
from 0 to 7 (`Byte.testBit`); a shift moves bits from number to number, which need no bound
(`Byte.bits`).
-/

namespace GameBoy

namespace Byte

variable (v w : UInt8) (n k : Fin 8)

theorem toBitVec_bit : ((1 : UInt8) <<< n.val.toUInt8).toBitVec = BitVec.twoPow 8 n := by
  revert n
  decide

theorem testBit_eq : testBit v n = v.toBitVec.getLsbD n := by
  have hbit : (v &&& 1 <<< n.val.toUInt8).toBitVec =
      if v.toBitVec.getLsbD n then BitVec.twoPow 8 n else 0 := by
    rw [UInt8.toBitVec_and, toBitVec_bit, BitVec.and_twoPow]
    rfl
  have hnonzero : ∀ n : Fin 8, BitVec.twoPow 8 n ≠ 0 := by decide
  rw [testBit, bne, ← Bool.not_inj_iff, Bool.not_not, Bool.eq_iff_iff, beq_iff_eq,
    ← UInt8.toBitVec_inj, hbit]
  cases v.toBitVec.getLsbD n with
  | false => simp
  | true => simpa using hnonzero n

theorem testBit_and : testBit (v &&& w) n = (testBit v n && testBit w n) := by
  simp only [testBit_eq, UInt8.toBitVec_and, BitVec.getLsbD_and]

theorem testBit_or : testBit (v ||| w) n = (testBit v n || testBit w n) := by
  simp only [testBit_eq, UInt8.toBitVec_or, BitVec.getLsbD_or]

theorem testBit_clearBit : testBit (clearBit v k) n = (testBit v n && n != k) := by
  have hbit : (BitVec.twoPow 8 k).getLsbD n = (n == k) := by
    revert n k
    decide
  simp only [testBit_eq, clearBit, UInt8.toBitVec_and, UInt8.toBitVec_not, toBitVec_bit,
    BitVec.getLsbD_and, BitVec.getLsbD_not, hbit, n.isLt, decide_true, Bool.true_and, bne]

theorem mask_lt : v &&& 0x1F < 0x20 := by
  rw [UInt8.lt_iff_toNat_lt, UInt8.toNat_and]
  exact Nat.lt_succ_of_le Nat.and_le_right

theorem or_lt {v w : UInt8} (hv : v < 0x20) (hw : w < 0x20) : v ||| w < 0x20 := by
  rw [UInt8.lt_iff_toNat_lt] at hv hw ⊢
  rw [UInt8.toNat_or]
  exact Nat.or_lt_two_pow hv hw (n := 5)

theorem clearBit_lt {v : UInt8} (h : v < 0x20) (k : Fin 8) : clearBit v k < 0x20 := by
  rw [UInt8.lt_iff_toNat_lt] at h ⊢
  rw [clearBit, UInt8.toNat_and]
  exact Nat.lt_of_le_of_lt Nat.and_le_left h

/-! ## Bits by number -/

/-- The bits of a byte. Beyond the eighth they are clear. -/
def bits (v : UInt8) (i : Nat) : Bool := v.toNat.testBit i

variable {i : Nat}

theorem testBit_eq_bits : testBit v n = bits v n := testBit_eq v n

theorem bits_eq_true : bits v n = true ↔ v &&& 1 <<< n.val.toUInt8 ≠ 0 := by
  rw [← testBit_eq_bits]
  exact bne_iff_ne

theorem bits_of_le (h : 8 ≤ i) : bits v i = false := BitVec.getLsbD_of_ge _ _ h

/-- A byte is its bits. -/
theorem ext_bits {v w : UInt8} (h : ∀ i < 8, bits v i = bits w i) : v = w := by
  apply UInt8.toBitVec_inj.1
  apply BitVec.eq_of_getLsbD_eq
  exact h

theorem bits_and : bits (v &&& w) i = (bits v i && bits w i) := Nat.testBit_and _ _ _

theorem bits_or : bits (v ||| w) i = (bits v i || bits w i) := Nat.testBit_or _ _ _

theorem bits_xor : bits (v ^^^ w) i = (bits v i).xor (bits w i) := Nat.testBit_xor _ _ _

theorem bits_setBit : bits (setBit v k) i = (bits v i || decide (i = k)) := by
  have hbit : bits (1 <<< k.val.toUInt8) i = decide (i = k) := by
    change ((1 : UInt8) <<< k.val.toUInt8).toBitVec.getLsbD i = _
    rw [toBitVec_bit, BitVec.getLsbD_twoPow]
    simp [eq_comm]
  rw [setBit, bits_or, hbit]

theorem bits_clearBit (h : i < 8) : bits (clearBit v k) i = (bits v i && decide (i ≠ k)) := by
  have hbit : bits (~~~(1 <<< k.val.toUInt8)) i = decide (i ≠ k) := by
    change (~~~((1 : UInt8) <<< k.val.toUInt8)).toBitVec.getLsbD i = _
    rw [UInt8.toBitVec_not, toBitVec_bit, BitVec.getLsbD_not, BitVec.getLsbD_twoPow]
    simp [h, eq_comm]
  rw [clearBit, bits_and, hbit]

theorem bits_toUInt8 (b : Bool) : bits b.toUInt8 i = (decide (i = 0) && b) := by
  cases b with
  | false =>
    rw [Bool.and_false]
    exact Nat.zero_testBit i
  | true =>
    rw [Bool.and_true, Bool.eq_iff_iff, decide_eq_true_iff]
    exact Nat.testBit_one_eq_true_iff_self_eq_zero

theorem bits_shiftLeft : bits (v <<< k.val.toUInt8) i =
    (decide (i < 8) && !decide (i < k) && bits v (i - k)) := by
  have hshift : (v <<< k.val.toUInt8).toBitVec = v.toBitVec <<< k.val := by
    match k with
    | 0 | 1 | 2 | 3 | 4 | 5 | 6 | 7 => rfl
  change (v <<< k.val.toUInt8).toBitVec.getLsbD i = _
  rw [hshift, BitVec.getLsbD_shiftLeft]
  rfl

theorem bits_shiftRight : bits (v >>> k.val.toUInt8) i = bits v (k + i) := by
  have hshift : (v >>> k.val.toUInt8).toBitVec = v.toBitVec >>> k.val := by
    match k with
    | 0 | 1 | 2 | 3 | 4 | 5 | 6 | 7 => rfl
  change (v >>> k.val.toUInt8).toBitVec.getLsbD i = _
  rw [hshift, BitVec.getLsbD_ushiftRight]
  rfl

/-- A shift to the left, with a bit that enters at the bottom. -/
theorem bits_enterLow (e : Bool) (h : i < 8) :
    bits (v <<< 1 ||| e.toUInt8) i = if i = 0 then e else bits v (i - 1) := by
  have hshift : bits (v <<< 1) i = (decide (i < 8) && !decide (i < 1) && bits v (i - 1)) :=
    bits_shiftLeft v 1
  rw [bits_or, hshift, bits_toUInt8]
  by_cases hi : i = 0 <;> simp [hi, h]

/-- A shift to the right, with a bit that enters at the top. -/
theorem bits_enterHigh (e : Bool) (h : i < 8) :
    bits (v >>> 1 ||| e.toUInt8 <<< 7) i = if i = 7 then e else bits v (i + 1) := by
  have hshift : bits (v >>> 1) i = bits v (1 + i) := bits_shiftRight v 1
  have henter : bits (e.toUInt8 <<< 7) i =
      (decide (i < 8) && !decide (i < 7) && bits e.toUInt8 (i - 7)) := bits_shiftLeft _ 7
  rw [bits_or, hshift, henter, bits_toUInt8]
  by_cases hi : i = 7
  · subst hi
    simp [bits_of_le]
  · have hlt : i < 7 := by omega
    simp [hi, hlt, Nat.add_comm]

/-- An exchange of the nibbles. -/
theorem bits_exchange (h : i < 8) : bits (v <<< 4 ||| v >>> 4) i = bits v ((i + 4) % 8) := by
  have hleft : bits (v <<< 4) i = (decide (i < 8) && !decide (i < 4) && bits v (i - 4)) :=
    bits_shiftLeft v 4
  have hright : bits (v >>> 4) i = bits v (4 + i) := bits_shiftRight v 4
  rw [bits_or, hleft, hright]
  by_cases hi : i < 4
  · have hindex : (i + 4) % 8 = 4 + i := by omega
    simp [hi, hindex]
  · have hindex : (i + 4) % 8 = i - 4 := by omega
    have hout : bits v (4 + i) = false := bits_of_le v (by omega)
    simp [hi, h, hindex, hout]

/-- The top bit alone. -/
theorem shiftLeft_top : (bits v 7).toUInt8 <<< 7 = v &&& 0x80 := by
  apply ext_bits
  intro i hi
  have hmask : ∀ i < 8, bits 0x80 i = decide (i = 7) := by decide
  have henter : bits ((bits v 7).toUInt8 <<< 7) i =
      (decide (i < 8) && !decide (i < 7) && bits (bits v 7).toUInt8 (i - 7)) := bits_shiftLeft _ 7
  rw [bits_and, hmask i hi, henter, bits_toUInt8]
  by_cases htop : i = 7
  · subst htop
    simp
  · have hlt : i < 7 := by omega
    simp [htop, hlt]

end Byte

end GameBoy
