/-!
# Bytes and words

The machine moves bytes and combines them into 16-bit words. A word is written as its high and low
byte; a signed byte becomes a word by sign extension; single bits are numbered from the lowest.
-/

namespace GameBoy

namespace Word

/-- The word with the given high and low byte. -/
@[inline] def ofBytes (high low : UInt8) : UInt16 := high.toUInt16 <<< 8 ||| low.toUInt16

/-- The high byte of a word. -/
@[inline] def high (w : UInt16) : UInt8 := (w >>> 8).toUInt8

/-- The low byte of a word. -/
@[inline] def low (w : UInt16) : UInt8 := w.toUInt8

/-- The word that stands for the same signed number as `b`. -/
@[inline] def signExtend (b : UInt8) : UInt16 :=
  if b < 0x80 then b.toUInt16 else 0xFF00 ||| b.toUInt16

theorem toNat_ofBytes (high low : UInt8) :
    (ofBytes high low).toNat = high.toNat * 256 + low.toNat := by
  have := high.toNat_lt
  have hlow := low.toNat_lt
  simp only [ofBytes, UInt16.toNat_or, UInt16.toNat_shiftLeft, UInt8.toNat_toUInt16]
  rw [show (8 : UInt16).toNat % 16 = 8 from rfl,
    Nat.mod_eq_of_lt (by rw [Nat.shiftLeft_eq]; omega),
    ← Nat.shiftLeft_add_eq_or_of_lt hlow, Nat.shiftLeft_eq]

theorem toNat_high (w : UInt16) : (high w).toNat = w.toNat / 256 := by
  have := w.toNat_lt
  simp only [high, UInt16.toNat_toUInt8, UInt16.toNat_shiftRight]
  rw [show (8 : UInt16).toNat % 16 = 8 from rfl, Nat.shiftRight_eq_div_pow]
  omega

theorem toNat_low (w : UInt16) : (low w).toNat = w.toNat % 256 := by
  simp [low]

theorem high_ofBytes (a b : UInt8) : high (ofBytes a b) = a := by
  have := b.toNat_lt
  apply UInt8.toNat_inj.1
  rw [toNat_high, toNat_ofBytes]
  omega

theorem low_ofBytes (a b : UInt8) : low (ofBytes a b) = b := by
  have := b.toNat_lt
  apply UInt8.toNat_inj.1
  rw [toNat_low, toNat_ofBytes]
  omega

/-- A word is the pair of its bytes. -/
theorem ofBytes_high_low (w : UInt16) : ofBytes (high w) (low w) = w := by
  apply UInt16.toNat_inj.1
  rw [toNat_ofBytes, toNat_high, toNat_low]
  omega

end Word

namespace Byte

/-- Whether bit `n` is set. -/
@[inline] def testBit (v : UInt8) (n : Fin 8) : Bool := v &&& (1 <<< n.val.toUInt8) != 0

/-- `v` with bit `n` set. -/
@[inline] def setBit (v : UInt8) (n : Fin 8) : UInt8 := v ||| (1 <<< n.val.toUInt8)

/-- `v` with bit `n` cleared. -/
@[inline] def clearBit (v : UInt8) (n : Fin 8) : UInt8 := v &&& ~~~(1 <<< n.val.toUInt8)

end Byte

end GameBoy
