import GameBoy.Proofs.Binary
import GameBoy.Proofs.ExtendedPage

/-!
# Shifts of numbers of any length

A number of any length is shifted by one bit if its bytes are shifted one after the other and each
bit that leaves a byte enters the next one through the carry. To the left the lowest byte comes
first, to the right the highest. The shifts of the first byte are rotations of it with a chosen bit
coming in, so that there is one law for each direction, and everything follows from these two.

Main statement: `byte_shifts`.
-/

namespace GameBoy.Arithmetic

/-! ## Passes -/

/-- Rotate the bytes one after the other through the carry. -/
def rotateThrough (d : Direction) (f : Flags) : List UInt8 → List UInt8 × Flags
  | [] => ([], f)
  | b :: bs =>
    let (r, f) := rotate b d f false
    let (rs, f) := rotateThrough d f bs
    (r :: rs, f)

/-- Shift the first byte, and rotate the others through the carry that it leaves. No byte leaves no
flag. -/
def shiftThrough (shift : UInt8 → UInt8 × Flags) (d : Direction) :
    List UInt8 → List UInt8 × Flags
  | [] => ([], ⟨false, false, false, false⟩)
  | b :: bs =>
    let (r, f) := shift b
    let (rs, f) := rotateThrough d f bs
    (r :: rs, f)

/-- Go through the bytes of a number from the highest down. -/
def downwards (pass : List UInt8 → List UInt8 × Flags) (bs : List UInt8) : List UInt8 × Flags :=
  ((pass bs.reverse).1.reverse, (pass bs.reverse).2)

theorem length_rotateThrough (d : Direction) (f : Flags) (bs : List UInt8) :
    (rotateThrough d f bs).1.length = bs.length := by
  induction bs generalizing f with
  | nil => rfl
  | cons b bs ih => exact congrArg (· + 1) (ih _)

/-! ## One byte -/

section

variable (v : UInt8) (f : Flags)

theorem toNat_topBit : (topBit v).toNat = v.toNat / 128 := by
  have hv := v.toNat_lt
  rw [topBit_eq, Byte.bits, Nat.toNat_testBit]
  omega

theorem toNat_lowBit : (lowBit v).toNat = v.toNat % 2 := by
  rw [lowBit_eq, Byte.bits, Nat.toNat_testBit]
  omega

/-- A bit that enters at the bottom. -/
theorem toNat_enterLow (e : Bool) :
    (v <<< 1 ||| e.toUInt8).toNat = 2 * v.toNat % 256 + e.toNat := by
  have he : e.toNat < 2 ^ 1 := e.toNat_lt
  have hshift : (v <<< 1).toNat = (v.toNat % 128) <<< 1 := by
    have hleft : (v <<< 1).toNat = v.toNat <<< 1 % 256 := rfl
    rw [hleft, Nat.shiftLeft_eq, Nat.shiftLeft_eq]
    omega
  rw [UInt8.toNat_or, toNat_toUInt8, hshift, ← Nat.shiftLeft_add_eq_or_of_lt he, Nat.shiftLeft_eq]
  omega

/-- A bit that enters at the top. -/
theorem toNat_enterHigh (e : Bool) :
    (v >>> 1 ||| e.toUInt8 <<< 7).toNat = v.toNat / 2 + 128 * e.toNat := by
  have hv := v.toNat_lt
  have hright : (v >>> 1).toNat = v.toNat / 2 := rfl
  have hlow : v.toNat / 2 < 2 ^ 7 := by omega
  have hshift : (e.toUInt8 <<< 7).toNat = e.toNat <<< 7 := by
    cases e <;> rfl
  rw [UInt8.toNat_or, hright, hshift, Nat.or_comm, ← Nat.shiftLeft_add_eq_or_of_lt hlow,
    Nat.shiftLeft_eq]
  omega

/-- A rotation to the left doubles a byte and adds the carry. -/
theorem rotate_left : (rotate v .left f false).1.toNat +
    256 * (rotate v .left f false).2.c.toNat = 2 * v.toNat + f.c.toNat := by
  have hresult : (rotate v .left f false).1.toNat = _ := toNat_enterLow v f.c
  have hout : (rotate v .left f false).2.c.toNat = _ := toNat_topBit v
  rw [hresult, hout]
  omega

/-- A rotation to the right halves a byte with the carry above it. -/
theorem rotate_right : 2 * (rotate v .right f false).1.toNat +
    (rotate v .right f false).2.c.toNat = v.toNat + 256 * f.c.toNat := by
  have hresult : (rotate v .right f false).1.toNat = _ := toNat_enterHigh v f.c
  have hout : (rotate v .right f false).2.c.toNat = _ := toNat_lowBit v
  rw [hresult, hout]
  omega

end

/-! ## Numbers of any length -/

theorem value_binary_cons (b : UInt8) (bs : List UInt8) :
    binary.value (b :: bs) = b.toNat + 256 * binary.value bs := binary.value_cons b bs

theorem value_binary_concat (bs : List UInt8) (b : UInt8) :
    binary.value (bs ++ [b]) = binary.value bs + 256 ^ bs.length * b.toNat :=
  binary.value_concat bs b

theorem value_binary_lt (bs : List UInt8) : binary.value bs < 256 ^ bs.length :=
  Coding.value_lt fun _ _ => trivial

/-- A number and the carry: to the left, each byte hands on what its double has too much. -/
theorem value_rotate_left (f : Flags) (bs : List UInt8) :
    binary.value (rotateThrough .left f bs).1 +
        256 ^ bs.length * (rotateThrough .left f bs).2.c.toNat =
      2 * binary.value bs + f.c.toNat := by
  induction bs generalizing f with
  | nil => simp [rotateThrough, Coding.value_nil]
  | cons b bs ih =>
    have hbyte := rotate_left b f
    have hrest := ih (rotate b .left f false).2
    simp only [rotateThrough, value_binary_cons, List.length_cons, pow_succ]
    linear_combination hbyte + 256 * hrest

/-- To the right, each byte hands down what is left of its half. -/
theorem value_rotate_right (f : Flags) (bs : List UInt8) :
    2 * binary.value (rotateThrough .right f bs).1.reverse +
        (rotateThrough .right f bs).2.c.toNat =
      binary.value bs.reverse + 256 ^ bs.length * f.c.toNat := by
  induction bs generalizing f with
  | nil => simp [rotateThrough, Coding.value_nil]
  | cons b bs ih =>
    have hbyte := rotate_right b f
    have hrest := ih (rotate b .right f false).2
    simp only [rotateThrough, List.reverse_cons, value_binary_concat, List.length_reverse,
      length_rotateThrough, List.length_cons, pow_succ]
    linear_combination 256 ^ bs.length * hbyte + hrest

/-! ## Shifts -/

section

variable {v : UInt8} {f : Flags}

theorem sla_eq (h : f.c = false) : sla v = rotate v .left f false := by
  have hnone : v <<< 1 ||| false.toUInt8 = v <<< 1 := UInt8.or_zero
  rw [rotate, if_neg Bool.false_ne_true, h, hnone, sla]

theorem srl_eq (h : f.c = false) : srl v = rotate v .right f false := by
  have hnone : v >>> 1 ||| false.toUInt8 <<< 7 = v >>> 1 := UInt8.or_zero
  rw [rotate, if_neg Bool.false_ne_true, h, hnone, srl]

theorem sra_eq (h : f.c = topBit v) : sra v = rotate v .right f false := by
  rw [rotate, if_neg Bool.false_ne_true, h, topBit_eq, Byte.shiftLeft_top, sra]

end

/-- A pass of shifts is one of rotations, if the first byte is rotated with the flags `f`. -/
theorem shiftThrough_cons {shift : UInt8 → UInt8 × Flags} {d : Direction} {f : Flags} {b : UInt8}
    (h : shift b = rotate b d f false) (bs : List UInt8) :
    shiftThrough shift d (b :: bs) = rotateThrough d f (b :: bs) := by
  simp only [shiftThrough, rotateThrough, h]

/-- Flags with nothing but the carry. -/
def carryOnly (c : Bool) : Flags := ⟨false, false, false, c⟩

theorem shiftThrough_sla (bs : List UInt8) :
    shiftThrough sla .left bs = rotateThrough .left (carryOnly false) bs := by
  cases bs with
  | nil => rfl
  | cons b bs => exact shiftThrough_cons (sla_eq rfl) bs

theorem shiftThrough_srl (bs : List UInt8) :
    shiftThrough srl .right bs = rotateThrough .right (carryOnly false) bs := by
  cases bs with
  | nil => rfl
  | cons b bs => exact shiftThrough_cons (srl_eq rfl) bs

/-! ## As words -/

/-- The number with the given bytes, lowest first, as a word of `8 * n` bits. -/
def bitVec (n : Nat) (bs : List UInt8) : BitVec (8 * n) := BitVec.ofNat (8 * n) (binary.value bs)

/-- The bits of a number with the carry above them. -/
def ring (n : Nat) (bs : List UInt8) (c : Bool) : BitVec (8 * n + 1) := BitVec.cons c (bitVec n bs)

theorem two_pow_eight_mul (n : Nat) : 2 ^ (8 * n) = 256 ^ n := pow_mul 2 8 n

theorem toNat_bitVec {n : Nat} {bs : List UInt8} (h : bs.length = n) :
    (bitVec n bs).toNat = binary.value bs := by
  have hlt := value_binary_lt bs
  rw [h] at hlt
  rw [bitVec, BitVec.toNat_ofNat, two_pow_eight_mul, Nat.mod_eq_of_lt hlt]

theorem toNat_ring {n : Nat} {bs : List UInt8} (h : bs.length = n) (c : Bool) :
    (ring n bs c).toNat = 256 ^ n * c.toNat + binary.value bs := by
  rw [ring, BitVec.toNat_cons, ← Nat.shiftLeft_add_eq_or_of_lt (bitVec n bs).isLt, toNat_bitVec h,
    Nat.shiftLeft_eq, two_pow_eight_mul, Nat.mul_comm]

theorem toNat_rotateLeft {w : Nat} (x : BitVec (w + 1)) :
    (x.rotateLeft 1).toNat = 2 * x.toNat % 2 ^ (w + 1) + x.toNat / 2 ^ w := by
  have hx := x.isLt
  cases w with
  | zero =>
    have hone : ∀ x : BitVec 1, x.rotateLeft 1 = x := by decide
    rw [hone]
    omega
  | succ w =>
    have htop : x.toNat >>> (w + 1) < 2 ^ 1 := by
      rw [Nat.shiftRight_eq_div_pow]
      exact Nat.div_lt_of_lt_mul (by rwa [← pow_add])
    have hshift : x.toNat <<< 1 % 2 ^ (w + 1 + 1) = (x.toNat % 2 ^ (w + 1)) <<< 1 := by
      rw [Nat.shiftLeft_eq, Nat.shiftLeft_eq, pow_succ 2 (w + 1), Nat.mul_mod_mul_right, pow_one]
    have hcount : 1 % (w + 1 + 1) = 1 := Nat.mod_eq_of_lt (by omega)
    rw [BitVec.toNat_rotateLeft, hcount, hshift, Nat.add_sub_cancel,
      ← Nat.shiftLeft_add_eq_or_of_lt htop, ← hshift, Nat.shiftLeft_eq, Nat.shiftRight_eq_div_pow,
      pow_one, Nat.mul_comm x.toNat]

theorem toNat_rotateRight {w : Nat} (x : BitVec (w + 1)) :
    (x.rotateRight 1).toNat = x.toNat / 2 + 2 ^ w * (x.toNat % 2) := by
  have hx := x.isLt
  cases w with
  | zero =>
    have hone : ∀ x : BitVec 1, x.rotateRight 1 = x := by decide
    rw [hone]
    omega
  | succ w =>
    have hlow : x.toNat / 2 < 2 ^ (w + 1) := by omega
    have hshift : x.toNat <<< (w + 1) % 2 ^ (w + 1 + 1) = (x.toNat % 2) <<< (w + 1) := by
      rw [Nat.shiftLeft_eq, Nat.shiftLeft_eq, pow_succ' 2 (w + 1), Nat.mul_mod_mul_right]
    have hcount : 1 % (w + 1 + 1) = 1 := Nat.mod_eq_of_lt (by omega)
    rw [BitVec.toNat_rotateRight, hcount, Nat.add_sub_cancel, hshift, Nat.shiftRight_one,
      Nat.or_comm, ← Nat.shiftLeft_add_eq_or_of_lt hlow, Nat.shiftLeft_eq]
    ring

/-- The number with the given bytes in two's complement. -/
theorem toInt_bitVec {n : Nat} {bs : List UInt8} (h : bs.length = n) : (bitVec n bs).toInt =
    if 2 * binary.value bs < 256 ^ n then (binary.value bs : Int)
    else binary.value bs - (256 ^ n : Nat) := by
  rw [BitVec.toInt_eq_toNat_cond, toNat_bitVec h, two_pow_eight_mul]

/-! ## The top bit -/

theorem testBit_top {x n : Nat} (h : x < 256 ^ n) :
    x.testBit (8 * n - 1) = decide (256 ^ n ≤ 2 * x) := by
  cases n with
  | zero =>
    have hx : x = 0 := by omega
    rw [hx]
    rfl
  | succ n =>
    have hindex : 8 * (n + 1) - 1 = 8 * n + 7 := by omega
    have hpower : 256 ^ (n + 1) = 2 * 2 ^ (8 * n + 7) := by
      rw [← two_pow_eight_mul, ← pow_succ']
      exact congrArg (2 ^ ·) (by omega)
    rw [hpower] at h
    rw [hindex, hpower, Nat.testBit_eq_decide_div_mod_eq, decide_eq_decide,
      Nat.mul_le_mul_left_iff Nat.two_pos]
    by_cases hle : 2 ^ (8 * n + 7) ≤ x
    · have hone : x / 2 ^ (8 * n + 7) = 1 := Nat.div_eq_of_lt_le (by omega) (by omega)
      simp only [hone, hle]
    · have hzero : x / 2 ^ (8 * n + 7) = 0 := Nat.div_eq_of_lt (by omega)
      simp [hzero, hle]

/-- The top bit of a number is that of its highest byte. -/
theorem topBit_concat (bs : List UInt8) (b : UInt8) :
    topBit b = true ↔ 256 ^ (bs.length + 1) ≤ 2 * binary.value (bs ++ [b]) := by
  have hlt := value_binary_lt bs
  have htop : topBit b = true ↔ 128 ≤ b.toNat := by
    have hb := b.toNat_lt
    have hbit := toNat_topBit b
    cases hout : topBit b <;> simp [hout] at hbit ⊢ <;> omega
  rw [htop, value_binary_concat, pow_succ]
  constructor
  · intro hb
    have hmul := Nat.mul_le_mul_left (256 ^ bs.length) hb
    omega
  · intro hle
    by_contra hb
    have hmul := Nat.mul_le_mul_left (256 ^ bs.length) (Nat.le_of_lt_succ (Nat.lt_of_not_le hb))
    omega

/-! ## Laws -/

/-- A shift of a number by one bit. The number has its lowest byte first. -/
structure ByteShifts (xs : List UInt8) : Prop where
  left : binary.value (shiftThrough sla .left xs).1 = 2 * binary.value xs % 256 ^ xs.length
  leftCarry : (shiftThrough sla .left xs).2.c = (binary.value xs).testBit (8 * xs.length - 1)
  right : binary.value (downwards (shiftThrough srl .right) xs).1 = binary.value xs / 2
  rightCarry : (downwards (shiftThrough srl .right) xs).2.c.toNat = binary.value xs % 2
  signed : (bitVec xs.length (downwards (shiftThrough sra .right) xs).1).toInt =
    (bitVec xs.length xs).toInt / 2

/-- A rotation of a number by one bit, with the carry as one more bit above it. -/
structure ByteRotations (f : Flags) (xs : List UInt8) : Prop where
  left : ring xs.length (rotateThrough .left f xs).1 (rotateThrough .left f xs).2.c =
    (ring xs.length xs f.c).rotateLeft 1
  right : ring xs.length (downwards (rotateThrough .right f) xs).1
      (downwards (rotateThrough .right f) xs).2.c =
    (ring xs.length xs f.c).rotateRight 1
  restored :
    let (ys, g) := rotateThrough .left f xs
    (downwards (rotateThrough .right g) ys).1 = xs ∧
    (downwards (rotateThrough .right g) ys).2.c = f.c

theorem value_rotate_down (f : Flags) (xs : List UInt8) :
    2 * binary.value (downwards (rotateThrough .right f) xs).1 +
        (downwards (rotateThrough .right f) xs).2.c.toNat =
      binary.value xs + 256 ^ xs.length * f.c.toNat := by
  have hvalue := value_rotate_right f xs.reverse
  rwa [List.reverse_reverse, List.length_reverse] at hvalue

theorem length_rotate_down (f : Flags) (xs : List UInt8) :
    (downwards (rotateThrough .right f) xs).1.length = xs.length := by
  rw [downwards, List.length_reverse, length_rotateThrough, List.length_reverse]

/-- With its top bit kept above it, half of a number is the floor of the signed half. -/
theorem half_signed {q x y : Nat} {top out : Bool} (hx : x < q) (htop : top = true ↔ q ≤ 2 * x)
    (hy : 2 * y + out.toNat = x + q * top.toNat) :
    (if 2 * y < q then (y : Int) else y - q) = (if 2 * x < q then (x : Int) else x - q) / 2 := by
  have hout := out.toNat_le
  cases top with
  | false =>
    simp only [Bool.false_eq_true, false_iff] at htop
    rw [Bool.toNat_false] at hy
    rw [if_pos (by omega), if_pos (by omega)]
    omega
  | true =>
    have hle := htop.1 rfl
    rw [Bool.toNat_true] at hy
    rw [if_neg (by omega), if_neg (by omega)]
    omega

theorem toInt_shift_down (xs : List UInt8) :
    (bitVec xs.length (downwards (shiftThrough sra .right) xs).1).toInt =
      (bitVec xs.length xs).toInt / 2 := by
  cases hxs : xs.reverse with
  | nil =>
    rw [List.reverse_eq_nil_iff.1 hxs]
    rfl
  | cons b bs =>
    have hconcat : bs.reverse ++ [b] = xs := by
      rw [← List.reverse_cons, ← hxs, List.reverse_reverse]
    have hlength : bs.reverse.length + 1 = xs.length := by
      rw [← hconcat, List.length_append, List.length_singleton]
    have htop := topBit_concat bs.reverse b
    have hfirst : sra b = rotate b .right (carryOnly (topBit b)) false := sra_eq rfl
    have hpass : downwards (shiftThrough sra .right) xs =
        downwards (rotateThrough .right (carryOnly (topBit b))) xs := by
      rw [downwards, downwards, hxs, shiftThrough_cons hfirst]
    rw [hconcat, hlength] at htop
    rw [hpass, toInt_bitVec (length_rotate_down _ xs), toInt_bitVec rfl]
    exact half_signed (value_binary_lt xs) htop (value_rotate_down (carryOnly (topBit b)) xs)

theorem byteShifts (xs : List UInt8) : ByteShifts xs := by
  have hlt := value_binary_lt xs
  have hleft := value_rotate_left (carryOnly false) xs
  have hright := value_rotate_down (carryOnly false) xs
  have hsrl : downwards (shiftThrough srl .right) xs =
      downwards (rotateThrough .right (carryOnly false)) xs := by
    rw [downwards, shiftThrough_srl, downwards]
  have hdouble := value_binary_lt (rotateThrough .left (carryOnly false) xs).1
  have hin : (carryOnly false).c.toNat = 0 := rfl
  have hout := (downwards (rotateThrough .right (carryOnly false)) xs).2.c.toNat_le
  rw [length_rotateThrough] at hdouble
  rw [hin, Nat.add_zero] at hleft
  rw [hin, Nat.mul_zero, Nat.add_zero] at hright
  refine ⟨?left, ?leftCarry, ?right, ?rightCarry, toInt_shift_down xs⟩
  case left =>
    rw [shiftThrough_sla, ← hleft, Nat.add_mul_mod_self_left, Nat.mod_eq_of_lt hdouble]
  case leftCarry =>
    rw [shiftThrough_sla, testBit_top hlt, ← hleft]
    cases (rotateThrough .left (carryOnly false) xs).2.c with
    | false =>
      rw [Bool.toNat_false]
      exact (decide_eq_false (by omega)).symm
    | true =>
      rw [Bool.toNat_true]
      exact (decide_eq_true (by omega)).symm
  case right =>
    rw [hsrl]
    omega
  case rightCarry =>
    rw [hsrl]
    omega

theorem byteRotations (f : Flags) (xs : List UInt8) : ByteRotations f xs := by
  have hlt := value_binary_lt xs
  have hleft := value_rotate_left f xs
  have hright := value_rotate_down f xs
  have hin := f.c.toNat_le
  have hbits : (ring xs.length xs f.c).toNat = _ := toNat_ring rfl f.c
  refine ⟨?left, ?right, ?restored⟩
  case left =>
    have hpos : 0 < 256 ^ xs.length := Nat.pow_pos (by decide)
    apply BitVec.eq_of_toNat_eq
    rw [toNat_ring (length_rotateThrough _ _ _), toNat_rotateLeft, hbits, Nat.add_comm, hleft,
      pow_succ', two_pow_eight_mul, Nat.mul_mod_mul_left, Nat.mul_add_mod, Nat.mod_eq_of_lt hlt,
      Nat.mul_add_div hpos, Nat.div_eq_of_lt hlt, Nat.add_zero]
  case right =>
    have hout := (downwards (rotateThrough .right f) xs).2.c.toNat_le
    have hhalf : (256 ^ xs.length * f.c.toNat + binary.value xs) / 2 =
        binary.value (downwards (rotateThrough .right f) xs).1 := by omega
    have hrest : (256 ^ xs.length * f.c.toNat + binary.value xs) % 2 =
        (downwards (rotateThrough .right f) xs).2.c.toNat := by omega
    apply BitVec.eq_of_toNat_eq
    rw [toNat_ring (length_rotate_down _ _), toNat_rotateRight, hbits, two_pow_eight_mul, hhalf,
      hrest, Nat.add_comm]
  case restored =>
    have hback := value_rotate_down (rotateThrough .left f xs).2 (rotateThrough .left f xs).1
    have hlength := length_rotateThrough .left f xs
    have hout := (downwards (rotateThrough .right (rotateThrough .left f xs).2)
      (rotateThrough .left f xs).1).2.c.toNat_le
    rw [hlength, hleft] at hback
    refine ⟨Coding.value_inj (k := binary) (fun _ _ => trivial) (fun _ _ => trivial) ?_ ?_, ?_⟩
    · exact (length_rotate_down _ _).trans hlength
    · omega
    · have hinj : ∀ a b : Bool, a.toNat = b.toNat → a = b := by decide
      exact hinj _ _ (by omega)

/-- Byte by byte, shifts of a number of any length double it or halve it, as an unsigned or as a
signed one, and rotations turn its bits and the carry, so that each direction undoes the other. -/
theorem byte_shifts (f : Flags) (xs : List UInt8) : ByteShifts xs ∧ ByteRotations f xs :=
  ⟨byteShifts xs, byteRotations f xs⟩

/-- -256 halved is -128, and the carry that comes out of a rotation is the top bit. -/
example : downwards (shiftThrough sra .right) [0x00, 0xFF] = ([0x80, 0xFF], carryOnly false) ∧
    rotateThrough .left (carryOnly true) [0x80, 0x80] = ([0x01, 0x01], carryOnly true) := by decide

end GameBoy.Arithmetic
