import GameBoy.Proofs.Accumulator
import GameBoy.Proofs.Chains

/-!
# Packed decimals

A packed decimal has a decimal digit in each nibble. A binary addition or subtraction of two of them
leaves the digits that overflowed off by six, and the flags together with the byte tell which these
are, so the adjustment puts them right and reports the decimal carry.

Main statement: `packed_arithmetic`.
-/

namespace GameBoy

namespace Arithmetic

/-! ## Packed bytes -/

/-- Two decimal digits in a byte, the higher one in the higher nibble. -/
def packed : Coding where
  base := 100
  one_lt := by decide
  IsDigit b := b.toNat / 16 ≤ 9 ∧ b.toNat % 16 ≤ 9
  digit b := 10 * (b.toNat / 16) + b.toNat % 16
  byte k := (16 * (k / 10) + k % 10).toUInt8
  digit_lt := by
    intro b hb
    omega
  byte_digit := by
    intro b hb
    apply UInt8.toNat_inj.1
    rw [UInt8.toNat_ofNat']
    omega

instance : DecidablePred packed.IsDigit := fun b =>
  inferInstanceAs (Decidable (b.toNat / 16 ≤ 9 ∧ b.toNat % 16 ≤ 9))

/-- Addition with a carry, and the adjustment. -/
def decimalSum (c : Bool) (a v : UInt8) : UInt8 × Flags := daa (adc8 a v c).1 (adc8 a v c).2

/-- Subtraction with a borrow, and the adjustment. -/
def decimalDifference (c : Bool) (a v : UInt8) : UInt8 × Flags := daa (sbc8 a v c).1 (sbc8 a v c).2

/-! ## The adjustment -/

theorem toNat_adjust (low high : Bool) :
    ((if low then 0x06 else 0) ||| (if high then 0x60 else 0) : UInt8).toNat =
      6 * low.toNat + 96 * high.toNat := by
  cases low <;> cases high <;> rfl

/-- After an addition a digit is corrected if it overflowed or is none. -/
theorem daa_sum {r : UInt8} {f : Flags} (hn : f.n = false) : ∃ low high : Bool,
    (low = true ↔ f.h = true ∨ 9 < r.toNat % 16) ∧ (high = true ↔ f.c = true ∨ 0x99 < r.toNat) ∧
    (daa r f).1.toNat = (r.toNat + (6 * low.toNat + 96 * high.toNat)) % 256 ∧
    (daa r f).2.c = high := by
  have hnibble : r &&& 0x0F > 9 ↔ 9 < r.toNat % 16 := by
    have hmod : r.toNat &&& 0x0F = r.toNat % 16 := Nat.and_two_pow_sub_one_eq_mod r.toNat 4
    rw [gt_iff_lt, UInt8.lt_iff_toNat_lt, UInt8.toNat_and, ← hmod]
    rfl
  have hbyte : r > 0x99 ↔ 0x99 < r.toNat := UInt8.lt_iff_toNat_lt
  refine ⟨f.h || decide (r &&& 0x0F > 9), f.c || decide (r > 0x99), ?_, ?_, ?_, ?_⟩
  · rw [Bool.or_eq_true, decide_eq_true_iff, hnibble]
  · rw [Bool.or_eq_true, decide_eq_true_iff, hbyte]
  · simp only [daa, hn, Bool.not_false, Bool.true_and, Bool.false_eq_true, if_false]
    rw [UInt8.toNat_add, toNat_adjust]
  · simp only [daa, hn, Bool.not_false, Bool.true_and]

/-- After a subtraction the flags tell which digits need a correction. -/
theorem daa_difference {r : UInt8} {f : Flags} (hn : f.n = true) :
    (daa r f).1.toNat = (256 - (6 * f.h.toNat + 96 * f.c.toNat) + r.toNat) % 256 ∧
    (daa r f).2.c = f.c := by
  simp only [daa, hn, Bool.not_true, Bool.false_and, Bool.or_false, if_true, and_true]
  rw [UInt8.toNat_sub, toNat_adjust]

variable (c : Bool) {a v : UInt8}

/-- Two packed bytes and a carry add up to a packed byte and a carry. -/
theorem decimalSum_eq (ha : packed.IsDigit a) (hv : packed.IsDigit v) :
    packed.IsDigit (decimalSum c a v).1 ∧
    packed.digit (decimalSum c a v).1 + 100 * (decimalSum c a v).2.c.toNat =
      packed.digit a + packed.digit v + c.toNat := by
  obtain ⟨hvalue, -, hn, hh, hc⟩ := isSum_adc8 a v c
  obtain ⟨low, high, hlow, hhigh, hresult, hcarry⟩ := daa_sum (r := (adc8 a v c).1) hn
  have hc' := c.toNat_le
  simp only [packed] at ha hv ⊢
  rw [decimalSum, hcarry, hresult]
  rw [hh] at hlow
  rw [hc] at hhigh
  cases low <;> cases high <;>
    simp only [Bool.false_eq_true, false_iff, true_iff, not_or, Bool.toNat_false, Bool.toNat_true]
      at hlow hhigh ⊢ <;>
    omega

/-- A packed byte less another one and a borrow is a packed byte and a borrow. -/
theorem decimalDifference_eq (ha : packed.IsDigit a) (hv : packed.IsDigit v) :
    packed.IsDigit (decimalDifference c a v).1 ∧
    packed.digit (decimalDifference c a v).1 + packed.digit v + c.toNat =
      packed.digit a + 100 * (decimalDifference c a v).2.c.toNat := by
  obtain ⟨hvalue, -, hn, hh, hc⟩ := isDifference_sbc8 a v c
  obtain ⟨hresult, hcarry⟩ := daa_difference (r := (sbc8 a v c).1) hn
  have hc' := c.toNat_le
  simp only [packed] at ha hv ⊢
  rw [decimalDifference, hcarry, hresult]
  cases hhalf : (sbc8 a v c).2.h <;> cases hfull : (sbc8 a v c).2.c <;>
    simp only [hhalf, hfull, Bool.false_eq_true, false_iff, true_iff, Bool.toNat_false,
      Bool.toNat_true] at hh hc ⊢ <;>
    omega

theorem computes_sum : packed.Computes 1 decimalSum where
  isDigit c _ _ ha hv := (decimalSum_eq c ha hv).1
  digit c a v ha hv := by
    have hdigit := (decimalSum_eq c ha hv).2
    have hbase : packed.base = 100 := rfl
    rw [hbase]
    omega

theorem computes_difference : packed.Computes (-1) decimalDifference where
  isDigit c _ _ ha hv := (decimalDifference_eq c ha hv).1
  digit c a v ha hv := by
    have hdigit := (decimalDifference_eq c ha hv).2
    have hbase : packed.base = 100 := rfl
    rw [hbase]
    omega

end Arithmetic

/-! ## On the processor -/

namespace Instruction

/-- Add a place, given by its number, and the carry to the accumulator. -/
def adc (z : Fin 8) : Instruction := ⟨0x88 + z.val.toUInt8, false⟩

/-- Subtract a place, given by its number, and the carry from the accumulator. -/
def sbc (z : Fin 8) : Instruction := ⟨0x98 + z.val.toUInt8, false⟩

/-- Adjust the accumulator. -/
def daa : Instruction := ⟨0x27, false⟩

theorem action_adc (z : Fin 8) :
    (adc z).action = .operation (.alu .adc (.place (.ofField z))) := by
  match z with
  | 0 | 1 | 2 | 3 | 4 | 5 | 6 | 7 => rfl

theorem action_sbc (z : Fin 8) :
    (sbc z).action = .operation (.alu .sbc (.place (.ofField z))) := by
  match z with
  | 0 | 1 | 2 | 3 | 4 | 5 | 6 | 7 => rfl

end Instruction

open Arithmetic

variable {β : Type} [Bus β]

/-- One byte of a calculation: the registers are loaded, which leaves F alone, an instruction
combines the accumulator with one of them, and what comes out is adjusted. -/
def Exec.adjusted (i : Instruction) (file : Registers) : Exec β UInt8 := do
  Exec.modifyRegs fun r => { file with f := r.f }
  let _ ← i.execute
  let _ ← Instruction.daa.execute
  return (← Exec.getRegs).a

namespace Machine

theorem execute_daa (s : Machine β) : Instruction.daa.execute s = .ok 4 { s with
    cpu := { s.cpu with
      regs := ({ s.cpu.regs with a := (daa s.cpu.regs.a s.cpu.flags).1 } : Registers).setFlags
        (daa s.cpu.regs.a s.cpu.flags).2 } } := rfl

variable {i : Instruction} {op : AluOp} {reg : Reg8}

section

variable (hi : i.action = .operation (.alu op (.place (.reg reg))))

include hi

theorem execute_alu (s : Machine β) : i.execute s = .ok 4 { s with
    cpu := { s.cpu with
      regs := ({ s.cpu.regs with
        a := (op.apply s.cpu.regs.a (s.cpu.regs.byte reg) s.cpu.flags).1 } : Registers).setFlags
          (op.apply s.cpu.regs.a (s.cpu.regs.byte reg) s.cpu.flags).2 } } := by
  rw [Instruction.execute, hi]
  rfl

variable {adjusted : Bool → UInt8 → UInt8 → UInt8 × Flags}
  (hop : ∀ a v f, daa (op.apply a v f).1 (op.apply a v f).2 = adjusted f.c a v)

include hop

/-- One byte of a calculation. -/
theorem adjusted_apply (s : Machine β) (file : Registers) :
    Exec.adjusted i file s = .ok (adjusted s.cpu.flags.c file.a (file.byte reg)).1 { s with
      cpu := { s.cpu with
        regs := ({ file with
          a := (adjusted s.cpu.flags.c file.a (file.byte reg)).1 } : Registers).setFlags
            (adjusted s.cpu.flags.c file.a (file.byte reg)).2 } } := by
  have hbyte : ({ file with f := s.cpu.regs.f } : Registers).byte reg = file.byte reg := by
    cases reg <;> rfl
  simp only [Exec.adjusted, Exec.bind_apply, Exec.modifyRegs_apply, execute_alu hi, execute_daa,
    Exec.getRegs_apply, Exec.pure_apply]
  simp only [Cpu.flags, hbyte, Registers.flags, Registers.setFlags, Flags.ofByte_toByte, hop]

end

/-- Worked through by the processor, a calculation gives the bytes and the carry of `out`, and
nothing changes but registers. -/
def Calculates (i : Instruction) (files : List Registers) (s : Machine β)
    (out : List UInt8 × Bool) : Prop :=
  ∃ regs : Registers,
    files.mapM (Exec.adjusted i) s = .ok out.1 { s with cpu := { s.cpu with regs } } ∧
    regs.flags.c = out.2

theorem calculates_chain (hi : i.action = .operation (.alu op (.place (.reg reg))))
    {adjusted : Bool → UInt8 → UInt8 → UInt8 × Flags}
    (hop : ∀ a v f, daa (op.apply a v f).1 (op.apply a v f).2 = adjusted f.c a v)
    (files : List Registers) (s : Machine β) : Calculates i files s
      (chain adjusted s.cpu.flags.c (files.map fun file => (file.a, file.byte reg))) := by
  induction files generalizing s with
  | nil => exact ⟨s.cpu.regs, rfl, rfl⟩
  | cons file files ih =>
    let out := adjusted s.cpu.flags.c file.a (file.byte reg)
    let t : Machine β := { s with
      cpu := { s.cpu with regs := ({ file with a := out.1 } : Registers).setFlags out.2 } }
    have hfirst : Exec.adjusted i file s = .ok out.1 t := adjusted_apply hi hop s file
    have hcarry : t.cpu.flags.c = out.2.c := congrArg Flags.c (Flags.ofByte_toByte out.2)
    obtain ⟨regs, hrest, hlast⟩ := ih t
    rw [hcarry] at hrest hlast
    refine ⟨regs, ?_, hlast⟩
    rw [List.mapM_cons, Exec.bind_apply, hfirst]
    simp only [Exec.bind_apply, hrest, Exec.pure_apply]
    rfl

end Machine

/-! ## Numbers of any length -/

/-- Calculations in packed decimals on two numbers of the same length, given by their bytes from the
lowest up, with a carry that goes in: what comes out, and that the processor does the same. -/
structure PackedArithmetic (xs ys : List UInt8) (c : Bool) : Prop where
  sum : (chain decimalSum c (xs.zip ys)).1 = packed.bytes xs.length
    ((packed.value xs + packed.value ys + c.toNat) % 100 ^ xs.length)
  carry : (chain decimalSum c (xs.zip ys)).2 = true ↔
    100 ^ xs.length ≤ packed.value xs + packed.value ys + c.toNat
  difference : (chain decimalDifference c (xs.zip ys)).1 = packed.bytes xs.length
    ((packed.value xs - packed.value ys - c.toNat : Int) % 100 ^ xs.length).toNat
  borrow : (chain decimalDifference c (xs.zip ys)).2 = true ↔
    packed.value xs < packed.value ys + c.toNat
  digits : ∀ b, b ∈ (chain decimalSum c (xs.zip ys)).1 ∨
    b ∈ (chain decimalDifference c (xs.zip ys)).1 → packed.IsDigit b
  processor {β : Type} [Bus β] (s : Machine β) {z : Fin 8} {reg : Reg8} (files : List Registers) :
    Place.ofField z = .reg reg → s.cpu.flags.c = c →
    files.map (fun file => (file.a, file.byte reg)) = xs.zip ys →
    Machine.Calculates (.adc z) files s (chain decimalSum c (xs.zip ys)) ∧
    Machine.Calculates (.sbc z) files s (chain decimalDifference c (xs.zip ys))

/-- Arithmetic in packed decimals is right for numbers of any length. -/
theorem packed_arithmetic {xs ys : List UInt8} (hlength : xs.length = ys.length)
    (hxs : ∀ b ∈ xs, packed.IsDigit b) (hys : ∀ b ∈ ys, packed.IsDigit b) (c : Bool) :
    PackedArithmetic xs ys c := by
  have hps : ∀ p ∈ xs.zip ys, packed.IsDigit p.1 ∧ packed.IsDigit p.2 := fun p hp =>
    ⟨hxs _ (List.of_mem_zip hp).1, hys _ (List.of_mem_zip hp).2⟩
  have hfst : (xs.zip ys).map Prod.fst = xs := List.map_fst_zip hlength.le
  have hsnd : (xs.zip ys).map Prod.snd = ys := List.map_snd_zip hlength.ge
  have hzip : (xs.zip ys).length = xs.length := by
    rw [← List.length_map Prod.fst, hfst]
  have hsum := computes_sum.chain_eq hps c
  have hcarry := Coding.Computes.carry_sum hps c computes_sum
  have hdifference := computes_difference.chain_eq hps c
  have hborrow := Coding.Computes.carry_difference hps c computes_difference
  rw [hfst, hsnd] at hsum hcarry hdifference hborrow
  rw [hzip] at hsum hcarry hdifference
  have hplus : (packed.value xs + 1 * (packed.value ys + c.toNat) : Int) =
      (packed.value xs + packed.value ys + c.toNat : Nat) := by
    push_cast
    ring
  have hminus : (packed.value xs + -1 * (packed.value ys + c.toNat) : Int) =
      packed.value xs - packed.value ys - c.toNat := by ring
  have hpower : ((packed.base ^ xs.length : Nat) : Int) = 100 ^ xs.length := Int.natCast_pow 100 _
  refine ⟨?_, hcarry, ?_, hborrow, ?_, ?_⟩
  · rw [hsum, hplus, ← Int.natCast_mod, Int.toNat_natCast]
    rfl
  · rw [hdifference, hminus, hpower]
  · rintro b (hb | hb)
    · exact computes_sum.isDigit_chain hps c b hb
    · exact computes_difference.isDigit_chain hps c b hb
  · rintro β _ s z reg files hz rfl hfiles
    rw [← hfiles]
    have hadc := Instruction.action_adc z
    have hsbc := Instruction.action_sbc z
    rw [hz] at hadc hsbc
    exact ⟨Machine.calculates_chain hadc (fun _ _ _ => rfl) files s,
      Machine.calculates_chain hsbc (fun _ _ _ => rfl) files s⟩

/-- 9599 + 900 + 1 leaves 500 and a carry, and 9599 - 900 - 1 is 8698. -/
theorem packed_arithmetic_carries : PackedArithmetic [0x99, 0x95] [0x00, 0x09] true ∧
    chain decimalSum true [(0x99, 0x00), (0x95, 0x09)] = ([0x00, 0x05], true) ∧
    chain decimalDifference true [(0x99, 0x00), (0x95, 0x09)] = ([0x98, 0x86], false) := by
  have hxs : ∀ b ∈ [0x99, 0x95], packed.IsDigit b := by decide +kernel
  have hys : ∀ b ∈ [0x00, 0x09], packed.IsDigit b := by decide +kernel
  have hlength : [(0x99 : UInt8), 0x95].length = [(0x00 : UInt8), 0x09].length := rfl
  exact ⟨packed_arithmetic hlength hxs hys true, by decide, by decide⟩

end GameBoy
