import GameBoy.Proofs.Bits
import GameBoy.Proofs.Ready

/-!
# Operations of the accumulator

The accumulator and the flags after one of the eight operations, in integers and in bits. An opcode
names the operation in its upper field, and the byte that goes in next to the accumulator is that of
the cell in its lower field or the one after the opcode.

Main statement: `Machine.IsReady.accumulate`.
-/

namespace GameBoy

namespace Arithmetic

/-! ## Outcomes -/

/-- `r` is the sum of two bytes and a carry, with the flags of an addition. -/
structure IsSum (a v : UInt8) (carry : Nat) (r : UInt8) (f : Flags) : Prop where
  value : r.toNat = (a.toNat + v.toNat + carry) % 256
  z : f.z = true ↔ r = 0
  n : f.n = false
  h : f.h = true ↔ 15 < a.toNat % 16 + v.toNat % 16 + carry
  c : f.c = true ↔ 255 < a.toNat + v.toNat + carry

/-- `r` is a byte less another byte and a borrow, with the flags of a subtraction. -/
structure IsDifference (a v : UInt8) (borrow : Nat) (r : UInt8) (f : Flags) : Prop where
  value : (r.toNat : Int) = ((a.toNat : Int) - v.toNat - borrow) % 256
  z : f.z = true ↔ r = 0
  n : f.n = true
  h : f.h = true ↔ a.toNat % 16 < v.toNat % 16 + borrow
  c : f.c = true ↔ a.toNat < v.toNat + borrow

/-- Each bit of `r` is made of one bit each of two bytes. -/
structure IsBitwise (op : Bool → Bool → Bool) (half : Bool) (a v r : UInt8) (f : Flags) : Prop where
  value : ∀ i < 8, Byte.bits r i = op (Byte.bits a i) (Byte.bits v i)
  z : f.z = true ↔ r = 0
  n : f.n = false
  h : f.h = half
  c : f.c = false

/-- The accumulator `a'` and the flags `f` after operation number `y` on the accumulator `a` and a
byte `v`, when the carry was `c`. -/
def IsOutcome (y : Fin 8) (a v : UInt8) (c : Bool) (a' : UInt8) (f : Flags) : Prop :=
  match y with
  | 0 => IsSum a v 0 a' f
  | 1 => IsSum a v c.toNat a' f
  | 2 => IsDifference a v 0 a' f
  | 3 => IsDifference a v c.toNat a' f
  | 4 => IsBitwise and true a v a' f
  | 5 => IsBitwise xor false a v a' f
  | 6 => IsBitwise or false a v a' f
  | 7 => a' = a ∧ ∃ r, IsDifference a v 0 r f

variable (a v : UInt8) (c : Bool)

theorem isSum_adc8 : IsSum a v c.toNat (adc8 a v c).1 (adc8 a v c).2 where
  value := by
    simp only [value_adc8, UInt8.toNat_add, toNat_toUInt8]
    omega
  z := beq_iff_eq
  n := rfl
  h := half_adc8 a v c
  c := carry_adc8 a v c

theorem isDifference_sbc8 : IsDifference a v c.toNat (sbc8 a v c).1 (sbc8 a v c).2 where
  value := by
    have ha := a.toNat_lt
    have hv := v.toNat_lt
    have hc := c.toNat_le
    simp only [value_sbc8, UInt8.toNat_sub, toNat_toUInt8]
    omega
  z := beq_iff_eq
  n := rfl
  h := half_sbc8 a v c
  c := borrow_sbc8 a v c

theorem isBitwise_bitwise {op : Bool → Bool → Bool} {r : UInt8} (half : Bool)
    (h : ∀ i < 8, Byte.bits r i = op (Byte.bits a i) (Byte.bits v i)) :
    IsBitwise op half a v (AluOp.bitwise r half).1 (AluOp.bitwise r half).2 :=
  ⟨h, beq_iff_eq, rfl, rfl, rfl⟩

/-- An operation of the accumulator has its outcome. -/
theorem AluOp.isOutcome (y : Fin 8) (flags : Flags) :
    IsOutcome y a v flags.c ((ofField y).apply a v flags).1 ((ofField y).apply a v flags).2 := by
  match y with
  | 0 => exact isSum_adc8 a v false
  | 1 => exact isSum_adc8 a v flags.c
  | 2 => exact isDifference_sbc8 a v false
  | 3 => exact isDifference_sbc8 a v flags.c
  | 4 => exact isBitwise_bitwise a v true fun _ _ => Byte.bits_and a v
  | 5 => exact isBitwise_bitwise a v false fun _ _ => Byte.bits_xor a v
  | 6 => exact isBitwise_bitwise a v false fun _ _ => Byte.bits_or a v
  | 7 => exact ⟨rfl, _, isDifference_sbc8 a v false⟩

end Arithmetic

/-! ## Steps -/

namespace Machine

open Arithmetic

variable {s : Machine FlatBus}

/-- A step that executes an operation of the accumulator. The byte that goes in is not found by way
of an address that moves. -/
theorem IsReady.executes_alu {op : AluOp} {source : Source} (h : s.IsReady)
    (hop : Action.ofOpcode (s.bus.byte s.cpu.regs.pc) = .operation (.alu op source))
    (hkept : ∀ r, source.step r = r) :
    let i : Instruction := ⟨s.bus.byte s.cpu.regs.pc, false⟩
    let phases := (Operation.alu op source).phases
    let outcome := op.apply s.cpu.regs.a (source.byte (s.decoded i) (phases.fetched (s.decoded i)))
      s.cpu.flags
    ∃ t, s.Executes i (Operation.alu op source).cycles t ∧
      t.cpu.regs = { s.cpu.regs with
        a := outcome.1
        f := outcome.2.toByte
        pc := s.cpu.regs.pc + (1 + phases.length).toUInt16 } ∧
      t.bus = s.bus := by
  intro i phases outcome
  obtain ⟨t, hexecutes, hregs, hbus⟩ := h.executes_operation hop rfl fun _ => rfl
  have hvalue : source.value (phases.arrived (s.decoded i)).regs (phases.fetched (s.decoded i))
      (phases.loaded (s.decoded i)) = source.byte (s.decoded i) (phases.fetched (s.decoded i)) :=
    source.value_loaded rfl
  have hsettled : (phases.result (s.decoded i)).cpu.regs =
      (Operation.alu op source).settle (phases.fetched (s.decoded i)) (phases.loaded (s.decoded i))
        ((phases.arrived (s.decoded i)).drop 0).regs := rfl
  have hlength : (1 + phases.length).toUInt16 = 1 + phases.length.toUInt16 := UInt16.ofNat_add 1 _
  refine ⟨t, hexecutes, ?_, hbus⟩
  rw [hregs, hsettled, Cpu.drop_zero, Operation.settle, hkept, hvalue, hlength, ← UInt16.add_assoc]
  rfl

/-- What the opcodes of the accumulator stand for: the number of an operation, the byte that goes in
next to the accumulator, the bytes of the instruction and its cycles. -/
inductive Combines (s : Machine FlatBus) : UInt8 → Fin 8 → UInt8 → Nat → Nat → Prop where
  | cell (y z : Fin 8) :
    Combines s (Opcode.ofFields 2 y z) y (s.cell (.numbered s.cpu.regs.hl z)) 1
      (if z = 6 then 8 else 4)
  | immediate (y : Fin 8) :
    Combines s (Opcode.ofFields 3 y 6) y (s.bus.byte (s.cpu.regs.pc + 1)) 2 8

/-- An operation of the accumulator has its outcome there and in the flags, and changes nothing
else. -/
theorem IsReady.accumulate {y : Fin 8} {v : UInt8} {length cost : Nat} (h : s.IsReady)
    (hx : s.Combines (s.bus.byte s.cpu.regs.pc) y v length cost) :
    ∃ t a f, s.Executes ⟨s.bus.byte s.cpu.regs.pc, false⟩ cost t ∧
      IsOutcome y s.cpu.regs.a v s.cpu.flags.c a f ∧
      t.cpu.regs = { s.cpu.regs with
        a := a
        f := f.toByte
        pc := s.cpu.regs.pc + length.toUInt16 } ∧
      t.bus = s.bus := by
  generalize hopcode : s.bus.byte s.cpu.regs.pc = opcode at hx
  cases hx with
  | cell _ z =>
    have hkept : ∀ z r, (Source.place (.ofField z)).step r = r := by
      intro z r
      match z with
      | 0 | 1 | 2 | 3 | 4 | 5 | 6 | 7 => rfl
    have hshape : ∀ y z, let op := Operation.alu (.ofField y) (.place (.ofField z))
        op.phases.length = 0 ∧ op.cycles = if z = 6 then 8 else 4 := by decide
    obtain ⟨hlength, hcycles⟩ := hshape y z
    have hop : Action.ofOpcode (s.bus.byte s.cpu.regs.pc) =
        .operation (.alu (.ofField y) (.place (.ofField z))) := by
      rw [hopcode, Action.ofOpcode_ofFields]
    obtain ⟨t, hexecutes, hregs, hbus⟩ := h.executes_alu hop (hkept z)
    rw [Source.byte_ofField, cell_decoded, hlength] at hregs
    rw [hopcode, hcycles] at hexecutes
    exact ⟨t, _, _, hexecutes, AluOp.isOutcome _ _ y s.cpu.flags, hregs, hbus⟩
  | immediate =>
    have hop : Action.ofOpcode (s.bus.byte s.cpu.regs.pc) =
        .operation (.alu (.ofField y) .immediate) := by
      rw [hopcode, Action.ofOpcode_ofFields]
      rfl
    obtain ⟨t, hexecutes, hregs, hbus⟩ := h.executes_alu hop fun _ => rfl
    have hvalue : Source.immediate.byte (s.decoded ⟨s.bus.byte s.cpu.regs.pc, false⟩)
        ((Operation.alu (.ofField y) .immediate).phases.fetched
          (s.decoded ⟨s.bus.byte s.cpu.regs.pc, false⟩)) = s.bus.byte (s.cpu.regs.pc + 1) :=
      UInt8.toUInt8_toUInt16 _
    rw [hvalue] at hregs
    rw [hopcode] at hexecutes
    exact ⟨t, _, _, hexecutes, AluOp.isOutcome _ _ y s.cpu.flags, hregs, hbus⟩

/-- SBC A,A takes the accumulator and the carry from the accumulator. -/
theorem accumulate_borrow : ∃ s t : Machine FlatBus,
    s.IsReady ∧ s.cpu.regs.a = 0x42 ∧ s.cpu.flags.c = true ∧
    step s = .ok (.executed ⟨0x9F, false⟩ 4) t ∧
    t.cpu.regs.a = 0xFF ∧ t.cpu.flags = ⟨false, true, true, true⟩ ∧ t.cpu.regs.pc = 0x0101 := by
  let s := ofContents { Registers.powerOn with a := 0x42, f := 0x10, pc := 0x0100 } fun _ => 0x9F
  have hopcode : s.bus.byte s.cpu.regs.pc = 0x9F := byte_ofContents _ _ _
  have hready : s.IsReady := isReady_ofContents _ _
  have hx : s.Combines (s.bus.byte s.cpu.regs.pc) 3 0x42 1 4 := by
    rw [hopcode]
    exact .cell 3 7
  obtain ⟨t, a, f, hexecutes, houtcome, hregs, -⟩ := hready.accumulate hx
  rw [hopcode] at hexecutes
  have hcarry : s.cpu.flags.c = true := (by decide : (Flags.ofByte 0x10).c = true)
  rw [hcarry] at houtcome
  obtain ⟨hvalue, hz, hn, hh, hc⟩ : IsDifference 0x42 0x42 1 a f := houtcome
  have ha : a = 0xFF := by
    apply UInt8.toNat_inj.1
    apply Int.ofNat_inj.1
    rw [hvalue]
    rfl
  have hf : f = ⟨false, true, true, true⟩ := by
    have hz' : f.z = false := by
      rw [← Bool.not_eq_true, hz, ha]
      decide
    obtain ⟨_, _, _, _⟩ := f
    rw [Flags.mk.injEq]
    exact ⟨hz', hn, hh.2 (by decide), hc.2 (by decide)⟩
  refine ⟨s, t, hready, rfl, hcarry, hexecutes.step, ?_, ?_, ?_⟩
  · rw [hregs, ha]
  · rw [Cpu.flags, hregs, Registers.flags, Flags.ofByte_toByte, hf]
  · rw [hregs]
    rfl

end Machine

end GameBoy
