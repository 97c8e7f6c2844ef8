import GameBoy.Proofs.Bits
import GameBoy.Proofs.Disassembly
import GameBoy.Proofs.Ready

/-!
# The extended page

An operation of the extended page works on one cell. What it leaves there is said bit by bit: the
rotations and shifts move the eight bits of the cell and take one bit out of them or in from the
carry, and the others test, clear or set the bit that the upper field of the opcode names.

Main statement: `Machine.IsReady.extended`.
-/

namespace GameBoy

namespace Arithmetic

/-! ## Bits that move -/

/-- The bits of a byte after rotation or shift number `y`, given the bits and the carry before. -/
def movedBits (y : Fin 8) (bits : Nat → Bool) (carry : Bool) (i : Nat) : Bool :=
  match y with
  | 0 => bits ((i + 7) % 8)
  | 1 => bits ((i + 1) % 8)
  | 2 => if i = 0 then carry else bits (i - 1)
  | 3 => if i = 7 then carry else bits (i + 1)
  | 4 => if i = 0 then false else bits (i - 1)
  | 5 => if i = 7 then bits 7 else bits (i + 1)
  | 6 => bits ((i + 4) % 8)
  | 7 => if i = 7 then false else bits (i + 1)

/-- The bit that leaves a byte; an exchange of nibbles lets none out. -/
def leavingBit (y : Fin 8) (bits : Nat → Bool) : Bool :=
  match y with
  | 0 | 2 | 4 => bits 7
  | 1 | 3 | 5 | 7 => bits 0
  | 6 => false

variable (v : UInt8) (flags : Flags)

theorem topBit_eq : topBit v = Byte.bits v 7 := Byte.testBit_eq_bits v 7

theorem lowBit_eq : lowBit v = Byte.bits v 0 := Byte.testBit_eq_bits v 0

theorem ShiftOp.bits_apply (y : Fin 8) {i : Nat} (h : i < 8) :
    Byte.bits ((ofField y).apply v flags).1 i = movedBits y (Byte.bits v) flags.c i := by
  match y with
  | 0 =>
    refine (Byte.bits_enterLow v (topBit v) h).trans ?_
    rw [topBit_eq]
    by_cases hi : i = 0
    · rw [if_pos hi, hi]
      rfl
    · have hindex : (i + 7) % 8 = i - 1 := by omega
      rw [if_neg hi, movedBits, hindex]
  | 1 =>
    refine (Byte.bits_enterHigh v (lowBit v) h).trans ?_
    rw [lowBit_eq]
    by_cases hi : i = 7
    · rw [if_pos hi, hi]
      rfl
    · have hindex : (i + 1) % 8 = i + 1 := by omega
      rw [if_neg hi, movedBits, hindex]
  | 2 => exact Byte.bits_enterLow v flags.c h
  | 3 => exact Byte.bits_enterHigh v flags.c h
  | 4 =>
    have hnone : v <<< 1 ||| false.toUInt8 = v <<< 1 := UInt8.or_zero
    have hbit := Byte.bits_enterLow v false h
    rw [hnone] at hbit
    exact hbit
  | 5 =>
    have hbit := Byte.bits_enterHigh v (Byte.bits v 7) h
    rw [Byte.shiftLeft_top] at hbit
    exact hbit
  | 6 => exact Byte.bits_exchange v h
  | 7 =>
    have hnone : v >>> 1 ||| false.toUInt8 <<< 7 = v >>> 1 := UInt8.or_zero
    have hbit := Byte.bits_enterHigh v false h
    rw [hnone] at hbit
    exact hbit

theorem ShiftOp.flags_apply (y : Fin 8) :
    ((ofField y).apply v flags).2 =
      { z := ((ofField y).apply v flags).1 == 0
        n := false
        h := false
        c := leavingBit y (Byte.bits v) } := by
  match y with
  | 0 | 2 | 4 => exact congrArg (Flags.mk _ _ _) (topBit_eq v)
  | 1 | 3 | 5 | 7 => exact congrArg (Flags.mk _ _ _) (lowBit_eq v)
  | 6 => rfl

/-- The byte `v'` and the contents `f'` of F after an operation of the extended page on a byte `v`,
when F held `f`. The group of the opcode is `k` and its upper field `y`. -/
def IsBitOutcome (k : Fin 4) (y : Fin 8) (v f v' f' : UInt8) : Prop :=
  let carry := (Flags.ofByte f).c
  match k with
  | 0 => (∀ i < 8, Byte.bits v' i = movedBits y (Byte.bits v) carry i) ∧
      f' = Flags.toByte ⟨v' == 0, false, false, leavingBit y (Byte.bits v)⟩
  | 1 => v' = v ∧ f' = Flags.toByte ⟨!Byte.bits v y, false, true, carry⟩
  | 2 => (∀ i < 8, Byte.bits v' i = if i = y then false else Byte.bits v i) ∧ f' = f
  | 3 => (∀ i < 8, Byte.bits v' i = if i = y then true else Byte.bits v i) ∧ f' = f

end Arithmetic

open Arithmetic

/-! ## Operations on a cell -/

namespace BitOperation

/-- The byte that an operation writes to its target. A test writes none. -/
def written (v : UInt8) (flags : Flags) : BitOperation → Option UInt8
  | shift op _ => some (op.apply v flags).1
  | bit .. => none
  | res n _ => some (Byte.clearBit v n)
  | set n _ => some (Byte.setBit v n)

/-- F after an operation. -/
def flagged (v f : UInt8) : BitOperation → UInt8
  | shift op _ => (op.apply v (Flags.ofByte f)).2.toByte
  | bit n _ => (bitTest v n (Flags.ofByte f)).toByte
  | res .. | set .. => f

/-- An operation has its outcome. -/
theorem isBitOutcome (k : Fin 4) (y z : Fin 8) (v f : UInt8) :
    let op := ofOpcode (Opcode.ofFields k y z)
    IsBitOutcome k y v f ((op.written v (Flags.ofByte f)).getD v) (op.flagged v f) := by
  intro op
  have hop : op = _ := ofOpcode_ofFields k y z
  rw [hop]
  match k with
  | 0 =>
    refine ⟨fun i hi => ShiftOp.bits_apply v (Flags.ofByte f) y hi, ?_⟩
    exact congrArg Flags.toByte (ShiftOp.flags_apply v (Flags.ofByte f) y)
  | 1 =>
    refine ⟨rfl, ?_⟩
    rw [← Byte.testBit_eq_bits]
    rfl
  | 2 =>
    refine ⟨fun i hi => ?_, rfl⟩
    refine (Byte.bits_clearBit v y hi).trans ?_
    by_cases hy : i = y <;> simp [hy]
  | 3 =>
    refine ⟨fun i _ => ?_, rfl⟩
    refine (Byte.bits_setBit v y).trans ?_
    by_cases hy : i = y <;> simp [hy]

/-- A test alone does not write. -/
theorem written_ofFields (k : Fin 4) (y z : Fin 8) (v : UInt8) (flags : Flags) :
    let v' := (ofOpcode (Opcode.ofFields k y z)).written v flags
    v' = if k = 1 then none else some (v'.getD v) := by
  intro v'
  have hv' : v' = _ := congrArg (written v flags) (ofOpcode_ofFields k y z)
  rw [hv']
  match k with
  | 0 | 1 | 2 | 3 => rfl

variable (op : BitOperation) (r : Registers) (loaded : UInt16)

theorem store?_eq : op.store? r loaded =
    match op.written (op.target.value r loaded) r.flags with
    | some v => op.target.store r 0 v
    | none => .none := by
  cases op <;> rfl

theorem settle_eq : op.settle loaded r =
    { (match op.written (op.target.value r loaded) r.flags with
      | some v => op.target.keep v r
      | none => r) with f := op.flagged (op.target.value r loaded) r.f } := by
  cases op with
  | shift op target => rfl
  | bit n target => rfl
  | res n target =>
    let kept := target.keep (Byte.clearBit (target.value r loaded) n) r
    exact congrArg (fun f => { kept with f }) (r.f_keep _ target)
  | set n target =>
    let kept := target.keep (Byte.setBit (target.value r loaded) n) r
    exact congrArg (fun f => { kept with f }) (r.f_keep _ target)

variable (d : Machine FlatBus)

/-- The byte of the target, once the opcode has been fetched. -/
def before : UInt8 := d.cell (op.target.cell d.cpu.regs 0)

/-- The byte that is written to the target, if any. -/
def writing : Option UInt8 := op.written (op.before d) d.cpu.flags

theorem arrived_phases : op.phases.arrived d = d.cpu := d.cpu.skip_zero

theorem value_loaded : op.target.value d.cpu.regs (op.phases.loaded d) = op.before d := by
  have hloaded := op.target.value_loaded (p := op.phases) (d := d) (n := 0) rfl
  rwa [arrived_phases] at hloaded

theorem storing_phases : op.phases.storing d =
    match op.writing d with
    | some v => op.target.store d.cpu.regs 0 v
    | none => .none := by
  have hstore := op.store?_eq d.cpu.regs (op.phases.loaded d)
  rw [value_loaded] at hstore
  rw [Phases.storing, arrived_phases]
  exact hstore

theorem regs_result : (op.phases.result d).cpu.regs =
    { (match op.writing d with
      | some v => op.target.keep v d.cpu.regs
      | none => d.cpu.regs) with f := op.flagged (op.before d) d.cpu.regs.f } := by
  have hpushed : (op.phases.storing d).pushed = 0 := by
    rw [storing_phases]
    cases op.writing d with
    | none => rfl
    | some v => cases op.target <;> rfl
  have hsettle := op.settle_eq d.cpu.regs (op.phases.loaded d)
  rw [value_loaded] at hsettle
  rw [Phases.result, hpushed, Cpu.drop_zero, arrived_phases]
  exact hsettle

/-- The target alone changes. -/
theorem cell_result (h : op.target.isField) (c : Cell) : (op.phases.result d).cell c =
    if c = op.target.cell d.cpu.regs 0 then (op.writing d).getD (op.before d) else d.cell c := by
  have hbyte (r : Registers) (f : UInt8) (q : Reg8) : { r with f }.byte q = r.byte q := by
    cases q <;> rfl
  have hregs := op.regs_result d
  have hbus : (op.phases.result d).bus = d.bus.put d.cpu.regs.sp (op.phases.storing d) := rfl
  rw [storing_phases] at hbus
  cases hwriting : op.writing d with
  | none =>
    -- The target of a test keeps its byte as every other cell does.
    rw [hwriting] at hregs hbus
    have hkept : (op.phases.result d).cell c = d.cell c := by
      cases c with
      | reg q =>
        rw [Machine.cell, hregs]
        exact hbyte _ _ q
      | mem a => exact congrArg (·.byte a) hbus
    rw [hkept, Option.getD_none, before]
    by_cases hc : c = op.target.cell d.cpu.regs 0
    · rw [if_pos hc, hc]
    · rw [if_neg hc]
  | some v =>
    rw [hwriting] at hregs hbus
    rw [Option.getD_some]
    have hkept (q : Reg8) : (op.phases.result d).cpu.regs.byte q =
        (op.target.keep v d.cpu.regs).byte q := by
      rw [hregs]
      exact hbyte _ _ q
    have hput := op.target.cell_put hkept hbus c
    rw [Place.hlStep_field h, Machine.stepHL_none] at hput
    exact hput

theorem frame_result :
    let r := (op.phases.result d).cpu.regs
    r.f = op.flagged (op.before d) d.cpu.regs.f ∧ r.sp = d.cpu.regs.sp ∧ r.pc = d.cpu.regs.pc := by
  intro r
  have hr : r = _ := op.regs_result d
  rw [hr]
  cases op.writing d with
  | none => exact ⟨rfl, rfl, rfl⟩
  | some v => exact ⟨rfl, Registers.sp_keep _ _ _, Registers.pc_keep _ _ _⟩

/-- The bus carries the target if it lies in memory, to the processor and, if it is written,
back. -/
theorem traffic_phases (h : op.target.isField) : op.phases.traffic d =
    match op.target.cell d.cpu.regs 0 with
    | .reg _ => #[]
    | .mem a => #[.read a (op.before d)] ++ ((op.writing d).map (Traffic.wrote a)).toArray := by
  have hloading : op.phases.loading d = op.target.load d.cpu.regs 0 := by
    rw [Phases.loading, arrived_phases]
    rfl
  have hfetched : d.bus.spanTraffic d.cpu.regs.pc op.phases.length = #[] := rfl
  rw [Phases.traffic, hfetched, hloading, storing_phases, Array.empty_append]
  cases htarget : op.target with
  | reg r =>
    cases op.writing d <;> rfl
  | mem address =>
    cases address with
    | hl =>
      have hbefore : d.bus.byte d.cpu.regs.hl = op.before d := by
        rw [before, htarget]
        rfl
      rw [← hbefore]
      cases op.writing d <;> rfl
    | _ =>
      rw [htarget] at h
      cases h

/-- The cycles of an operation with the given group on the cell of a field. -/
def cost (k : Fin 4) (z : Fin 8) : Nat :=
  match z, k with
  | 6, 1 => 12
  | 6, _ => 16
  | _, _ => 8

theorem cycles_ofFields :
    ∀ k y z, (ofOpcode (Opcode.ofFields k y z)).cycles = cost k z := by decide

theorem target_ofFields (k : Fin 4) (y z : Fin 8) :
    (ofOpcode (Opcode.ofFields k y z)).target = .ofField z := by
  rw [ofOpcode_ofFields]
  match k with
  | 0 | 1 | 2 | 3 => rfl

end BitOperation

/-! ## Steps -/

/-- The instruction of the extended page with the given group and fields. -/
def Instruction.extended (k : Fin 4) (y z : Fin 8) : Instruction := ⟨Opcode.ofFields k y z, true⟩

namespace Machine

/-- What passes over the bus when a byte goes from `v` to `v'` in the cell of a field. If the cell
lies in memory, its byte is read, and it is written back unless it was only tested. -/
def targetTraffic (hl : UInt16) (k : Fin 4) (z : Fin 8) (v v' : UInt8) : Array Traffic :=
  match z, k with
  | 6, 1 => #[.read hl v]
  | 6, _ => #[.read hl v, .wrote hl v']
  | _, _ => #[]

theorem targetTraffic_eq (hl : UInt16) (k : Fin 4) (z : Fin 8) (v v' : UInt8) :
    targetTraffic hl k z v v' =
      match Cell.numbered hl z with
      | .reg _ => #[]
      | .mem a =>
        #[.read a v] ++ ((if k = 1 then none else some v').map (Traffic.wrote a)).toArray := by
  match z with
  | 0 | 1 | 2 | 3 | 4 | 5 | 7 => rfl
  | 6 =>
    match k with
    | 0 | 1 | 2 | 3 => rfl

/-- What passes over the bus in a step that leaves `v'` in its target. -/
def extendedTraffic (s : Machine FlatBus) (k : Fin 4) (y z : Fin 8) (v' : UInt8) : Array Traffic :=
  #[.read s.cpu.regs.pc 0xCB, .read (s.cpu.regs.pc + 1) (Opcode.ofFields k y z)] ++
    targetTraffic s.cpu.regs.hl k z (s.cell (.numbered s.cpu.regs.hl z)) v'

/-- What a step does to registers, memory and bus that executes the operation of the extended page
with the given group and fields. -/
structure Worked (s : Machine FlatBus) (k : Fin 4) (y z : Fin 8) (t : Machine FlatBus) : Prop where
  outcome : IsBitOutcome k y (s.cell (.numbered s.cpu.regs.hl z)) s.cpu.regs.f
    (t.cell (.numbered s.cpu.regs.hl z)) t.cpu.regs.f
  others : ∀ c, c ≠ .numbered s.cpu.regs.hl z → t.cell c = s.cell c
  sp : t.cpu.regs.sp = s.cpu.regs.sp
  pc : t.cpu.regs.pc = s.cpu.regs.pc + 2
  watched : ∀ traffic, step (s.watch traffic) =
    .ok (.executed (.extended k y z) (BitOperation.cost k z)) (t.watch
      ((traffic ++ s.extendedTraffic k y z (t.cell (.numbered s.cpu.regs.hl z))).push
        (.ended t.cpu.cycles)))

section

variable (s : Machine FlatBus) (k : Fin 4) (y z : Fin 8)

theorem target_decoded :
    (BitOperation.ofOpcode (Opcode.ofFields k y z)).target.cell
      (s.decoded (.extended k y z)).cpu.regs 0 = .numbered s.cpu.regs.hl z := by
  rw [BitOperation.target_ofFields, Place.cell_ofField]
  rfl

theorem before_decoded :
    (BitOperation.ofOpcode (Opcode.ofFields k y z)).before (s.decoded (.extended k y z)) =
      s.cell (.numbered s.cpu.regs.hl z) := by
  rw [BitOperation.before, target_decoded, cell_decoded]

/-- The cells after an operation of the extended page. -/
theorem cell_extended (c : Cell) : (s.executed (.extended k y z)).cell c =
    if c = .numbered s.cpu.regs.hl z then
      ((BitOperation.ofOpcode (Opcode.ofFields k y z)).written
        (s.cell (.numbered s.cpu.regs.hl z)) s.cpu.flags).getD (s.cell (.numbered s.cpu.regs.hl z))
    else s.cell c := by
  have hresult := (BitOperation.ofOpcode (Opcode.ofFields k y z)).cell_result
    (s.decoded (.extended k y z)) (BitOperation.isField_target _) c
  rw [target_decoded, BitOperation.writing, before_decoded, cell_decoded] at hresult
  rw [cell_executed]
  exact hresult

/-- The events of an operation of the extended page. -/
theorem traffic_extended (hpage : s.bus.byte s.cpu.regs.pc = 0xCB)
    (hopcode : s.bus.byte (s.cpu.regs.pc + 1) = Opcode.ofFields k y z)
    (hi : s.bus.instruction s.cpu.regs.pc = .extended k y z) :
    s.bus.opcodeTraffic s.cpu.regs.pc ++
        (Instruction.extended k y z).phases.traffic (s.decoded (.extended k y z)) =
      s.extendedTraffic k y z
        ((s.executed (.extended k y z)).cell (.numbered s.cpu.regs.hl z)) := by
  have hopcodes : s.bus.opcodeTraffic s.cpu.regs.pc =
      #[.read s.cpu.regs.pc 0xCB, .read (s.cpu.regs.pc + 1) (Opcode.ofFields k y z)] := by
    rw [FlatBus.opcodeTraffic, hi, ← hpage, ← hopcode]
    rfl
  have hphases : (Instruction.extended k y z).phases.traffic (s.decoded (.extended k y z)) = _ :=
    (BitOperation.ofOpcode (Opcode.ofFields k y z)).traffic_phases
      (s.decoded (.extended k y z)) (BitOperation.isField_target _)
  have hwriting : (BitOperation.ofOpcode (Opcode.ofFields k y z)).writing
      (s.decoded (.extended k y z)) = if k = 1 then none else
        some ((s.executed (.extended k y z)).cell (.numbered s.cpu.regs.hl z)) := by
    rw [cell_extended, if_pos rfl, BitOperation.writing, before_decoded]
    exact BitOperation.written_ofFields k y z _ _
  rw [hopcodes, hphases, target_decoded, before_decoded, hwriting, extendedTraffic,
    targetTraffic_eq]

end

variable {s : Machine FlatBus} {k : Fin 4} {y z : Fin 8}

/-- An operation of the extended page has its outcome in the cell that it names and in the flags,
and changes nothing else. -/
theorem IsReady.extended (h : s.IsReady) (hpage : s.bus.byte s.cpu.regs.pc = 0xCB)
    (hopcode : s.bus.byte (s.cpu.regs.pc + 1) = Opcode.ofFields k y z) :
    ∃ t, s.Executes (.extended k y z) (BitOperation.cost k z) t ∧ s.Worked k y z t := by
  let i := Instruction.extended k y z
  have hi : s.bus.instruction s.cpu.regs.pc = i := by
    have hextend : s.bus.byte s.cpu.regs.pc = Opcode.extend := hpage
    rw [FlatBus.instruction, if_pos hextend, hopcode]
    rfl
  have hproper : i.action.isProper := BitOperation.isField_target i.opcode
  have hcost : i.cost (i.branches s.cpu.flags) = BitOperation.cost k z :=
    BitOperation.cycles_ofFields k y z
  have hexecutes := h.executes hi hproper fun _ _ _ => rfl
  have hregs : (s.executed i).cpu.regs =
      ((BitOperation.ofOpcode i.opcode).phases.result (s.decoded i)).cpu.regs := regs_executed s i
  obtain ⟨hf, hsp, hpc⟩ := (BitOperation.ofOpcode i.opcode).frame_result (s.decoded i)
  have hbefore : (BitOperation.ofOpcode i.opcode).before (s.decoded i) =
      s.cell (.numbered s.cpu.regs.hl z) := before_decoded s k y z
  rw [← hregs, hbefore] at hf
  rw [← hregs] at hsp hpc
  rw [hcost] at hexecutes
  refine ⟨s.executed i, hexecutes, ?outcome, ?others, ?sp, ?pc, ?watched⟩
  case sp => exact hsp
  case pc => exact hpc
  case outcome =>
    rw [cell_extended, if_pos rfl, hf]
    exact BitOperation.isBitOutcome k y z _ _
  case others =>
    intro c hc
    rw [cell_extended, if_neg hc]
  case watched =>
    intro traffic
    have hstep := h.step_watched hi hproper traffic
    rw [hcost, Array.append_assoc, traffic_extended s k y z hpage hopcode hi] at hstep
    exact hstep

/-- RL (HL) takes the carry into the bottom of the byte and the top bit out of it. -/
theorem extended_rotate : ∃ s t : Machine FlatBus,
    s.IsReady ∧ s.cpu.regs.hl = 0xC000 ∧ s.bus.byte 0xC000 = 0x80 ∧ s.cpu.flags.c = true ∧
    step s = .ok (.executed ⟨0x16, true⟩ 16) t ∧
    t.bus.byte 0xC000 = 0x01 ∧ t.cpu.flags = ⟨false, false, false, true⟩ ∧
    t.cpu.regs.pc = 0x0102 := by
  let s := ofContents { Registers.powerOn with h := 0xC0, f := 0x10, pc := 0x0100 } fun a =>
    if a = 0x0100 then 0xCB else if a = 0x0101 then 0x16 else 0x80
  have hready : s.IsReady := isReady_ofContents _ _
  have hpage : s.bus.byte s.cpu.regs.pc = 0xCB := byte_ofContents _ _ _
  have hopcode : s.bus.byte (s.cpu.regs.pc + 1) = Opcode.ofFields 0 2 6 := byte_ofContents _ _ _
  have hvalue : s.bus.byte 0xC000 = 0x80 := byte_ofContents _ _ _
  have hhl : s.cpu.regs.hl = 0xC000 := (by decide : Word.ofBytes 0xC0 0x00 = 0xC000)
  have hcarry : s.cpu.flags.c = true := (by decide : (Flags.ofByte 0x10).c = true)
  obtain ⟨t, hexecutes, hworked⟩ := hready.extended hpage hopcode
  obtain ⟨hbits, hf⟩ : IsBitOutcome 0 2 (s.bus.byte s.cpu.regs.hl) s.cpu.regs.f
    (t.bus.byte s.cpu.regs.hl) t.cpu.regs.f := hworked.outcome
  rw [hhl, hvalue] at hbits hf
  have hrotated : t.bus.byte 0xC000 = 0x01 := by
    apply Byte.ext_bits
    intro i hi
    have hcarried : (Flags.ofByte s.cpu.regs.f).c = true := hcarry
    have hmoved : ∀ i < 8, movedBits 2 (Byte.bits 0x80) true i = Byte.bits 0x01 i := by decide
    rw [hbits i hi, hcarried]
    exact hmoved i hi
  refine ⟨s, t, hready, hhl, hvalue, hcarry, hexecutes.step, hrotated, ?_, hworked.pc⟩
  rw [Cpu.flags, Registers.flags, hf, Flags.ofByte_toByte, hrotated]
  rfl

end Machine

end GameBoy
