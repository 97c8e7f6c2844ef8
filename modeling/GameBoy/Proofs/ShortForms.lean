import GameBoy.Proofs.ExtendedPage

/-!
# Short forms

Some opcodes of the first page do in one byte what others could do as well: they add or subtract
one, rotate the accumulator, complement it, adjust it, or set the carry. Each replaces the byte of
one place and the flags by what a function makes of them, as the rotations and shifts of the extended
page do, so that what such an instruction changes is proved once for the place and the function.

A short form differs from the general one in the flags that it keeps. One that counts leaves C as it
was; a rotation clears Z.

Main statement: `Machine.IsReady.short_forms`.
-/

namespace GameBoy

/-! ## Short forms of the arithmetic -/

namespace Arithmetic

variable (v : UInt8) (flags : Flags)

/-- Adding one is adding, but for the carry. -/
theorem inc8_eq : inc8 v flags = ((add8 v 1).1, { (add8 v 1).2 with c := flags.c }) := by
  have hvalue : (add8 v 1).1 = v + 1 := (value_adc8 v 1 false).trans (UInt8.add_zero _)
  have hhalf : (v &&& 0x0F == 0x0F) = (add8 v 1).2.h := by
    rw [Bool.eq_iff_iff, beq_iff_eq, add8, half_adc8, ← UInt8.toNat_inj, toNat_lowNibble]
    change v.toNat % 16 = 15 ↔ 15 < v.toNat % 16 + 1 % 16 + 0
    omega
  have hzero : (v + 1 == 0) = (add8 v 1).2.z := congrArg (· == 0) hvalue.symm
  rw [inc8, hvalue, hhalf, hzero]
  rfl

/-- Subtracting one is subtracting, but for the carry. -/
theorem dec8_eq : dec8 v flags = ((sub8 v 1).1, { (sub8 v 1).2 with c := flags.c }) := by
  have hvalue : (sub8 v 1).1 = v - 1 := (value_sbc8 v 1 false).trans (UInt8.sub_zero _)
  have hhalf : (v &&& 0x0F == 0) = (sub8 v 1).2.h := by
    rw [Bool.eq_iff_iff, beq_iff_eq, sub8, half_sbc8, ← UInt8.toNat_inj, toNat_lowNibble]
    change v.toNat % 16 = 0 ↔ v.toNat % 16 < 1 % 16 + 0
    omega
  have hzero : (v - 1 == 0) = (sub8 v 1).2.z := congrArg (· == 0) hvalue.symm
  rw [dec8, hvalue, hhalf, hzero]
  rfl

/-- Rotation number `y` of the accumulator: that of the extended page, but with Z clear. -/
def rotateAccumulator (y : Fin 8) (v : UInt8) (flags : Flags) : UInt8 × Flags :=
  (((ShiftOp.ofField y).apply v flags).1,
    { z := false
      n := false
      h := false
      c := ((ShiftOp.ofField y).apply v flags).2.c })

end Arithmetic

open Arithmetic

/-! ## Replacing the byte in a place -/

namespace Place

variable (place : Place) (f : UInt8 → Flags → UInt8 × Flags) (d : Machine FlatBus)

/-- What becomes of the byte in a place and of the flags, once the opcode has been fetched. -/
def modified : UInt8 × Flags := f (d.cell (place.cell d.cpu.regs 0)) d.cpu.flags

theorem result_modify :
    ((place.modifyPhases f).result d).cpu.regs =
      (place.keep (place.modified f d).1 d.cpu.regs).setFlags (place.modified f d).2 ∧
    ((place.modifyPhases f).result d).bus =
      d.bus.put d.cpu.regs.sp (place.store d.cpu.regs 0 (place.modified f d).1) := by
  let p := place.modifyPhases f
  have harrived : p.arrived d = d.cpu := d.cpu.skip_zero
  have hvalue : place.value d.cpu.regs (p.loaded d) = d.cell (place.cell d.cpu.regs 0) := by
    have hloaded := place.value_loaded (p := p) (d := d) (n := 0) rfl
    rwa [harrived] at hloaded
  have hstoring : p.storing d = place.store d.cpu.regs 0 (place.modified f d).1 := by
    rw [Phases.storing, harrived, modified, ← hvalue]
    rfl
  have hpushed : (p.storing d).pushed = 0 := by
    rw [hstoring]
    cases place <;> rfl
  constructor
  · rw [Phases.result, hpushed, Cpu.drop_zero, harrived, modified, ← hvalue]
    rfl
  · rw [Phases.result, hstoring]

theorem cell_result_modify (h : place.isField) (c : Cell) :
    ((place.modifyPhases f).result d).cell c =
      if c = place.cell d.cpu.regs 0 then (place.modified f d).1 else d.cell c := by
  obtain ⟨hregs, hbus⟩ := place.result_modify f d
  have hbyte (q : Reg8) : ((place.modifyPhases f).result d).cpu.regs.byte q =
      (place.keep (place.modified f d).1 d.cpu.regs).byte q := by
    rw [hregs]
    cases q <;> rfl
  have hput := place.cell_put hbyte hbus c
  rw [hlStep_field h, Machine.stepHL_none] at hput
  exact hput

theorem frame_result_modify :
    let r := ((place.modifyPhases f).result d).cpu.regs
    r.f = (place.modified f d).2.toByte ∧ r.sp = d.cpu.regs.sp ∧ r.pc = d.cpu.regs.pc := by
  intro r
  have hr : r = _ := (place.result_modify f d).1
  rw [hr]
  exact ⟨rfl, Registers.sp_keep _ _ _, Registers.pc_keep _ _ _⟩

end Place

/-- What a short form does: a byte goes to a cell, and the flags to F. -/
structure Replacement where
  target : Cell
  value : UInt8
  flags : Flags
  /-- The cycles that it takes. -/
  cost : Nat

/-! ## Steps -/

namespace Machine

/-- The target holds the new value and F the new flags; the program counter has moved over an
instruction of the given length, and nothing else has changed. -/
structure Replaced (s : Machine FlatBus) (x : Replacement) (length : UInt16)
    (t : Machine FlatBus) : Prop where
  target : t.cell x.target = x.value
  others : ∀ c, c ≠ x.target → t.cell c = s.cell c
  f : t.cpu.regs.f = x.flags.toByte
  sp : t.cpu.regs.sp = s.cpu.regs.sp
  pc : t.cpu.regs.pc = s.cpu.regs.pc + length

variable {s : Machine FlatBus} {i : Instruction} {place : Place}
  {f : UInt8 → Flags → UInt8 × Flags}

/-- A replacement of the byte in a place, by what a function makes of it and of the flags. -/
def replacement (s : Machine FlatBus) (place : Place) (f : UInt8 → Flags → UInt8 × Flags)
    (cost : Nat) : Replacement where
  target := place.cell s.cpu.regs 0
  value := (place.modified f s).1
  flags := (place.modified f s).2
  cost

/-- An instruction that modifies the byte in a place makes the replacement and no other change. -/
theorem IsReady.replaces (h : s.IsReady) (hi : s.bus.instruction s.cpu.regs.pc = i)
    (hproper : i.action.isProper) (hphases : i.phases = place.modifyPhases f)
    (hfield : place.isField) :
    let x := s.replacement place f (i.cost (i.branches s.cpu.flags))
    ∃ t, s.Executes i x.cost t ∧ s.Replaced x i.opcodeLength.toUInt16 t := by
  intro x
  have hplain : i.IsPlain := by
    intro fetched loaded cpu
    rw [hphases]
    rfl
  have hcell : place.cell (s.decoded i).cpu.regs 0 = x.target := by
    cases place with
    | reg r => rfl
    | mem address => exact congrArg Cell.mem (address.locate_skip s.cpu _ 0)
  have hmodified : place.modified f (s.decoded i) = (x.value, x.flags) := by
    rw [Place.modified, hcell, cell_decoded]
    rfl
  have hresult (c : Cell) : (s.executed i).cell c = if c = x.target then x.value else s.cell c := by
    rw [cell_executed, hphases, Place.cell_result_modify _ _ _ hfield, hcell, hmodified,
      cell_decoded]
  obtain ⟨hf, hsp, hpc⟩ := place.frame_result_modify f (s.decoded i)
  rw [← hphases, ← regs_executed] at hf hsp hpc
  rw [hmodified] at hf
  refine ⟨s.executed i, h.executes hi hproper hplain, ?_, fun c hc => ?_, hf, hsp, hpc⟩
  · rw [hresult, if_pos rfl]
  · rw [hresult, if_neg hc]

/-- What the short forms stand for: the counts, whose flags are those of a sum or a difference but
for C, the rotations of the accumulator, whose carry is that of the extended page, and the other
operations of the accumulator. -/
inductive Shortens (s : Machine FlatBus) : UInt8 → Replacement → Prop where
  | inc (y : Fin 8) : Shortens s (Opcode.ofFields 0 y 4)
    { target := .numbered s.cpu.regs.hl y
      value := (add8 (s.cell (.numbered s.cpu.regs.hl y)) 1).1
      flags := { (add8 (s.cell (.numbered s.cpu.regs.hl y)) 1).2 with c := s.cpu.flags.c }
      cost := if y = 6 then 12 else 4 }
  | dec (y : Fin 8) : Shortens s (Opcode.ofFields 0 y 5)
    { target := .numbered s.cpu.regs.hl y
      value := (sub8 (s.cell (.numbered s.cpu.regs.hl y)) 1).1
      flags := { (sub8 (s.cell (.numbered s.cpu.regs.hl y)) 1).2 with c := s.cpu.flags.c }
      cost := if y = 6 then 12 else 4 }
  | rotate (y : Fin 8) (h : y < 4) : Shortens s (Opcode.ofFields 0 y 7)
    { target := .reg .a
      value := (rotateAccumulator y s.cpu.regs.a s.cpu.flags).1
      flags := (rotateAccumulator y s.cpu.regs.a s.cpu.flags).2
      cost := 4 }
  | daa : Shortens s 0x27
    { target := .reg .a
      value := (Arithmetic.daa s.cpu.regs.a s.cpu.flags).1
      flags := { (Arithmetic.daa s.cpu.regs.a s.cpu.flags).2 with n := s.cpu.flags.n, h := false }
      cost := 4 }
  | cpl : Shortens s 0x2F
    { target := .reg .a
      value := ~~~s.cpu.regs.a
      flags := { s.cpu.flags with n := true, h := true }
      cost := 4 }
  | scf : Shortens s 0x37
    { target := .reg .a
      value := s.cpu.regs.a
      flags := { s.cpu.flags with n := false, h := false, c := true }
      cost := 4 }
  | ccf : Shortens s 0x3F
    { target := .reg .a
      value := s.cpu.regs.a
      flags := { s.cpu.flags with n := false, h := false, c := !s.cpu.flags.c }
      cost := 4 }

variable {opcode : UInt8} {x : Replacement}

/-- The replacement of a short form is the one that its opcode is decoded to. -/
theorem Shortens.exists_decoded (h : s.Shortens opcode x) :
    ∃ op place f, Action.ofOpcode opcode = .operation op ∧ op.isProper ∧ place.isField ∧
      op.phases = place.modifyPhases f ∧
      x = s.replacement place f (op.cost (op.branches s.cpu.flags)) := by
  have hcost : ∀ y : Fin 8, let cost := if y = 6 then 12 else 4
      (Operation.inc (.ofField y)).cycles = cost ∧ (Operation.dec (.ofField y)).cycles = cost := by
    decide
  have hphases (y : Fin 8) :
      (Operation.inc (.ofField y)).phases = (Place.ofField y).modifyPhases inc8 ∧
      (Operation.dec (.ofField y)).phases = (Place.ofField y).modifyPhases dec8 := by
    match y with
    | 0 | 1 | 2 | 3 | 4 | 5 | 6 | 7 => exact ⟨rfl, rfl⟩
  cases h with
  | inc y =>
    refine ⟨.inc (.ofField y), .ofField y, inc8, Action.ofOpcode_ofFields 0 y 4,
      Place.isField_ofField y, Place.isField_ofField y, (hphases y).1, ?_⟩
    simp only [replacement, Place.modified, Place.cell_ofField, inc8_eq]
    exact congrArg (Replacement.mk _ _ _) (hcost y).1.symm
  | dec y =>
    refine ⟨.dec (.ofField y), .ofField y, dec8, Action.ofOpcode_ofFields 0 y 5,
      Place.isField_ofField y, Place.isField_ofField y, (hphases y).2, ?_⟩
    simp only [replacement, Place.modified, Place.cell_ofField, dec8_eq]
    exact congrArg (Replacement.mk _ _ _) (hcost y).2.symm
  | rotate y hy =>
    have hop : ∀ y : Fin 8, y < 4 → ∃ op, Action.ofOpcode (Opcode.ofFields 0 y 7) = .operation op ∧
        op.isProper ∧ op.phases = (Place.reg .a).modifyPhases (rotateAccumulator y) ∧
        ∀ taken, op.cost taken = 4 := by
      have hcost (direction : Direction) (circular taken : Bool) :
          (Operation.rotate direction circular).cost taken = 4 := by
        cases taken <;> rfl
      intro y hy
      match y, hy with
      | 0, _ => exact ⟨.rotate .left true, rfl, rfl, rfl, hcost _ _⟩
      | 1, _ => exact ⟨.rotate .right true, rfl, rfl, rfl, hcost _ _⟩
      | 2, _ => exact ⟨.rotate .left false, rfl, rfl, rfl, hcost _ _⟩
      | 3, _ => exact ⟨.rotate .right false, rfl, rfl, rfl, hcost _ _⟩
    obtain ⟨op, haction, hproper, hphases, hcost⟩ := hop y hy
    refine ⟨op, .reg .a, _, haction, hproper, rfl, hphases, ?_⟩
    rw [hcost]
    rfl
  | daa => exact ⟨.daa, .reg .a, Arithmetic.daa, rfl, rfl, rfl, rfl, rfl⟩
  | cpl =>
    exact ⟨.cpl, .reg .a, fun v flags => (~~~v, { flags with n := true, h := true }), rfl, rfl, rfl,
      rfl, rfl⟩
  | scf =>
    exact ⟨.scf, .reg .a, fun v flags => (v, { flags with n := false, h := false, c := true }), rfl,
      rfl, rfl, rfl, rfl⟩
  | ccf =>
    exact ⟨.ccf, .reg .a, fun v flags => (v, { flags with n := false, h := false, c := !flags.c }),
      rfl, rfl, rfl, rfl, rfl⟩

theorem IsReady.shortens (h : s.IsReady) (hx : s.Shortens (s.bus.byte s.cpu.regs.pc) x) :
    ∃ t, s.Executes ⟨s.bus.byte s.cpu.regs.pc, false⟩ x.cost t ∧ s.Replaced x 1 t := by
  obtain ⟨op, place, f, hop, hproper, hfield, hphases, rfl⟩ := hx.exists_decoded
  let i : Instruction := ⟨s.bus.byte s.cpu.regs.pc, false⟩
  have haction : i.action = .operation op := hop
  have hcost : i.cost (i.branches s.cpu.flags) = op.cost (op.branches s.cpu.flags) := by
    rw [Instruction.cost, Instruction.branches, haction]
    rfl
  have hmodifies : i.phases = place.modifyPhases f := by
    rw [Instruction.phases, haction]
    exact hphases
  rw [← hcost]
  exact h.replaces (instruction_operation hop) (by rw [haction]; exact hproper) hmodifies hfield

/-- A rotation or shift of the extended page. -/
theorem IsReady.shifts {y z : Fin 8} (h : s.IsReady) (hpage : s.bus.byte s.cpu.regs.pc = 0xCB)
    (hopcode : s.bus.byte (s.cpu.regs.pc + 1) = Opcode.ofFields 0 y z) :
    let x := s.replacement (.ofField z) (ShiftOp.ofField y).apply (BitOperation.cost 0 z)
    ∃ t, s.Executes (.extended 0 y z) x.cost t ∧ s.Replaced x 2 t := by
  have hi : s.bus.instruction s.cpu.regs.pc = .extended 0 y z := by
    have hextend : s.bus.byte s.cpu.regs.pc = Opcode.extend := hpage
    rw [FlatBus.instruction, if_pos hextend, hopcode]
    rfl
  have hop : BitOperation.ofOpcode (Opcode.ofFields 0 y z) =
      .shift (.ofField y) (.ofField z) := BitOperation.ofOpcode_ofFields 0 y z
  have hphases : (Instruction.extended 0 y z).phases =
      (Place.ofField z).modifyPhases (ShiftOp.ofField y).apply :=
    congrArg BitOperation.phases hop
  have hcost : BitOperation.cost 0 z = (BitOperation.ofOpcode (Opcode.ofFields 0 y z)).cycles :=
    (BitOperation.cycles_ofFields 0 y z).symm
  rw [hcost]
  exact h.replaces hi (BitOperation.isField_target _) hphases (Place.isField_ofField z)

/-- A short form makes its replacement and no other change. From the same accumulator and the same
flags, a rotation leaves the accumulator and the carry of the one in the extended page. -/
theorem IsReady.short_forms (h : s.IsReady) :
    (∀ x, s.Shortens (s.bus.byte s.cpu.regs.pc) x →
      ∃ t, s.Executes ⟨s.bus.byte s.cpu.regs.pc, false⟩ x.cost t ∧ s.Replaced x 1 t) ∧
    ∀ (y : Fin 8) (s' : Machine FlatBus), y < 4 → s'.IsReady →
      s.bus.byte s.cpu.regs.pc = Opcode.ofFields 0 y 7 →
      s'.bus.byte s'.cpu.regs.pc = 0xCB →
      s'.bus.byte (s'.cpu.regs.pc + 1) = Opcode.ofFields 0 y 7 →
      s'.cpu.regs.a = s.cpu.regs.a → s'.cpu.regs.f = s.cpu.regs.f →
      ∃ t t', s.Executes ⟨Opcode.ofFields 0 y 7, false⟩ 4 t ∧ s'.Executes (.extended 0 y 7) 8 t' ∧
        t.cpu.regs.a = t'.cpu.regs.a ∧
        t.cpu.flags = { z := false, n := false, h := false, c := t'.cpu.flags.c } := by
  refine ⟨fun x hx => h.shortens hx, fun y s' hy h' hopcode hpage hopcode' ha hf => ?_⟩
  have hx := Shortens.rotate (s := s) y hy
  rw [← hopcode] at hx
  obtain ⟨t, hexecutes, hreplaced⟩ := h.shortens hx
  obtain ⟨t', hexecutes', hreplaced'⟩ := h'.shifts hpage hopcode'
  rw [hopcode] at hexecutes
  have hrotated : (Place.reg .a).modified (ShiftOp.ofField y).apply s' =
      (ShiftOp.ofField y).apply s.cpu.regs.a s.cpu.flags := by
    rw [Place.modified, Cpu.flags, Registers.flags, hf, ← ha]
    rfl
  have hflags : t'.cpu.flags = ((ShiftOp.ofField y).apply s.cpu.regs.a s.cpu.flags).2 := by
    rw [← hrotated, Cpu.flags, Registers.flags, hreplaced'.f]
    exact Flags.ofByte_toByte _
  refine ⟨t, t', hexecutes, hexecutes', ?_, ?_⟩
  · have htarget : t.cpu.regs.a = ((ShiftOp.ofField y).apply s.cpu.regs.a s.cpu.flags).1 :=
      hreplaced.target
    rw [htarget, ← hrotated]
    exact hreplaced'.target.symm
  · rw [hflags, Cpu.flags, Registers.flags, hreplaced.f]
    exact Flags.ofByte_toByte _

/-- RLA leaves nothing of 80h in the accumulator, and Z clear all the same. RL A does so too, but for
Z. -/
theorem short_forms_zero : ∃ s s' t t' : Machine FlatBus, s.IsReady ∧ s'.IsReady ∧
    s.cpu.regs.a = 0x80 ∧ s'.cpu.regs = s.cpu.regs ∧
    step s = .ok (.executed ⟨0x17, false⟩ 4) t ∧ step s' = .ok (.executed ⟨0x17, true⟩ 8) t' ∧
    t.cpu.regs.a = 0 ∧ t.cpu.flags = ⟨false, false, false, true⟩ ∧
    t'.cpu.regs.a = 0 ∧ t'.cpu.flags.c = true := by
  let regs : Registers := { Registers.powerOn with a := 0x80, pc := 0x0100 }
  let s := ofContents regs fun _ => 0x17
  let s' := ofContents regs fun a => if a = 0x0100 then 0xCB else 0x17
  have hready : s.IsReady := isReady_ofContents _ _
  have hready' : s'.IsReady := isReady_ofContents _ _
  have hopcode : s.bus.byte s.cpu.regs.pc = 0x17 := byte_ofContents _ _ _
  have hpage : s'.bus.byte s'.cpu.regs.pc = 0xCB := byte_ofContents _ _ _
  have hopcode' : s'.bus.byte (s'.cpu.regs.pc + 1) = 0x17 := byte_ofContents _ _ _
  obtain ⟨hreplaces, hagrees⟩ := hready.short_forms
  obtain ⟨t, t', hexecutes, hexecutes', ha, hf⟩ :=
    hagrees 2 s' (by decide) hready' hopcode hpage hopcode' rfl rfl
  have hx := Shortens.rotate (s := s) 2 (by decide)
  rw [hopcode] at hreplaces
  obtain ⟨u, hexecutes'', hreplaced⟩ := hreplaces _ hx
  -- There is only one machine that the step leads to.
  obtain ⟨-, rfl⟩ := EStateM.Result.ok.inj (hexecutes.step.symm.trans hexecutes''.step)
  have hrotated : rotateAccumulator 2 s.cpu.regs.a s.cpu.flags =
      (0, ⟨false, false, false, true⟩) :=
    (by decide : rotateAccumulator 2 0x80 (Flags.ofByte 0) = (0, ⟨false, false, false, true⟩))
  have hvalue : t.cpu.regs.a = 0 := hreplaced.target.trans (congrArg Prod.fst hrotated)
  have hflags : t.cpu.flags = ⟨false, false, false, true⟩ := by
    rw [Cpu.flags, Registers.flags, hreplaced.f]
    exact (Flags.ofByte_toByte _).trans (congrArg Prod.snd hrotated)
  rw [hflags] at hf
  exact ⟨s, s', t, t', hready, hready', rfl, rfl, hexecutes.step, hexecutes'.step, hvalue, hflags,
    ha.symm.trans hvalue, (congrArg Flags.c hf).symm⟩

end Machine

end GameBoy
