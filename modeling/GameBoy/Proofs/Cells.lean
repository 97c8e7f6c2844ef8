import GameBoy.Proofs.FlatMemory

/-!
# Opcode fields and cells

The three fields of an opcode are all of it, and a field of three bits names a *cell*: one of the
seven byte registers or the byte in memory at HL. A place of an operation is a cell once the
registers and what was fetched are known. What an operation takes from a place is the byte of the
cell, and what it puts there changes this cell alone, but for a step of HL.

Main statements: `Action.ofOpcode_ofFields`, `BitOperation.ofOpcode_ofFields`,
`Source.value_loaded` and `Place.cell_put`.
-/

namespace GameBoy

/-! ## Opcodes by their fields -/

namespace Opcode

/-- The opcode with the given group and fields. -/
def ofFields (group : Fin 4) (upper lower : Fin 8) : UInt8 :=
  (64 * group.val + 8 * upper.val + lower.val).toUInt8

variable (k : Fin 4) (y z : Fin 8) (opcode : UInt8)

theorem toNat_ofFields : (ofFields k y z).toNat = 64 * k.val + 8 * y.val + z.val := by
  rw [ofFields, UInt8.toNat_ofNat']
  omega

@[simp] theorem group_ofFields : group (ofFields k y z) = k := by
  apply Fin.ext
  simp only [group, toNat_ofFields]
  omega

@[simp] theorem upper_ofFields : upper (ofFields k y z) = y := by
  apply Fin.ext
  simp only [upper, toNat_ofFields]
  omega

@[simp] theorem lower_ofFields : lower (ofFields k y z) = z := by
  apply Fin.ext
  simp only [lower, toNat_ofFields]
  omega

theorem ofFields_fields : ofFields (group opcode) (upper opcode) (lower opcode) = opcode := by
  apply UInt8.toNat_inj.1
  simp only [toNat_ofFields, group, upper, lower]
  omega

end Opcode

theorem Action.ofOpcode_ofFields (k : Fin 4) (y z : Fin 8) :
    ofOpcode (Opcode.ofFields k y z) =
      match k with
      | 0 => ofGroup0 y z
      | 1 => ofGroup1 y z
      | 2 => operation (.alu (.ofField y) (.place (.ofField z)))
      | 3 => ofGroup3 y z := by
  match k with
  | 0 | 1 | 2 | 3 =>
    simp only [ofOpcode, Opcode.group_ofFields, Opcode.upper_ofFields, Opcode.lower_ofFields]

theorem BitOperation.ofOpcode_ofFields (k : Fin 4) (y z : Fin 8) :
    ofOpcode (Opcode.ofFields k y z) =
      match k with
      | 0 => shift (.ofField y) (.ofField z)
      | 1 => bit y (.ofField z)
      | 2 => res y (.ofField z)
      | 3 => set y (.ofField z) := by
  match k with
  | 0 | 1 | 2 | 3 =>
    simp only [ofOpcode, Opcode.group_ofFields, Opcode.upper_ofFields, Opcode.lower_ofFields]

/-! ## Cells -/

/-- A byte register or a byte in memory. -/
inductive Cell where
  | reg (r : Reg8)
  | mem (a : UInt16)
  deriving DecidableEq, Repr

/-- The cell that a three-bit number in an opcode stands for, while HL holds the given address. -/
def Cell.numbered (hl : UInt16) : Fin 8 → Cell
  | 0 => reg .b
  | 1 => reg .c
  | 2 => reg .d
  | 3 => reg .e
  | 4 => reg .h
  | 5 => reg .l
  | 6 => mem hl
  | 7 => reg .a

/-- The byte in a cell. -/
def Machine.cell (s : Machine FlatBus) : Cell → UInt8
  | .reg r => s.cpu.regs.byte r
  | .mem a => s.bus.byte a

/-! ## Registers -/

namespace Registers

variable (r : Registers) (reg q : Reg8) (v : UInt8) (w : UInt16)

theorem byte_setByte : (r.setByte reg v).byte q = if q = reg then v else r.byte q := by
  cases reg <;> cases q <;> rfl

theorem byte_setHL : (r.setHL w).byte q =
    if q = .h then Word.high w else if q = .l then Word.low w else r.byte q := by
  cases q <;> rfl

theorem f_setByte : (r.setByte reg v).f = r.f := by
  cases reg <;> rfl

theorem sp_setByte : (r.setByte reg v).sp = r.sp := by
  cases reg <;> rfl

theorem f_keep (place : Place) : (place.keep v r).f = r.f := by
  cases place with
  | reg q => exact r.f_setByte q v
  | mem address => cases address <;> rfl

theorem sp_keep (place : Place) : (place.keep v r).sp = r.sp := by
  cases place with
  | reg q => exact r.sp_setByte q v
  | mem address => cases address <;> rfl

theorem hl_setHL : (r.setHL w).hl = w := Word.ofBytes_high_low w

theorem setHL_hl : r.setHL r.hl = r := by
  simp only [setHL, hl, Word.high_ofBytes, Word.low_ofBytes]

end Registers

/-! ## Steps of HL -/

/-- HL after a transfer. -/
def HLStep.apply (hl : UInt16) : HLStep → UInt16
  | none => hl
  | inc => hl + 1
  | dec => hl - 1

/-- How HL moves in a transfer through this address. -/
def Address.hlStep : Address → HLStep
  | hlInc => .inc
  | hlDec => .dec
  | _ => .none

/-- How HL moves when the byte in a place is taken or replaced. -/
def Place.hlStep : Place → HLStep
  | reg _ => .none
  | mem address => address.hlStep

theorem Place.hlStep_field {place : Place} (h : place.isField) : place.hlStep = .none := by
  cases place with
  | reg r => rfl
  | mem address =>
    cases address with
    | hl => rfl
    | _ => cases h

def Source.hlStep : Source → HLStep
  | place p => p.hlStep
  | immediate => .none

theorem Address.step_eq (address : Address) (r : Registers) :
    address.step r = r.setHL (address.hlStep.apply r.hl) := by
  cases address with
  | hlInc => rfl
  | hlDec => rfl
  | _ => exact r.setHL_hl.symm

theorem Source.step_eq (source : Source) (r : Registers) :
    source.step r = r.setHL (source.hlStep.apply r.hl) := by
  rcases source with (r' | address) | _
  · exact r.setHL_hl.symm
  · exact address.step_eq r
  · exact r.setHL_hl.symm

namespace Machine

/-- The machine with HL stepped. -/
def stepHL (s : Machine FlatBus) (step : HLStep) : Machine FlatBus :=
  { s with cpu := { s.cpu with regs := s.cpu.regs.setHL (step.apply s.cpu.regs.hl) } }

theorem stepHL_none (s : Machine FlatBus) : s.stepHL .none = s := by
  simp only [stepHL, HLStep.apply, Registers.setHL_hl]

theorem hl_stepHL (s : Machine FlatBus) (step : HLStep) :
    (s.stepHL step).cpu.regs.hl = step.apply s.cpu.regs.hl := Registers.hl_setHL _ _

theorem cell_stepHL (s : Machine FlatBus) (step : HLStep) {c : Cell} (hh : c ≠ .reg .h)
    (hl : c ≠ .reg .l) : (s.stepHL step).cell c = s.cell c := by
  cases c with
  | mem a => rfl
  | reg r =>
    simp only [ne_eq, Cell.reg.injEq] at hh hl
    simp only [cell, stepHL, Registers.byte_setHL, if_neg hh, if_neg hl]

end Machine

/-! ## Places as cells -/

@[simp] theorem Address.locate_skip (address : Address) (cpu : Cpu) (n fetched : UInt16) :
    address.locate (cpu.skip n).regs fetched = address.locate cpu.regs fetched := by
  cases address <;> rfl

namespace Place

/-- The cell of a place, given what was fetched after the opcode. -/
def cell (regs : Registers) (fetched : UInt16) : Place → Cell
  | reg r => .reg r
  | mem address => .mem (address.locate regs fetched)

theorem cell_ofField (regs : Registers) (fetched : UInt16) (z : Fin 8) :
    (ofField z).cell regs fetched = .numbered regs.hl z := by
  match z with
  | 0 | 1 | 2 | 3 | 4 | 5 | 6 | 7 => rfl

/-- What the phases find in a place is the byte of its cell. -/
theorem value_loaded (place : Place) {p : Phases} {d : Machine FlatBus} {n : UInt16}
    (h : p.loading d = place.load (p.arrived d).regs n) :
    place.value (p.arrived d).regs (p.loaded d) = d.cell (place.cell d.cpu.regs n) := by
  cases place with
  | reg r => exact d.cpu.byte_skip _ r
  | mem address =>
    rw [Phases.loaded, h, cell, ← address.locate_skip d.cpu p.length.toUInt16]
    exact UInt8.toUInt8_toUInt16 _

/-- A byte that is kept and stored in a place goes to its cell, and HL may step. -/
theorem cell_put (place : Place) {d t : Machine FlatBus} {v : UInt8} {n : UInt16}
    (hregs : ∀ q, t.cpu.regs.byte q = (place.keep v d.cpu.regs).byte q)
    (hbus : t.bus = d.bus.put d.cpu.regs.sp (place.store d.cpu.regs n v)) (c : Cell) :
    t.cell c = if c = place.cell d.cpu.regs n then v else (d.stepHL place.hlStep).cell c := by
  cases place with
  | reg r =>
    rw [hlStep, Machine.stepHL_none]
    cases c with
    | mem a =>
      simp only [Machine.cell, hbus, cell, reduceCtorEq, if_false]
      rfl
    | reg q => simp only [Machine.cell, hregs, cell, keep, Registers.byte_setByte, Cell.reg.injEq]
  | mem address =>
    cases c with
    | mem a =>
      simp only [Machine.cell, hbus, cell, store, FlatBus.put, FlatBus.byte_store, Cell.mem.injEq]
      rfl
    | reg q =>
      simp only [Machine.cell, hregs, cell, keep, Address.step_eq, reduceCtorEq, if_false]
      rfl

end Place

/-- The byte that a source stands for, once the opcode has been fetched. -/
def Source.byte (d : Machine FlatBus) (fetched : UInt16) : Source → UInt8
  | place p => d.cell (p.cell d.cpu.regs fetched)
  | immediate => fetched.toUInt8

theorem Source.byte_ofField (d : Machine FlatBus) (fetched : UInt16) (z : Fin 8) :
    (place (.ofField z)).byte d fetched = d.cell (.numbered d.cpu.regs.hl z) := by
  rw [byte, Place.cell_ofField]

theorem Source.value_loaded (source : Source) {p : Phases} {d : Machine FlatBus}
    (h : p.loading d = source.load (p.arrived d).regs (p.fetched d)) :
    source.value (p.arrived d).regs (p.fetched d) (p.loaded d) = source.byte d (p.fetched d) := by
  cases source with
  | immediate => rfl
  | place p => exact p.value_loaded h

end GameBoy
