import GameBoy.Proofs.Disassembly
import GameBoy.Proofs.Ready

/-!
# Loads of a byte

A load is a *transfer*: a byte goes from a cell, or from behind the opcode, to another cell, and HL
may step afterwards. `Machine.Loads` lists the transfers that the opcodes of the loads stand for,
each said of the machine before the opcode is fetched. All of them are one operation with a target
and a source, so that what a load changes is proved once for the operation and read off for every
opcode.

Main statement: `Machine.IsReady.load_byte`.
-/

namespace GameBoy

/-! ## Loads -/

namespace Operation

variable (target : Place) (source : Source) (d : Machine FlatBus)

/-- The byte that a load moves. -/
def moved : UInt8 := source.byte d ((load target source).phases.fetched d)

theorem result_load : ((load target source).phases.result d).cpu.regs =
      target.keep (moved target source d)
        (source.step ((load target source).phases.arrived d).regs) ∧
    ((load target source).phases.result d).bus = d.bus.put d.cpu.regs.sp
      (target.store ((load target source).phases.arrived d).regs
        ((load target source).phases.fetched d) (moved target source d)) := by
  have hvalue : source.value ((load target source).phases.arrived d).regs
      ((load target source).phases.fetched d) ((load target source).phases.loaded d) =
        moved target source d := source.value_loaded rfl
  have hstoring : (load target source).phases.storing d =
      target.store ((load target source).phases.arrived d).regs
        ((load target source).phases.fetched d) (moved target source d) := by
    rw [← hvalue]
    rfl
  have hpushed : ((load target source).phases.storing d).pushed = 0 := by
    rw [hstoring]
    cases target <;> rfl
  constructor
  · simp only [Phases.result, hpushed, Cpu.drop_zero, ← hvalue]
    rfl
  · simp only [Phases.result, hstoring]

/-- How HL moves in a load. -/
def loadStep : HLStep :=
  match target with
  | .reg _ => source.hlStep
  | .mem address => address.hlStep

/-- A load changes the cell of its target, and HL may step. -/
theorem cell_result_load (h : (load target source).isProper) (c : Cell) :
    ((load target source).phases.result d).cell c =
      if c = target.cell d.cpu.regs ((load target source).phases.fetched d) then
        moved target source d
      else (d.stepHL (loadStep target source)).cell c := by
  obtain ⟨hregs, hbus⟩ := result_load target source d
  -- The source has been read, and the target has not been written yet.
  let d' : Machine FlatBus := { d with cpu := (load target source).phases.arrived d }
  have hcell (step : HLStep) : (d'.stepHL step).cell c = (d.stepHL step).cell c := by
    cases c with
    | mem a => rfl
    | reg q =>
      simp only [Machine.cell, Machine.stepHL, Registers.byte_setHL, d', Phases.arrived,
        Cpu.hl_skip, Cpu.byte_skip]
  have hregs' (q : Reg8) : ((load target source).phases.result d).cpu.regs.byte q =
      (target.keep (moved target source d) (d'.stepHL source.hlStep).cpu.regs).byte q := by
    rw [hregs, Source.step_eq]
    rfl
  cases target with
  | reg r =>
    have hput := Place.cell_put (.reg r) (n := 0) hregs' hbus c
    rw [Place.hlStep, Machine.stepHL_none, hcell] at hput
    exact hput
  | mem address =>
    -- A load into memory takes its byte from a register or from behind the opcode.
    have hsource : source.hlStep = .none := by
      rcases source with (r' | address') | _
      · rfl
      · cases h
      · rfl
    rw [hsource, Machine.stepHL_none] at hregs'
    have hput := Place.cell_put (.mem address) hregs' hbus c
    have hlocated (n : UInt16) :
        address.locate d'.cpu.regs n = address.locate d.cpu.regs n := address.locate_skip _ _ n
    rw [Place.hlStep, hcell, Place.cell, hlocated] at hput
    exact hput

theorem frame_result_load :
    let r := ((load target source).phases.result d).cpu.regs
    r.f = d.cpu.regs.f ∧ r.sp = d.cpu.regs.sp ∧
      r.pc = d.cpu.regs.pc + (target.operand.length + source.operand.length).toUInt16 := by
  intro r
  have hr : r = target.keep (moved target source d)
      (source.step ((load target source).phases.arrived d).regs) := (result_load target source d).1
  rw [hr, Source.step_eq, Registers.f_keep, Registers.sp_keep, Registers.pc_keep]
  exact ⟨rfl, rfl, rfl⟩

end Operation

/-! ## The family -/

theorem Word.page_eq (v : UInt8) : 0xFF00 ||| v.toUInt16 = 0xFF00 + v.toUInt16 := by
  have hlow := v.toNat_lt
  apply UInt16.toNat_inj.1
  rw [UInt16.toNat_or, UInt16.toNat_add, UInt8.toNat_toUInt16]
  have hor := Nat.shiftLeft_add_eq_or_of_lt hlow 0xFF
  simp only [Nat.shiftLeft_eq] at hor
  change 0xFF * 2 ^ 8 ||| v.toNat = (0xFF * 2 ^ 8 + v.toNat) % 2 ^ 16
  omega

/-- What a load does: a byte goes to a cell, and HL may step afterwards. -/
structure Transfer where
  target : Cell
  value : UInt8
  step : HLStep
  /-- The bytes of the instruction. -/
  length : Nat
  /-- The cycles that it takes. -/
  cost : Nat

namespace Machine

/-- What the opcodes of the loads of a byte stand for. The machine has not fetched the opcode yet,
so that the bytes after it are the ones that follow the program counter. -/
inductive Loads (s : Machine FlatBus) : UInt8 → Transfer → Prop where
  | copy (y z : Fin 8) (h : ¬ (y = 6 ∧ z = 6)) :
    Loads s (Opcode.ofFields 1 y z)
      ⟨.numbered s.cpu.regs.hl y, s.cell (.numbered s.cpu.regs.hl z), .none, 1,
        if y = 6 ∨ z = 6 then 8 else 4⟩
  | immediate (y : Fin 8) :
    Loads s (Opcode.ofFields 0 y 6)
      ⟨.numbered s.cpu.regs.hl y, s.bus.byte (s.cpu.regs.pc + 1), .none, 2,
        if y = 6 then 12 else 8⟩
  | storeBC : Loads s 0x02 ⟨.mem s.cpu.regs.bc, s.cpu.regs.a, .none, 1, 8⟩
  | storeDE : Loads s 0x12 ⟨.mem s.cpu.regs.de, s.cpu.regs.a, .none, 1, 8⟩
  | storeInc : Loads s 0x22 ⟨.mem s.cpu.regs.hl, s.cpu.regs.a, .inc, 1, 8⟩
  | storeDec : Loads s 0x32 ⟨.mem s.cpu.regs.hl, s.cpu.regs.a, .dec, 1, 8⟩
  | loadBC : Loads s 0x0A ⟨.reg .a, s.bus.byte s.cpu.regs.bc, .none, 1, 8⟩
  | loadDE : Loads s 0x1A ⟨.reg .a, s.bus.byte s.cpu.regs.de, .none, 1, 8⟩
  | loadInc : Loads s 0x2A ⟨.reg .a, s.bus.byte s.cpu.regs.hl, .inc, 1, 8⟩
  | loadDec : Loads s 0x3A ⟨.reg .a, s.bus.byte s.cpu.regs.hl, .dec, 1, 8⟩
  | storePage : Loads s 0xE0
      ⟨.mem (0xFF00 + (s.bus.byte (s.cpu.regs.pc + 1)).toUInt16), s.cpu.regs.a, .none, 2, 12⟩
  | loadPage : Loads s 0xF0
      ⟨.reg .a, s.bus.byte (0xFF00 + (s.bus.byte (s.cpu.regs.pc + 1)).toUInt16), .none, 2, 12⟩
  | storePageC : Loads s 0xE2
      ⟨.mem (0xFF00 + s.cpu.regs.c.toUInt16), s.cpu.regs.a, .none, 1, 8⟩
  | loadPageC : Loads s 0xF2
      ⟨.reg .a, s.bus.byte (0xFF00 + s.cpu.regs.c.toUInt16), .none, 1, 8⟩
  | storeAbsolute : Loads s 0xEA
      ⟨.mem (s.bus.word (s.cpu.regs.pc + 1)), s.cpu.regs.a, .none, 3, 16⟩
  | loadAbsolute : Loads s 0xFA
      ⟨.reg .a, s.bus.byte (s.bus.word (s.cpu.regs.pc + 1)), .none, 3, 16⟩

/-- The machine has made a transfer. The target holds the value, a step of HL is from where HL was,
and nothing else has changed, the flags and the stack pointer least of all. -/
structure Transferred (s : Machine FlatBus) (x : Transfer) (t : Machine FlatBus) : Prop where
  target : t.cell x.target = x.value
  hl : x.step ≠ .none → t.cpu.regs.hl = x.step.apply s.cpu.regs.hl
  others : ∀ c, c ≠ x.target → (x.step = .none ∨ c ≠ .reg .h ∧ c ≠ .reg .l) → t.cell c = s.cell c
  f : t.cpu.regs.f = s.cpu.regs.f
  sp : t.cpu.regs.sp = s.cpu.regs.sp
  pc : t.cpu.regs.pc = s.cpu.regs.pc + x.length.toUInt16

variable {s : Machine FlatBus} {opcode : UInt8} {x : Transfer}

/-- The opcodes of the loads that have an address of their own. -/
def addressed : List UInt8 :=
  [0x02, 0x12, 0x22, 0x32, 0x0A, 0x1A, 0x2A, 0x3A, 0xE0, 0xF0, 0xE2, 0xF2, 0xEA, 0xFA]

/-- An opcode of the loads of a byte, by its bits: one of the second quarter, but the one that would
load memory from itself, one of the first quarter with 6 in its lowest bits, or one of those with an
address of their own. -/
def isLoad (opcode : UInt8) : Bool :=
  (0x40 ≤ opcode && opcode < 0x80 && opcode != 0x76) || (opcode < 0x40 && opcode % 8 == 6) ||
    addressed.contains opcode

/-- The transfer that a load makes when the opcode has been fetched. -/
def transferOf (d : Machine FlatBus) (target : Place) (source : Source) : Transfer where
  target := target.cell d.cpu.regs ((Operation.load target source).phases.fetched d)
  value := Operation.moved target source d
  step := Operation.loadStep target source
  length := 1 + (target.operand.length + source.operand.length)
  cost := (Operation.load target source).cycles

/-- A load makes its transfer. -/
theorem IsReady.transfers {target : Place} {source : Source} (h : s.IsReady)
    (hop : Action.ofOpcode (s.bus.byte s.cpu.regs.pc) = .operation (.load target source))
    (hproper : (Operation.load target source).isProper)
    (hkept : Operation.loadStep target source = .none ∨ target ≠ .reg .h ∧ target ≠ .reg .l) :
    let i : Instruction := ⟨s.bus.byte s.cpu.regs.pc, false⟩
    let x := (s.decoded i).transferOf target source
    ∃ t, s.Executes i x.cost t ∧ s.Transferred x t := by
  intro i x
  obtain ⟨t, hexecutes, hregs, hbus⟩ := h.executes_operation hop hproper fun _ => rfl
  have hcell (c : Cell) : t.cell c =
      if c = x.target then x.value else ((s.decoded i).stepHL x.step).cell c := by
    have hresult := Operation.cell_result_load target source (s.decoded i) hproper c
    refine Eq.trans ?_ hresult
    cases c with
    | reg r => exact congrArg (·.byte r) hregs
    | mem a => exact congrArg (·.byte a) hbus
  have hkept' (hstep : x.step ≠ .none) : x.target ≠ .reg .h ∧ x.target ≠ .reg .l := by
    obtain ⟨hh, hl⟩ := hkept.resolve_left hstep
    cases target with
    | reg r => exact ⟨fun heq => hh (by cases heq; rfl), fun heq => hl (by cases heq; rfl)⟩
    | mem address => exact ⟨nofun, nofun⟩
  obtain ⟨hf, hsp, hpc⟩ := Operation.frame_result_load target source (s.decoded i)
  rw [← hregs] at hf hsp hpc
  refine ⟨t, hexecutes, ?target, ?hl, ?others, hf, hsp, ?pc⟩
  case target =>
    rw [hcell, if_pos rfl]
  case hl =>
    intro hstep
    obtain ⟨hh, hl⟩ := hkept' hstep
    have hhigh := hcell (.reg .h)
    have hlow := hcell (.reg .l)
    rw [if_neg hh.symm] at hhigh
    rw [if_neg hl.symm] at hlow
    change Word.ofBytes (t.cell (.reg .h)) (t.cell (.reg .l)) = _
    rw [hhigh, hlow]
    exact ((s.decoded i).hl_stepHL x.step)
  case others =>
    intro c hc hstep
    rw [hcell, if_neg hc]
    obtain hnone | ⟨hh, hl⟩ := hstep
    · rw [hnone, stepHL_none, cell_decoded]
    · rw [cell_stepHL _ _ hh hl, cell_decoded]
  case pc =>
    have hentered : (s.decoded i).cpu.regs.pc = s.cpu.regs.pc + 1 := rfl
    have hlength : x.length.toUInt16 =
        1 + (target.operand.length + source.operand.length).toUInt16 := UInt16.ofNat_add 1 _
    rw [hpc, hentered, hlength, UInt16.add_assoc]

/-- The transfer that an opcode stands for is the one that it is decoded to. -/
theorem Loads.exists_decoded (h : s.Loads (s.bus.byte s.cpu.regs.pc) x) :
    ∃ target source,
      Action.ofOpcode (s.bus.byte s.cpu.regs.pc) = .operation (.load target source) ∧
      (Operation.load target source).isProper ∧
      (Operation.loadStep target source = .none ∨ target ≠ .reg .h ∧ target ≠ .reg .l) ∧
      x = (s.decoded ⟨s.bus.byte s.cpu.regs.pc, false⟩).transferOf target source := by
  generalize s.bus.byte s.cpu.regs.pc = opcode at h
  cases h with
  | copy y z hyz =>
    have hshape : ∀ y z : Fin 8, ¬ (y = 6 ∧ z = 6) →
        let op := Operation.load (.ofField y) (.place (.ofField z))
        op.isProper ∧ Operation.loadStep (.ofField y) (.place (.ofField z)) = .none ∧
          op.phases.length = 0 ∧ op.cycles = if y = 6 ∨ z = 6 then 8 else 4 := by decide
    obtain ⟨hproper, hstep, hlength, hcycles⟩ := hshape y z hyz
    refine ⟨.ofField y, .place (.ofField z), ?_, hproper, .inl hstep, ?_⟩
    · rw [Action.ofOpcode_ofFields]
      exact if_neg hyz
    · rw [transferOf, hstep, hcycles, Place.cell_ofField, Operation.moved,
        Source.byte_ofField, cell_decoded]
      exact congrArg (Transfer.mk _ _ _ · _) (congrArg (1 + ·) hlength.symm)
  | immediate y =>
    have hshape : ∀ y : Fin 8, let op := Operation.load (.ofField y) .immediate
        op.isProper ∧ Operation.loadStep (.ofField y) .immediate = .none ∧
          op.phases.length = 1 ∧ op.cycles = if y = 6 then 12 else 8 := by decide
    obtain ⟨hproper, hstep, hlength, hcycles⟩ := hshape y
    have hvalue :
        Operation.moved (.ofField y) .immediate (s.decoded ⟨Opcode.ofFields 0 y 6, false⟩) =
          s.bus.byte (s.cpu.regs.pc + 1) := by
      rw [Operation.moved, Phases.fetched, hlength]
      exact UInt8.toUInt8_toUInt16 _
    refine ⟨.ofField y, .immediate, Action.ofOpcode_ofFields 0 y 6, hproper, .inl hstep, ?_⟩
    rw [transferOf, hstep, hcycles, Place.cell_ofField, hvalue]
    exact congrArg (Transfer.mk _ _ _ · _) (congrArg (1 + ·) hlength.symm)
  | storeBC => exact ⟨.mem .bc, .place (.reg .a), rfl, rfl, .inl rfl, rfl⟩
  | storeDE => exact ⟨.mem .de, .place (.reg .a), rfl, rfl, .inl rfl, rfl⟩
  | storeInc => exact ⟨.mem .hlInc, .place (.reg .a), rfl, rfl, .inr ⟨nofun, nofun⟩, rfl⟩
  | storeDec => exact ⟨.mem .hlDec, .place (.reg .a), rfl, rfl, .inr ⟨nofun, nofun⟩, rfl⟩
  | loadBC => exact ⟨.reg .a, .place (.mem .bc), rfl, rfl, .inl rfl, rfl⟩
  | loadDE => exact ⟨.reg .a, .place (.mem .de), rfl, rfl, .inl rfl, rfl⟩
  | loadInc => exact ⟨.reg .a, .place (.mem .hlInc), rfl, rfl, .inr ⟨nofun, nofun⟩, rfl⟩
  | loadDec => exact ⟨.reg .a, .place (.mem .hlDec), rfl, rfl, .inr ⟨nofun, nofun⟩, rfl⟩
  | storePage =>
    rw [← Word.page_eq]
    exact ⟨.mem .page, .place (.reg .a), rfl, rfl, .inl rfl, rfl⟩
  | loadPage =>
    rw [← Word.page_eq]
    exact ⟨.reg .a, .place (.mem .page), rfl, rfl, .inl rfl, rfl⟩
  | storePageC =>
    rw [← Word.page_eq]
    exact ⟨.mem .pageC, .place (.reg .a), rfl, rfl, .inl rfl, rfl⟩
  | loadPageC =>
    rw [← Word.page_eq]
    exact ⟨.reg .a, .place (.mem .pageC), rfl, rfl, .inl rfl, rfl⟩
  | storeAbsolute => exact ⟨.mem .absolute, .place (.reg .a), rfl, rfl, .inl rfl, rfl⟩
  | loadAbsolute => exact ⟨.reg .a, .place (.mem .absolute), rfl, rfl, .inl rfl, rfl⟩

/-- Every load of a byte stands for a transfer. -/
theorem exists_loads (s : Machine FlatBus) (h : isLoad opcode) : ∃ x, s.Loads opcode x := by
  have hall : ∀ k y z, isLoad (Opcode.ofFields k y z) →
      (k = 1 ∧ ¬ (y = 6 ∧ z = 6)) ∨ (k = 0 ∧ z = 6) ∨ Opcode.ofFields k y z ∈ addressed := by decide
  have h' := h
  rw [← Opcode.ofFields_fields opcode] at h'
  obtain ⟨hk, hyz⟩ | ⟨hk, hz⟩ | hmem := hall _ _ _ h'
  · rw [← Opcode.ofFields_fields opcode, hk]
    exact ⟨_, .copy _ _ hyz⟩
  · rw [← Opcode.ofFields_fields opcode, hk, hz]
    exact ⟨_, .immediate _⟩
  · rw [Opcode.ofFields_fields] at hmem
    simp only [addressed, List.mem_cons, List.not_mem_nil, or_false] at hmem
    obtain rfl | rfl | rfl | rfl | rfl | rfl | rfl | rfl | rfl | rfl | rfl | rfl | rfl | rfl := hmem
    exacts [⟨_, .storeBC⟩, ⟨_, .storeDE⟩, ⟨_, .storeInc⟩, ⟨_, .storeDec⟩, ⟨_, .loadBC⟩,
      ⟨_, .loadDE⟩, ⟨_, .loadInc⟩, ⟨_, .loadDec⟩, ⟨_, .storePage⟩, ⟨_, .loadPage⟩,
      ⟨_, .storePageC⟩, ⟨_, .loadPageC⟩, ⟨_, .storeAbsolute⟩, ⟨_, .loadAbsolute⟩]

/-- A load of a byte copies the byte that its opcode names to the cell that its opcode names. -/
theorem IsReady.load_byte (h : s.IsReady) (hload : isLoad (s.bus.byte s.cpu.regs.pc)) :
    (∃ x, s.Loads (s.bus.byte s.cpu.regs.pc) x) ∧
    ∀ x, s.Loads (s.bus.byte s.cpu.regs.pc) x →
      ∃ t, s.Executes ⟨s.bus.byte s.cpu.regs.pc, false⟩ x.cost t ∧ s.Transferred x t := by
  refine ⟨exists_loads s hload, ?_⟩
  intro x hx
  obtain ⟨target, source, hop, hproper, hkept, rfl⟩ := hx.exists_decoded
  exact h.transfers hop hproper hkept

/-- HL is the last address of all. The byte there is loaded, and HL goes on to the first. -/
theorem load_byte_wraps : ∃ s t : Machine FlatBus,
    s.IsReady ∧ s.cpu.regs.hl = 0xFFFF ∧ s.bus.byte 0xFFFF = 0x5A ∧
    step s = .ok (.executed ⟨0x2A, false⟩ 8) t ∧
    t.cpu.regs.a = 0x5A ∧ t.cpu.regs.hl = 0 ∧ t.bus.byte 0xFFFF = 0x5A := by
  let s := ofContents { Registers.powerOn with h := 0xFF, l := 0xFF, pc := 0x0100 } fun a =>
    if a = 0x0100 then 0x2A else if a = 0xFFFF then 0x5A else 0
  have hopcode : s.bus.byte s.cpu.regs.pc = 0x2A := byte_ofContents _ _ _
  have hvalue : s.bus.byte 0xFFFF = 0x5A := byte_ofContents _ _ _
  have hready : s.IsReady := isReady_ofContents _ _
  obtain ⟨-, hall⟩ := hready.load_byte (by rw [hopcode]; rfl)
  rw [hopcode] at hall
  obtain ⟨t, hexecutes, htransferred⟩ := hall _ .loadInc
  have htarget : t.cpu.regs.a = s.bus.byte s.cpu.regs.hl := htransferred.target
  have hstepped : t.cpu.regs.hl = s.cpu.regs.hl + 1 := htransferred.hl nofun
  have hkept : t.bus.byte 0xFFFF = s.bus.byte 0xFFFF :=
    htransferred.others (.mem 0xFFFF) nofun (.inr ⟨nofun, nofun⟩)
  have hhl : s.cpu.regs.hl = 0xFFFF := (by decide : Word.ofBytes 0xFF 0xFF = 0xFFFF)
  rw [hhl] at htarget hstepped
  exact ⟨s, t, hready, hhl, hvalue, hexecutes.step, htarget.trans hvalue, hstepped,
    hkept.trans hvalue⟩

end Machine

end GameBoy
