import GameBoy.Bus.Program
import GameBoy.Proofs.Accesses
import GameBoy.Proofs.Entries
import Mathlib.Algebra.Group.Nat.Defs

/-!
# The catalogue of opcodes

The catalogue has a table for each page of opcodes. A table is filled row by row and column by
column, an entry taking the place of the one that its opcode had before. This is a second account of
what opcodes mean, beside the one by which the machine decodes them. The two agree on every opcode,
on its text and cost as on what it does, and so the routines of the catalogue only meet operands
that suit them.

Main statements: `Catalogue.entry_eq` and `Catalogue.run_safe`.
-/

namespace GameBoy

open Arithmetic

namespace Catalogue

/-! ## Filling a table -/

/-- A table of the 256 opcodes of a page. -/
abbrev Table := UInt8 → Entry

/-- A table in which nothing has been entered. -/
def blank (prefixed : Bool) : Table := fun opcode =>
  { opcode, prefixed, mnemonic := "???", operands := (none, none), length := 1, cycles := 0,
    takenCycles := none, routine := .unimplemented }

/-- Enter an entry in the place of the one that its opcode had. -/
def Table.insert (table : Table) (e : Entry) : Table := fun opcode =>
  if opcode = e.opcode then e else table opcode

/-- A table with some entries, entered one after the other. -/
def fill (prefixed : Bool) (entries : List Entry) : Table :=
  entries.foldl Table.insert (blank prefixed)

/-! ## The entries of the first page -/

/-- An entry of the first page. -/
def op (opcode : UInt8) (mnemonic : String) (operands : List Operand) (cycles : Nat)
    (routine : Routine) : Entry :=
  .make opcode false mnemonic operands cycles none routine

/-- The entry of a conditional branch. -/
def branch (opcode : UInt8) (mnemonic : String) (operands : List Operand) (taken cycles : Nat)
    (routine : Routine) : Entry :=
  .make opcode false mnemonic operands cycles (some taken) routine

/-- The accumulator as an operand. -/
def accumulator : Operand := .r8 .a

/-- The operand that a three-bit field names. -/
def place (n : Fin 8) : Operand := (Place.ofField n).operand

/-- The opcode with a given row, of eight, and column in a quarter of a page that starts at
`start`. -/
def at8 (start : UInt8) (row : Fin 8) (column : UInt8) : UInt8 :=
  start ||| row.val.toUInt8 <<< 3 ||| column

/-- The opcode with a given row, of four, and column in a quarter of a page that starts at
`start`. -/
def at4 (start : UInt8) (row : Fin 4) (column : UInt8) : UInt8 :=
  start ||| row.val.toUInt8 <<< 4 ||| column

/-- Loads, counting, sums of words, relative jumps, and what is done to the accumulator alone. -/
def quarter0 : List Entry :=
  [op 0x00 "NOP" [] 4 .nop,
    op 0x08 "LD" [.deref .a16, .r16 .sp] 20 .ld16,
    op 0x10 "STOP" [.value .n8] 4 .stop,
    op 0x18 "JR" [.value .e8] 12 .jr] ++
  ((List.finRange 4).map fun y =>
    branch (at8 0x20 (y.castLE (by decide)) 0x00) "JR" [.cond (.ofField y), .value .e8] 12 8 .jr) ++
  ((List.finRange 4).flatMap fun p =>
    [op (at4 0x00 p 0x01) "LD" [.r16 (.ofField p), .value .n16] 12 .ld16,
      op (at4 0x00 p 0x09) "ADD" [.r16 .hl, .r16 (.ofField p)] 8 .addHL,
      op (at4 0x00 p 0x03) "INC" [.r16 (.ofField p)] 8 .inc16,
      op (at4 0x00 p 0x0B) "DEC" [.r16 (.ofField p)] 8 .dec16]) ++
  ((List.finRange 4).flatMap fun p =>
    [op (at4 0x00 p 0x02) "LD" [(Address.ofField p).operand, accumulator] 8 .ld,
      op (at4 0x00 p 0x0A) "LD" [accumulator, (Address.ofField p).operand] 8 .ld]) ++
  ((List.finRange 8).flatMap fun y =>
    [op (at8 0x00 y 0x04) "INC" [place y] (if y.val = 6 then 12 else 4) .inc8,
      op (at8 0x00 y 0x05) "DEC" [place y] (if y.val = 6 then 12 else 4) .dec8,
      op (at8 0x00 y 0x06) "LD" [place y, .value .n8] (if y.val = 6 then 12 else 8) .ld]) ++
  [op 0x07 "RLCA" [] 4 (.rotate .left true),
    op 0x0F "RRCA" [] 4 (.rotate .right true),
    op 0x17 "RLA" [] 4 (.rotate .left false),
    op 0x1F "RRA" [] 4 (.rotate .right false),
    op 0x27 "DAA" [] 4 .daa,
    op 0x2F "CPL" [] 4 .cpl,
    op 0x37 "SCF" [] 4 .scf,
    op 0x3F "CCF" [] 4 .ccf]

/-- Loads from place to place, and the halt among them. -/
def quarter1 : List Entry :=
  (List.finRange 8).flatMap fun y => (List.finRange 8).map fun z =>
    let opcode := at8 0x40 y z.val.toUInt8
    if opcode = 0x76 then op opcode "HALT" [] 4 .halt
    else op opcode "LD" [place y, place z] (if y.val = 6 ∨ z.val = 6 then 8 else 4) .ld

/-- The operations of the accumulator, with a place and with the byte after the opcode. The latter
stand in the last quarter. -/
def quarter2 : List Entry :=
  (List.finRange 8).flatMap fun y =>
    let alu := AluOp.ofField y
    ((List.finRange 8).map fun z =>
      op (at8 0x80 y z.val.toUInt8) alu.name [accumulator, place z] (if z.val = 6 then 8 else 4)
        (.alu alu)) ++
    [op (at8 0xC0 y 0x06) alu.name [accumulator, .value .n8] 8 (.alu alu)]

/-- Opcodes without a meaning. -/
def holes : List UInt8 := [0xD3, 0xDB, 0xDD, 0xE3, 0xE4, 0xEB, 0xEC, 0xED, 0xF4, 0xFC, 0xFD]

/-- Branches, the stack, loads in the page `FF00`, and what is left. -/
def quarter3 : List Entry :=
  ((List.finRange 4).flatMap fun y =>
    let condition := Operand.cond (.ofField y)
    let row := y.castLE (by decide)
    [branch (at8 0xC0 row 0x00) "RET" [condition] 20 8 .ret,
      branch (at8 0xC0 row 0x02) "JP" [condition, .value .a16] 16 12 .jp,
      branch (at8 0xC0 row 0x04) "CALL" [condition, .value .a16] 24 12 .call]) ++
  ((List.finRange 4).flatMap fun p =>
    [op (at4 0xC0 p 0x01) "POP" [.r16 (.ofStackField p)] 12 .pop,
      op (at4 0xC0 p 0x05) "PUSH" [.r16 (.ofStackField p)] 16 .push]) ++
  ((List.finRange 8).map fun y =>
    op (at8 0xC0 y 0x07) "RST" [.value (.vector (y.val.toUInt8 <<< 3))] 16 .rst) ++
  [op 0xC3 "JP" [.value .a16] 16 .jp,
    op 0xC9 "RET" [] 16 .ret,
    op Opcode.extend "PREFIX" [] 4 .extend,
    op 0xCD "CALL" [.value .a16] 24 .call,
    op 0xD9 "RETI" [] 16 .reti,
    op 0xE0 "LDH" [.deref .a8, accumulator] 12 .ld,
    op 0xF0 "LDH" [accumulator, .deref .a8] 12 .ld,
    op 0xE2 "LDH" [.deref (.reg8 .c), accumulator] 8 .ld,
    op 0xF2 "LDH" [accumulator, .deref (.reg8 .c)] 8 .ld,
    op 0xE8 "ADD" [.r16 .sp, .value .e8] 16 .addSP,
    op 0xF8 "LD" [.r16 .hl, .value .spPlusE8] 12 .ld16,
    op 0xE9 "JP" [.r16 .hl] 4 .jpHL,
    op 0xF9 "LD" [.r16 .sp, .r16 .hl] 8 .ld16,
    op 0xEA "LD" [.deref .a16, accumulator] 16 .ld,
    op 0xFA "LD" [accumulator, .deref .a16] 16 .ld,
    op 0xF3 "DI" [] 4 .di,
    op 0xFB "EI" [] 4 .ei] ++
  holes.map fun opcode => op opcode "ILLEGAL" [] 4 .illegal

/-- The entries of the first page, in the order in which they are entered. -/
def firstEntries : List Entry := quarter0 ++ quarter1 ++ quarter2 ++ quarter3

/-- The entry of an opcode of the extended page. -/
def extendedEntry (opcode : UInt8) : Entry :=
  let y := Opcode.upper opcode
  let target := place (Opcode.lower opcode)
  let onMemory := target = .indirect .hl
  let bit := Operand.value (.bit y.val.toUInt8)
  match Opcode.group opcode with
  | 0 =>
    let shift := ShiftOp.ofField y
    .make opcode true shift.name [target] (if onMemory then 16 else 8) none (.shift shift)
  | 1 => .make opcode true "BIT" [bit, target] (if onMemory then 12 else 8) none .bit
  | 2 => .make opcode true "RES" [bit, target] (if onMemory then 16 else 8) none .res
  | 3 => .make opcode true "SET" [bit, target] (if onMemory then 16 else 8) none .set

/-- The entries of the extended page, in the order in which they are entered. -/
def extendedEntries : List Entry := (List.range 256).map fun n => extendedEntry n.toUInt8

/-! ## The tables -/

/-- The opcodes that some entries have, the opcode `n` as bit `n`. -/
def coverage (entries : List Entry) : Nat :=
  entries.foldr (fun e mask => mask ||| 1 <<< e.opcode.toNat) 0

theorem testBit_coverage {entries : List Entry} {n : Nat} (h : (coverage entries).testBit n) :
    ∃ e ∈ entries, e.opcode.toNat = n := by
  induction entries with
  | nil => simp [coverage] at h
  | cons e entries ih =>
    have hcons : coverage (e :: entries) = coverage entries ||| 2 ^ e.opcode.toNat := by
      rw [← Nat.one_shiftLeft]
      rfl
    rw [hcons, Nat.testBit_or, Nat.testBit_two_pow, Bool.or_eq_true, decide_eq_true_eq] at h
    rcases h with h | h
    · obtain ⟨e', hmem, he'⟩ := ih h
      exact ⟨e', List.mem_cons_of_mem _ hmem, he'⟩
    · exact ⟨e, List.mem_cons_self, h⟩

/-- As long as all entries agree, it does not matter which of them came last. -/
theorem foldl_insert {f : Table} {opcode : UInt8} {entries : List Entry}
    (hagree : ∀ e ∈ entries, e = f e.opcode) (table : Table)
    (h : table opcode = f opcode ∨ ∃ e ∈ entries, e.opcode = opcode) :
    entries.foldl Table.insert table opcode = f opcode := by
  induction entries generalizing table with
  | nil => simpa using h
  | cons e entries ih =>
    refine ih (fun e' he' => hagree e' (List.mem_cons_of_mem _ he')) _ ?_
    by_cases hopcode : opcode = e.opcode
    · left
      rw [Table.insert, if_pos hopcode, hagree e List.mem_cons_self, hopcode]
    · rw [Table.insert, if_neg hopcode]
      rcases h with h | ⟨e', hmem, he'⟩
      · exact .inl h
      · rcases List.mem_cons.1 hmem with rfl | hmem
        · exact absurd he'.symm hopcode
        · exact .inr ⟨e', hmem, he'⟩

/-- A table whose entries agree with instructions, and that has one for each opcode. -/
theorem fill_eq {prefixed : Bool} {entries : List Entry}
    (hagree : ∀ e ∈ entries, e = .ofInstruction ⟨e.opcode, prefixed⟩)
    (hcover : coverage entries = 2 ^ 256 - 1) (opcode : UInt8) :
    fill prefixed entries opcode = .ofInstruction ⟨opcode, prefixed⟩ := by
  have hbit : (coverage entries).testBit opcode.toNat = true := by
    rw [hcover, Nat.testBit_two_pow_sub_one]
    exact decide_eq_true opcode.toNat_lt
  obtain ⟨e, hmem, he⟩ := testBit_coverage hbit
  exact foldl_insert (f := fun opcode => .ofInstruction ⟨opcode, prefixed⟩) hagree _
    (.inr ⟨e, hmem, UInt8.toNat_inj.1 he⟩)

/-- The table of the first page. -/
def first : Table := fill false firstEntries

/-- The table of the extended page. -/
def extended : Table := fill true extendedEntries

/-- The entry of an opcode. -/
def entry (opcode : UInt8) (prefixed : Bool) : Entry :=
  if prefixed then extended opcode else first opcode

/-- The catalogue says of every opcode what the machine decodes. -/
theorem entry_eq (opcode : UInt8) (prefixed : Bool) :
    entry opcode prefixed = .ofInstruction ⟨opcode, prefixed⟩ := by
  cases prefixed with
  | false => exact fill_eq (by decide +kernel) (by decide +kernel) opcode
  | true => exact fill_eq (by decide +kernel) (by decide +kernel) opcode

end Catalogue

/-! ## Running entries -/

namespace Entry

open Checked (lift lift_bind refuse)

variable {β : Type} [Bus β]

/-- Run an entry. -/
def run (e : Entry) : Checked β Nat :=
  e.runWith fun opcode => (Catalogue.extended opcode).runWith fun _ => refuse .nested

/-- The entry of an instruction runs as the instruction executes. -/
theorem run_ofInstruction (i : Instruction) :
    ((ofInstruction i).run : Checked β Nat) = lift i.execute := by
  unfold run ofInstruction Instruction.execute
  cases haction : i.action with
  | operation op => exact runWith_operation _ _ _ op
  | bits op => exact runWith_bits _ _ _ op
  | illegal =>
    funext s
    rfl
  | extend =>
    have hopcode : i.opcode = Opcode.extend := by
      unfold Instruction.action at haction
      split at haction
      · cases haction
      · exact Action.eq_extend haction
    -- The entry that the next byte selects is one of the extended page, which leads nowhere else.
    have hextended (opcode : UInt8) :
        (Catalogue.extended opcode).runWith (fun _ => refuse .nested) =
          (lift (BitOperation.ofOpcode opcode).execute : Checked β Nat) := by
      have hentry : Catalogue.extended opcode = ofInstruction ⟨opcode, true⟩ :=
        Catalogue.entry_eq opcode true
      rw [hentry]
      exact runWith_bits _ opcode true (.ofOpcode opcode)
    change (if i.opcode = Opcode.extend then _ else _) = _
    rw [if_pos hopcode]
    simp only [hextended, Action.execute, lift_bind]

end Entry

/-! ## How entries fail -/

theorem Catalogue.illegal_iff (opcode : UInt8) :
    Action.ofOpcode opcode = .illegal ↔ opcode ∈ holes := by
  have hall : ∀ n < 256, (Action.ofOpcode n.toUInt8 = .illegal ↔ n.toUInt8 ∈ holes) := by
    decide +kernel
  simpa using hall opcode.toNat opcode.toNat_lt

variable {β : Type} [Bus β]

theorem Instruction.illegal_iff (i : Instruction) :
    i.action = .illegal ↔ i.prefixed = false ∧ i.opcode ∈ Catalogue.holes := by
  rw [← Catalogue.illegal_iff, action]
  cases i.prefixed <;> simp

namespace Machine

variable {s t : Machine β} {e : Fault} {opcode : UInt8} {pc : UInt16}

/-- A step that finds an opcode without a meaning has fetched it from the address that it names. -/
theorem step_illegal (hfault : s.cpu.fault = none)
    (h : step s = .error (.illegalOpcode opcode pc) t) :
    opcode ∈ Catalogue.holes ∧ s.cpu.regs.pc = pc ∧ ∃ b, Bus.read pc s.bus = .ok opcode b := by
  obtain ⟨u, hstuck, -⟩ := step_error hfault h
  generalize he : Fault.illegalOpcode opcode pc = e at hstuck
  cases hstuck with
  | served _ _ _ _ _ hpush =>
    obtain ⟨error, rfl, -⟩ := (Exec.byAccess_push _).error hpush
    cases he
  | executed i b _ _ _ hdecoded hfailed =>
    rcases Instruction.execute_fails hfailed with ⟨error, rfl, -⟩ | ⟨hillegal, rfl, -⟩
    · cases he
    · cases he
      obtain ⟨hprefixed, hhole⟩ := i.illegal_iff.1 hillegal
      obtain ⟨halted, hcpu⟩ := s.cpu_entered i b
      have hpc : (s.entered i b).cpu.regs.pc - 1 = s.cpu.regs.pc := by
        simp only [hcpu, Instruction.opcodeLength, hprefixed, Bool.false_eq_true, if_false]
        exact UInt16.add_sub_cancel _ 1
      rw [hpc]
      exact ⟨hhole, rfl, _, Exec.read_of_instructionAt hprefixed hdecoded⟩
  | _ => cases he

end Machine

/-! ## The catalogue is safe -/

namespace Catalogue

/-- Whatever the states of the processor and the bus, an entry of the catalogue runs as the machine
executes its instruction, and ends early in two cases only: an access fails, or its opcode is one of
those without a meaning. So its operands always suit its routine. If a step, the `n`-th say, ends in
the second case, then because it or an earlier one has fetched that opcode from the address that the
fault tells. -/
theorem run_safe (opcode : UInt8) (prefixed : Bool) (s : Machine β) :
    (entry opcode prefixed).run s = Checked.lift (Instruction.mk opcode prefixed).execute s ∧
    (∀ e t, (entry opcode prefixed).run s = .error e t →
      (∃ error, e = .fault (.bus error) ∧ Bus.Failed s.bus error t.bus) ∨
      e = .fault (.illegalOpcode opcode (s.cpu.regs.pc - 1)) ∧ t = s) ∧
    ((∃ op pc t, (entry opcode prefixed).run s = .error (.fault (.illegalOpcode op pc)) t) ↔
      prefixed = false ∧ opcode ∈ holes) ∧
    ∀ n pc t, s.cpu.fault = none →
      Machine.step (Machine.next^[n] s) = .error (.illegalOpcode opcode pc) t →
      opcode ∈ holes ∧ ∃ m ≤ n, ∃ u v, u = Machine.next^[m] s ∧ u.cpu.fault = none ∧
        Machine.step u = .error (.illegalOpcode opcode pc) v ∧ u.cpu.regs.pc = pc ∧
        ∃ b, Bus.read pc u.bus = .ok opcode b := by
  have hrun : (entry opcode prefixed).run s =
      Checked.lift (Instruction.mk opcode prefixed).execute s := by
    rw [entry_eq, Entry.run_ofInstruction]
  refine ⟨hrun, ?_, ⟨?_, ?_⟩, ?_⟩
  · intro e t h
    rw [hrun] at h
    obtain ⟨fault, rfl, hexecute⟩ := Checked.lift_eq_error.1 h
    rcases Instruction.execute_fails hexecute with ⟨error, rfl, hfailed⟩ | ⟨-, rfl, rfl⟩
    · exact .inl ⟨error, rfl, hfailed⟩
    · exact .inr ⟨rfl, rfl⟩
  · rintro ⟨op, pc, t, h⟩
    rw [hrun] at h
    obtain ⟨_, ⟨⟩, hexecute⟩ := Checked.lift_eq_error.1 h
    rcases Instruction.execute_fails hexecute with ⟨error, ⟨⟩, -⟩ | ⟨hillegal, -, -⟩
    exact (Instruction.illegal_iff _).1 hillegal
  · intro hhole
    have hillegal := (Instruction.illegal_iff ⟨opcode, prefixed⟩).2 hhole
    refine ⟨opcode, s.cpu.regs.pc - 1, s, ?_⟩
    rw [hrun]
    exact Checked.lift_eq_error.2 ⟨_, rfl, Instruction.execute_illegal hillegal s⟩
  · intro n pc t hfault h
    obtain ⟨m, hm, hrunning, v, hstep⟩ := Machine.step_raised hfault h
    obtain ⟨hhole, hpc, hread⟩ := Machine.step_illegal hrunning hstep
    exact ⟨hhole, m, hm, _, v, rfl, hrunning, hstep, hpc, hread⟩

/-- A program whose second opcode has no meaning. The step that meets it fails, and so does the next
one, with the address of that opcode. -/
theorem run_safe_second_opcode : ∃ s t : Machine ProgramBus, s.cpu.fault = none ∧
    Machine.step (Machine.next^[2] s) = .error (.illegalOpcode 0xD3 0x0001) t ∧
    (0xD3 : UInt8) ∈ holes ∧ ∃ m ≤ 2, ∃ u v, u = Machine.next^[m] s ∧ u.cpu.fault = none ∧
      Machine.step u = .error (.illegalOpcode 0xD3 0x0001) v ∧ u.cpu.regs.pc = 0x0001 ∧
      ∃ b, Bus.read 0x0001 u.bus = .ok 0xD3 b := by
  obtain ⟨s, t, hfault, hstep⟩ : ∃ s t : Machine ProgramBus, s.cpu.fault = none ∧
      Machine.step (Machine.next^[2] s) = .error (.illegalOpcode 0xD3 0x0001) t :=
    ⟨.start .powerOn ⟨#[0x00, 0xD3]⟩, _, rfl, rfl⟩
  exact ⟨s, t, hfault, hstep, (run_safe 0xD3 false s).2.2.2 2 0x0001 t hfault hstep⟩

end Catalogue

end GameBoy
