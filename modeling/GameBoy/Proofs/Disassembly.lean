import GameBoy.Cpu.Disassembly
import GameBoy.Proofs.Buses
import GameBoy.Proofs.Steps

/-!
# What is executed is what is disassembled

A disassembler reads an instruction without executing it, and finds its length in the operands; an
executed instruction fetches what its phases ask for. On a bus with pure reads both see the same
bytes, so they agree on the instruction, on its immediate value and on the address that follows.

Main statement: `Machine.step_disassembly`.
-/

namespace GameBoy

variable {β : Type}

/-! ## Where an operation continues -/

namespace Registers

variable (r : Registers)

@[simp] theorem pc_setFlags (flags : Flags) : (r.setFlags flags).pc = r.pc := rfl

@[simp] theorem pc_setHL (w : UInt16) : (r.setHL w).pc = r.pc := rfl

@[simp] theorem pc_setByte (reg : Reg8) (v : UInt8) : (r.setByte reg v).pc = r.pc := by
  cases reg <;> rfl

@[simp] theorem pc_setWord (reg : Reg16) (w : UInt16) : (r.setWord reg w).pc = r.pc := by
  cases reg <;> rfl

@[simp] theorem pc_addressStep (address : Address) : (address.step r).pc = r.pc := by
  cases address <;> rfl

@[simp] theorem pc_keep (place : Place) (v : UInt8) : (place.keep v r).pc = r.pc := by
  cases place <;> simp [Place.keep]

@[simp] theorem pc_sourceStep (source : Source) : (source.step r).pc = r.pc := by
  rcases source with (_ | _) | _ <;> simp [Source.step, Place.step]

end Registers

namespace Operation

/-- The program counter after an operation, given the registers after its last access. -/
def nextPc (fetched loaded : UInt16) (r : Registers) : Operation → UInt16
  | jr condition =>
    if condition.all (·.holds r.flags) then r.pc + Word.signExtend fetched.toUInt8 else r.pc
  | jp condition | call condition => if condition.all (·.holds r.flags) then fetched else r.pc
  | ret condition => if condition.all (·.holds r.flags) then loaded else r.pc
  | jpHL => r.hl
  | reti => loaded
  | rst n => (restartAddress n).toUInt16
  | _ => r.pc

theorem pc_settle (op : Operation) (fetched loaded : UInt16) (r : Registers) :
    (op.settle fetched loaded r).pc = op.nextPc fetched loaded r := by
  cases op with
  | jr condition | jp condition | call condition | ret condition =>
    simp only [settle, nextPc]
    split <;> rfl
  | _ => simp [settle, nextPc]

theorem regs_control (op : Operation) (cpu : Cpu) : (op.control cpu).regs = cpu.regs := by
  cases op with
  | ei =>
    simp only [control]
    split <;> rfl
  | _ => rfl

end Operation

/-! ## Lengths -/

namespace Action

/-- No instruction fetches more than two bytes after its opcode. -/
theorem length_ofOpcode (opcode : UInt8) : (ofOpcode opcode).phases.length ≤ 2 :=
  forall_ofOpcode (P := fun action => action.phases.length ≤ 2) (by decide) (by decide) (by decide)
    (by decide) opcode

end Action

namespace Instruction

theorem length_phases (i : Instruction) : i.phases.length ≤ 2 := by
  simp only [phases, action]
  split
  · exact Nat.zero_le 2
  · exact Action.length_ofOpcode i.opcode

/-- The bytes that name the operation. -/
def opcodeBytes (i : Instruction) : List UInt8 :=
  if i.prefixed then [Opcode.extend, i.opcode] else [i.opcode]

theorem length_opcodeBytes (i : Instruction) : i.opcodeBytes.length = i.opcodeLength := by
  unfold opcodeBytes opcodeLength
  split <;> rfl

/-- The length that the operands add up to is what the opcode and the fetched bytes take. -/
theorem length_eq {i : Instruction} (h : i.action.isProper) :
    i.length = i.opcodeLength + i.phases.length := by
  simp only [length, phases, operands]
  congr 1
  cases haction : i.action with
  | operation op => rfl
  | bits op =>
    rw [haction] at h
    have htarget : op.target.operand.length = 0 := Place.length_field h
    change Operand.totalLength op.operands = 0
    cases op with
    | shift =>
      simpa [BitOperation.operands, BitOperation.target, Operand.totalLength] using htarget
    | bit n | res n | set n =>
      have hbit : (BitOperation.bitOperand n).length = 0 := rfl
      simpa [BitOperation.operands, BitOperation.target, Operand.totalLength, hbit] using htarget
  | extend | illegal => rfl

end Instruction

/-! ## Reading an instruction -/

namespace Bus

variable [Bus β] [PureReads β] {address : UInt16} {b b' : β} {i : Instruction}

omit [PureReads β] in
theorem readAt_cons {x : Nat} {xs : List Nat} {v : UInt8} {vs : List UInt8}
    (hx : read (address + x.toUInt16) b = .ok v b) (hxs : readAt address xs b = .ok vs b) :
    readAt address (x :: xs) b = .ok (v :: vs) b := by
  simp only [readAt, Exec.bind_apply, hx, hxs, Exec.pure_apply]

omit [PureReads β] in
theorem readAt_one {v : UInt8} (h : read address b = .ok v b) :
    readAt address (List.range 1) b = .ok [v] b := by
  have hzero : address + (0 : Nat).toUInt16 = address := by simp
  rw [← hzero] at h
  exact readAt_cons h rfl

theorem readAt_append {xs ys : List Nat} {vs ws : List UInt8}
    (hxs : readAt address xs b = .ok vs b) (hys : readAt address ys b = .ok ws b) :
    readAt address (xs ++ ys) b = .ok (vs ++ ws) b := by
  induction xs generalizing vs with
  | nil =>
    obtain ⟨rfl, -⟩ := EStateM.Result.ok.inj hxs
    exact hys
  | cons x xs ih =>
    obtain ⟨v, _, hread, hrest⟩ := Exec.bind_eq_ok.1 hxs
    obtain rfl := PureReads.read_ok hread
    obtain ⟨vs', _, hvs', hvalue⟩ := Exec.bind_eq_ok.1 hrest
    obtain ⟨rfl, rfl⟩ := EStateM.Result.ok.inj hvalue
    exact readAt_cons hread (ih hvs')

/-- The opcode is found at the address, after the prefix of its page. -/
theorem instructionAt_bytes (h : instructionAt address b = .ok i b') :
    b' = b ∧ readAt address (List.range i.opcodeLength) b =
      .ok i.opcodeBytes b := by
  obtain ⟨first, _, hfirst, hrest⟩ := Exec.bind_eq_ok.1 h
  obtain rfl := PureReads.read_ok hfirst
  by_cases hextend : first = Opcode.extend
  · rw [if_pos hextend] at hrest
    obtain ⟨second, _, hsecond, hvalue⟩ := Exec.bind_eq_ok.1 hrest
    obtain rfl := PureReads.read_ok hsecond
    obtain ⟨rfl, rfl⟩ := EStateM.Result.ok.inj hvalue
    subst hextend
    have hrest : readAt address [1] _ = .ok [second] _ := readAt_cons hsecond rfl
    exact ⟨rfl, readAt_append (readAt_one hfirst) hrest⟩
  · rw [if_neg hextend] at hrest
    obtain ⟨rfl, rfl⟩ := EStateM.Result.ok.inj hrest
    exact ⟨rfl, readAt_one hfirst⟩

/-- The bytes of a word that was fetched, in the order in which they lie in memory. -/
def spanBytes (w : UInt16) : Nat → List UInt8
  | 0 => []
  | 1 => [w.toUInt8]
  | _ => [Word.low w, Word.high w]

theorem length_spanBytes {w : UInt16} {n : Nat} (hn : n ≤ 2) : (spanBytes w n).length = n := by
  match n with
  | 0 | 1 | 2 => rfl

/-- What is fetched at some distance from an address is what the disassembler reads there. -/
theorem readSpan_bytes {offset n : Nat} {w : UInt16} (hn : n ≤ 2)
    (h : readSpan (address + offset.toUInt16) n b = .ok w b') :
    b' = b ∧ readAt address (List.range' offset n) b = .ok (spanBytes w n) b := by
  obtain rfl := readSpan_ok h
  refine ⟨rfl, ?_⟩
  match n with
  | 0 => rfl
  | 1 =>
    obtain ⟨v, hread, rfl, -⟩ := readSpan_one_ok h
    have hv : spanBytes v.toUInt16 1 = [v] := by simp [spanBytes]
    rw [hv]
    exact readAt_cons hread rfl
  | 2 =>
    obtain ⟨low, high, hlow, hhigh, rfl, -⟩ := readSpan_two_ok h
    have hw : spanBytes (Word.ofBytes high low) 2 = [low, high] := by
      simp [spanBytes, Word.low_ofBytes, Word.high_ofBytes]
    have hnext : address + offset.toUInt16 + 1 = address + (offset + 1).toUInt16 := by
      simp [Nat.toUInt16, UInt16.add_assoc]
    rw [hw]
    exact readAt_cons hlow (readAt_cons (hnext ▸ hhigh) rfl)

/-- The bytes of an instruction lie at its address: those of the opcode, then those that were
fetched. -/
theorem readAt_instruction {w : UInt16} (hproper : i.action.isProper)
    (hopcode : instructionAt address b = .ok i b')
    (hfetch : readSpan (address + i.opcodeLength.toUInt16) i.phases.length b = .ok w b') :
    readAt address (List.range i.length) b =
      .ok (i.opcodeBytes ++ spanBytes w i.phases.length) b := by
  obtain ⟨rfl, hopcodeBytes⟩ := instructionAt_bytes hopcode
  obtain ⟨-, hfetchedBytes⟩ := readSpan_bytes i.length_phases hfetch
  have hrange : List.range i.length =
      List.range i.opcodeLength ++ List.range' i.opcodeLength i.phases.length := by
    rw [Instruction.length_eq hproper, List.range_eq_range', List.range_eq_range',
      ← List.range'_append_1, Nat.zero_add]
  rw [hrange]
  exact readAt_append hopcodeBytes hfetchedBytes

/-- An instruction that was decoded, and whose bytes after the opcode were fetched, can be
disassembled. -/
theorem disassemble_ok {w : UInt16} (hproper : i.action.isProper)
    (hopcode : instructionAt address b = .ok i b')
    (hfetch : readSpan (address + i.opcodeLength.toUInt16) i.phases.length b = .ok w b') :
    ∃ d, disassemble address b = .ok d b ∧ d.instruction = i ∧ d.address = address ∧
      d.length = i.length ∧ d.immediate = if i.phases.length = 0 then none else some w := by
  have hbytes := readAt_instruction hproper hopcode hfetch
  obtain ⟨rfl, -⟩ := instructionAt_bytes hopcode
  refine ⟨⟨address, i, i.opcodeBytes ++ spanBytes w i.phases.length⟩, ?_, rfl, rfl, ?_, ?_⟩
  · simp only [disassemble, Exec.bind_apply, hopcode, hbytes, Exec.pure_apply]
  · rw [Instruction.length_eq hproper, Disassembly.length, List.length_append,
      i.length_opcodeBytes, length_spanBytes i.length_phases]
  · simp only [Disassembly.immediate, ← i.length_opcodeBytes, List.drop_left]
    have hn := i.length_phases
    generalize i.phases.length = n at hfetch hn
    match n with
    | 0 => rfl
    | 1 =>
      obtain ⟨v, -, rfl, -⟩ := readSpan_one_ok hfetch
      simp [spanBytes]
    | 2 => simp [spanBytes, Word.ofBytes_high_low]

end Bus

/-! ## Executing what was disassembled -/

namespace Disassembly

/-- What a disassembly says about where the program continues, given the registers before the
instruction and the memory. After a return that is the word on the stack, which is not part of the
instruction. -/
def LeadsTo [Bus β] (d : Disassembly) (r : Registers) (b : β) (pc : UInt16) : Prop :=
  let taken (condition : Option Cond) : Bool := condition.all (·.holds r.flags)
  match d.instruction.action with
  | .operation (.jr condition) =>
    if taken condition then
      ∃ offset, d.immediate = some offset ∧ pc = d.nextAddress + Word.signExtend offset.toUInt8
    else pc = d.nextAddress
  | .operation (.jp condition) | .operation (.call condition) =>
    if taken condition then d.immediate = some pc else pc = d.nextAddress
  | .operation (.ret condition) =>
    if taken condition then Bus.readWord r.sp b = .ok pc b else pc = d.nextAddress
  | .operation .reti => Bus.readWord r.sp b = .ok pc b
  | .operation .jpHL => pc = r.hl
  | .operation (.rst n) => pc = (Operation.restartAddress n).toUInt16
  | _ => pc = d.nextAddress

/-- Whether an instruction calls a routine under the given flags, leaving its return address on the
stack. -/
def calls (d : Disassembly) (flags : Flags) : Bool :=
  match d.instruction.action with
  | .operation (.call condition) => condition.all (·.holds flags)
  | .operation (.rst _) => true
  | _ => false

theorem store_of_calls {d : Disassembly} {r : Registers} {fetched loaded : UInt16}
    (h : d.calls r.flags = true) :
    d.instruction.phases.store r fetched loaded = .push r.pc := by
  unfold calls at h
  unfold Instruction.phases
  split at h
  · rename_i haction
    rw [haction]
    exact if_pos h
  · rename_i haction
    rw [haction]
    rfl
  · cases h

end Disassembly

/-- The program counter after a commit. -/
theorem Action.pc_commit (action : Action) (fetched loaded : UInt16) (cpu : Cpu) :
    (action.phases.commit fetched loaded cpu).regs.pc = match action with
      | .operation op => op.nextPc fetched loaded cpu.regs
      | _ => cpu.regs.pc := by
  cases action with
  | operation op =>
    change (op.control _).regs.pc = _
    rw [Operation.regs_control, Operation.pc_settle]
  | bits op => cases op <;> simp [phases, BitOperation.phases, BitOperation.settle]
  | extend | illegal => rfl

/-- A commit continues where a disassembly of the instruction says. The registers `r` are those
before the instruction, and `regs` those with which it loads. -/
theorem Disassembly.leadsTo_commit [Bus β] [Bus.PureReads β] {d : Disassembly}
    {r regs : Registers} {b b' : β} {fetched loaded : UInt16} {cpu : Cpu}
    (himmediate : d.instruction.phases.length ≠ 0 → d.immediate = some fetched)
    (hpc : cpu.regs.pc = d.nextAddress) (hflags : cpu.regs.flags = r.flags)
    (hhl : cpu.regs.hl = r.hl) (hregs : regs.flags = r.flags ∧ regs.sp = r.sp)
    (hload : Bus.readSpan (d.instruction.phases.load regs fetched).address
      (d.instruction.phases.load regs fetched).length b = .ok loaded b') :
    d.LeadsTo r b (d.instruction.phases.commit fetched loaded cpu).regs.pc := by
  unfold LeadsTo
  simp only [Instruction.phases, Action.pc_commit] at *
  cases haction : d.instruction.action with
  | operation op =>
    rw [haction] at himmediate hload
    cases op with
    | jr condition =>
      have hlength : (Action.operation (.jr condition)).phases.length = 1 := by
        cases condition <;> rfl
      simp only [Operation.nextPc, hflags, hpc]
      split
      · exact ⟨fetched, himmediate (by simp [hlength]), rfl⟩
      · rfl
    | jp condition | call condition =>
      have hlength : (Action.operation (.jp condition)).phases.length = 2 := by
        cases condition <;> rfl
      simp only [Operation.nextPc, hflags, hpc]
      split
      · exact himmediate (hlength ▸ by decide)
      · rfl
    | ret condition =>
      simp only [Operation.nextPc, hflags, hpc]
      split
      · rename_i htaken
        simp only [Action.phases, Operation.phases, Operation.load?, hregs, htaken,
          if_true] at hload
        obtain rfl := Bus.readSpan_ok hload
        exact hload
      · rfl
    | reti =>
      simp only [Action.phases, Operation.phases, Operation.load?, hregs] at hload
      obtain rfl := Bus.readSpan_ok hload
      exact hload
    | jpHL => exact hhl
    | rst n => rfl
    | _ => exact hpc
  | _ => exact hpc

namespace Machine

variable [Bus β] [Bus.PureReads β] {s t : Machine β}

/-- An instruction that is executed can be disassembled before the step, and the disassembly agrees
with the step: it names the instruction that was executed; from it, its immediate value and its
length follows where the program continues; and the return address that a call leaves on the stack
is the address that follows in the disassembly. -/
theorem step_disassembly {i : Instruction} {cost : Nat}
    (h : step s = .ok (.executed i cost) t) :
    ∃ d, Bus.disassemble s.cpu.regs.pc s.bus = .ok d s.bus ∧ d.instruction = i ∧
      t.cpu.current = some i ∧ d.nextAddress = s.cpu.regs.pc + i.length.toUInt16 ∧
      d.LeadsTo s.cpu.regs s.bus t.cpu.regs.pc ∧
      (d.calls s.cpu.regs.flags = true → ∃ notice b notice' b',
        Bus.write (s.cpu.regs.sp - 1) (Word.high d.nextAddress) s.bus = .ok notice b ∧
        Bus.write (s.cpu.regs.sp - 2) (Word.low d.nextAddress) b = .ok notice' b' ∧
        t.bus = (Bus.endStep b' t.cpu.cycles).2) := by
  cases (step_ok h).2.2 with
  | executed _ b _ u _ _ hdecoded hperformed =>
    obtain ⟨hproper, -, hrun⟩ :=
      Instruction.execute_ok (Exec.instructionAt_ok hdecoded) hperformed
    obtain ⟨fetched, loaded, b₁, b₂, hfetch, hload, hcpu, hstore⟩ := Phases.run_ok hrun
    obtain ⟨_, _, _, _, _, hframe⟩ :=
      Instruction.execute_frame (Exec.instructionAt_ok hdecoded) hperformed
    obtain ⟨rfl, -⟩ := Bus.instructionAt_bytes hdecoded
    have hregs : (s.entered i s.bus).cpu.regs =
        { s.cpu.regs with pc := s.cpu.regs.pc + i.opcodeLength.toUInt16 } := by
      simp only [entered, Cpu.enter, Cpu.skip, Cpu.regs_wake]
    have hcurrent : (s.entered i s.bus).cpu.current = some i := rfl
    rw [hregs] at hfetch
    obtain rfl := Bus.readSpan_ok hfetch
    obtain rfl := Bus.readSpan_ok hload
    obtain ⟨d, hd, rfl, haddress, hlength, himmediate⟩ :=
      Bus.disassemble_ok hproper hdecoded hfetch
    have hnext : d.nextAddress = s.cpu.regs.pc + d.instruction.length.toUInt16 := by
      rw [Disassembly.nextAddress, haddress, hlength]
    have hfetched : ((s.entered d.instruction s.bus).cpu.skip
        d.instruction.phases.length.toUInt16).regs.pc = d.nextAddress := by
      rw [Cpu.pc_skip, hregs, hnext, Instruction.length_eq hproper]
      simp [Nat.toUInt16, UInt16.add_assoc]
    have hflags : ((s.entered d.instruction s.bus).cpu.skip
        d.instruction.phases.length.toUInt16).regs.flags = s.cpu.regs.flags := by
      rw [Cpu.flags_skip, hregs]
      rfl
    have hsp : ((s.entered d.instruction s.bus).cpu.skip
        d.instruction.phases.length.toUInt16).regs.sp = s.cpu.regs.sp := by
      rw [Cpu.sp_skip, hregs]
    have hhl : ((s.entered d.instruction s.bus).cpu.skip
        d.instruction.phases.length.toUInt16).regs.hl = s.cpu.regs.hl := by
      rw [Cpu.hl_skip, hregs]
      rfl
    refine ⟨d, hd, rfl, ?_, hnext, ?_, ?_⟩
    · simp only [cpu_shown, cpu_counted, Cpu.advanceEnable_eq, hframe, hcurrent]
    · simp only [cpu_shown, cpu_counted, Cpu.advanceEnable_eq, hcpu]
      exact Disassembly.leadsTo_commit (fun hlength => himmediate.trans (if_neg hlength))
        hfetched hflags hhl ⟨hflags, hsp⟩ hload
    · intro hcalls
      rw [← hflags] at hcalls
      rw [Disassembly.store_of_calls hcalls, hfetched] at hstore
      obtain ⟨notice, b, notice', b', hhigh, hlow, hu⟩ := Exec.push_eq_ok.1 hstore
      rw [hsp] at hhigh hlow
      refine ⟨notice, b, notice', b', hhigh, hlow, ?_⟩
      have hbus : u.bus = b' := congrArg Machine.bus hu
      rw [← hbus, bus_shown, cpu_shown, cpu_counted, Cpu.advanceEnable_eq]
      rfl

/-- A jump to an address takes three bytes, which become its target. -/
theorem step_disassembly_jump : ∃ (d : Disassembly) (s t : Machine ProgramBus),
    step s = .ok (.executed ⟨0xC3, false⟩ 16) t ∧
    Bus.disassemble s.cpu.regs.pc s.bus = .ok d s.bus ∧ d.instruction = ⟨0xC3, false⟩ ∧
    d.nextAddress = s.cpu.regs.pc + 3 ∧ d.immediate = some t.cpu.regs.pc := by
  obtain ⟨s, t, hstep⟩ : ∃ s t : Machine ProgramBus,
      step s = .ok (.executed ⟨0xC3, false⟩ 16) t :=
    ⟨start .powerOn ⟨#[0xC3, 0x34, 0x12]⟩, _, rfl⟩
  obtain ⟨d, hd, hinstruction, -, hnext, hleads, -⟩ := step_disassembly hstep
  refine ⟨d, s, t, hstep, hd, hinstruction, hnext, ?_⟩
  unfold Disassembly.LeadsTo at hleads
  rw [hinstruction] at hleads
  exact hleads

end Machine

end GameBoy
