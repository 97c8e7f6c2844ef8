import GameBoy.Bus.Program
import GameBoy.Proofs.Lockstep

/-!
# Steps and direct execution

The instruction at the program counter can be executed in two ways. A step fetches and decodes it and
then executes it. Directly, the program counter is moved over its first byte, and what that byte names
on the first page is executed. The two ways treat the extended page differently: a step decodes both
bytes before it executes anything, and the prefix executed directly fetches the second byte itself.

They agree all the same, apart from what belongs to a step: its counters, the end of the step on the
bus, the current instruction, and the stages through which an enable of interrupts moves on. The one
exception is a second byte that cannot be read, which a step takes for the end of the program.

Main statement: `Machine.step_direct`.
-/

namespace GameBoy

variable {β : Type}

/-! ## The current instruction -/

theorem Action.commit_current (action : Action) (fetched loaded : UInt16) (cpu : Cpu)
    (current : Option Instruction) :
    action.phases.commit fetched loaded { cpu with current } =
      { action.phases.commit fetched loaded cpu with current } := by
  cases action with
  | operation op =>
    cases op with
    | ei =>
      show (if cpu.ime then _ else _ : Cpu) = { (if cpu.ime then _ else _ : Cpu) with current }
      by_cases hime : cpu.ime
      · rw [if_pos hime, if_pos hime]
      · rw [if_neg hime, if_neg hime]
    | _ => rfl
  | _ => rfl

/-- Nothing that is done to a processor depends on which instruction is the current one. -/
theorem Cpu.Change.current {f : Cpu → Cpu} (hf : Change f) (cpu : Cpu)
    (current : Option Instruction) :
    ∃ current', f { cpu with current } = { f cpu with current := current' } := by
  cases hf with
  | commit action fetched loaded => exact ⟨current, action.commit_current fetched loaded cpu current⟩
  | advance =>
    refine ⟨current, ?_⟩
    show Cpu.advanceEnable _ = { cpu.advanceEnable with current }
    rw [advanceEnable_eq, advanceEnable_eq]
  | enter i => exact ⟨some i, rfl⟩
  | _ => exact ⟨current, rfl⟩

namespace Machine

/-- Two machines differ at most in which instruction is the current one. -/
def SameButCurrent (s t : Machine β) : Prop :=
  ∃ current, t = { s with cpu := { s.cpu with current } }

/-- What executes does not look at the current instruction. -/
theorem current_simulation [Bus β] : Simulation (SameButCurrent (β := β)) where
  regs := by
    rintro s _ ⟨current, rfl⟩
    rfl
  change := by
    rintro f hf s _ ⟨current, rfl⟩
    obtain ⟨current', hcurrent⟩ := hf.current s.cpu current
    refine .ok () ⟨current', ?_⟩
    show ({ s with cpu := f { s.cpu with current } } : Machine β) = _
    rw [hcurrent]
  read := by
    rintro address fault s _ ⟨current, rfl⟩
    simp only [Exec.access_apply]
    cases Bus.read address s.bus with
    | ok v b => exact .ok v ⟨current, rfl⟩
    | error e b => exact .error (fault e) ⟨current, rfl⟩
  write := by
    rintro address v s _ ⟨current, rfl⟩
    simp only [Exec.write_apply]
    cases Bus.write address v s.bus with
    | ok notice b => exact .ok () ⟨current, rfl⟩
    | error e b => exact .error (.bus e) ⟨current, rfl⟩

variable [Bus β] {s : Machine β} {opcode : UInt8} {i : Instruction} {b : β}

/-! ## Executing what has been decoded -/

/-- A step of a machine that executes the instruction at its program counter. -/
theorem step_calm (hfault : s.cpu.fault = none) (hlimit : s.cpu.exhausted = false)
    (hcalm : s.cpu.interrupted (Bus.pending s.bus) = false) (hawake : s.cpu.halted = false) :
    step s = match Exec.executeNext s with
      | .ok p t => .ok p t
      | .error e t => .error e (t.stopWith e) := by
  have hwoken : s.woken = s := by rw [woken, Cpu.wake_awake hawake]
  have hattempt : Exec.attempt s = Exec.executeNext s := by
    rw [attempt_calm hlimit hcalm, hwoken, hawake]
    rfl
  cases hnext : Exec.executeNext s with
  | ok p t => simp only [step, hfault, hattempt, hnext]
  | error e t => simp only [step, hfault, hattempt, hnext]

/-- Once the opcode is known, only the execution of the instruction can fail. -/
theorem executeNext_decoded (h : Bus.instructionAt s.cpu.regs.pc s.bus = .ok i b) :
    Exec.executeNext s = match i.execute { s with cpu := s.cpu.enter i, bus := b } with
      | .ok cost t => .ok (.executed i cost) ((t.counted cost).shown s.cpu.regs.pc i)
      | .error e t => .error e t := by
  have hdecode := Exec.decode_of_instructionAt h
  cases hperformed : i.execute { s with cpu := s.cpu.enter i, bus := b } with
  | ok cost t =>
    refine Exec.bind_eq_ok.2 ⟨_, _, rfl, Exec.bind_eq_ok.2 ⟨i, _, hdecode, ?_⟩⟩
    refine Exec.bind_eq_ok.2 ⟨_, _, rfl, Exec.bind_eq_ok.2 ⟨cost, t, hperformed, ?_⟩⟩
    simp only [Exec.bind_apply, Exec.modifyCpu_apply, Exec.finish_apply, Exec.fireHook_apply]
    rfl
  | error e t =>
    refine Exec.bind_eq_error.2 (.inr ⟨_, _, rfl, Exec.bind_eq_error.2 (.inr ⟨i, _, hdecode, ?_⟩)⟩)
    exact Exec.bind_eq_error.2 (.inr ⟨_, _, rfl, Exec.bind_eq_error.2 (.inl hperformed)⟩)

/-- A second byte that cannot be read is the end of the program. -/
theorem executeNext_torn {error : BusError}
    (hread : Bus.read s.cpu.regs.pc s.bus = .ok Opcode.extend s.bus)
    (hsecond : Bus.read (s.cpu.regs.pc + 1) s.bus = .error error b) :
    Exec.executeNext s = .error .endOfProgram { s with cpu := s.cpu.skip 1, bus := b } := by
  have hfirst : Exec.fetchOpcode s = .ok Opcode.extend { s with cpu := s.cpu.skip 1 } :=
    Exec.fetchOpcode_eq_ok.2 ⟨s.bus, hread, rfl⟩
  have hfailed : Exec.fetchOpcode { s with cpu := s.cpu.skip 1 } =
      .error .endOfProgram { s with cpu := s.cpu.skip 1, bus := b } :=
    Exec.fetchOpcode_eq_error.2 ⟨error, b, hsecond, rfl, rfl⟩
  simp only [Exec.executeNext, Exec.decode, Exec.bind_apply, Exec.getRegs_apply, hfirst, if_true,
    hfailed]

/-! ## Executing directly -/

/-- Move the program counter over an opcode that has been read and execute what it names on the first
page. -/
def direct (opcode : UInt8) : Exec β Nat := fun s =>
  (⟨opcode, false⟩ : Instruction).execute { s with cpu := s.cpu.skip 1 }

theorem direct_extend (s : Machine β) :
    direct Opcode.extend s = match Bus.read (s.cpu.regs.pc + 1) s.bus with
      | .ok v b =>
        (⟨v, true⟩ : Instruction).execute { s with cpu := s.cpu.skip 2, bus := b }
      | .error e b => .error (.bus e) { s with cpu := s.cpu.skip 1, bus := b } := by
  have haction : Action.ofOpcode Opcode.extend = .extend := by decide
  have htwo : (s.cpu.skip 1).skip 1 = s.cpu.skip 2 := Cpu.skip_skip s.cpu 1 1
  simp only [direct, Instruction.execute, Instruction.action, haction, Action.execute,
    Exec.fetchByte, Exec.read, Exec.bind_apply, Exec.getRegs_apply, Exec.access_apply,
    Exec.skip_apply, Cpu.pc_skip, Bool.false_eq_true, if_false, if_true]
  cases Bus.read (s.cpu.regs.pc + 1) s.bus with
  | ok v b =>
    simp only [htwo]
    rfl
  | error e b => rfl

/-- Executing directly is executing what a step decodes. -/
theorem direct_decoded (hread : Bus.read s.cpu.regs.pc s.bus = .ok opcode s.bus)
    (h : Bus.instructionAt s.cpu.regs.pc s.bus = .ok i b) :
    direct opcode s =
      i.execute { s with cpu := s.cpu.skip i.opcodeLength.toUInt16, bus := b } := by
  simp only [Bus.instructionAt, Exec.bind_apply, hread] at h
  by_cases hextend : opcode = Opcode.extend
  · rw [if_pos hextend, Exec.bind_apply] at h
    rw [hextend, direct_extend]
    cases hsecond : Bus.read (s.cpu.regs.pc + 1) s.bus with
    | error e b' => simp [hsecond] at h
    | ok v b' =>
      rw [hsecond] at h
      obtain ⟨rfl, rfl⟩ := EStateM.Result.ok.inj h
      rfl
  · rw [if_neg hextend] at h
    obtain ⟨rfl, rfl⟩ := EStateM.Result.ok.inj h
    rfl

/-- The outcome of direct execution and the outcome of a step, from a machine whose program counter is
at the given opcode. -/
inductive Agrees (s : Machine β) (opcode : UInt8) :
    EStateM.Result Fault (Machine β) Nat → EStateM.Result Fault (Machine β) Progress → Prop where
  /-- Both succeed in the same cycles and do the same to the registers, the wait, the enable and the
  bus. The step then counts, moves the enable on and ends on the bus. -/
  | executed {i : Instruction} {b : β} {cost : Nat} {t u : Machine β}
      (decoded : Bus.instructionAt s.cpu.regs.pc s.bus = .ok i b)
      (cpu : u.cpu = { t.cpu with
        ime := t.cpu.ime || t.cpu.enableArmed
        enablePending := t.cpu.enableArmed && t.cpu.enablePending
        enableArmed := !t.cpu.enableArmed && t.cpu.enablePending
        cycles := t.cpu.cycles + cost
        instructions := t.cpu.instructions + 1
        current := some i })
      (bus : u.bus = (Bus.endStep t.bus u.cpu.cycles).2) :
      Agrees s opcode (.ok cost t) (.ok (.executed i cost) u)
  /-- All bytes of the opcode can be read, and both fail in the same way. -/
  | failed {i : Instruction} {b : β} {e : Fault} {t u : Machine β}
      (decoded : Bus.instructionAt s.cpu.regs.pc s.bus = .ok i b)
      (cpu : u.cpu = { t.cpu with current := some i, fault := some e }) (bus : u.bus = t.bus) :
      Agrees s opcode (.error e t) (.error e u)
  /-- The second byte of the opcode cannot be read. -/
  | torn {error : BusError} {t u : Machine β} (extended : opcode = Opcode.extend)
      (second : Bus.read (s.cpu.regs.pc + 1) s.bus = .error error t.bus)
      (cpu : u.cpu = { t.cpu with fault := some .endOfProgram }) (bus : u.bus = t.bus) :
      Agrees s opcode (.error (.bus error) t) (.error .endOfProgram u)

/-- An opcode is decoded unless it is the prefix of the extended page and stands before a byte that
cannot be read. -/
theorem decoded_or_torn (hread : Bus.read s.cpu.regs.pc s.bus = .ok opcode s.bus) :
    (∃ i b, Bus.instructionAt s.cpu.regs.pc s.bus = .ok i b) ∨
      opcode = Opcode.extend ∧
        ∃ error b, Bus.read (s.cpu.regs.pc + 1) s.bus = .error error b := by
  simp only [Bus.instructionAt, Exec.bind_apply, hread]
  by_cases hextend : opcode = Opcode.extend
  · rw [if_pos hextend, Exec.bind_apply]
    cases hsecond : Bus.read (s.cpu.regs.pc + 1) s.bus with
    | ok v b => exact .inl ⟨_, _, rfl⟩
    | error e b => exact .inr ⟨hextend, e, b, rfl⟩
  · rw [if_neg hextend]
    exact .inl ⟨_, _, rfl⟩

/-- **Steps agree with direct execution.** On any bus, a machine that has not stopped, may go on, is
awake and serves no interrupt, and whose program counter is at a byte that can be read without a change
of the bus, does in a step what it does when the program counter is moved over that byte and what the
byte names on the first page is executed directly. -/
theorem step_direct (hfault : s.cpu.fault = none) (hlimit : s.cpu.exhausted = false)
    (hcalm : s.cpu.interrupted (Bus.pending s.bus) = false) (hawake : s.cpu.halted = false)
    (hread : Bus.read s.cpu.regs.pc s.bus = .ok opcode s.bus) :
    s.Agrees opcode (direct opcode s) (step s) := by
  rw [step_calm hfault hlimit hcalm hawake]
  rcases decoded_or_torn hread with ⟨i, b, hdecoded⟩ | ⟨rfl, error, b, hsecond⟩
  · -- The step has stored what it decoded, which the execution does not see and leaves alone.
    let entered : Machine β := { s with cpu := s.cpu.enter i, bus := b }
    have hproper := Exec.instructionAt_ok hdecoded
    have hsame := current_simulation.execute i
      { s with cpu := s.cpu.skip i.opcodeLength.toUInt16, bus := b } entered ⟨some i, rfl⟩
    rw [direct_decoded hread hdecoded, executeNext_decoded hdecoded]
    generalize i.execute { s with cpu := s.cpu.skip i.opcodeLength.toUInt16, bus := b } = outcome
      at hsame
    cases hentered : i.execute entered with
    | ok cost u =>
      rw [hentered] at hsame
      obtain ⟨_, _, _, _, _, hframe⟩ := Instruction.execute_frame hproper hentered
      have hcurrent : u.cpu.current = some i := by rw [hframe]; rfl
      cases hsame with
      | @ok t _ _ hsame =>
        obtain ⟨current, rfl⟩ := hsame
        obtain rfl : current = some i := hcurrent
        refine .executed hdecoded ?_ ?_
        · rw [cpu_shown, cpu_counted, Cpu.advanceEnable_eq]
        · rw [bus_shown, cpu_shown, cpu_counted, Cpu.advanceEnable_eq]
          rfl
    | error e u =>
      rw [hentered] at hsame
      obtain ⟨_, _, hframe⟩ := Instruction.execute_error_frame hproper hentered
      have hcurrent : u.cpu.current = some i := by rw [hframe]; rfl
      cases hsame with
      | @error t _ _ hsame =>
        obtain ⟨current, rfl⟩ := hsame
        obtain rfl : current = some i := hcurrent
        exact .failed hdecoded rfl rfl
  · rw [executeNext_torn hread hsecond, direct_extend, hsecond]
    exact .torn rfl hsecond rfl rfl

/-- A machine at the start of a program, with a byte in the accumulator. -/
def atStart (program : Array UInt8) (a : UInt8) : Machine ProgramBus :=
  start { Cpu.powerOn with regs := { Registers.powerOn with a } } ⟨program⟩

/-- SWAP A takes eight cycles either way. Without its second byte, a step finds the end of the program
and direct execution an address where nothing is mapped. -/
theorem step_direct_swap :
    let s := atStart #[0xCB, 0x37] 0xA5
    let t := atStart #[0xCB] 0xA5
    (s.Agrees Opcode.extend (direct Opcode.extend s) (step s) ∧
      (∃ u, direct Opcode.extend s = .ok 8 u) ∧
      (∃ u, step s = .ok (.executed ⟨0x37, true⟩ 8) u) ∧ s.next.cpu.regs.a = 0x5A) ∧
    t.Agrees Opcode.extend (direct Opcode.extend t) (step t) ∧
      (∃ u, direct Opcode.extend t = .error (.bus (.unmapped 1)) u) ∧
      ∃ u, step t = .error .endOfProgram u := by
  refine ⟨⟨?_, ⟨_, by rfl⟩, ⟨_, by rfl⟩, by decide⟩, ?_, ⟨_, by rfl⟩, ⟨_, by rfl⟩⟩
  · exact step_direct rfl rfl (Bool.and_false _) rfl rfl
  · exact step_direct rfl rfl (Bool.and_false _) rfl rfl

end Machine

end GameBoy
