import GameBoy.Cpu.Disassembly
import GameBoy.Proofs.Operations

/-!
# What a step can do

The cases of a successful step and of a failing one, with everything that must hold before and
everything that is left behind. A successful step serves an interrupt, waits, or executes an
instruction; a failing step fails in one of its accesses, at an opcode without a meaning, or because
it may not be made.

Main statements: `Machine.step_ok` and `Machine.step_error`.
-/

namespace GameBoy

variable {β : Type}

/-! ## Parts of a step -/

namespace Cpu

/-- The processor after it has looked at the pending interrupt lines: any of them ends its wait. -/
def wake (cpu : Cpu) (pending : UInt8) : Cpu :=
  if (Interrupt.first? pending).isSome then { cpu with halted := false } else cpu

/-- Whether the processor serves an interrupt now. -/
def interrupted (cpu : Cpu) (pending : UInt8) : Bool :=
  (Interrupt.first? pending).isSome && cpu.ime

/-- The processor that is about to execute an instruction whose opcode it has fetched. -/
def enter (cpu : Cpu) (i : Instruction) : Cpu :=
  { cpu.skip i.opcodeLength.toUInt16 with current := some i }

/-- The processor as its hook sees it: the hook has been taken out for the call. -/
def unhooked (cpu : Cpu) : Cpu := { cpu with hook := none }

/-- Whether the limit forbids another step. -/
def exhausted (cpu : Cpu) : Bool := cpu.limit.any (· ≤ cpu.countedSteps)

theorem advanceEnable_eq (cpu : Cpu) : cpu.advanceEnable = { cpu with
    ime := cpu.ime || cpu.enableArmed
    enablePending := cpu.enableArmed && cpu.enablePending
    enableArmed := !cpu.enableArmed && cpu.enablePending } := by
  obtain ⟨_, _, _, pending, armed, _, _, _, _, _, _, _⟩ := cpu
  cases armed <;> cases pending <;> simp [advanceEnable]

end Cpu

namespace Machine

/-- The machine at the end of a step that took so many cycles. -/
def finished [Bus β] (s : Machine β) (cycles : Nat) : Machine β :=
  let total := s.cpu.cycles + cycles
  let (notice, bus) := Bus.endStep s.bus total
  { s with cpu := { s.cpu with cycles := total }, bus, journal := s.journal.note notice }

/-- The machine after the hook has seen an instruction. -/
def shown (s : Machine β) (pc : UInt16) (i : Instruction) : Machine β :=
  match s.cpu.hook with
  | none => s
  | some .trace => { s with journal := s.journal.push (s.cpu.traceNotice pc i) }
  | some .record => { s with records := s.records.push ⟨pc, i, s.cpu.unhooked⟩ }

section

variable [Bus β] (s : Machine β) (n : Nat) (pc : UInt16) (i : Instruction)

@[simp] theorem cpu_finished :
    (s.finished n).cpu = { s.cpu with cycles := s.cpu.cycles + n } := rfl

omit [Bus β] in
@[simp] theorem cpu_shown : (s.shown pc i).cpu = s.cpu := by
  unfold shown
  split <;> rfl

omit [Bus β] in
@[simp] theorem bus_shown : (s.shown pc i).bus = s.bus := by
  unfold shown
  split <;> rfl

omit [Bus β] in
@[simp] theorem cpu_stopWith (fault : Fault) :
    (s.stopWith fault).cpu = { s.cpu with fault := some fault } := rfl

end

end Machine

namespace Exec

variable [Bus β] {s t : Machine β} {e : Fault}

theorem finish_apply (n : Nat) (s : Machine β) : finish n s = .ok () (s.finished n) := rfl

omit [Bus β] in
theorem fireHook_apply (pc : UInt16) (i : Instruction) (s : Machine β) :
    fireHook pc i s = .ok () (s.shown pc i) := by
  obtain ⟨⟨_, _, _, _, _, _, _, _, _, _, _, hook⟩, _, _, _⟩ := s
  cases hook with
  | none => rfl
  | some hook => cases hook <;> rfl

omit [Bus β] in
theorem checkLimit_apply (s : Machine β) :
    checkLimit s = if s.cpu.exhausted then .error (.stepLimit (s.cpu.limit.getD 0)) s
      else .ok () s := by
  obtain ⟨⟨_, _, _, _, _, _, _, _, limit, _, _, _⟩, _, _, _⟩ := s
  cases limit with
  | none => rfl
  | some limit =>
    simp only [checkLimit, bind_apply, getCpu_apply, Cpu.exhausted, Option.any_some,
      Option.getD_some, decide_eq_true_eq]
    split <;> rfl

/-! ## Decoding -/

theorem decode_ok {i : Instruction} (h : decode s = .ok i t) :
    ∃ b, Bus.instructionAt s.cpu.regs.pc s.bus = .ok i b ∧
      t = { s with cpu := s.cpu.skip i.opcodeLength.toUInt16, bus := b } := by
  obtain ⟨opcode, _, hfirst, h⟩ := bind_eq_ok.1 h
  obtain ⟨b, hread, rfl⟩ := fetchOpcode_eq_ok.1 hfirst
  by_cases hextend : opcode = Opcode.extend
  · rw [if_pos hextend] at h
    obtain ⟨opcode', _, hsecond, h⟩ := bind_eq_ok.1 h
    obtain ⟨b', hread', rfl⟩ := fetchOpcode_eq_ok.1 hsecond
    obtain ⟨rfl, rfl⟩ := EStateM.Result.ok.inj h
    refine ⟨b', ?_, by simp [Instruction.opcodeLength, Cpu.skip_skip]⟩
    simp only [Bus.instructionAt, bind_apply, hread, if_pos hextend, ← Cpu.pc_skip, hread',
      pure_apply]
  · rw [if_neg hextend] at h
    obtain ⟨rfl, rfl⟩ := EStateM.Result.ok.inj h
    refine ⟨b, ?_, rfl⟩
    simp only [Bus.instructionAt, bind_apply, hread, if_neg hextend, pure_apply]

theorem decode_of_instructionAt {i : Instruction} {b : β}
    (h : Bus.instructionAt s.cpu.regs.pc s.bus = .ok i b) :
    decode s = .ok i { s with cpu := s.cpu.skip i.opcodeLength.toUInt16, bus := b } := by
  obtain ⟨opcode, b₁, hread, h⟩ := bind_eq_ok.1 h
  refine bind_eq_ok.2 ⟨opcode, _, fetchOpcode_eq_ok.2 ⟨b₁, hread, rfl⟩, ?_⟩
  by_cases hextend : opcode = Opcode.extend
  · rw [if_pos hextend] at h ⊢
    obtain ⟨opcode', b₂, hread', h⟩ := bind_eq_ok.1 h
    obtain ⟨rfl, rfl⟩ := EStateM.Result.ok.inj h
    rw [← Cpu.pc_skip] at hread'
    refine bind_eq_ok.2 ⟨opcode', _, fetchOpcode_eq_ok.2 ⟨b₂, hread', rfl⟩, ?_⟩
    simp [Instruction.opcodeLength, Cpu.skip_skip]
  · rw [if_neg hextend] at h ⊢
    obtain ⟨rfl, rfl⟩ := EStateM.Result.ok.inj h
    rfl

theorem decode_error (h : decode s = .error e t) :
    e = .endOfProgram ∧
      ((∃ error b, Bus.read s.cpu.regs.pc s.bus = .error error b ∧ t = { s with bus := b }) ∨
      ∃ b error b', Bus.read s.cpu.regs.pc s.bus = .ok Opcode.extend b ∧
        Bus.read (s.cpu.regs.pc + 1) b = .error error b' ∧
        t = { s with cpu := s.cpu.skip 1, bus := b' }) := by
  rcases bind_eq_error.1 h with hfirst | ⟨opcode, _, hfirst, h⟩
  · obtain ⟨error, b, hread, rfl, rfl⟩ := fetchOpcode_eq_error.1 hfirst
    exact ⟨rfl, .inl ⟨error, b, hread, rfl⟩⟩
  · obtain ⟨b, hread, rfl⟩ := fetchOpcode_eq_ok.1 hfirst
    by_cases hextend : opcode = Opcode.extend
    · rw [if_pos hextend] at h
      rcases bind_eq_error.1 h with hsecond | ⟨_, _, _, ⟨⟩⟩
      obtain ⟨error, b', hread', rfl, rfl⟩ := fetchOpcode_eq_error.1 hsecond
      exact ⟨rfl, .inr ⟨b, error, b', hextend ▸ hread, hread', rfl⟩⟩
    · rw [if_neg hextend] at h
      cases h

/-- What decoding gives is never the prefix of the extended page by itself. -/
theorem instructionAt_ok {address : UInt16} {i : Instruction} {b b' : β}
    (h : Bus.instructionAt address b = .ok i b') : i.prefixed ∨ i.opcode ≠ Opcode.extend := by
  obtain ⟨opcode, _, -, h⟩ := bind_eq_ok.1 h
  by_cases hextend : opcode = Opcode.extend
  · rw [if_pos hextend] at h
    obtain ⟨_, _, -, h⟩ := bind_eq_ok.1 h
    obtain ⟨rfl, -⟩ := EStateM.Result.ok.inj h
    exact .inl rfl
  · rw [if_neg hextend] at h
    obtain ⟨rfl, -⟩ := EStateM.Result.ok.inj h
    exact .inr hextend

/-- What decoding gives on the first page is the byte at the address. -/
theorem read_of_instructionAt {address : UInt16} {i : Instruction} {b b' : β}
    (hprefixed : i.prefixed = false) (h : Bus.instructionAt address b = .ok i b') :
    Bus.read address b = .ok i.opcode b' := by
  obtain ⟨opcode, _, hread, h⟩ := bind_eq_ok.1 h
  by_cases hextend : opcode = Opcode.extend
  · rw [if_pos hextend] at h
    obtain ⟨_, _, -, h⟩ := bind_eq_ok.1 h
    obtain ⟨rfl, -⟩ := EStateM.Result.ok.inj h
    cases hprefixed
  · rw [if_neg hextend] at h
    obtain ⟨rfl, rfl⟩ := EStateM.Result.ok.inj h
    exact hread

/-! ## Interrupts -/

theorem serveInterrupt_apply (s : Machine β) :
    serveInterrupt s =
      let u := { s with cpu := s.cpu.wake (Bus.pending s.bus) }
      match Interrupt.first? (Bus.pending s.bus) with
      | some i => if s.cpu.ime then (do serve i; return some i : Exec β _) u else .ok none u
      | none => .ok none u := by
  simp only [serveInterrupt, pending, bind_apply, Cpu.wake]
  cases Interrupt.first? (Bus.pending s.bus) with
  | none => rfl
  | some i =>
    simp only [bind_apply, modifyCpu_apply, getCpu_apply, Option.isSome_some, if_true]
    by_cases hime : s.cpu.ime <;> simp [hime, bind_apply]

end Exec

/-! ## The cases of a step -/

namespace Cpu

variable {cpu : Cpu} {pending : UInt8}

@[simp] theorem regs_wake (cpu : Cpu) (pending : UInt8) : (cpu.wake pending).regs = cpu.regs := by
  unfold wake
  split <;> rfl

theorem wake_quiet (h : Interrupt.first? pending = none) : cpu.wake pending = cpu := by
  simp [wake, h]

theorem wake_awake (h : cpu.halted = false) : cpu.wake pending = cpu := by
  unfold wake
  rw [← h]
  exact ite_self cpu

theorem wake_frame (cpu : Cpu) (pending : UInt8) :
    ∃ halted, cpu.wake pending = { cpu with halted } := by
  unfold wake
  split
  · exact ⟨false, rfl⟩
  · exact ⟨cpu.halted, rfl⟩

theorem halted_wake (h : (cpu.wake pending).halted = true) :
    Interrupt.first? pending = none ∧ cpu.halted = true := by
  unfold wake at h
  split at h
  · cases h
  · rename_i hquiet
    exact ⟨by simpa using hquiet, h⟩

theorem interrupted_iff : cpu.interrupted pending = true ↔
    ∃ i, Interrupt.first? pending = some i ∧ cpu.ime = true := by
  simp [interrupted, Option.isSome_iff_exists]

end Cpu

namespace Machine

/-- The machine that has accepted an interrupt: the processor is awake, further interrupts are
disabled, and the request is withdrawn. -/
def accepted [Bus β] (s : Machine β) (i : Interrupt) : Machine β :=
  { s with
    cpu := { s.cpu with halted := false, ime := false }
    bus := Bus.acknowledge s.bus i.line }

/-- The machine at the start of an interrupt's routine. -/
def landed (s : Machine β) (i : Interrupt) (pc : UInt16) : Machine β :=
  { s with
    cpu := { s.cpu with regs := { s.cpu.regs with pc := i.vector } }
    journal := s.journal.push (i.notice pc s.cpu.regs.sp) }

/-- The machine that is about to execute an instruction, which left the bus in state `b` when it was
decoded. -/
def entered [Bus β] (s : Machine β) (i : Instruction) (b : β) : Machine β :=
  { s with cpu := (s.cpu.wake (Bus.pending s.bus)).enter i, bus := b }

theorem cpu_entered [Bus β] (s : Machine β) (i : Instruction) (b : β) :
    ∃ halted, (s.entered i b).cpu = { s.cpu with
      regs := { s.cpu.regs with pc := s.cpu.regs.pc + i.opcodeLength.toUInt16 }
      halted
      current := some i } := by
  obtain ⟨halted, hwake⟩ := s.cpu.wake_frame (Bus.pending s.bus)
  exact ⟨halted, by simp only [entered, hwake, Cpu.enter, Cpu.skip]⟩

/-- The machine after an instruction has been counted. -/
def counted [Bus β] (s : Machine β) (cost : Nat) : Machine β :=
  let t := { s with cpu := { s.cpu with instructions := s.cpu.instructions + 1 } }.finished cost
  { t with cpu := t.cpu.advanceEnable }

@[simp] theorem cpu_counted [Bus β] (s : Machine β) (cost : Nat) :
    (s.counted cost).cpu = ({ s.cpu with
      cycles := s.cpu.cycles + cost
      instructions := s.cpu.instructions + 1 } : Cpu).advanceEnable := rfl

/-- The cases of a successful step. -/
inductive Stepped [Bus β] (s : Machine β) : Progress → Machine β → Prop where
  | served (i : Interrupt) (t : Machine β)
      (pending : Interrupt.first? (Bus.pending s.bus) = some i) (enabled : s.cpu.ime = true)
      (pushed : Exec.push s.cpu.regs.pc (s.accepted i) = .ok () t) :
      Stepped s (.served i) ((t.landed i s.cpu.regs.pc).finished Interrupt.serviceCycles)
  | idle (quiet : Interrupt.first? (Bus.pending s.bus) = none) (halted : s.cpu.halted = true) :
      Stepped s .idle ({ s with cpu := { s.cpu with
        idleSteps := s.cpu.idleSteps + 1 } }.finished Progress.idleCycles)
  | executed (i : Instruction) (b : β) (cost : Nat) (t : Machine β)
      (calm : s.cpu.interrupted (Bus.pending s.bus) = false)
      (awake : (s.cpu.wake (Bus.pending s.bus)).halted = false)
      (decoded : Bus.instructionAt s.cpu.regs.pc s.bus = .ok i b)
      (performed : i.execute (s.entered i b) = .ok cost t) :
      Stepped s (.executed i cost) ((t.counted cost).shown s.cpu.regs.pc i)

/-- The cases of a failing step, up to where the fault is stored. -/
inductive Stuck [Bus β] (s : Machine β) : Fault → Machine β → Prop where
  | limit (n : Nat) (limit : s.cpu.limit = some n) (reached : n ≤ s.cpu.countedSteps) :
      Stuck s (.stepLimit n) s
  | served (i : Interrupt) (e : Fault) (t : Machine β)
      (pending : Interrupt.first? (Bus.pending s.bus) = some i) (enabled : s.cpu.ime = true)
      (failed : Exec.push s.cpu.regs.pc (s.accepted i) = .error e t) : Stuck s e t
  | opcode (error : BusError) (b : β)
      (calm : s.cpu.interrupted (Bus.pending s.bus) = false)
      (failed : Bus.read s.cpu.regs.pc s.bus = .error error b) :
      Stuck s .endOfProgram { s with cpu := s.cpu.wake (Bus.pending s.bus), bus := b }
  | extended (b : β) (error : BusError) (b' : β)
      (calm : s.cpu.interrupted (Bus.pending s.bus) = false)
      (opcode : Bus.read s.cpu.regs.pc s.bus = .ok Opcode.extend b)
      (failed : Bus.read (s.cpu.regs.pc + 1) b = .error error b') :
      Stuck s .endOfProgram
        { s with cpu := (s.cpu.wake (Bus.pending s.bus)).skip 1, bus := b' }
  | executed (i : Instruction) (b : β) (e : Fault) (t : Machine β)
      (calm : s.cpu.interrupted (Bus.pending s.bus) = false)
      (decoded : Bus.instructionAt s.cpu.regs.pc s.bus = .ok i b)
      (failed : i.execute (s.entered i b) = .error e t) : Stuck s e t

variable [Bus β] {s t : Machine β} {p : Progress} {e : Fault}

theorem serve_apply (i : Interrupt) (s : Machine β) :
    Exec.serve i { s with cpu := { s.cpu with halted := false } } =
      match Exec.push s.cpu.regs.pc (s.accepted i) with
      | .ok _ t => .ok () (t.landed i s.cpu.regs.pc)
      | .error e t => .error e t := by
  simp only [Exec.serve, Exec.bind_apply, Exec.getRegs_apply, Exec.modifyCpu_apply,
    Exec.acknowledge]
  cases h : Exec.push s.cpu.regs.pc (s.accepted i) with
  | ok =>
    rw [accepted] at h
    simp only [h]
    rfl
  | error =>
    rw [accepted] at h
    simp only [h]

theorem executeNext_ok (h : Exec.executeNext s = .ok p t) :
    ∃ i b cost u, Bus.instructionAt s.cpu.regs.pc s.bus = .ok i b ∧
      i.execute { s with cpu := s.cpu.enter i, bus := b } = .ok cost u ∧
      p = .executed i cost ∧ t = (u.counted cost).shown s.cpu.regs.pc i := by
  obtain ⟨_, _, ⟨⟩, h⟩ := Exec.bind_eq_ok.1 h
  obtain ⟨i, _, hdecode, h⟩ := Exec.bind_eq_ok.1 h
  obtain ⟨b, hdecoded, rfl⟩ := Exec.decode_ok hdecode
  obtain ⟨_, _, ⟨⟩, h⟩ := Exec.bind_eq_ok.1 h
  obtain ⟨cost, u, hperformed, h⟩ := Exec.bind_eq_ok.1 h
  simp only [Exec.bind_apply, Exec.modifyCpu_apply, Exec.finish_apply, Exec.fireHook_apply] at h
  obtain ⟨rfl, rfl⟩ := EStateM.Result.ok.inj h
  exact ⟨i, b, cost, u, hdecoded, hperformed, rfl, rfl⟩

theorem executeNext_error (h : Exec.executeNext s = .error e t) :
    (e = .endOfProgram ∧
      ((∃ error b, Bus.read s.cpu.regs.pc s.bus = .error error b ∧ t = { s with bus := b }) ∨
      ∃ b error b', Bus.read s.cpu.regs.pc s.bus = .ok Opcode.extend b ∧
        Bus.read (s.cpu.regs.pc + 1) b = .error error b' ∧
        t = { s with cpu := s.cpu.skip 1, bus := b' })) ∨
    ∃ i b, Bus.instructionAt s.cpu.regs.pc s.bus = .ok i b ∧
      i.execute { s with cpu := s.cpu.enter i, bus := b } = .error e t := by
  rcases Exec.bind_eq_error.1 h with ⟨⟨⟩⟩ | ⟨_, _, ⟨⟩, h⟩
  rcases Exec.bind_eq_error.1 h with hdecode | ⟨i, _, hdecode, h⟩
  · exact .inl (Exec.decode_error hdecode)
  obtain ⟨b, hdecoded, rfl⟩ := Exec.decode_ok hdecode
  rcases Exec.bind_eq_error.1 h with ⟨⟨⟩⟩ | ⟨_, _, ⟨⟩, h⟩
  rcases Exec.bind_eq_error.1 h with hperform | ⟨cost, u, -, h⟩
  · exact .inr ⟨i, b, hdecoded, hperform⟩
  simp only [Exec.bind_apply, Exec.modifyCpu_apply, Exec.finish_apply, Exec.fireHook_apply] at h
  cases h

/-- The machine that has looked at the pending interrupt lines. -/
def woken (s : Machine β) : Machine β := { s with cpu := s.cpu.wake (Bus.pending s.bus) }

theorem attempt_exhausted (h : s.cpu.exhausted = true) :
    Exec.attempt s = .error (.stepLimit (s.cpu.limit.getD 0)) s := by
  simp only [Exec.attempt, Exec.bind_apply, Exec.checkLimit_apply, h, if_true]

theorem attempt_served {i : Interrupt} (hlimit : s.cpu.exhausted = false)
    (hpending : Interrupt.first? (Bus.pending s.bus) = some i) (hime : s.cpu.ime = true) :
    Exec.attempt s = match Exec.push s.cpu.regs.pc (s.accepted i) with
      | .ok _ t => .ok (.served i)
          ((t.landed i s.cpu.regs.pc).finished Interrupt.serviceCycles)
      | .error e t => .error e t := by
  have hserve : Exec.serve i { s with cpu := s.cpu.wake (Bus.pending s.bus) } =
      match Exec.push s.cpu.regs.pc (s.accepted i) with
      | .ok _ t => .ok () (t.landed i s.cpu.regs.pc)
      | .error e t => .error e t := by
    rw [← serve_apply, Cpu.wake, hpending]
    rfl
  simp only [Exec.attempt, Exec.bind_apply, Exec.checkLimit_apply, hlimit, Bool.false_eq_true,
    if_false, if_true, Exec.serveInterrupt_apply, hpending, hime, hserve]
  cases Exec.push s.cpu.regs.pc (s.accepted i) <;> rfl

theorem attempt_calm (hlimit : s.cpu.exhausted = false)
    (hcalm : s.cpu.interrupted (Bus.pending s.bus) = false) :
    Exec.attempt s = if s.woken.cpu.halted then Exec.wait s.woken
      else Exec.executeNext s.woken := by
  have hserve : Exec.serveInterrupt s = .ok none s.woken := by
    rw [Exec.serveInterrupt_apply]
    cases hpending : Interrupt.first? (Bus.pending s.bus) with
    | none => rfl
    | some i =>
      have hime : s.cpu.ime = false := by simpa [Cpu.interrupted, hpending] using hcalm
      simp only [hime]
      rfl
  simp only [Exec.attempt, Exec.bind_apply, Exec.checkLimit_apply, hlimit, Bool.false_eq_true,
    if_false, hserve, Exec.getCpu_apply]
  cases s.woken.cpu.halted <;> rfl

theorem attempt_ok (h : Exec.attempt s = .ok p t) : s.cpu.exhausted = false ∧ Stepped s p t := by
  cases hlimit : s.cpu.exhausted with
  | true => simp [attempt_exhausted hlimit] at h
  | false =>
    refine ⟨rfl, ?_⟩
    cases hcalm : s.cpu.interrupted (Bus.pending s.bus) with
    | true =>
      obtain ⟨i, hpending, hime⟩ := Cpu.interrupted_iff.1 hcalm
      rw [attempt_served hlimit hpending hime] at h
      cases hpush : Exec.push s.cpu.regs.pc (s.accepted i) with
      | error => simp [hpush] at h
      | ok _ u =>
        rw [hpush] at h
        obtain ⟨rfl, rfl⟩ := EStateM.Result.ok.inj h
        exact .served i u hpending hime hpush
    | false =>
      rw [attempt_calm hlimit hcalm] at h
      cases hhalted : s.woken.cpu.halted with
      | true =>
        rw [hhalted] at h
        obtain ⟨rfl, rfl⟩ := EStateM.Result.ok.inj h
        obtain ⟨hquiet, hhalted⟩ := Cpu.halted_wake hhalted
        simp only [Cpu.wake_quiet hquiet]
        exact .idle hquiet hhalted
      | false =>
        rw [hhalted] at h
        obtain ⟨i, b, cost, u, hdecoded, hperformed, rfl, rfl⟩ := executeNext_ok h
        simp only [woken, Cpu.regs_wake] at hdecoded ⊢
        exact .executed i b cost u hcalm hhalted hdecoded hperformed

theorem attempt_of_stepped (hlimit : s.cpu.exhausted = false) (h : Stepped s p t) :
    Exec.attempt s = .ok p t := by
  cases h with
  | served i u pending enabled pushed =>
    rw [attempt_served hlimit pending enabled, pushed]
  | idle quiet halted =>
    have hcalm : s.cpu.interrupted (Bus.pending s.bus) = false := by simp [Cpu.interrupted, quiet]
    have hwoken : s.woken = s := by rw [woken, Cpu.wake_quiet quiet]
    rw [attempt_calm hlimit hcalm, hwoken, halted]
    rfl
  | executed i b cost u calm awake decoded performed =>
    have hdecode : Exec.decode s.woken = _ :=
      Exec.decode_of_instructionAt (by simpa only [woken, Cpu.regs_wake] using decoded)
    rw [attempt_calm hlimit calm, if_neg (by simpa [woken] using awake)]
    refine Exec.bind_eq_ok.2 ⟨_, _, rfl, Exec.bind_eq_ok.2 ⟨i, _, hdecode, ?_⟩⟩
    refine Exec.bind_eq_ok.2 ⟨_, _, rfl, Exec.bind_eq_ok.2 ⟨cost, u, performed, ?_⟩⟩
    simp only [Exec.bind_apply, Exec.modifyCpu_apply, Exec.finish_apply, Exec.fireHook_apply,
      woken, Cpu.regs_wake]
    rfl

theorem attempt_error (h : Exec.attempt s = .error e t) : Stuck s e t := by
  cases hlimit : s.cpu.exhausted with
  | true =>
    rw [attempt_exhausted hlimit] at h
    obtain ⟨rfl, rfl⟩ := EStateM.Result.error.inj h
    obtain ⟨n, hn, hreached⟩ := (Option.any_eq_true _ _).1 hlimit
    rw [hn]
    exact .limit n hn (of_decide_eq_true hreached)
  | false =>
    cases hcalm : s.cpu.interrupted (Bus.pending s.bus) with
    | true =>
      obtain ⟨i, hpending, hime⟩ := Cpu.interrupted_iff.1 hcalm
      rw [attempt_served hlimit hpending hime] at h
      cases hpush : Exec.push s.cpu.regs.pc (s.accepted i) with
      | ok => simp [hpush] at h
      | error =>
        rw [hpush] at h
        obtain ⟨rfl, rfl⟩ := EStateM.Result.error.inj h
        exact .served i _ _ hpending hime hpush
    | false =>
      rw [attempt_calm hlimit hcalm] at h
      cases hhalted : s.woken.cpu.halted with
      | true =>
        rw [hhalted] at h
        cases h
      | false =>
        rw [hhalted] at h
        rcases executeNext_error h with
          ⟨rfl, ⟨error, b, hfailed, rfl⟩ | ⟨b, error, b', hopcode, hfailed, rfl⟩⟩ |
          ⟨i, b, hdecoded, hfailed⟩
        · rw [woken, Cpu.regs_wake] at hfailed
          exact .opcode error b hcalm hfailed
        · simp only [woken, Cpu.regs_wake] at hopcode hfailed
          exact .extended b error b' hcalm hopcode hfailed
        · simp only [woken, Cpu.regs_wake] at hdecoded
          exact .executed i b e t hcalm hdecoded hfailed

/-- A step succeeds only in a machine that has not stopped and may go on. -/
theorem step_ok (h : step s = .ok p t) :
    s.cpu.fault = none ∧ s.cpu.exhausted = false ∧ Stepped s p t := by
  unfold step at h
  cases hfault : s.cpu.fault with
  | some => simp [hfault] at h
  | none =>
    simp only [hfault] at h
    cases hattempt : Exec.attempt s with
    | error => simp [hattempt] at h
    | ok p' t' =>
      rw [hattempt] at h
      obtain ⟨rfl, rfl⟩ := EStateM.Result.ok.inj h
      exact ⟨rfl, attempt_ok hattempt⟩

/-- A step succeeds exactly in these cases, in a machine that has not stopped and may go on. -/
theorem step_eq_ok : step s = .ok p t ↔
    s.cpu.fault = none ∧ s.cpu.exhausted = false ∧ Stepped s p t := by
  constructor
  · exact step_ok
  · rintro ⟨hfault, hlimit, hstepped⟩
    simp only [step, hfault, attempt_of_stepped hlimit hstepped]

/-- A step that fails in a machine that has not stopped stops it. -/
theorem step_error (hfault : s.cpu.fault = none) (h : step s = .error e t) :
    ∃ u, Stuck s e u ∧ t = u.stopWith e := by
  unfold step at h
  simp only [hfault] at h
  cases hattempt : Exec.attempt s with
  | ok => simp [hattempt] at h
  | error e' u =>
    rw [hattempt] at h
    obtain ⟨rfl, rfl⟩ := EStateM.Result.error.inj h
    exact ⟨u, attempt_error hattempt, rfl⟩

/-- A step that fails, and not while an interrupt is served, touches neither the enable and its
latches nor the counters. -/
theorem Stuck.frame (h : Stuck s e t)
    (hcalm : s.cpu.interrupted (Bus.pending s.bus) = false) :
    ∃ regs halted current, t.cpu = { s.cpu with regs, halted, current } := by
  obtain ⟨halted, hwake⟩ := s.cpu.wake_frame (Bus.pending s.bus)
  cases h with
  | limit => exact ⟨_, _, _, rfl⟩
  | served i _ _ pending enabled =>
    rw [Cpu.interrupted_iff.2 ⟨i, pending, enabled⟩] at hcalm
    cases hcalm
  | opcode =>
    rw [hwake]
    exact ⟨_, _, _, rfl⟩
  | extended =>
    rw [hwake]
    exact ⟨_, _, _, rfl⟩
  | executed i b _ _ _ decoded failed =>
    obtain ⟨_, _, hcpu⟩ :=
      Instruction.execute_error_frame (Exec.instructionAt_ok decoded) failed
    obtain ⟨_, hentered⟩ := s.cpu_entered i b
    rw [hentered] at hcpu
    exact ⟨_, _, _, hcpu⟩

end Machine

/-! ## Runs -/

/-- A machine gets from one state to another by successful steps that made the given progress, the
first step first. -/
inductive Machine.Run [Bus β] (s : Machine β) : List Progress → Machine β → Prop where
  | refl : Run s [] s
  | snoc {ps : List Progress} {t u : Machine β} {p : Progress} :
      Run s ps t → Machine.step t = .ok p u → Run s (ps ++ [p]) u

namespace Machine.Run

variable [Bus β] {s t u : Machine β} {p : Progress} {ps : List Progress}

theorem of_nil (h : Run s [] t) : t = s := by
  generalize hps : ([] : List Progress) = ps at h
  cases h with
  | refl => rfl
  | snoc => simp at hps

theorem of_snoc (h : Run s (ps ++ [p]) u) : ∃ t, Run s ps t ∧ step t = .ok p u := by
  generalize hqs : ps ++ [p] = qs at h
  cases h with
  | refl => simp at hqs
  | snoc hrun hstep =>
    obtain ⟨rfl, rfl⟩ := List.append_singleton_inj.1 hqs
    exact ⟨_, hrun, hstep⟩

/-- A run is determined by where it starts and what progress it made. -/
theorem unique (h : Run s ps t) (h' : Run s ps u) : t = u := by
  induction h generalizing u with
  | refl => exact h'.of_nil.symm
  | snoc _ hstep ih =>
    obtain ⟨v, hrun, hstep'⟩ := h'.of_snoc
    rw [ih hrun, hstep'] at hstep
    exact (EStateM.Result.ok.inj hstep).2.symm

end Machine.Run

end GameBoy
