import GameBoy.Proofs.Limit
import GameBoy.Proofs.Requests

/-!
# Waiting for an interrupt

HALT leaves the processor waiting. While nothing is pending, each step only counts time, and all
that goes on besides is the line: it moves on every 114 steps and requests the vertical blank when
it gets to its first line. So if that interrupt is enabled, the wait ends within a frame, unless the
limit ends the run before.

Main statement: `Console.halted_waits`.
-/

namespace GameBoy

/-! ## How a wait begins -/

namespace Instruction

/-- Wait until an interrupt is pending. -/
def halt : Instruction := ⟨0x76, false⟩

theorem eq_halt {i : Instruction} (h : i.action = .operation .halt) : i = halt := by
  have hall : ∀ n : Fin 256, Action.ofOpcode (.ofNat n) = .operation .halt →
      UInt8.ofNat n = 0x76 := by decide +kernel
  obtain ⟨opcode, extended⟩ := i
  cases extended with
  | true => cases h
  | false =>
    have hopcode := hall ⟨opcode.toNat, opcode.toNat_lt⟩
    rw [UInt8.ofNat_toNat] at hopcode
    rw [hopcode h]
    rfl

end Instruction

namespace Machine

section

variable {β : Type} [Bus β] {s t u : Machine β} {p : Progress} {ps : List Progress}

/-- If the processor waits after a step, it has waited in it or has executed HALT. -/
theorem step_halted (h : step s = .ok p t) (hhalted : t.cpu.halted = true) :
    p = .idle ∧ s.cpu.halted = true ∧ t.cpu.regs = s.cpu.regs ∨
    p = .executed .halt 4 ∧ t.cpu.regs = { s.cpu.regs with pc := s.cpu.regs.pc + 1 } := by
  cases (step_ok h).2.2 with
  | served i u _ _ hpush =>
    obtain ⟨_, _, _, _, -, -, rfl⟩ := Exec.push_eq_ok.1 hpush
    cases hhalted
  | idle _ hhalted => exact .inl ⟨rfl, hhalted, rfl⟩
  | executed i b cost u _ hawake hdecoded hperformed =>
    right
    rw [cpu_shown, cpu_counted, Cpu.advanceEnable_eq] at hhalted ⊢
    have hi : i = .halt := by
      by_contra hother
      have haction : i.action ≠ .operation .halt := fun hhalt => hother (Instruction.eq_halt hhalt)
      obtain ⟨fetched, loaded, pc, sp, hcpu⟩ :=
        Instruction.execute_commit (Exec.instructionAt_ok hdecoded) hperformed
      change u.cpu.halted = true at hhalted
      rw [hcpu, Instruction.phases, Action.halted_commit haction] at hhalted
      cases hhalted.symm.trans hawake
    subst hi
    obtain ⟨rfl, rfl⟩ := EStateM.Result.ok.inj hperformed
    refine ⟨rfl, ?_⟩
    obtain ⟨_, hentered⟩ := s.cpu_entered .halt b
    exact congrArg Cpu.regs hentered

/-- A machine that waits has executed HALT and has only waited since. -/
theorem Run.halted (h : Run s ps t) (hawake : s.cpu.halted = false)
    (hhalted : t.cpu.halted = true) : ∃ qs v w n, Run s qs v ∧
      step v = .ok (.executed .halt 4) w ∧ Run w (List.replicate n .idle) t ∧
      t.cpu.regs = { v.cpu.regs with pc := v.cpu.regs.pc + 1 } := by
  induction h with
  | refl =>
    rw [hawake] at hhalted
    cases hhalted
  | snoc hrun hstep ih =>
    rcases step_halted hstep hhalted with ⟨rfl, hbefore, hregs⟩ | ⟨rfl, hregs⟩
    · obtain ⟨qs, v, w, n, hbegun, hhalt, hwaited, hregs'⟩ := ih hbefore
      refine ⟨qs, v, w, n + 1, hbegun, hhalt, ?_, hregs.trans hregs'⟩
      rw [List.replicate_succ']
      exact hwaited.snoc hstep
    · exact ⟨_, _, _, 0, hrun, hstep, .refl, hregs⟩

/-- The machine after it has waited for one step. -/
def idled (s : Machine β) : Machine β :=
  { s with cpu := { s.cpu with idleSteps := s.cpu.idleSteps + 1 } }.finished Progress.idleCycles

/-- A machine that is halted waits while nothing is pending. -/
theorem step_idled (hfault : s.cpu.fault = none) (hlimit : s.cpu.exhausted = false)
    (hhalted : s.cpu.halted = true) (hquiet : Interrupt.first? (Bus.pending s.bus) = none) :
    step s = .ok .idle s.idled := step_eq_ok.2 ⟨hfault, hlimit, .idle hquiet hhalted⟩

end

end Machine

namespace Console

open Machine

/-! ## What goes on meanwhile -/

/-- Apart from the counters of waiting, nothing has changed but the line and the request of the
vertical blank. -/
structure Waited (s t : Console) : Prop where
  cpu : t.cpu = { s.cpu with cycles := t.cpu.cycles, idleSteps := t.cpu.idleSteps }
  bus : t.bus = { s.bus with
    io := t.bus.io
    requested := t.bus.requested
    lines := t.bus.lines }
  registers : ∀ offset ≠ DeviceRegister.ly, t.bus.io.get offset = s.bus.io.get offset
  requests : ∀ n ≠ 0, Byte.testBit t.bus.requested n = Byte.testBit s.bus.requested n
  records : t.records = s.records

theorem Waited.refl (s : Console) : Waited s s :=
  ⟨rfl, rfl, fun _ _ => rfl, fun _ _ => rfl, rfl⟩

theorem Waited.trans {s t u : Console} (h : Waited s t) (h' : Waited t u) : Waited s u where
  cpu := by rw [h'.cpu, h.cpu]
  bus := by rw [h'.bus, h.bus]
  registers offset hoffset := (h'.registers offset hoffset).trans (h.registers offset hoffset)
  requests n hn := (h'.requests n hn).trans (h.requests n hn)
  records := h'.records.trans h.records

/-- How many times the line changes until it becomes the first line of the vertical blank. -/
def linesLeft (s : Console) : Nat :=
  if s.bus.ly.toNat < 144 then 144 - s.bus.ly.toNat else 298 - s.bus.ly.toNat

/-- How many steps of waiting that takes. -/
def countdown (s : Console) : Nat :=
  114 * s.linesLeft - (s.cpu.cycles - s.bus.lines.lastCycles) / 4

/-- There is a line, and the next one is not due yet. -/
structure InLine (s : Console) : Prop where
  line : s.bus.ly.toNat < 154
  begun : s.bus.lines.lastCycles ≤ s.cpu.cycles
  units : 4 ∣ s.cpu.cycles - s.bus.lines.lastCycles
  early : s.cpu.cycles ≤ s.bus.lines.lastCycles + 452

variable {s t u : Console}

theorem OnTime.inLine {start : Nat} {times : List Nat} (h : OnTime start times s) : InLine s where
  line := by
    rw [h.line]
    exact Nat.mod_lt _ (by decide)
  begun := h.begun
  units := h.units
  early := h.early

theorem countdown_le (s : Console) : s.countdown ≤ 17556 := by
  have hleft : s.linesLeft ≤ 154 := by
    unfold linesLeft
    split <;> omega
  unfold countdown
  omega

/-- With the vertical blank enabled and requested, something is pending. -/
theorem pending_ne_zero {m : Memory} (henabled : Byte.testBit m.enabled 0 = true)
    (hrequested : Byte.testBit m.requested 0 = true) : Bus.pending m ≠ 0 := by
  intro hzero
  have hbit : Byte.testBit (Bus.pending m) 0 = true := by
    change Byte.testBit (m.enabled &&& m.requested &&& 0x1F) 0 = true
    rw [Byte.testBit_and, Byte.testBit_and, henabled, hrequested]
    rfl
  rw [hzero] at hbit
  cases hbit

/-- One step of waiting changes only what it may. -/
theorem waited_idled (s : Console) : Waited s s.idled := by
  have hbus : s.idled.bus = (s.bus.endStep (s.cpu.cycles + 4)).2 := rfl
  obtain ⟨io, requested, lines, hframe⟩ := s.bus.endStep_frame (s.cpu.cycles + 4)
  refine ⟨rfl, by rw [hbus, hframe], ?_, ?_, rfl⟩
  · intro offset hoffset
    rw [hbus]
    by_cases hdue : s.bus.lines.lastCycles + 456 ≤ s.cpu.cycles + 4
    · rw [Memory.endStep_due hdue]
      exact Vector.getElem_set_ne DeviceRegister.ly.isLt offset.isLt fun heq =>
        hoffset (Fin.ext heq.symm)
    · rw [Memory.endStep_early (Nat.lt_of_not_le hdue)]
  · intro n hn
    rw [hbus, Memory.requested_endStep]
    split
    · have hbit : ∀ n : Fin 8, n ≠ 0 → Byte.testBit 0x01 n = false := by decide
      rw [Byte.testBit_or, hbit n hn, Bool.or_false]
    · rfl

/-- One step of waiting brings the vertical blank one step closer. -/
theorem InLine.idled (h : InLine s) : InLine s.idled ∧
    (Byte.testBit s.idled.bus.requested 0 = true ∨ countdown s.idled + 1 = countdown s) := by
  have hcycles : s.idled.cpu.cycles = s.cpu.cycles + 4 := rfl
  have hbus : s.idled.bus = (s.bus.endStep (s.cpu.cycles + 4)).2 := rfl
  obtain ⟨hline, hbegun, ⟨units, hunits⟩, hearly⟩ := h
  by_cases hdue : s.bus.lines.lastCycles + 456 ≤ s.cpu.cycles + 4
  · rw [Memory.endStep_due hdue] at hbus
    have hly : s.idled.bus.ly = LineCounter.lineAfter s.bus.ly := by
      rw [hbus]
      exact Vector.getElem_set_self _
    have hnext : s.idled.bus.ly.toNat = (s.bus.ly.toNat + 1) % 154 := by
      rw [hly, LineCounter.toNat_lineAfter hline]
    have hlast : s.idled.bus.lines.lastCycles = s.cpu.cycles + 4 := by rw [hbus]
    refine ⟨⟨by omega, by omega, by omega, by omega⟩, ?_⟩
    by_cases hblank : LineCounter.lineAfter s.bus.ly = vblankLine
    · left
      rw [if_pos hblank] at hbus
      have hbit : Byte.testBit 0x01 0 = true := by decide
      rw [hbus, Byte.testBit_or, hbit, Bool.or_true]
    · right
      have hother : s.idled.bus.ly.toNat ≠ 144 := by
        rw [hly]
        exact fun heq => hblank (UInt8.toNat_inj.1 heq)
      unfold countdown linesLeft
      rw [hnext] at hother ⊢
      split <;> split <;> omega
  · rw [Memory.endStep_early (Nat.lt_of_not_le hdue)] at hbus
    refine ⟨⟨hbus ▸ hline, by rw [hbus]; omega, by rw [hbus]; omega, by rw [hbus]; omega⟩, .inr ?_⟩
    unfold countdown linesLeft
    rw [hbus]
    split <;> omega

/-! ## How a wait ends -/

theorem first?_pending {m : Memory} :
    Interrupt.first? (Bus.pending m) = none ↔ Bus.pending m = 0 := by
  have hmask : Bus.pending m &&& 0x1F = Bus.pending m := by
    change m.enabled &&& m.requested &&& 0x1F &&& 0x1F = m.enabled &&& m.requested &&& 0x1F
    rw [UInt8.and_assoc, UInt8.and_self]
  rw [Interrupt.first?_eq_none, hmask]

/-- The next step does not wait. It serves a pending interrupt or, if interrupts are disabled,
executes the instruction at the program counter; if it fails, it fails in that. -/
structure Resumes (s : Console) : Prop where
  serves : s.cpu.ime = true → ∃ i, Interrupt.first? (Bus.pending s.bus) = some i ∧
    ((∃ t, step s = .ok (.served i) t) ∨
      ∃ e t, Exec.push s.cpu.regs.pc (s.accepted i) = .error e t ∧ step s = .error e (t.stopWith e))
  executes : s.cpu.ime = false →
    (∃ i b cost t, Bus.instructionAt s.cpu.regs.pc s.bus = .ok i b ∧
      step s = .ok (.executed i cost) t) ∨
    ∃ e t, step s = .error e t ∧ (e = .endOfProgram ∨ ∃ i b u,
      Bus.instructionAt s.cpu.regs.pc s.bus = .ok i b ∧ i.execute (s.entered i b) = .error e u)

theorem resumes (hfault : s.cpu.fault = none) (hlimit : s.cpu.exhausted = false)
    (hpending : Bus.pending s.bus ≠ 0) : Resumes s := by
  have hcalm {i : Interrupt} (hi : Interrupt.first? (Bus.pending s.bus) = some i)
      (hime : s.cpu.ime = true) : s.cpu.interrupted (Bus.pending s.bus) ≠ false := by
    rw [Cpu.interrupted_iff.2 ⟨i, hi, hime⟩]
    decide
  obtain ⟨i, hi⟩ := Option.ne_none_iff_exists'.1 (mt first?_pending.1 hpending)
  cases hstep : step s with
  | ok p t =>
    cases (step_ok hstep).2.2 with
    | served j _ hj hime =>
      exact ⟨fun _ => ⟨j, hj, .inl ⟨_, hstep⟩⟩,
        fun hnot => absurd (hime.symm.trans hnot) (by decide)⟩
    | idle hquiet => exact absurd (first?_pending.1 hquiet) hpending
    | executed j b cost _ hnot _ hdecoded =>
      exact ⟨fun hime => absurd hnot (hcalm hi hime),
        fun _ => .inl ⟨j, b, cost, _, hdecoded, hstep⟩⟩
  | error e t =>
    obtain ⟨u, hstuck, rfl⟩ := step_error hfault hstep
    cases hstuck with
    | limit n hn hreached =>
      rw [Cpu.exhausted, hn, Option.any_some, decide_eq_true hreached] at hlimit
      cases hlimit
    | served j _ _ hj hime hfailed =>
      exact ⟨fun _ => ⟨j, hj, .inr ⟨e, u, hfailed, hstep⟩⟩,
        fun hnot => absurd (hime.symm.trans hnot) (by decide)⟩
    | opcode _ _ hnot | extended _ _ _ hnot =>
      exact ⟨fun hime => absurd hnot (hcalm hi hime), fun _ => .inr ⟨_, _, hstep, .inl rfl⟩⟩
    | executed j b _ _ hnot hdecoded hfailed =>
      exact ⟨fun hime => absurd hnot (hcalm hi hime),
        fun _ => .inr ⟨_, _, hstep, .inr ⟨j, b, u, hdecoded, hfailed⟩⟩⟩

theorem InLine.one_le_countdown (h : InLine s) : 1 ≤ countdown s := by
  obtain ⟨hline, hbegun, hunits, hearly⟩ := h
  unfold countdown linesLeft
  split <;> omega

/-- The limit has been reached, so the next step fails. -/
def Refused (s : Console) : Prop :=
  ∃ n, s.cpu.limit = some n ∧ n ≤ s.cpu.countedSteps ∧
    step s = .error (.stepLimit n) (s.stopWith (.stepLimit n))

theorem refused (hfault : s.cpu.fault = none) (hlimit : s.cpu.exhausted = true) : Refused s := by
  obtain ⟨n, hn, hreached⟩ := (Option.any_eq_true _ _).1 hlimit
  have hspent := of_decide_eq_true hreached
  exact ⟨n, hn, hspent, step_limited hn hfault hspent⟩

/-- A wait that the vertical blank may end is over when it is due, unless the limit is reached. -/
theorem waits_out (n : Nat) (h : InLine s) (hhalted : s.cpu.halted = true)
    (hfault : s.cpu.fault = none) (henabled : Byte.testBit s.bus.enabled 0 = true)
    (hn : countdown s ≤ n) : ∃ k ≤ n, ∃ u, Run s (List.replicate k .idle) u ∧ Waited s u ∧
      (Refused u ∨ Resumes u) := by
  induction n generalizing s with
  | zero =>
    have hone := h.one_le_countdown
    omega
  | succ n ih =>
    cases hlimit : s.cpu.exhausted with
    | true => exact ⟨0, Nat.zero_le _, s, .refl, .refl s, .inl (refused hfault hlimit)⟩
    | false =>
      by_cases hpending : Bus.pending s.bus = 0
      · have hstep := step_idled hfault hlimit hhalted (first?_pending.2 hpending)
        have hwaited := waited_idled s
        have henabled' : Byte.testBit s.idled.bus.enabled 0 = true := by
          rw [hwaited.bus]
          exact henabled
        obtain ⟨hline, hblank | hcloser⟩ := h.idled
        · have hpending' := pending_ne_zero henabled' hblank
          refine ⟨1, Nat.succ_le_succ (Nat.zero_le n), s.idled, Run.refl.snoc hstep, hwaited, ?_⟩
          cases hlimit' : s.idled.cpu.exhausted with
          | true => exact .inl (refused hfault hlimit')
          | false => exact .inr (resumes hfault hlimit' hpending')
        · obtain ⟨k, hk, u, hrun, hwaited', hend⟩ := ih hline hhalted hfault henabled' (by omega)
          exact ⟨k + 1, Nat.succ_le_succ hk, u, hrun.cons hstep, hwaited.trans hwaited', hend⟩
      · exact ⟨0, Nat.zero_le _, s, .refl, .refl s, .inr (resumes hfault hlimit hpending)⟩

variable {cartridge : Option Cartridge} {config : Config} {s₀ : Console} {ps : List Progress}

/-- A console that waits has executed HALT and stays behind it. While nothing is pending, each step
waits for four cycles and changes only what it may; and if the vertical blank is enabled, at most
17556 steps wait, and the next one does not. Only the limit may come between. -/
theorem halted_waits (hbuild : build cartridge config = .ok s₀) (hrun : Run s₀ ps s)
    (hhalted : s.cpu.halted = true) :
    (∃ qs v w n, Run s₀ qs v ∧ step v = .ok (.executed .halt 4) w ∧
      Run w (List.replicate n .idle) s ∧
      s.cpu.regs = { v.cpu.regs with pc := v.cpu.regs.pc + 1 }) ∧
    (Bus.pending s.bus = 0 → Refused s ∨ ∃ t, step s = .ok .idle t ∧ Progress.idle.cycles = 4 ∧
      t.cpu = { s.cpu with cycles := s.cpu.cycles + 4, idleSteps := s.cpu.idleSteps + 1 } ∧
      Waited s t) ∧
    (Byte.testBit s.bus.enabled 0 = true → ∃ k ≤ 17556, ∃ u,
      Run s (List.replicate k .idle) u ∧ Waited s u ∧ (Refused u ∨ Resumes u)) := by
  obtain ⟨hawake, hnew⟩ : s₀.cpu.halted = false ∧ s₀.cpu.fault = none := by
    obtain ⟨boot, -, rfl⟩ := build_eq_ok.1 hbuild
    cases boot <;> exact ⟨rfl, rfl⟩
  have hfault := hrun.fault_eq_none hnew
  obtain ⟨times, -, hontime⟩ := (onTime_build hbuild).run hrun
  refine ⟨hrun.halted hawake hhalted, fun hquiet => ?_, fun henabled => ?_⟩
  · cases hlimit : s.cpu.exhausted with
    | true => exact .inl (refused hfault hlimit)
    | false =>
      have hstep := step_idled hfault hlimit hhalted (first?_pending.2 hquiet)
      exact .inr ⟨_, hstep, rfl, rfl, waited_idled s⟩
  · exact waits_out 17556 hontime.inLine hhalted hfault henabled s.countdown_le

/-- A boot program that enables the vertical blank and waits: LD A,1, LDH (FF),A and HALT. -/
def waitingBoot : Vector UInt8 bootRomSize := bootProgram [0x3E, 0x01, 0xE0, 0xFF, 0x76]

/-- Without a limit the wait of the boot program ends, and what follows HALT is executed. -/
theorem halted_waits_vblank : ∃ (s₀ s : Console) (ps : List Progress),
    build none ⟨some ⟨waitingBoot.toArray⟩, none, false⟩ = .ok s₀ ∧ Run s₀ ps s ∧
    s.cpu.halted = true ∧ Bus.pending s.bus = 0 ∧
    ∃ k ≤ 17556, ∃ u, Run s (List.replicate k .idle) u ∧ Resumes u := by
  let s₀ : Console := Machine.start (startCpu ⟨some ⟨waitingBoot.toArray⟩, none, false⟩ true)
    (Memory.start none (some waitingBoot))
  have hbuild : build none _ = .ok s₀ := build_boot none waitingBoot none
  have hfacts : (next^[3] s₀).cpu.fault = none ∧ (next^[3] s₀).cpu.limit = none ∧
      (next^[3] s₀).cpu.halted = true ∧ Bus.pending (next^[3] s₀).bus = 0 ∧
      Byte.testBit (next^[3] s₀).bus.enabled 0 = true := by decide +kernel
  obtain ⟨hfault, hlimit, hhalted, hquiet, henabled⟩ := hfacts
  obtain ⟨ps, hrun⟩ := exists_run_of_iterate hfault
  obtain ⟨k, hk, u, hwait, hwaited, hrefused | hresumes⟩ :=
    (halted_waits hbuild hrun hhalted).2.2 henabled
  · obtain ⟨n, hn, -⟩ := hrefused
    rw [hwaited.cpu, hlimit] at hn
    cases hn
  · exact ⟨s₀, _, ps, hbuild, hrun, hhalted, hquiet, k, hk, u, hwait, hresumes⟩

/-- A boot program that only waits. -/
def haltingBoot : Vector UInt8 bootRomSize := bootProgram [0x76]

/-- A boot program that waits with the vertical blank enabled and requested, and nothing but the ROM
that is not there under its stack pointer: LD SP,8000, LD A,1, LDH (FF),A, LDH (0F),A, EI and
HALT. -/
def strandedBoot : Vector UInt8 bootRomSize :=
  bootProgram [0x31, 0x00, 0x80, 0x3E, 0x01, 0xE0, 0xFF, 0xE0, 0x0F, 0xFB, 0x76]

/-- The limit may refuse a step of waiting, and an interrupt that ends the wait may fail to be
served, after which no step succeeds. -/
theorem wait_may_fail :
    (∃ (s₀ s : Console) (ps : List Progress),
      build none ⟨some ⟨haltingBoot.toArray⟩, some 1, false⟩ = .ok s₀ ∧ Run s₀ ps s ∧
      s.cpu.halted = true ∧ s.cpu.fault = none ∧ Bus.pending s.bus = 0 ∧
      ¬ ∃ p t, step s = .ok p t ∧ p.cycles = 4) ∧
    ∃ (s₀ s : Console) (ps : List Progress),
      build none ⟨some ⟨strandedBoot.toArray⟩, none, false⟩ = .ok s₀ ∧ Run s₀ ps s ∧
      s.cpu.halted = true ∧ s.cpu.fault = none ∧ Byte.testBit s.bus.enabled 0 = true ∧
      ∀ n p t, step (next^[n] s) ≠ .ok p t := by
  constructor
  · let s₀ : Console := Machine.start (startCpu ⟨some ⟨haltingBoot.toArray⟩, some 1, false⟩ true)
      (Memory.start none (some haltingBoot))
    have hfacts : (next^[1] s₀).cpu.fault = none ∧ (next^[1] s₀).cpu.limit = some 1 ∧
        (next^[1] s₀).cpu.countedSteps = 1 ∧ (next^[1] s₀).cpu.halted = true ∧
        Bus.pending (next^[1] s₀).bus = 0 := by decide +kernel
    obtain ⟨hfault, hlimit, hcounted, hhalted, hquiet⟩ := hfacts
    obtain ⟨ps, hrun⟩ := exists_run_of_iterate hfault
    refine ⟨s₀, _, ps, build_boot none haltingBoot (some 1), hrun, hhalted, hfault, hquiet, ?_⟩
    rintro ⟨p, t, hstep, -⟩
    rw [step_limited hlimit hfault hcounted.ge] at hstep
    cases hstep
  · let s₀ : Console := Machine.start (startCpu ⟨some ⟨strandedBoot.toArray⟩, none, false⟩ true)
      (Memory.start none (some strandedBoot))
    have hfacts : (next^[6] s₀).cpu.fault = none ∧ (next^[6] s₀).cpu.halted = true ∧
        Byte.testBit (next^[6] s₀).bus.enabled 0 = true ∧
        (next^[7] s₀).hasStopped = true := by decide +kernel
    obtain ⟨hfault, hhalted, henabled, hstopped⟩ := hfacts
    obtain ⟨ps, hrun⟩ := exists_run_of_iterate hfault
    refine ⟨s₀, _, ps, build_boot none strandedBoot none, hrun, hhalted, hfault, henabled, ?_⟩
    intro n p t hstep
    -- A step that succeeds leaves no fault, but after the seventh there is one for good.
    have hlast : (next^[n] (next^[6] s₀)).next = next^[7] s₀ := by
      rw [← Function.iterate_succ_apply' next n, Function.iterate_succ_apply,
        ← Function.iterate_succ_apply' next 6, iterate_stopped hstopped]
    have hnone := (step_frame hstep).1
    rw [← next_of_ok hstep, hlast] at hnone
    rw [hasStopped, hnone] at hstopped
    cases hstopped

end Console

end GameBoy
