import GameBoy.Proofs.FlatMemory
import GameBoy.Proofs.Requests

/-!
# An interrupt whose routine only returns

Serving an interrupt pushes the program counter, and RETI pops it. If the routine consists of a RETI
alone, the two steps leave the processor as it was, apart from its counters: what remains of the
interrupt is the withdrawn request and the two bytes under the stack pointer. The stack may lie at
the end of the address space, where these two bytes are at its top.

Main statement: `Machine.bare_handler`.
-/

namespace GameBoy

/-! ## RETI -/

namespace Instruction

/-- Return from the routine of an interrupt, and enable interrupts. -/
def reti : Instruction := ⟨0xD9, false⟩

/-- RETI pops the program counter and enables interrupts. -/
theorem execute_reti {β : Type} [Bus β] {s : Machine β} {w : UInt16} {b : β}
    (h : Bus.readWord s.cpu.regs.sp s.bus = .ok w b) :
    reti.execute s = .ok 16 { s with
      cpu := { s.cpu with
        regs := { s.cpu.regs with sp := s.cpu.regs.sp + 2, pc := w }
        ime := true }
      bus := b } := by
  have hperform : Operation.reti.perform s = .ok true { s with
      cpu := { s.cpu with
        regs := { s.cpu.regs with sp := s.cpu.regs.sp + 2, pc := w }
        ime := true }
      bus := b } := by
    simp only [Operation.perform, jump, Exec.bind_apply, Exec.pop_apply, h,
      Exec.modifyRegs_apply, Exec.modifyCpu_apply, Exec.pure_apply]
  change (Operation.reti.perform >>= fun taken => pure (Operation.reti.cost taken)) s = _
  rw [Exec.bind_apply, hperform]
  rfl

end Instruction

/-! ## Service and return -/

namespace Machine

variable {s : Machine FlatBus} {i : Interrupt}

/-- The machine at the start of the routine of a line. -/
def served (s : Machine FlatBus) (i : Interrupt) : Machine FlatBus where
  cpu := { s.cpu with
    regs := { s.cpu.regs with sp := s.cpu.regs.sp - 2, pc := i.vector }
    halted := false
    ime := false
    cycles := s.cpu.cycles + Interrupt.serviceCycles }
  bus := (Bus.acknowledge s.bus i.line).pushed s.cpu.regs.sp s.cpu.regs.pc
  journal := s.journal.push (i.notice s.cpu.regs.pc (s.cpu.regs.sp - 2))
  records := s.records

theorem step_served (hserves : s.Serves i) (hmapped : s.bus.IsMapped) :
    step s = .ok (.served i) (s.served i) :=
  hserves.step_ok (FlatBus.push_apply s.cpu.regs.pc (hmapped.acknowledge i.line))

/-- At the start of a routine that is a RETI alone, a step returns from it. -/
theorem step_reti (hserves : s.Serves i) (hmapped : s.bus.IsMapped)
    (hreti : (s.served i).bus.byte i.vector = Instruction.reti.opcode) :
    ∃ t, step (s.served i) = .ok (.executed .reti 16) t ∧
      t.cpu.regs = s.cpu.regs ∧ t.cpu.ime = true ∧ t.cpu.halted = false ∧
      t.cpu.instructions = s.cpu.instructions + 1 ∧ t.cpu.idleSteps = s.cpu.idleSteps ∧
      t.cpu.cycles = s.cpu.cycles + 36 ∧ t.bus = (s.served i).bus := by
  have hmapped' := hmapped.acknowledge i.line
  have hread (a : UInt16) : Bus.read a (s.served i).bus = .ok ((s.served i).bus.byte a)
      (s.served i).bus := (hmapped'.pushed s.cpu.regs.sp s.cpu.regs.pc).read a
  have hdecoded : Bus.instructionAt i.vector (s.served i).bus = .ok .reti (s.served i).bus := by
    rw [Bus.instructionAt, Exec.bind_apply, hread, hreti]
    rfl
  have hpopped : Bus.readWord (s.cpu.regs.sp - 2) (s.served i).bus =
      .ok s.cpu.regs.pc (s.served i).bus :=
    FlatBus.readWord_pushed s.cpu.regs.sp s.cpu.regs.pc hmapped'
  -- Interrupts are disabled now, so other lines that are pending have to wait.
  have hcalm : (s.served i).cpu.interrupted (Bus.pending (s.served i).bus) = false := by
    simp [Cpu.interrupted, served]
  have hwake : (s.served i).cpu.wake (Bus.pending (s.served i).bus) = (s.served i).cpu :=
    Cpu.wake_awake rfl
  have hawake : ((s.served i).cpu.wake (Bus.pending (s.served i).bus)).halted = false := by
    rw [hwake]
    rfl
  have hperformed := Instruction.execute_reti (s := (s.served i).entered .reti (s.served i).bus)
    (by rw [entered, hwake]; exact hpopped)
  have hsp : s.cpu.regs.sp - 2 + 2 = s.cpu.regs.sp := by grind
  refine ⟨_, step_eq_ok.2 ⟨hserves.running, hserves.allowed,
    .executed _ _ _ _ hcalm hawake hdecoded hperformed⟩, ?_⟩
  simp only [cpu_shown, bus_shown, cpu_counted, Cpu.advanceEnable_eq, entered, hwake]
  refine ⟨?_, rfl, rfl, rfl, rfl, ?_, rfl⟩
  · change ({ s.cpu.regs with sp := s.cpu.regs.sp - 2 + 2 } : Registers) = s.cpu.regs
    rw [hsp]
  · change s.cpu.cycles + 20 + 16 = s.cpu.cycles + 36
    rw [Nat.add_assoc]

/-- If the routine of the interrupt that comes next is a RETI alone, and serving the interrupt does
not overwrite it, two steps serve the interrupt and return from it. They take 20 and 16 cycles. What
they change is the request, the two bytes under the stack pointer, and the counters. -/
theorem bare_handler (hfault : s.cpu.fault = none) (hlimit : s.cpu.exhausted = false)
    (hime : s.cpu.ime = true) (hmapped : s.bus.IsMapped)
    (hset : Byte.testBit (s.bus.enabled &&& s.bus.requested) i.line = true)
    (hlowest : ∀ j : Interrupt,
      Byte.testBit (s.bus.enabled &&& s.bus.requested) j.line = true → i.line ≤ j.line)
    (hreti : s.bus.byte (0x40 + 8 * i.line.val.toUInt16) = 0xD9)
    (hhigh : s.cpu.regs.sp - 1 ≠ 0x40 + 8 * i.line.val.toUInt16)
    (hlow : s.cpu.regs.sp - 2 ≠ 0x40 + 8 * i.line.val.toUInt16) :
    ∃ t u, step s = .ok (.served i) t ∧ (Progress.served i).cycles = 20 ∧
      step t = .ok (.executed .reti 16) u ∧ (Progress.executed .reti 16).cycles = 16 ∧
      u.cpu.regs = s.cpu.regs ∧ u.cpu.ime = true ∧ u.cpu.halted = false ∧
      u.cpu.fault = none ∧ u.cpu.limit = s.cpu.limit ∧
      u.cpu.instructions = s.cpu.instructions + 1 ∧ u.cpu.idleSteps = s.cpu.idleSteps ∧
      u.cpu.cycles = s.cpu.cycles + 36 ∧
      u.bus.requested = Byte.clearBit s.bus.requested i.line ∧
      u.bus.enabled = s.bus.enabled ∧ u.bus.IsMapped ∧
      ∀ a, u.bus.byte a =
        if a = s.cpu.regs.sp - 1 then Word.high s.cpu.regs.pc
        else if a = s.cpu.regs.sp - 2 then Word.low s.cpu.regs.pc
        else s.bus.byte a := by
  have hserves : s.Serves i :=
    ⟨hfault, hlimit, hime, Interrupt.first?_of_lowest hset hlowest⟩
  have hstep := step_served hserves hmapped
  have hbyte (a : UInt16) : (s.served i).bus.byte a =
      if a = s.cpu.regs.sp - 1 then Word.high s.cpu.regs.pc
      else if a = s.cpu.regs.sp - 2 then Word.low s.cpu.regs.pc
      else s.bus.byte a := FlatBus.byte_pushed a s.cpu.regs.sp s.cpu.regs.pc
  have hkept : (s.served i).bus.byte i.vector = Instruction.reti.opcode := by
    have hhigh' : i.vector ≠ s.cpu.regs.sp - 1 := Ne.symm hhigh
    have hlow' : i.vector ≠ s.cpu.regs.sp - 2 := Ne.symm hlow
    rw [hbyte, if_neg hhigh', if_neg hlow']
    exact hreti
  obtain ⟨u, hreturn, hregs, hime', hhalted, hinstructions, hidle, hcycles, hbus⟩ :=
    step_reti hserves hmapped hkept
  obtain ⟨hfault', hlimit', -⟩ := step_frame hreturn
  rw [← hbus] at hbyte
  refine ⟨_, u, hstep, rfl, hreturn, rfl, hregs, hime', hhalted, hfault', hlimit',
    hinstructions, hidle, hcycles, ?_, ?_, ?_, hbyte⟩
  · rw [hbus]
    rfl
  · rw [hbus]
    rfl
  · rw [hbus]
    exact (hmapped.acknowledge i.line).pushed _ _

/-- The stack pointer is 1, so the return address lies at both ends of the address space. The timer
goes before the joypad, whose request stays. -/
theorem bare_handler_wraps : ∃ s t u : Machine FlatBus,
    s.cpu.regs.sp = 1 ∧ s.cpu.regs.pc = 0x1234 ∧ s.bus.requested = 0x14 ∧
    step s = .ok (.served .timer) t ∧ step t = .ok (.executed .reti 16) u ∧
    u.cpu.regs = s.cpu.regs ∧ u.bus.requested = 0x10 ∧
    u.bus.byte 0 = 0x12 ∧ u.bus.byte 0xFFFF = 0x34 := by
  obtain ⟨s, hsp, hpc, hrequested, hfault, hlimit, hime, hmapped, hpending, hreti⟩ :
      ∃ s : Machine FlatBus, s.cpu.regs.sp = 1 ∧ s.cpu.regs.pc = 0x1234 ∧
        s.bus.requested = 0x14 ∧ s.cpu.fault = none ∧ s.cpu.exhausted = false ∧
        s.cpu.ime = true ∧ s.bus.IsMapped ∧ s.bus.enabled &&& s.bus.requested = 0x14 ∧
        s.bus.byte 0x50 = 0xD9 :=
    ⟨start { Cpu.powerOn with
        regs := { Registers.powerOn with sp := 1, pc := 0x1234 }
        ime := true }
      ⟨(Vector.replicate 0x10000 0).set 0x50 0xD9, fun _ => true, fun _ => true, 0x1F, 0x14⟩,
      rfl, rfl, rfl, rfl, rfl, rfl, ⟨fun _ => rfl, fun _ => rfl⟩, rfl, rfl⟩
  have hlowest (j : Interrupt) (hj : Byte.testBit 0x14 j.line = true) :
      Interrupt.timer.line ≤ j.line := by
    cases j <;> revert hj <;> decide
  obtain ⟨t, u, hserved, -, hreturned, -, hregs, -, -, -, -, -, -, -, hrequested', -, -, hbyte⟩ :=
    bare_handler (i := .timer) hfault hlimit hime hmapped (by rw [hpending]; decide)
      (by rw [hpending]; exact hlowest) hreti (by rw [hsp]; decide) (by rw [hsp]; decide)
  rw [hrequested] at hrequested'
  rw [hsp, hpc] at hbyte
  exact ⟨s, t, u, hsp, hpc, hrequested, hserved, hreturned, hregs, hrequested', hbyte 0,
    hbyte 0xFFFF⟩

end Machine

end GameBoy
