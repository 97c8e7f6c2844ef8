import GameBoy.Proofs.InterruptEnable
import GameBoy.Proofs.Requests

/-!
# The shadow of an EI

An EI takes effect when the instruction after it ends. Until then interrupts stay disabled, so that
no interrupt comes before that instruction, its *shadow*, whatever is pending. When the shadow has
ended, interrupts are enabled, and a pending one is served before anything else is executed. Only a
DI in the shadow takes the request back; from then on interrupts stay disabled until another EI, or
a RETI.

Main statement: `Machine.enable_shadow`.
-/

namespace GameBoy

/-- Interrupts are disabled, and no request to enable them is on its way. -/
structure Cpu.Disabled (cpu : Cpu) : Prop where
  ime : cpu.ime = false
  pending : cpu.enablePending = false
  armed : cpu.enableArmed = false

/-- Interrupts are disabled until the instruction that comes next ends. -/
structure Cpu.Shadowed (cpu : Cpu) : Prop where
  ime : cpu.ime = false
  pending : cpu.enablePending = false
  armed : cpu.enableArmed = true

namespace Progress

variable {p : Progress} {before after : Cpu}

/-- Whether a step executed one of the two instructions that enable interrupts. -/
def enables (p : Progress) : Bool := p.executes .ei || p.executes .reti

theorem not_enables {i : Instruction} {cost : Nat} (h : (executed i cost).enables = false) :
    i.action ≠ .operation .ei ∧ i.action ≠ .operation .reti := by
  simpa [enables, executes] using h

/-- Without EI and RETI nothing enables a processor that is disabled. -/
theorem Enables.disabled (h : p.Enables before after) (hbefore : before.Disabled)
    (hp : p.enables = false) : after.Disabled := by
  obtain ⟨hime, hpending, harmed⟩ := hbefore
  cases p with
  | served i =>
    have himpossible : before.ime = true := h.1
    rw [hime] at himpossible
    cases himpossible
  | idle =>
    obtain ⟨-, hime', hpending', harmed'⟩ := h
    exact ⟨hime'.trans hime, hpending'.trans hpending, harmed'.trans harmed⟩
  | executed i cost =>
    have henable : i.action.enable false false false = (false, false, false) := by
      unfold Action.enable
      split <;> simp_all [not_enables hp]
    simp only [Enables, hime, hpending, harmed, henable] at h
    exact ⟨h.1, h.2.1, h.2.2.1⟩

/-- An EI puts the instruction after it in its shadow, and does not wait. -/
theorem Enables.shadowed (h : p.Enables before after) (hbefore : before.Disabled)
    (hp : p.executes .ei = true) : after.Shadowed ∧ after.halted = false := by
  obtain ⟨hime, hpending, harmed⟩ := hbefore
  cases p with
  | served i => cases hp
  | idle => cases hp
  | executed i cost =>
    have haction : i.action = .operation .ei := by simpa [executes] using hp
    obtain ⟨hime', hpending', harmed', hawake⟩ := h
    rw [haction, hime, hpending, harmed] at hime' hpending' harmed'
    exact ⟨⟨hime', hpending', harmed'⟩, hawake haction⟩

/-- Any instruction but DI ends its shadow with interrupts enabled. -/
theorem Enables.enabled {i : Instruction} {cost : Nat}
    (h : (executed i cost).Enables before after) (hbefore : before.Shadowed)
    (hdi : i.action ≠ .operation .di) : after.ime = true := by
  have hraises := i.action.enable_raises before.enablePending before.enableArmed
  rw [← hbefore.ime] at hraises
  exact h.1.trans (hraises.2 (.inr ⟨hdi, hbefore.armed⟩))

/-- A DI takes back what is on its way. -/
theorem Enables.cancelled {i : Instruction} {cost : Nat}
    (h : (executed i cost).Enables before after) (hdi : i.action = .operation .di) :
    after.Disabled := by
  simp only [Enables, hdi, Action.enable] at h
  exact ⟨h.1, h.2.1, h.2.2.1⟩

end Progress

/-- An EI neither reads nor writes anything. -/
theorem Operation.run_ei {β : Type} [Bus β] (s : Machine β) :
    ei.phases.run s = .ok () { s with cpu := { s.cpu with
      enablePending := s.cpu.enablePending || !s.cpu.ime } } := by
  change EStateM.Result.ok () { s with cpu := ei.control (s.cpu.skip 0) } = _
  rw [Cpu.skip_zero]
  obtain ⟨⟨_, ime, _, _, _, _, _, _, _, _, _, _⟩, _, _, _⟩ := s
  cases ime <;> simp [control]

namespace Machine

variable {β : Type} [Bus β] {s t u : Machine β} {p : Progress} {e : Fault}

/-! ## While interrupts are disabled -/

theorem Stuck.disabled (h : Stuck s e t) (hs : s.cpu.Disabled) : t.cpu.Disabled := by
  have hcalm : s.cpu.interrupted (Bus.pending s.bus) = false := by simp [Cpu.interrupted, hs.ime]
  obtain ⟨_, _, _, hcpu⟩ := h.frame hcalm
  rw [hcpu]
  exact ⟨hs.ime, hs.pending, hs.armed⟩

/-- A step that succeeds neither in EI nor in RETI, or that fails, leaves interrupts disabled. -/
theorem next_disabled (hs : s.cpu.Disabled)
    (hquiet : ∀ p t, step s = .ok p t → p.enables = false) : s.next.cpu.Disabled := by
  cases hstep : step s with
  | ok p t =>
    rw [next_of_ok hstep]
    exact (step_enables hstep).disabled hs (hquiet p t hstep)
  | error e t =>
    rw [next_of_error hstep]
    cases hfault : s.cpu.fault with
    | some fault =>
      rw [step_stopped hfault] at hstep
      obtain ⟨-, rfl⟩ := EStateM.Result.error.inj hstep
      exact hs
    | none =>
      obtain ⟨u, hstuck, rfl⟩ := step_error hfault hstep
      obtain ⟨hime, hpending, harmed⟩ := hstuck.disabled hs
      exact ⟨hime, hpending, harmed⟩

theorem iterate_disabled (hs : s.cpu.Disabled) (n : Nat)
    (hquiet : ∀ m < n, ∀ p t, step (next^[m] s) = .ok p t → p.enables = false) :
    (next^[n] s).cpu.Disabled := by
  induction n with
  | zero => exact hs
  | succ n ih =>
    rw [Function.iterate_succ_apply']
    apply next_disabled
    · exact ih fun m hm => hquiet m (Nat.lt_succ_of_lt hm)
    · exact hquiet n n.lt_succ_self

/-! ## The shadow -/

/-- An EI is one byte long. -/
theorem pc_of_ei (hstep : step s = .ok p t) (hei : p.executes .ei = true) :
    t.cpu.regs.pc = s.cpu.regs.pc + 1 := by
  cases (step_ok hstep).2.2 with
  | served => cases hei
  | idle => cases hei
  | executed i b cost v _ _ hdecoded hperformed =>
    have haction : i.action = .operation .ei := by simpa [Progress.executes] using hei
    obtain ⟨-, -, hrun⟩ := Instruction.execute_ok (Exec.instructionAt_ok hdecoded) hperformed
    obtain ⟨halted, hentered⟩ := s.cpu_entered i b
    have hpc : (s.entered i b).cpu.regs.pc = s.cpu.regs.pc + 1 := by
      rw [hentered, Instruction.opcodeLength_operation haction]
      rfl
    rw [Instruction.phases, haction, Action.phases, Operation.run_ei] at hrun
    obtain ⟨-, rfl⟩ := EStateM.Result.ok.inj hrun
    simp only [cpu_shown, cpu_counted, Cpu.advanceEnable_eq, hpc]

/-- A processor that is awake and has interrupts disabled executes an instruction, whatever is
pending. -/
theorem step_of_deaf (hfault : s.cpu.fault = none) (hlimit : s.cpu.exhausted = false)
    (hime : s.cpu.ime = false) (hawake : s.cpu.halted = false) :
    step s = match Exec.executeNext s with
      | .ok p t => .ok p t
      | .error e t => .error e (t.stopWith e) := by
  have hcalm : s.cpu.interrupted (Bus.pending s.bus) = false := by simp [Cpu.interrupted, hime]
  have hwoken : s.woken = s := by rw [woken, Cpu.wake_awake hawake]
  have hattempt : Exec.attempt s = Exec.executeNext s := by
    rw [attempt_calm hlimit hcalm, hwoken, hawake]
    rfl
  cases hexecuted : Exec.executeNext s <;> simp only [step, hfault, hattempt, hexecuted]

/-- The next step serves an interrupt: it withdraws the request, pushes the program counter and
continues at the line's address, or fails to push. -/
def Dispatches (s : Machine β) (i : Interrupt) : Prop :=
  match Exec.push s.cpu.regs.pc (s.accepted i) with
  | .ok _ t => step s =
      .ok (.served i) ((t.landed i s.cpu.regs.pc).finished Interrupt.serviceCycles)
  | .error e t => step s = .error e (t.stopWith e)

theorem Serves.dispatches {i : Interrupt} (h : s.Serves i) : s.Dispatches i := by
  unfold Dispatches
  cases hpush : Exec.push s.cpu.regs.pc (s.accepted i) with
  | ok _ t => exact h.step_ok hpush
  | error e t => exact h.step_error hpush

/-- If anything is pending, a processor that has interrupts enabled serves the first line that
is. -/
theorem exists_dispatches (hfault : s.cpu.fault = none) (hlimit : s.cpu.exhausted = false)
    (hime : s.cpu.ime = true) (hpending : Bus.pending s.bus &&& 0x1F ≠ 0) :
    ∃ line : Interrupt, Byte.testBit (Bus.pending s.bus) line.line = true ∧
      (∀ j : Interrupt, Byte.testBit (Bus.pending s.bus) j.line = true → line.line ≤ j.line) ∧
      s.Dispatches line := by
  have hsome : Interrupt.first? (Bus.pending s.bus) ≠ none := by
    intro hnone
    exact hpending (Interrupt.first?_eq_none.1 hnone)
  obtain ⟨line, hline⟩ := Option.ne_none_iff_exists'.1 hsome
  obtain ⟨hset, hlowest⟩ := Interrupt.first?_lowest hline
  have hserves : s.Serves line := ⟨hfault, hlimit, hime, hline⟩
  exact ⟨line, hset, hlowest, hserves.dispatches⟩

/-- The step after an EI executes the instruction that follows it, even if an interrupt is pending.
Unless that instruction is DI it ends with interrupts enabled, and a pending interrupt is served by
the step after it. After a DI, interrupts stay disabled over any number of steps none of which
executes EI or RETI. -/
theorem enable_shadow (hdisabled : s.cpu.Disabled) (hstep : step s = .ok p t)
    (hei : p.executes .ei = true) (hlimit : t.cpu.exhausted = false) :
    t.cpu.regs.pc = s.cpu.regs.pc + 1 ∧
    (step t = match Exec.executeNext t with
      | .ok q u => .ok q u
      | .error e u => .error e (u.stopWith e)) ∧
    ∀ q u, step t = .ok q u →
      ∃ i cost b, q = .executed i cost ∧ Bus.instructionAt t.cpu.regs.pc t.bus = .ok i b ∧
        (i.action ≠ .operation .di →
          u.cpu.ime = true ∧
          (u.cpu.exhausted = false → Bus.pending u.bus &&& 0x1F ≠ 0 →
            ∃ line : Interrupt, Byte.testBit (Bus.pending u.bus) line.line = true ∧
              (∀ j : Interrupt,
                Byte.testBit (Bus.pending u.bus) j.line = true → line.line ≤ j.line) ∧
              u.Dispatches line)) ∧
        (i.action = .operation .di → ∀ n,
          (∀ m < n, ∀ r v, step (next^[m] u) = .ok r v → r.enables = false) →
          (next^[n] u).cpu.ime = false) := by
  obtain ⟨hshadowed, hawake⟩ := (step_enables hstep).shadowed hdisabled hei
  have hfault : t.cpu.fault = none := (step_frame hstep).1
  refine ⟨pc_of_ei hstep hei, step_of_deaf hfault hlimit hshadowed.ime hawake, ?_⟩
  intro q u hnext
  have henables := step_enables hnext
  cases (step_ok hnext).2.2 with
  | served j v _ enabled _ =>
    rw [hshadowed.ime] at enabled
    cases enabled
  | idle _ halted =>
    rw [hawake] at halted
    cases halted
  | executed i b cost v _ _ hdecoded _ =>
    refine ⟨i, cost, b, rfl, hdecoded, ?_, ?_⟩
    · intro hdi
      have hime := henables.enabled hshadowed hdi
      exact ⟨hime, fun hlimit' hpending =>
        exists_dispatches (step_frame hnext).1 hlimit' hime hpending⟩
    · intro hdi n hquiet
      exact (iterate_disabled (henables.cancelled hdi) n hquiet).ime

/-- With VBlank pending throughout: a HALT in the shadow of an EI is executed, and ended by the
interrupt; after an EI and a DI the interrupt waits. -/
theorem enable_shadow_halt_di :
    (∃ s t u v : Machine FlatBus, s.cpu.Disabled ∧ step s = .ok (.executed ⟨0xFB, false⟩ 4) t ∧
      step t = .ok (.executed ⟨0x76, false⟩ 4) u ∧ u.cpu.halted = true ∧ u.cpu.ime = true ∧
      step u = .ok (.served .vblank) v) ∧
    ∃ s t u v : Machine FlatBus, s.cpu.Disabled ∧ step s = .ok (.executed ⟨0xFB, false⟩ 4) t ∧
      step t = .ok (.executed ⟨0xF3, false⟩ 4) u ∧ Bus.pending u.bus = 1 ∧
      step u = .ok (.executed ⟨0x00, false⟩ 4) v ∧ v.cpu.ime = false := by
  constructor
  · obtain ⟨s, t, u, w, hdisabled, hei, hlimit, hhalt, hhalted, hlimit', hpending, hpush⟩ :
        ∃ s t u w : Machine FlatBus, s.cpu.Disabled ∧
          step s = .ok (.executed ⟨0xFB, false⟩ 4) t ∧ t.cpu.exhausted = false ∧
          step t = .ok (.executed ⟨0x76, false⟩ 4) u ∧ u.cpu.halted = true ∧
          u.cpu.exhausted = false ∧ Bus.pending u.bus = 1 ∧
          Exec.push u.cpu.regs.pc (u.accepted .vblank) = .ok () w :=
      ⟨start .powerOn ⟨((Vector.replicate 0x10000 0).set 0 0xFB).set 1 0x76, fun _ => true,
        fun _ => true, 1, 1⟩, _, _, _, ⟨rfl, rfl, rfl⟩, rfl, rfl, rfl, rfl, rfl, rfl, rfl⟩
    obtain ⟨-, -, hshadow⟩ := enable_shadow hdisabled hei (by decide) hlimit
    obtain ⟨i, cost, b, hq, -, henabled, -⟩ := hshadow _ _ hhalt
    cases hq
    obtain ⟨hime, hserved⟩ := henabled (by decide)
    obtain ⟨line, -, hlowest, hdispatches⟩ := hserved hlimit' (by rw [hpending]; decide)
    have hle := hlowest .vblank (by rw [hpending]; decide)
    have hline : line = .vblank := by
      cases line with
      | vblank => rfl
      | _ => exact absurd hle (by decide)
    rw [Dispatches, hline, hpush] at hdispatches
    exact ⟨s, t, u, _, hdisabled, hei, hhalt, hhalted, hime, hdispatches⟩
  · obtain ⟨s, t, u, v, hdisabled, hei, hlimit, hdi, hpending, hnop⟩ :
        ∃ s t u v : Machine FlatBus, s.cpu.Disabled ∧
          step s = .ok (.executed ⟨0xFB, false⟩ 4) t ∧ t.cpu.exhausted = false ∧
          step t = .ok (.executed ⟨0xF3, false⟩ 4) u ∧ Bus.pending u.bus = 1 ∧
          step u = .ok (.executed ⟨0x00, false⟩ 4) v :=
      ⟨start .powerOn ⟨((Vector.replicate 0x10000 0).set 0 0xFB).set 1 0xF3, fun _ => true,
        fun _ => true, 1, 1⟩, _, _, _, ⟨rfl, rfl, rfl⟩, rfl, rfl, rfl, rfl, rfl⟩
    obtain ⟨-, -, hshadow⟩ := enable_shadow hdisabled hei (by decide) hlimit
    obtain ⟨i, cost, b, hq, -, -, hcancelled⟩ := hshadow _ _ hdi
    cases hq
    have hime := hcancelled (by decide) 1 (by
      intro m hm r w hstep
      obtain rfl : m = 0 := by omega
      rw [Function.iterate_zero, id, hnop] at hstep
      cases hstep
      decide)
    rw [Function.iterate_one, next_of_ok hnop] at hime
    exact ⟨s, t, u, v, hdisabled, hei, hdi, hpending, hnop, hime⟩

end Machine

end GameBoy
