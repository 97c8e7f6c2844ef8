import GameBoy.Bus.Program
import GameBoy.Proofs.Lockstep
import GameBoy.Proofs.Watch

/-!
# The low nibble of F

The flags are in the high nibble of F. Nothing that is done to a processor leaves anything in the low
nibble, and if something has been put there, no execution sees it.

Both follow from one fact: a machine whose low nibble has been cleared does what the machine itself
does, up to that nibble. Main statements: `Machine.low_nibble_zero` and `Machine.indistinct_steps`.
-/

namespace GameBoy

variable {α β : Type}

/-! ## What reports see of F -/

namespace Cpu

theorem masked_of_regs {cpu : Cpu} (h : cpu.regs.masked = cpu.regs) : cpu.masked = cpu := by
  rw [masked, h]

theorem masked_powerOn : powerOn.masked = powerOn := masked_of_regs (by decide)

theorem masked_booted : booted.masked = booted := masked_of_regs (by decide)

variable (cpu : Cpu)

theorem masked_resetPowerOn : cpu.resetPowerOn.masked = cpu.resetPowerOn :=
  masked_of_regs (congrArg regs masked_powerOn)

theorem masked_reset : cpu.reset.masked = cpu.reset :=
  masked_of_regs (congrArg regs masked_booted)

theorem flags_masked : cpu.masked.flags = cpu.flags := cpu.regs.flags_masked

theorem summary_masked : cpu.masked.summary = cpu.summary := by
  simp only [summary, flags_masked]
  rfl

theorem traceNotice_masked (pc : UInt16) (i : Instruction) :
    cpu.masked.traceNotice pc i = cpu.traceNotice pc i := by
  simp only [traceNotice, summary_masked]

theorem faultNotice_masked (fault : Fault) : cpu.masked.faultNotice fault = cpu.faultNotice fault := by
  simp only [faultNotice, summary_masked]
  rfl

/-- No step sees the low nibble. -/
theorem unseen_masked : Unseen masked where
  regs cpu := cpu.regs.masked_masked
  ime _ := rfl
  halted _ := rfl
  cycles _ := rfl
  hook _ := rfl
  unhooked _ := rfl
  traceNotice := traceNotice_masked
  change hg cpu := hg.masked cpu
  spend _ _ := rfl

end Cpu

/-! ## Machines with a cleared nibble -/

namespace Machine

/-- The machine with a zero in the low nibble of F, also in what the hook has recorded. -/
def masked (s : Machine β) : Machine β := s.mapCpu Cpu.masked

/-- An execution does the same whether the low nibble has been cleared or not. -/
abbrev Masks (x : Exec β α) : Prop := Exec.Lockstep (fun s t => t = s.masked) x x

theorem masked_simulation [Bus β] : StepSimulation (fun s t : Machine β => t = s.masked) :=
  Cpu.unseen_masked.simulation

theorem masked_stopWith (s : Machine β) (fault : Fault) :
    s.masked.stopWith fault = (s.stopWith fault).masked := by
  simp only [stopWith, masked, mapCpu, Cpu.faultNotice_masked]
  rfl

variable [Bus β] {s t : Machine β}

theorem masks_execute (i : Instruction) : Masks (β := β) i.execute := masked_simulation.execute i

theorem masks_step : Masks (β := β) step := by
  refine masked_simulation.step ?_ ?_ ?_ ?_
  · rintro s _ rfl
    rfl
  · rintro s _ rfl
    rfl
  · rintro s _ rfl
    rfl
  · rintro s _ fault rfl
    exact s.masked_stopWith fault

end Machine

/-! ## Nothing is left in the low nibble -/

namespace Registers

/-- Store the flags from a byte. Its low nibble may be anything; that of F becomes zero. -/
def storeFlags (r : Registers) (bits : UInt8) : Registers := { r with f := bits &&& 0xF0 }

variable (r : Registers) (bits : UInt8)

/-- What instructions do to the flags is to store them from their byte. -/
theorem setFlags_eq_storeFlags (flags : Flags) : r.setFlags flags = r.storeFlags flags.toByte := by
  have hbyte : flags.toByte &&& 0xF0 = flags.toByte := by
    rw [← Flags.toByte_ofByte, Flags.ofByte_toByte]
  rw [setFlags, storeFlags, hbyte]

theorem storeFlags_masked : r.masked.storeFlags bits = (r.storeFlags bits).masked := by
  simp only [storeFlags, masked, Byte.and_highNibble]

end Registers

/-- What is done to a processor by itself: its registers are stored, or it is reset. Flags are given
as a byte, of which only the high nibble stands for flags. -/
inductive Cpu.Act where
  | setAF (w : UInt16)
  | setWord (reg : Reg16) (w : UInt16)
  | setFlag (bits : UInt8) (value : Bool)
  | setFlags (bits : UInt8)
  | reset
  | resetPowerOn

def Cpu.perform (cpu : Cpu) : Cpu.Act → Cpu
  | .setAF w => { cpu with regs := cpu.regs.setAF w }
  | .setWord reg w => { cpu with regs := cpu.regs.setWord reg w }
  | .setFlag bits value =>
    let flags := cpu.regs.f &&& 0xF0
    { cpu with regs := cpu.regs.storeFlags (if value then flags ||| bits else flags &&& ~~~bits) }
  | .setFlags bits => { cpu with regs := cpu.regs.storeFlags bits }
  | .reset => cpu.reset
  | .resetPowerOn => cpu.resetPowerOn

theorem Cpu.perform_masked (cpu : Cpu) (act : Cpu.Act) :
    cpu.masked.perform act = (cpu.perform act).masked := by
  cases act with
  | setAF w => exact congrArg (fun regs => { cpu with regs }) (cpu.regs.setWord_masked w .af)
  | setWord reg w => exact congrArg (fun regs => { cpu with regs }) (cpu.regs.setWord_masked w reg)
  | setFlag bits value =>
    have hflags : cpu.masked.regs.f &&& 0xF0 = cpu.regs.f &&& 0xF0 := Byte.and_highNibble _
    simp only [perform, hflags]
    exact congrArg (fun regs => { cpu with regs }) (cpu.regs.storeFlags_masked _)
  | setFlags bits =>
    exact congrArg (fun regs => { cpu with regs }) (cpu.regs.storeFlags_masked bits)
  | reset => exact cpu.masked_reset.symm
  | resetPowerOn => exact cpu.masked_resetPowerOn.symm

namespace Machine

/-- What is done to a processor on a bus: it makes a step, executes an instruction without a step, or
something is done to it by itself. -/
inductive Act where
  | step
  | execute (i : Instruction)
  | change (act : Cpu.Act)

variable [Bus β] {s t : Machine β}

/-- The machine after an execution, successful or not. -/
def afterExec (x : Exec β α) (s : Machine β) : Machine β :=
  match x s with
  | .ok _ t | .error _ t => t

def perform (s : Machine β) : Act → Machine β
  | .step => afterExec Machine.step s
  | .execute i => afterExec i.execute s
  | .change act => { s with cpu := s.cpu.perform act }

omit [Bus β] in
/-- Machines that an execution on each leaves related are related after it. -/
theorem afterExec_related {γ : Type} {R : Machine β → Machine γ → Prop} {x : Exec β α}
    {y : Exec γ α} {t : Machine γ} (h : Exec.SameOutcome R (x s) (y t)) :
    R (afterExec x s) (afterExec y t) := by
  unfold Machine.afterExec
  generalize x s = outcome, y t = outcome' at h
  cases h with
  | ok _ h | error _ h => exact h

omit [Bus β] in
theorem Masks.afterExec {x : Exec β α} (hx : Masks x) (s : Machine β) :
    afterExec x s.masked = (afterExec x s).masked := afterExec_related (hx s _ rfl)

theorem perform_masked (s : Machine β) (act : Act) :
    s.masked.perform act = (s.perform act).masked := by
  cases act with
  | step => exact masks_step.afterExec s
  | execute i => exact (masks_execute i).afterExec s
  | change act =>
    simp only [perform, masked, mapCpu, Cpu.perform_masked]

omit [Bus β] in
theorem nibble_of_masked (h : s.masked = s) : s.cpu.regs.f &&& 0x0F = 0 := by
  have hf : s.cpu.regs.f &&& 0xF0 = s.cpu.regs.f := congrArg (·.cpu.regs.f) h
  calc s.cpu.regs.f &&& 0x0F
    _ = s.cpu.regs.f &&& 0xF0 &&& 0x0F := by rw [hf]
    _ = s.cpu.regs.f &&& (0xF0 &&& 0x0F) := UInt8.and_assoc ..
    _ = 0 := UInt8.and_zero

/-- Whatever is done to a new processor, on any bus, the low nibble of F is zero afterwards. -/
theorem low_nibble_zero (boot : Bool) (bus : β) (acts : List Act) :
    (acts.foldl perform (start (if boot then .powerOn else .booted) bus)).cpu.regs.f &&& 0x0F =
      0 := by
  have hacts {s : Machine β} (hs : s.masked = s) :
      (acts.foldl perform s).masked = acts.foldl perform s := by
    induction acts generalizing s with
    | nil => exact hs
    | cons act acts ih => exact ih (by rw [← perform_masked, hs])
  refine nibble_of_masked (hacts ?_)
  have hcpu : (if boot then Cpu.powerOn else .booted).masked = if boot then .powerOn else .booted := by
    cases boot
    · exact Cpu.masked_booted
    · exact Cpu.masked_powerOn
  simp only [start, masked, mapCpu, hcpu]
  exact congrArg (Machine.mk _ bus _) Array.map_empty

/-! ## Nothing sees the low nibble -/

/-- Two machines differ at most in the low nibble of F, in the processor and in what the hook has
recorded of it. -/
def Indistinct (s t : Machine β) : Prop := t.masked = s.masked

/-- A step of one of two such machines is a step of the other. -/
theorem lockstep_indistinct : Exec.Lockstep (Indistinct (β := β)) step step := by
  intro s t h
  have hs := masks_step s _ rfl
  have ht := masks_step t _ rfl
  rw [h] at ht
  generalize step s = outcome, step t = outcome', step s.masked = masked at hs ht
  cases hs with
  | ok p hs =>
    cases ht with
    | ok _ ht => exact .ok p (ht.symm.trans hs)
  | error e hs =>
    cases ht with
    | error _ ht => exact .error e (ht.symm.trans hs)

theorem Indistinct.iterate (h : Indistinct s t) (n : Nat) :
    Indistinct (next^[n] s) (next^[n] t) := by
  induction n with
  | zero => exact h
  | succ n ih =>
    rw [Function.iterate_succ_apply', Function.iterate_succ_apply']
    exact (lockstep_indistinct _ _ ih).next

/-- Two machines that differ at most in the low nibble of F make the same steps for ever: the same
progress in the same cycles, or the same fault, and the same on the bus, whose traffic is the same
for a monitor. What they then differ in is again at most the low nibble. -/
theorem indistinct_steps (h : Indistinct s t) (n : Nat) :
    Exec.SameOutcome Indistinct (step (next^[n] s)) (step (next^[n] t)) ∧
    (next^[n] t).cpu.masked = (next^[n] s).cpu.masked ∧
    (next^[n] t).bus = (next^[n] s).bus ∧
    (next^[n] t).journal = (next^[n] s).journal ∧
    ∀ traffic, ∃ traffic', next^[n] (s.watch traffic) = (next^[n] s).watch traffic' ∧
      next^[n] (t.watch traffic) = (next^[n] t).watch traffic' := by
  have hs : (next^[n] t).masked = (next^[n] s).masked := h.iterate n
  refine ⟨lockstep_indistinct _ _ hs, (congrArg cpu hs :), (congrArg bus hs :),
    (congrArg journal hs :), ?_⟩
  intro traffic
  have hwatched : Indistinct (s.watch traffic) (t.watch traffic) :=
    (congrArg (watch · traffic) h :)
  obtain ⟨traffic', hs'⟩ := s.iterate_watch n traffic
  obtain ⟨traffic'', ht'⟩ := t.iterate_watch n traffic
  have hsame := congrArg (·.bus.traffic) (hwatched.iterate n)
  rw [hs', ht'] at hsame
  obtain rfl : traffic'' = traffic' := hsame
  exact ⟨traffic'', hs', ht'⟩

/-- PUSH AF stores the same word from two registers F that differ in the low nibble. -/
theorem indistinct_push : ∃ s t : Machine ProgramBus,
    s.cpu.regs.f = 0xB0 ∧ t.cpu.regs.f = 0xBF ∧ Indistinct s t ∧
    Exec.SameOutcome Indistinct (step s) (step t) ∧ (next^[1] t).bus = (next^[1] s).bus ∧
    (next^[1] s).bus.bytes = #[0xF5, 0xB0, 0x01] := by
  let cpu : Cpu := { Cpu.booted with regs := { Registers.booted with sp := 3, pc := 0 } }
  let cpu' : Cpu := { cpu with regs := { cpu.regs with f := 0xBF } }
  let program : ProgramBus := ⟨#[0xF5, 0x00, 0x00]⟩
  have h : Indistinct (start cpu program) (start cpu' program) := by
    have hcpu : cpu'.masked = cpu.masked := by
      have hregs : cpu'.regs.masked = cpu.regs.masked := by decide
      simp only [Cpu.masked, hregs]
      rfl
    simp only [Indistinct, start, masked, mapCpu, hcpu]
  obtain ⟨houtcome, -, -, -⟩ := indistinct_steps h 0
  obtain ⟨-, -, hbus, -⟩ := indistinct_steps h 1
  exact ⟨_, _, rfl, rfl, h, houtcome, hbus, by decide⟩

end Machine

end GameBoy
