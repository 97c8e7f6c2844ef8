import GameBoy.Proofs.Steps

/-!
# Machines in lockstep

Two machines, perhaps on different buses, do the same thing side by side. A relation between them is
a *simulation* if it survives everything of which instructions and steps consist; then it survives
instructions and steps, and the two machines give the same results on the way.

The machine with a monitor and the one without, the machine with a limit and the one without, and two
machines that differ where no instruction looks are related so.

Main statements: `Simulation.execute`, `StepSimulation.step` and `Cpu.Unseen.simulation`.
-/

namespace GameBoy

variable {α δ β γ : Type}

/-! ## What instructions see of the registers -/

theorem Flags.toByte_ofByte (b : UInt8) : (ofByte b).toByte = b &&& 0xF0 := by
  have hall : ∀ n : Fin 256,
      (ofByte (.ofNat n.val)).toByte = .ofNat n.val &&& 0xF0 := by decide +kernel
  have hb := hall ⟨b.toNat, b.toNat_lt⟩
  rwa [UInt8.ofNat_toNat] at hb

/-- A low nibble that has been cleared stays clear. -/
theorem Byte.and_highNibble (b : UInt8) : b &&& 0xF0 &&& 0xF0 = b &&& 0xF0 := by
  rw [UInt8.and_assoc]
  rfl

namespace Registers

/-- The registers with a zero in the low nibble of F. -/
def masked (r : Registers) : Registers := { r with f := r.f &&& 0xF0 }

variable (r : Registers) (flags : Flags) (w : UInt16) (fetched loaded : UInt16)

theorem masked_eq : r.masked = r.setFlags r.flags := by
  rw [masked, setFlags, Registers.flags, Flags.toByte_ofByte]

@[simp] theorem flags_setFlags : (r.setFlags flags).flags = flags := Flags.ofByte_toByte flags

@[simp] theorem flags_masked : r.masked.flags = r.flags := by rw [masked_eq, flags_setFlags]

@[simp] theorem setFlags_masked : r.masked.setFlags flags = r.setFlags flags := rfl

@[simp] theorem masked_setFlags : (r.setFlags flags).masked = r.setFlags flags := by
  rw [masked_eq, flags_setFlags]
  rfl

@[simp] theorem masked_masked : r.masked.masked = r.masked := by
  rw [masked_eq r, masked_setFlags]

@[simp] theorem byte_masked (reg : Reg8) : r.masked.byte reg = r.byte reg := by
  cases reg <;> rfl

@[simp] theorem word_masked (reg : Reg16) : r.masked.word reg = r.word reg := by
  cases reg with
  | af => simp only [word, af, masked, Byte.and_highNibble]
  | _ => rfl

theorem setByte_masked (reg : Reg8) (v : UInt8) :
    r.masked.setByte reg v = (r.setByte reg v).masked := by
  cases reg <;> rfl

theorem setWord_masked (reg : Reg16) : r.masked.setWord reg w = (r.setWord reg w).masked := by
  cases reg with
  | af => simp only [setWord, setAF, masked, Byte.and_highNibble]
  | _ => rfl

end Registers

namespace Place

variable (r : Registers) (fetched loaded : UInt16) (v : UInt8) (place : Place)

theorem load_masked : place.load r.masked fetched = place.load r fetched := by
  cases place with
  | reg reg => rfl
  | mem address => cases address <;> rfl

theorem value_masked : place.value r.masked loaded = place.value r loaded := by
  cases place with
  | reg reg => exact r.byte_masked reg
  | mem address => rfl

theorem store_masked : place.store r.masked fetched v = place.store r fetched v := by
  cases place with
  | reg reg => rfl
  | mem address => cases address <;> rfl

theorem keep_masked : place.keep v r.masked = (place.keep v r).masked := by
  cases place with
  | reg reg => exact r.setByte_masked reg v
  | mem address => cases address <;> rfl

theorem step_masked : place.step r.masked = (place.step r).masked := by
  cases place with
  | reg reg => rfl
  | mem address => cases address <;> rfl

end Place

namespace Source

variable (r : Registers) (fetched loaded : UInt16) (source : Source)

theorem load_masked : source.load r.masked fetched = source.load r fetched := by
  cases source with
  | place p => exact p.load_masked r fetched
  | immediate => rfl

theorem value_masked : source.value r.masked fetched loaded = source.value r fetched loaded := by
  cases source with
  | place p => exact p.value_masked r loaded
  | immediate => rfl

theorem step_masked : source.step r.masked = (source.step r).masked := by
  cases source with
  | place p => exact p.step_masked r
  | immediate => rfl

end Source

namespace Action

variable (action : Action) (r : Registers) (fetched loaded : UInt16)

theorem load_masked : action.phases.load r.masked fetched = action.phases.load r fetched := by
  cases action with
  | operation op =>
    cases op with
    | load _ source | alu _ source => exact source.load_masked r fetched
    | inc target | dec target => exact target.load_masked r 0
    | ret condition =>
      simp only [phases, Operation.phases, Operation.load?, Registers.flags_masked]
      rfl
    | _ => rfl
  | bits op => exact op.target.load_masked r 0
  | extend | illegal => rfl

theorem store_masked :
    action.phases.store r.masked fetched loaded = action.phases.store r fetched loaded := by
  cases action with
  | operation op =>
    cases op with
    | load target source =>
      change target.store _ _ (source.value _ _ _) = _
      rw [source.value_masked, target.store_masked]
      rfl
    | inc target | dec target =>
      simp only [phases, Operation.phases, Operation.store?, Place.store_masked,
        Place.value_masked, Registers.flags_masked]
    | push reg =>
      simp only [phases, Operation.phases, Operation.store?, Registers.word_masked]
    | call condition =>
      simp only [phases, Operation.phases, Operation.store?, Registers.flags_masked]
      rfl
    | _ => rfl
  | bits op =>
    cases op <;>
      simp only [phases, BitOperation.phases, BitOperation.store?, Place.store_masked,
        Place.value_masked, Registers.flags_masked]
  | extend | illegal => rfl

end Action

namespace Operation

theorem settle_masked (op : Operation) (fetched loaded : UInt16) (r : Registers) :
    op.settle fetched loaded r.masked = (op.settle fetched loaded r).masked := by
  cases op with
  | load target source =>
    simp only [settle, Source.value_masked, Source.step_masked, Place.keep_masked]
  | loadWord reg => exact r.setWord_masked fetched reg
  | pop reg => exact ({ r with sp := r.sp + 2 } : Registers).setWord_masked loaded reg
  | alu op source =>
    simp only [settle, Source.value_masked, Source.step_masked, Registers.flags_masked,
      Registers.masked_setFlags]
    rfl
  | inc target | dec target =>
    simp only [settle, Place.value_masked, Place.keep_masked, Registers.flags_masked,
      Registers.setFlags_masked, Registers.masked_setFlags]
  | incWord reg | decWord reg => simp only [settle, Registers.word_masked, r.setWord_masked]
  | addHL reg =>
    simp only [settle, Registers.word_masked, Registers.flags_masked, Registers.masked_setFlags]
    rfl
  | addSP | rotate _ _ | daa | cpl | scf | ccf =>
    simp only [settle, Registers.flags_masked, Registers.masked_setFlags]
    rfl
  | jr condition | jp condition | call condition | ret condition =>
    simp only [settle, Registers.flags_masked]
    split <;> rfl
  | loadHL =>
    simp only [settle]
    rw [← Registers.masked_setFlags]
    rfl
  | _ => rfl

end Operation

theorem BitOperation.settle_masked (op : BitOperation) (loaded : UInt16) (r : Registers) :
    op.settle loaded r.masked = (op.settle loaded r).masked := by
  cases op <;>
    simp only [settle, Place.value_masked, Place.keep_masked, Registers.flags_masked,
      Registers.setFlags_masked, Registers.masked_setFlags]

/-- The processor with a zero in the low nibble of F. -/
def Cpu.masked (cpu : Cpu) : Cpu := { cpu with regs := cpu.regs.masked }

theorem Operation.control_masked (op : Operation) (cpu : Cpu) :
    op.control cpu.masked = (op.control cpu).masked := by
  cases op with
  | ei =>
    change (if cpu.ime then _ else _ : Cpu) = (if cpu.ime then _ else _ : Cpu).masked
    split <;> rfl
  | _ => rfl

theorem Action.commit_masked (action : Action) (fetched loaded : UInt16) (cpu : Cpu) :
    action.phases.commit fetched loaded cpu.masked =
      (action.phases.commit fetched loaded cpu).masked := by
  cases action with
  | operation op =>
    have hregs : ({ cpu.masked with regs := op.settle fetched loaded cpu.masked.regs } : Cpu) =
        ({ cpu with regs := op.settle fetched loaded cpu.regs } : Cpu).masked := by
      simp only [Cpu.masked, op.settle_masked]
    exact (congrArg op.control hregs).trans (op.control_masked _)
  | bits op =>
    change ({ cpu.masked with regs := op.settle loaded cpu.regs.masked } : Cpu) = _
    rw [op.settle_masked]
    rfl
  | extend | illegal => rfl

/-! ## Relations between machines -/

namespace Exec

/-- Two outcomes with the same result, or the same fault, on machines that are related. -/
inductive SameOutcome (R : Machine β → Machine γ → Prop) :
    EStateM.Result Fault (Machine β) α → EStateM.Result Fault (Machine γ) α → Prop where
  | ok {s : Machine β} {t : Machine γ} (a : α) : R s t → SameOutcome R (.ok a s) (.ok a t)
  | error {s : Machine β} {t : Machine γ} (e : Fault) :
      R s t → SameOutcome R (.error e s) (.error e t)

/-- Two executions on related machines have the same outcome. -/
def Lockstep (R : Machine β → Machine γ → Prop) (x : Exec β α) (y : Exec γ α) : Prop :=
  ∀ s t, R s t → SameOutcome R (x s) (y t)

section

variable {R : Machine β → Machine γ → Prop} {x : Exec β α} {y : Exec γ α}
  {f : α → Exec β δ} {g : α → Exec γ δ}

theorem lockstep_pure (a : α) : Lockstep R (pure a) (pure a) := fun _ _ h => .ok a h

theorem lockstep_throw (e : Fault) : Lockstep (α := α) R (throw e) (throw e) :=
  fun _ _ h => .error e h

theorem lockstep_bind (hx : Lockstep R x y) (hf : ∀ a, Lockstep R (f a) (g a)) :
    Lockstep R (x >>= f) (y >>= g) := by
  intro s t h
  rw [bind_apply, bind_apply]
  have hfirst := hx s t h
  generalize x s = first, y t = first' at hfirst
  cases hfirst with
  | ok a h => exact hf a _ _ h
  | error e h => exact .error e h

end

end Exec

/-- What steps do to the processor between the accesses of which they consist. -/
inductive Cpu.Change : (Cpu → Cpu) → Prop where
  | skip (n : UInt16) : Change (·.skip n)
  | drop : Change (·.drop 1)
  | commit (action : Action) (fetched loaded : UInt16) :
      Change (action.phases.commit fetched loaded)
  | wake : Change ({ · with halted := false })
  | disable : Change ({ · with ime := false })
  | land (i : Interrupt) :
      Change fun cpu => { cpu with regs := { cpu.regs with pc := i.vector } }
  | enter (i : Instruction) : Change ({ · with current := some i })
  | idle : Change fun cpu => { cpu with idleSteps := cpu.idleSteps + 1 }
  | count : Change fun cpu => { cpu with instructions := cpu.instructions + 1 }
  | advance : Change (·.advanceEnable)

theorem Cpu.Change.masked {f : Cpu → Cpu} (hf : Change f) (cpu : Cpu) :
    f cpu.masked = (f cpu).masked := by
  cases hf with
  | commit action fetched loaded => exact action.commit_masked fetched loaded cpu
  | advance =>
    change cpu.masked.advanceEnable = cpu.advanceEnable.masked
    rw [advanceEnable_eq, advanceEnable_eq]
    rfl
  | _ => rfl

theorem Action.commit_observer (action : Action) (fetched loaded : UInt16) (cpu : Cpu)
    (limit : Option Nat) (hook : Option Hook) :
    action.phases.commit fetched loaded { cpu with limit, hook } =
      { action.phases.commit fetched loaded cpu with limit, hook } := by
  cases action with
  | operation op =>
    cases op with
    | ei =>
      change (if cpu.ime then _ else _ : Cpu) =
        { (if cpu.ime then _ else _ : Cpu) with limit, hook }
      split <;> rfl
    | _ => rfl
  | _ => rfl

/-- What belongs to the observer plays no part in what steps do to the processor. -/
theorem Cpu.Change.observer {f : Cpu → Cpu} (hf : Change f) (cpu : Cpu) (limit : Option Nat)
    (hook : Option Hook) : f { cpu with limit, hook } = { f cpu with limit, hook } := by
  cases hf with
  | commit action fetched loaded => exact action.commit_observer fetched loaded cpu limit hook
  | advance =>
    change Cpu.advanceEnable _ = { cpu.advanceEnable with limit, hook }
    rw [advanceEnable_eq, advanceEnable_eq]
  | _ => rfl

theorem Cpu.Change.observer_eq {f : Cpu → Cpu} (hf : Change f) (cpu : Cpu) :
    (f cpu).limit = cpu.limit ∧ (f cpu).hook = cpu.hook := by
  have hsame : f cpu = { f cpu with limit := cpu.limit, hook := cpu.hook } :=
    hf.observer cpu cpu.limit cpu.hook
  rw [hsame]
  exact ⟨rfl, rfl⟩

/-- Related machines have the same registers, apart from the low nibble of F, and stay related by
whatever instructions do to the processor and by single accesses. -/
structure Simulation [Bus β] [Bus γ] (R : Machine β → Machine γ → Prop) : Prop where
  regs {s : Machine β} {t : Machine γ} : R s t → t.cpu.regs.masked = s.cpu.regs.masked
  change {f : Cpu → Cpu} (hf : Cpu.Change f) : Exec.Lockstep R (Exec.modifyCpu f) (Exec.modifyCpu f)
  read (address : UInt16) (fault : BusError → Fault) :
    Exec.Lockstep R (Exec.access (Bus.read address) fault) (Exec.access (Bus.read address) fault)
  write (address : UInt16) (v : UInt8) :
    Exec.Lockstep R (Exec.write address v) (Exec.write address v)

namespace Simulation

open Exec (Lockstep lockstep_pure lockstep_throw lockstep_bind)

variable [Bus β] [Bus γ] {R : Machine β → Machine γ → Prop} (hR : Simulation R)

include hR

theorem getRegs {f : Registers → Exec β α} {g : Registers → Exec γ α}
    (hf : ∀ r r' : Registers, r'.masked = r.masked → Lockstep R (f r) (g r')) :
    Lockstep R (Exec.getRegs >>= f) (Exec.getRegs >>= g) :=
  fun s t h => hf s.cpu.regs t.cpu.regs (hR.regs h) s t h

theorem getFlags {f : Flags → Exec β α} {g : Flags → Exec γ α}
    (hf : ∀ flags, Lockstep R (f flags) (g flags)) :
    Lockstep R (Exec.getFlags >>= f) (Exec.getFlags >>= g) := by
  refine hR.getRegs (f := (f ·.flags)) (g := (g ·.flags)) fun r r' h => ?_
  have hflags : r'.flags = r.flags := by rw [← r'.flags_masked, h, r.flags_masked]
  rw [hflags]
  exact hf r.flags

/-- Fetch a byte, whichever fault it is if that fails. -/
theorem fetch (fault : BusError → Fault) :
    Lockstep R
      (do let v ← Exec.access (Bus.read (← Exec.getRegs).pc) fault; Exec.skip 1; return v)
      (do let v ← Exec.access (Bus.read (← Exec.getRegs).pc) fault; Exec.skip 1; return v) := by
  refine hR.getRegs fun r r' h => ?_
  have hpc : r'.pc = r.pc := congrArg (·.pc) h
  rw [hpc]
  exact lockstep_bind (hR.read _ _) fun _ =>
    lockstep_bind (hR.change (.skip 1)) fun _ => lockstep_pure _

theorem fetchOpcode : Lockstep R Exec.fetchOpcode Exec.fetchOpcode := hR.fetch _

theorem fetchByte : Lockstep R Exec.fetchByte Exec.fetchByte := hR.fetch _

theorem readSpan (address : UInt16) (n : Nat) (fault : BusError → Fault) :
    Lockstep R (Exec.access (Bus.readSpan address n) fault)
      (Exec.access (Bus.readSpan address n) fault) := by
  match n with
  | 0 => exact lockstep_pure 0
  | 1 =>
    simp only [Bus.readSpan, Exec.access_bind, Exec.access_pure]
    exact lockstep_bind (hR.read _ _) fun _ => lockstep_pure _
  | _ + 2 =>
    simp only [Bus.readSpan, Bus.readWord, Exec.access_bind, Exec.access_pure]
    exact lockstep_bind (hR.read _ _) fun _ =>
      lockstep_bind (hR.read _ _) fun _ => lockstep_pure _

theorem fetchImmediate (n : Nat) : Lockstep R (Exec.fetchImmediate n) (Exec.fetchImmediate n) := by
  refine hR.getRegs fun r r' h => ?_
  have hpc : r'.pc = r.pc := congrArg (·.pc) h
  rw [hpc]
  exact lockstep_bind (hR.readSpan _ _ _) fun _ =>
    lockstep_bind (hR.change (.skip _)) fun _ => lockstep_pure _

theorem push (w : UInt16) : Lockstep R (Exec.push w) (Exec.push w) := by
  have hbyte (v : UInt8) : Lockstep R (Exec.pushByte v) (Exec.pushByte v) := by
    refine lockstep_bind (hR.change .drop) fun _ => hR.getRegs fun r r' h => ?_
    have hsp : r'.sp = r.sp := congrArg (·.sp) h
    rw [hsp]
    exact hR.write _ _
  exact lockstep_bind (hbyte _) fun _ => hbyte _

theorem run (action : Action) : Lockstep R action.phases.run action.phases.run := by
  have hstore (store : Store) : Lockstep R store.perform store.perform := by
    cases store with
    | none => exact lockstep_pure ()
    | byte a v => exact hR.write a v
    | word a w => exact lockstep_bind (hR.write _ _) fun _ => hR.write _ _
    | push w => exact hR.push w
  refine lockstep_bind (hR.fetchImmediate _) fun fetched => hR.getRegs fun r r' h => ?_
  -- What is loaded and stored does not depend on the low nibble of F.
  have hload : action.phases.load r' fetched = action.phases.load r fetched := by
    rw [← action.load_masked, h, action.load_masked]
  rw [hload]
  refine lockstep_bind (hR.readSpan _ _ _) fun loaded => ?_
  have hstored : action.phases.store r' fetched loaded = action.phases.store r fetched loaded := by
    rw [← action.store_masked, h, action.store_masked]
  rw [hstored]
  exact lockstep_bind (hstore _) fun _ => hR.change (.commit action _ _)

/-- Related machines execute an instruction in lockstep. -/
theorem execute (i : Instruction) : Lockstep R i.execute i.execute := by
  have hproper (action : Action) (h : action.isProper) (opcode : UInt8) :
      Lockstep R (action.execute opcode) (action.execute opcode) := by
    rw [Action.execute_eq h, Action.execute_eq h]
    exact hR.getFlags fun _ => lockstep_bind (hR.run action) fun _ => lockstep_pure _
  by_cases hi : i.prefixed ∨ i.opcode ≠ Opcode.extend
  · rcases i.isProper hi with hi | hillegal
    · exact hproper i.action hi i.opcode
    · unfold Instruction.execute
      rw [hillegal]
      refine hR.getRegs fun r r' h => ?_
      have hpc : r'.pc = r.pc := congrArg (·.pc) h
      rw [hpc]
      exact lockstep_throw _
  · obtain ⟨opcode, isPrefixed⟩ := i
    obtain ⟨rfl, rfl⟩ : isPrefixed = false ∧ opcode = Opcode.extend := by simpa using hi
    have hextend : Action.ofOpcode Opcode.extend = .extend := by decide
    simp only [Instruction.execute, Instruction.action, hextend, Bool.false_eq_true, if_false]
    exact lockstep_bind hR.fetchByte fun opcode =>
      hproper (.bits (.ofOpcode opcode)) (BitOperation.isField_target opcode) opcode

theorem decode : Lockstep R Exec.decode Exec.decode := by
  refine lockstep_bind hR.fetchOpcode fun opcode => ?_
  by_cases hextend : opcode = Opcode.extend
  · simp only [if_pos hextend]
    exact lockstep_bind hR.fetchOpcode fun _ => lockstep_pure _
  · simp only [if_neg hextend]
    exact lockstep_pure _

end Simulation

/-! ## Steps -/

/-- Related machines also stay related by what ends a step that serves no interrupt. -/
structure CalmSimulation [Bus β] [Bus γ] (R : Machine β → Machine γ → Prop) : Prop
    extends Simulation R where
  finish (cycles : Nat) : Exec.Lockstep R (Exec.finish cycles) (Exec.finish cycles)
  fireHook (pc : UInt16) (i : Instruction) :
    Exec.Lockstep R (Exec.fireHook pc i) (Exec.fireHook pc i)

/-- Related machines also agree on what decides between the cases of a step, and stay related when
an interrupt is served. -/
structure StepSimulation [Bus β] [Bus γ] (R : Machine β → Machine γ → Prop) : Prop
    extends CalmSimulation R where
  ime {s : Machine β} {t : Machine γ} : R s t → t.cpu.ime = s.cpu.ime
  halted {s : Machine β} {t : Machine γ} : R s t → t.cpu.halted = s.cpu.halted
  pending {s : Machine β} {t : Machine γ} : R s t → Bus.pending t.bus = Bus.pending s.bus
  acknowledge (line : Fin 8) : Exec.Lockstep R (Exec.acknowledge line) (Exec.acknowledge line)
  note (i : Interrupt) (pc sp : UInt16) :
    Exec.Lockstep R (Exec.note (i.notice pc sp)) (Exec.note (i.notice pc sp))

namespace CalmSimulation

open Exec (Lockstep lockstep_pure lockstep_bind)

variable [Bus β] [Bus γ] {R : Machine β → Machine γ → Prop} (hR : CalmSimulation R)

include hR

theorem wait : Lockstep R Exec.wait Exec.wait :=
  lockstep_bind (hR.change .idle) fun _ => lockstep_bind (hR.finish _) fun _ => lockstep_pure _

theorem executeNext : Lockstep R Exec.executeNext Exec.executeNext := by
  refine hR.getRegs fun r r' h => ?_
  have hpc : r'.pc = r.pc := congrArg (·.pc) h
  rw [hpc]
  exact lockstep_bind hR.decode fun i => lockstep_bind (hR.change (.enter i)) fun _ =>
    lockstep_bind (hR.execute i) fun _ => lockstep_bind (hR.change .count) fun _ =>
      lockstep_bind (hR.finish _) fun _ => lockstep_bind (hR.change .advance) fun _ =>
        lockstep_bind (hR.fireHook _ _) fun _ => lockstep_pure _

end CalmSimulation

namespace StepSimulation

open Exec (Lockstep SameOutcome lockstep_pure lockstep_bind)

variable [Bus β] [Bus γ] {R : Machine β → Machine γ → Prop} (hR : StepSimulation R)

include hR

theorem serve (i : Interrupt) : Lockstep R (Exec.serve i) (Exec.serve i) := by
  refine hR.getRegs fun r r' h => ?_
  have hpc : r'.pc = r.pc := congrArg (·.pc) h
  rw [hpc]
  refine lockstep_bind (hR.change .disable) fun _ => lockstep_bind (hR.acknowledge _) fun _ =>
    lockstep_bind (hR.push _) fun _ => lockstep_bind (hR.change (.land i)) fun _ =>
      hR.getRegs fun r r' h => ?_
  have hsp : r'.sp = r.sp := congrArg (·.sp) h
  rw [hsp]
  exact hR.note i _ _

/-- What looks at the processor only to decide between the cases of a step. -/
theorem getCpu {f : Cpu → Exec β α} {g : Cpu → Exec γ α}
    (hf : ∀ cpu cpu' : Cpu, cpu'.ime = cpu.ime → cpu'.halted = cpu.halted →
      Lockstep R (f cpu) (g cpu')) :
    Lockstep R (Exec.getCpu >>= f) (Exec.getCpu >>= g) :=
  fun s t h => hf s.cpu t.cpu (hR.ime h) (hR.halted h) s t h

theorem serveInterrupt : Lockstep R Exec.serveInterrupt Exec.serveInterrupt := by
  have hpending : Lockstep R Exec.pending Exec.pending := by
    intro s t h
    simp only [Exec.pending, hR.pending h]
    exact .ok _ h
  refine lockstep_bind hpending fun lines => ?_
  cases Interrupt.first? lines with
  | none => exact lockstep_pure none
  | some i =>
    refine lockstep_bind (hR.change .wake) fun _ => hR.getCpu fun cpu cpu' hime _ => ?_
    rw [hime]
    cases cpu.ime with
    | true => exact lockstep_bind (hR.serve i) fun _ => lockstep_pure _
    | false => exact lockstep_pure none

/-- Related machines that may go on attempt a step in lockstep. -/
theorem attempt {s : Machine β} {t : Machine γ} (h : R s t) (hs : s.cpu.exhausted = false)
    (ht : t.cpu.exhausted = false) : SameOutcome R (Exec.attempt s) (Exec.attempt t) := by
  simp only [Exec.attempt, Exec.bind_apply Exec.checkLimit, Exec.checkLimit_apply, hs, ht,
    Bool.false_eq_true, if_false]
  refine lockstep_bind hR.serveInterrupt (fun served => ?_) s t h
  cases served with
  | some i => exact lockstep_bind (hR.finish _) fun _ => lockstep_pure _
  | none =>
    refine hR.getCpu fun cpu cpu' _ hhalted => ?_
    rw [hhalted]
    cases cpu.halted with
    | true => exact hR.wait
    | false => exact hR.executeNext

end StepSimulation

section

variable [Bus β] [Bus γ] {R : Machine β → Machine γ → Prop} {s : Machine β} {t : Machine γ}

namespace Exec

/-- A step is an attempt, unless the machine has already stopped. -/
theorem SameOutcome.step (hattempt : SameOutcome R (attempt s) (attempt t)) (h : R s t)
    (hfault : t.cpu.fault = s.cpu.fault)
    (hstop : ∀ {s t} (e : Fault), R s t → R (s.stopWith e) (t.stopWith e)) :
    SameOutcome R (Machine.step s) (Machine.step t) := by
  simp only [Machine.step, hfault]
  cases s.cpu.fault with
  | some fault => exact .error fault h
  | none =>
    simp only
    generalize attempt s = outcome, attempt t = outcome' at hattempt
    cases hattempt with
    | ok p h => exact .ok p h
    | error e h => exact .error e (hstop e h)

theorem SameOutcome.next (hstep : SameOutcome R (Machine.step s) (Machine.step t)) :
    R s.next t.next := by
  unfold Machine.next
  generalize Machine.step s = outcome, Machine.step t = outcome' at hstep
  cases hstep with
  | ok _ h | error _ h => exact h

end Exec

/-- Related machines step in lockstep if nothing but the same fault or the same limit stops them. -/
theorem StepSimulation.step (hR : StepSimulation R)
    (hfault : ∀ {s t}, R s t → t.cpu.fault = s.cpu.fault)
    (hlimit : ∀ {s t}, R s t → t.cpu.limit = s.cpu.limit)
    (hcounted : ∀ {s t}, R s t → t.cpu.countedSteps = s.cpu.countedSteps)
    (hstop : ∀ {s t} (e : Fault), R s t → R (s.stopWith e) (t.stopWith e)) :
    Exec.Lockstep R Machine.step Machine.step := by
  intro s t h
  have hexhausted : t.cpu.exhausted = s.cpu.exhausted := by
    simp only [Cpu.exhausted, hlimit h, hcounted h]
  have hattempt : Exec.SameOutcome R (Exec.attempt s) (Exec.attempt t) := by
    cases hs : s.cpu.exhausted with
    | false => exact hR.attempt h hs (hexhausted.trans hs)
    | true =>
      rw [Machine.attempt_exhausted hs, Machine.attempt_exhausted (hexhausted.trans hs), hlimit h]
      exact .error _ h
  exact hattempt.step h (hfault h) hstop

end

/-! ## What steps do not see -/

/-- The machine with a change made to its processor, also in what the hook has recorded. -/
def Machine.mapCpu (f : Cpu → Cpu) (s : Machine β) : Machine β :=
  ⟨f s.cpu, s.bus, s.journal, s.records.map fun r => { r with cpu := f r.cpu }⟩

theorem Exec.lockstep_access (f : Cpu → Cpu) (x : EStateM BusError β α) (fault : BusError → Fault) :
    Lockstep (fun s t => t = s.mapCpu f) (access x fault) (access x fault) := by
  rintro s _ rfl
  simp only [access_apply, Machine.mapCpu]
  cases x s.bus with
  | ok a b => exact .ok a rfl
  | error e b => exact .error _ rfl

/-- A change of the processor that no step sees, apart from its check of the limit. -/
structure Cpu.Unseen (f : Cpu → Cpu) : Prop where
  regs (cpu : Cpu) : (f cpu).regs.masked = cpu.regs.masked
  ime (cpu : Cpu) : (f cpu).ime = cpu.ime
  halted (cpu : Cpu) : (f cpu).halted = cpu.halted
  cycles (cpu : Cpu) : (f cpu).cycles = cpu.cycles
  hook (cpu : Cpu) : (f cpu).hook = cpu.hook
  unhooked (cpu : Cpu) : (f cpu).unhooked = f cpu.unhooked
  traceNotice (cpu : Cpu) (pc : UInt16) (i : Instruction) :
    (f cpu).traceNotice pc i = cpu.traceNotice pc i
  change {g : Cpu → Cpu} (hg : Cpu.Change g) (cpu : Cpu) : g (f cpu) = f (g cpu)
  spend (cpu : Cpu) (total : Nat) : { f cpu with cycles := total } = f { cpu with cycles := total }

namespace Cpu.Unseen

variable {f : Cpu → Cpu} (hf : Unseen f)

include hf

theorem fireHook (pc : UInt16) (i : Instruction) :
    Exec.Lockstep (fun s t : Machine β => t = s.mapCpu f) (Exec.fireHook pc i)
      (Exec.fireHook pc i) := by
  rintro s _ rfl
  have hhook : (s.mapCpu f).cpu.hook = s.cpu.hook := hf.hook s.cpu
  simp only [Exec.fireHook_apply, Machine.shown, hhook]
  cases s.cpu.hook with
  | none => exact .ok () rfl
  | some hook =>
    cases hook with
    | trace => exact .ok () (by simp only [Machine.mapCpu, hf.traceNotice])
    | record => exact .ok () (by simp only [Machine.mapCpu, Array.map_push, hf.unhooked])

/-- A machine and the same machine after such a change are in lockstep. -/
theorem simulation [Bus β] : StepSimulation (fun s t : Machine β => t = s.mapCpu f) where
  regs := by
    rintro s _ rfl
    exact hf.regs s.cpu
  change hg := by
    rintro s _ rfl
    simp only [Exec.modifyCpu_apply]
    exact .ok () (by simp only [Machine.mapCpu, hf.change hg])
  read address fault := Exec.lockstep_access f _ fault
  write address v := by
    rintro s _ rfl
    simp only [Exec.write_apply, Machine.mapCpu]
    cases Bus.write address v s.bus with
    | ok notice b => exact .ok () rfl
    | error e b => exact .error _ rfl
  finish cycles := by
    rintro s _ rfl
    rw [Exec.finish_apply, Exec.finish_apply]
    exact .ok () (by simp only [Machine.finished, Machine.mapCpu, hf.cycles, hf.spend])
  fireHook := hf.fireHook
  ime := by
    rintro s _ rfl
    exact hf.ime s.cpu
  halted := by
    rintro s _ rfl
    exact hf.halted s.cpu
  pending := by
    rintro s _ rfl
    rfl
  acknowledge line := by
    rintro s _ rfl
    exact .ok () rfl
  note i pc sp := by
    rintro s _ rfl
    exact .ok () rfl

end Cpu.Unseen

end GameBoy
