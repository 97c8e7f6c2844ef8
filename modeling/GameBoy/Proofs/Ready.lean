import GameBoy.Proofs.Cells

/-!
# Steps of a machine that is ready

A machine on flat memory is ready if nothing comes between it and the instruction at its program
counter: no hole in the memory, no fault, no limit, no wait, no interrupt, and no enable under way.
Its next step then does what the phases of the instruction say, and apart from registers and memory
only counters move.

Main statements: `Machine.IsReady.step_watched` and `Machine.IsReady.executes`.
-/

namespace GameBoy

/-- The instruction changes nothing of the processor but its registers. -/
def Instruction.IsPlain (i : Instruction) : Prop :=
  ∀ fetched loaded cpu, i.phases.commit fetched loaded cpu =
    { cpu with regs := (i.phases.commit fetched loaded cpu).regs }

namespace FlatBus

/-- The instruction at an address. -/
def instruction (bus : FlatBus) (a : UInt16) : Instruction :=
  if bus.byte a = Opcode.extend then ⟨bus.byte (a + 1), true⟩ else ⟨bus.byte a, false⟩

/-- The events of decoding it. -/
def opcodeTraffic (bus : FlatBus) (a : UInt16) : Array Traffic :=
  bus.spanTraffic a (bus.instruction a).opcodeLength

theorem IsMapped.instructionAt_watched {bus : FlatBus} (h : bus.IsMapped) (a : UInt16)
    (traffic : Array Traffic) :
    Bus.instructionAt a (⟨bus, traffic⟩ : Monitored FlatBus) =
      .ok (bus.instruction a) ⟨bus, traffic ++ bus.opcodeTraffic a⟩ := by
  simp only [Bus.instructionAt, Exec.bind_apply, h.read_watched, opcodeTraffic, instruction]
  by_cases hextend : bus.byte a = Opcode.extend
  · simp only [if_pos hextend, Exec.bind_apply, h.read_watched]
    rfl
  · simp only [if_neg hextend]
    rfl

end FlatBus

namespace Machine

variable {s : Machine FlatBus} {i : Instruction}

/-! ## Readiness -/

/-- Nothing comes between the machine and the instruction at its program counter. -/
structure IsReady (s : Machine FlatBus) : Prop where
  running : s.cpu.fault = none
  allowed : s.cpu.exhausted = false
  awake : s.cpu.halted = false
  calm : s.cpu.interrupted (Bus.pending s.bus) = false
  notRequested : s.cpu.enablePending = false
  notArmed : s.cpu.enableArmed = false
  mapped : s.bus.IsMapped

/-- A machine with the given contents of registers and memory. -/
def ofContents (regs : Registers) (bytes : UInt16 → UInt8) : Machine FlatBus :=
  start { Cpu.powerOn with regs }
    ⟨Vector.ofFn fun n => bytes n.val.toUInt16, fun _ => true, fun _ => true, 0, 0⟩

@[simp] theorem byte_ofContents (regs : Registers) (bytes : UInt16 → UInt8) (a : UInt16) :
    (ofContents regs bytes).bus.byte a = bytes a := by
  have hbyte : (ofContents regs bytes).bus.byte a = bytes a.toNat.toUInt16 :=
    Vector.getElem_ofFn a.toNat_lt
  rw [hbyte]
  exact congrArg bytes UInt16.ofNat_toNat

/-- Whatever registers and memory hold, there is a machine that is ready. -/
theorem isReady_ofContents (regs : Registers) (bytes : UInt16 → UInt8) :
    (ofContents regs bytes).IsReady :=
  ⟨rfl, rfl, rfl, Bool.and_false _, rfl, rfl, ⟨fun _ => rfl, fun _ => rfl⟩⟩

/-- In one step the machine executes an instruction at a cost of so many cycles, and becomes `t`.
Apart from registers and memory only counters move; what belongs to the observer is left to the
hook. -/
structure Executes (s : Machine FlatBus) (i : Instruction) (cost : Nat) (t : Machine FlatBus) :
    Prop where
  step : Machine.step s = .ok (.executed i cost) t
  cpu : t.cpu = { s.cpu with
    regs := t.cpu.regs
    cycles := s.cpu.cycles + cost
    instructions := s.cpu.instructions + 1
    current := some i }
  bus : t.bus = { s.bus with memory := t.bus.memory }
  observed : s.cpu.hook = none → t.journal = s.journal ∧ t.records = s.records

/-- The machine after its opcode has been fetched. -/
def decoded (s : Machine FlatBus) (i : Instruction) : Machine FlatBus :=
  { s with cpu := s.cpu.enter i }

theorem cell_decoded (s : Machine FlatBus) (i : Instruction) (c : Cell) :
    (s.decoded i).cell c = s.cell c := by
  cases c with
  | reg r => exact s.cpu.byte_skip _ r
  | mem a => rfl

/-- The machine after it has executed an instruction in a step. -/
def executed (s : Machine FlatBus) (i : Instruction) : Machine FlatBus :=
  ((i.phases.result (s.decoded i)).counted (i.cost (i.branches s.cpu.flags))).shown s.cpu.regs.pc i

theorem counted_watch (s : Machine FlatBus) (cost : Nat) (traffic : Array Traffic) :
    (s.watch traffic).counted cost =
      (s.counted cost).watch (traffic.push (.ended (s.counted cost).cpu.cycles)) := by
  have hcycles : (s.counted cost).cpu.cycles = s.cpu.cycles + cost := by
    rw [cpu_counted, Cpu.advanceEnable_eq]
  rw [hcycles]
  rfl

/-- A step of a machine that is ready, and what passes over the bus in it. -/
theorem IsReady.step_watched (h : s.IsReady) (hi : s.bus.instruction s.cpu.regs.pc = i)
    (hproper : i.action.isProper) (traffic : Array Traffic) :
    step (s.watch traffic) = .ok (.executed i (i.cost (i.branches s.cpu.flags)))
      ((s.executed i).watch ((traffic ++ s.bus.opcodeTraffic s.cpu.regs.pc ++
        i.phases.traffic (s.decoded i)).push (.ended (s.executed i).cpu.cycles))) := by
  let seen := traffic ++ s.bus.opcodeTraffic s.cpu.regs.pc
  have hwake : (s.watch traffic).cpu.wake (Bus.pending (s.watch traffic).bus) = s.cpu :=
    Cpu.wake_awake h.awake
  have hdecoded : Bus.instructionAt s.cpu.regs.pc (s.watch traffic).bus = .ok i ⟨s.bus, seen⟩ := by
    rw [← hi]
    exact h.mapped.instructionAt_watched s.cpu.regs.pc traffic
  have hentered : (s.watch traffic).entered i ⟨s.bus, seen⟩ = (s.decoded i).watch seen := by
    simp only [entered, hwake]
    rfl
  have hperformed := Instruction.execute_watched (s := s.decoded i) h.mapped hproper seen
  rw [← hentered] at hperformed
  -- The machine is awake and no interrupt is served, so the step can only be this execution.
  have hstepped : Stepped (s.watch traffic) _ _ :=
    .executed i _ _ _ h.calm (by rw [hwake]; exact h.awake) hdecoded hperformed
  have hcycles : (s.executed i).cpu.cycles = ((i.phases.result (s.decoded i)).counted
      (i.cost (i.branches s.cpu.flags))).cpu.cycles := by
    rw [executed, cpu_shown]
  rw [counted_watch, shown_watch] at hstepped
  rw [hcycles]
  exact step_eq_ok.2 ⟨h.running, h.allowed, hstepped⟩

theorem step_of_watched {p : Progress} {t : Machine FlatBus} {traffic traffic' : Array Traffic}
    (h : step (s.watch traffic) = .ok p (t.watch traffic')) : step s = .ok p t := by
  have hending : Exec.Ending (β := FlatBus) step step := by
    intro s traffic
    obtain ⟨seen, hseen, hstep⟩ := s.step_watch traffic
    refine ⟨seen, hseen, ?_⟩
    rw [hstep]
    cases step s with
    | ok p t => simp
    | error e t => rfl
  exact hending.ok h

/-! ## What changes -/

theorem regs_executed (s : Machine FlatBus) (i : Instruction) :
    (s.executed i).cpu.regs = (i.phases.result (s.decoded i)).cpu.regs := by
  rw [executed, cpu_shown, cpu_counted, Cpu.advanceEnable_eq]

theorem bus_executed (s : Machine FlatBus) (i : Instruction) :
    (s.executed i).bus = (i.phases.result (s.decoded i)).bus := by
  rw [executed, bus_shown]
  rfl

theorem cell_executed (s : Machine FlatBus) (i : Instruction) (c : Cell) :
    (s.executed i).cell c = (i.phases.result (s.decoded i)).cell c := by
  cases c with
  | reg r => exact congrArg (·.byte r) (regs_executed s i)
  | mem a => exact congrArg (·.byte a) (bus_executed s i)

theorem cpu_result (hplain : i.IsPlain) (s : Machine FlatBus) :
    (i.phases.result (s.decoded i)).cpu = { s.cpu with
      regs := (i.phases.result (s.decoded i)).cpu.regs
      current := some i } := hplain _ _ _

theorem IsReady.cpu_executed (h : s.IsReady) (hplain : i.IsPlain) :
    (s.executed i).cpu = { s.cpu with
      regs := (s.executed i).cpu.regs
      cycles := s.cpu.cycles + i.cost (i.branches s.cpu.flags)
      instructions := s.cpu.instructions + 1
      current := some i } := by
  rw [regs_executed, executed, cpu_shown, cpu_counted, Cpu.advanceEnable_eq, cpu_result hplain]
  simp only [h.notArmed, h.notRequested, Bool.or_false, Bool.and_false]

theorem hook_result (s : Machine FlatBus) (i : Instruction) :
    (i.phases.result (s.decoded i)).cpu.hook = s.cpu.hook := by
  let d := s.decoded i
  obtain ⟨_, _, _, _, _, hcommit⟩ := i.action.commit_frame (i.phases.fetched d) (i.phases.loaded d)
    ((i.phases.arrived d).drop (i.phases.storing d).pushed)
  have hkept := congrArg (fun cpu : Cpu => cpu.hook) hcommit
  exact hkept

theorem observed_executed (hhook : s.cpu.hook = none) :
    (s.executed i).journal = s.journal ∧ (s.executed i).records = s.records := by
  have hhook' : ((i.phases.result (s.decoded i)).counted
      (i.cost (i.branches s.cpu.flags))).cpu.hook = none := by
    rw [cpu_counted, Cpu.advanceEnable_eq]
    exact (hook_result s i).trans hhook
  simp only [executed, shown, hhook']
  exact ⟨rfl, rfl⟩

/-- A plain instruction changes registers and memory, and the counters move. -/
theorem IsReady.executes (h : s.IsReady) (hi : s.bus.instruction s.cpu.regs.pc = i)
    (hproper : i.action.isProper) (hplain : i.IsPlain) :
    s.Executes i (i.cost (i.branches s.cpu.flags)) (s.executed i) where
  step := step_of_watched (h.step_watched hi hproper #[])
  cpu := h.cpu_executed hplain
  bus := by
    rw [bus_executed]
    exact FlatBus.put_frame _ _
  observed := observed_executed

/-! ## The first page -/

theorem instruction_operation {bus : FlatBus} {a : UInt16} {op : Operation}
    (h : Action.ofOpcode (bus.byte a) = .operation op) :
    bus.instruction a = ⟨bus.byte a, false⟩ := by
  have haction : Action.ofOpcode Opcode.extend = .extend := by decide
  refine if_neg fun hextend => ?_
  rw [hextend, haction] at h
  cases h

theorem pc_decoded {op : Operation} (h : i.action = .operation op) :
    (s.decoded i).cpu.regs.pc = s.cpu.regs.pc + 1 := by
  change s.cpu.regs.pc + i.opcodeLength.toUInt16 = _
  rw [Instruction.opcodeLength_operation h]
  rfl

/-- A step that executes an operation of the first page which only computes. -/
theorem IsReady.executes_action {op : Operation} (h : s.IsReady)
    (hi : s.bus.instruction s.cpu.regs.pc = i) (hop : i.action = .operation op)
    (hproper : op.isProper) (hcontrol : ∀ cpu, op.control cpu = cpu) :
    ∃ t, s.Executes i (op.cost (op.branches s.cpu.flags)) t ∧
      t.cpu.regs = (op.phases.result (s.decoded i)).cpu.regs ∧
      t.bus = (op.phases.result (s.decoded i)).bus := by
  have hphases : i.phases = op.phases := by rw [Instruction.phases, hop]; rfl
  have hcost : i.cost (i.branches s.cpu.flags) = op.cost (op.branches s.cpu.flags) := by
    rw [Instruction.cost, Instruction.branches, hop]
    rfl
  have hplain : i.IsPlain := by
    intro fetched loaded cpu
    rw [hphases]
    change op.control _ = { cpu with regs := (op.control _).regs }
    rw [hcontrol]
  have hexecutes := h.executes hi (by rw [hop]; exact hproper) hplain
  rw [hcost] at hexecutes
  refine ⟨s.executed i, hexecutes, ?_, ?_⟩
  · rw [regs_executed, hphases]
  · rw [bus_executed, hphases]

theorem IsReady.executes_operation {op : Operation} (h : s.IsReady)
    (hop : Action.ofOpcode (s.bus.byte s.cpu.regs.pc) = .operation op) (hproper : op.isProper)
    (hcontrol : ∀ cpu, op.control cpu = cpu) :
    let i : Instruction := ⟨s.bus.byte s.cpu.regs.pc, false⟩
    ∃ t, s.Executes i (op.cost (op.branches s.cpu.flags)) t ∧
      t.cpu.regs = (op.phases.result (s.decoded i)).cpu.regs ∧
      t.bus = (op.phases.result (s.decoded i)).bus :=
  h.executes_action (instruction_operation hop) hop hproper hcontrol

end Machine

end GameBoy
