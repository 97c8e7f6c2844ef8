import GameBoy.Bus.Program
import GameBoy.Proofs.Watch
import Mathlib.Algebra.GroupWithZero.Nat

/-!
# What steps cost

Each successful step is entered once in the processor's books: the cycles grow by what the step
costs, the counter of its kind grows by one, and the bus is told the new total once. The cost of an
instruction depends on the flags only through its condition, as they are before the step.

Main statement: `Machine.accounting`, for a step and for any run of steps.
-/

namespace GameBoy

variable {β : Type}

/-! ## The cost of an instruction -/

/-- The costs that there are: from one to six units of four cycles. -/
def IsCost (cycles : Nat) : Prop := 4 ∣ cycles ∧ 4 ≤ cycles ∧ cycles ≤ 24

instance : DecidablePred IsCost := fun _ => inferInstanceAs (Decidable (_ ∧ _))

namespace Action

theorem isCost_ofOpcode (opcode : UInt8) (taken : Bool) :
    IsCost ((ofOpcode opcode).cost taken) := by
  revert taken
  exact forall_ofOpcode (P := fun action => ∀ taken, IsCost (action.cost taken)) (by decide)
    (by decide) (by decide) (by decide) opcode

theorem isCost_bits (opcode : UInt8) (taken : Bool) :
    IsCost ((bits (.ofOpcode opcode)).cost taken) := by
  unfold BitOperation.ofOpcode
  generalize Opcode.lower opcode = lower, Opcode.upper opcode = upper
  split
  all_goals
    revert upper lower taken
    decide

end Action

namespace Instruction

theorem isCost (i : Instruction) (taken : Bool) : IsCost (i.cost taken) := by
  simp only [cost, action]
  split
  · exact Action.isCost_bits i.opcode taken
  · exact Action.isCost_ofOpcode i.opcode taken

/-- The instruction costs more exactly if it has a condition that holds. -/
theorem cost_branches (i : Instruction) (flags : Flags) :
    (∃ condition, i.condition = some condition ∧ condition.holds flags = true ∧
      i.takenCycles = some (i.cost (i.branches flags))) ∨
    (∀ condition, i.condition = some condition → condition.holds flags = false) ∧
      i.cost (i.branches flags) = i.cycles := by
  simp only [condition, takenCycles, cost, branches, cycles]
  cases i.action with
  | operation op =>
    simp only [Action.condition, Action.takenCycles, Action.cost, Action.branches, Action.cycles,
      Operation.cost]
    cases op with
    | jr condition | jp condition | call condition | ret condition =>
      cases condition with
      | none => exact .inr ⟨by simp [Operation.condition], rfl⟩
      | some condition =>
        cases hholds : condition.holds flags with
        | true => exact .inl ⟨condition, rfl, hholds, by simp [Operation.branches, hholds]; rfl⟩
        | false =>
          refine .inr ⟨?_, by simp [Operation.branches, hholds]⟩
          intro condition' hcondition
          obtain rfl := Option.some.inj hcondition
          exact hholds
    | _ => exact .inr ⟨by simp [Operation.condition], rfl⟩
  | _ => exact .inr ⟨by simp [Action.condition], rfl⟩

end Instruction

/-! ## Steps and runs -/

/-- Whether a step served an interrupt. -/
def Progress.isServed : Progress → Bool
  | served _ => true
  | _ => false

/-- How a successful step is entered in the books, by what it did. -/
def Progress.Entered (before after : Cpu) : Progress → Prop
  | served _ =>
    after.cycles = before.cycles + 20 ∧ after.instructions = before.instructions ∧
      after.idleSteps = before.idleSteps
  | idle => after = { before with
      cycles := before.cycles + 4
      idleSteps := before.idleSteps + 1 }
  | executed i cost =>
    after.cycles = before.cycles + cost ∧ after.instructions = before.instructions + 1 ∧
      after.idleSteps = before.idleSteps ∧
      ((∃ condition, i.condition = some condition ∧ condition.holds before.flags = true ∧
        i.takenCycles = some cost) ∨
      (∀ condition, i.condition = some condition → condition.holds before.flags = false) ∧
        cost = i.cycles)

namespace Machine

variable [Bus β] {s t : Machine β} {p : Progress} {ps : List Progress}

theorem Stepped.entered (h : Stepped s p t) :
    t.cpu.cycles = s.cpu.cycles + p.cycles ∧ p.Entered s.cpu t.cpu ∧ IsCost p.cycles := by
  cases h with
  | served i u _ _ hpush =>
    obtain ⟨_, _, _, _, -, -, rfl⟩ := Exec.push_eq_ok.1 hpush
    exact ⟨rfl, ⟨rfl, rfl, rfl⟩, by simp only [Progress.cycles]; decide⟩
  | idle => exact ⟨rfl, rfl, by decide⟩
  | executed i b cost u _ _ hdecoded hperformed =>
    have hi := Exec.instructionAt_ok hdecoded
    obtain ⟨-, hcost, -⟩ := Instruction.execute_ok hi hperformed
    obtain ⟨_, _, _, _, _, hframe⟩ := Instruction.execute_frame hi hperformed
    obtain ⟨halted, hcpu⟩ := s.cpu_entered i b
    have hflags : (s.entered i b).cpu.flags = s.cpu.flags := by
      rw [hcpu]
      rfl
    rw [hflags] at hcost
    simp only [cpu_shown, cpu_counted, Cpu.advanceEnable_eq, hframe, hcpu]
    refine ⟨rfl, ⟨rfl, rfl, rfl, ?_⟩, ?_⟩
    · rw [hcost]
      exact i.cost_branches s.cpu.flags
    · rw [Progress.cycles, hcost]
      exact i.isCost _

theorem step_entered (h : step s = .ok p t) :
    t.cpu.cycles = s.cpu.cycles + p.cycles ∧ p.Entered s.cpu t.cpu ∧ IsCost p.cycles :=
  (step_ok h).2.2.entered

theorem Run.cycles (h : Run s ps t) :
    t.cpu.cycles = s.cpu.cycles + (ps.map Progress.cycles).sum := by
  induction h with
  | refl => rfl
  | snoc _ hstep ih =>
    rw [(step_entered hstep).1, ih, List.map_append, List.sum_append, Nat.add_assoc]
    rfl

theorem Run.costs (h : Run s ps t) : ∀ p ∈ ps, IsCost p.cycles := by
  induction h with
  | refl => simp
  | snoc _ hstep ih =>
    intro q hq
    rcases List.mem_append.1 hq with hq | hq
    · exact ih q hq
    · rw [List.mem_singleton.1 hq]
      exact (step_entered hstep).2.2

theorem Run.counts (h : Run s ps t) :
    t.cpu.instructions + t.cpu.idleSteps + ps.countP Progress.isServed =
      s.cpu.instructions + s.cpu.idleSteps + ps.length := by
  induction h with
  | refl => simp
  | @snoc ps t u p _ hstep ih =>
    have hentered := (step_entered hstep).2.1
    rw [List.countP_append, List.length_append]
    cases p with
    | served i =>
      obtain ⟨-, hinstructions, hidle⟩ := hentered
      have hserved : [Progress.served i].countP Progress.isServed = 1 := rfl
      simp only [List.length_singleton]
      omega
    | idle =>
      have hserved : [Progress.idle].countP Progress.isServed = 0 := rfl
      rw [hentered]
      simp only [List.length_singleton]
      omega
    | executed i cost =>
      obtain ⟨-, hinstructions, hidle, -⟩ := hentered
      have hserved : [Progress.executed i cost].countP Progress.isServed = 0 := rfl
      simp only [List.length_singleton]
      omega

/-- A successful step adds exactly what it costs to the cycles, is entered in the books as one of
three kinds, and signals its end to the bus once, with the new total. After any run the cycles are
the sum of the costs, each of which is one to six units of four, and the counters add up to the
number of steps. -/
theorem accounting :
    (∀ (s t : Machine β) (p : Progress), step s = .ok p t →
      t.cpu.cycles = s.cpu.cycles + p.cycles ∧ p.Entered s.cpu t.cpu ∧
      ∀ traffic, ∃ seen : Array Traffic, (∀ event ∈ seen, event.isEnd = false) ∧
        step (s.watch traffic) =
          .ok p (t.watch ((traffic ++ seen).push (.ended t.cpu.cycles)))) ∧
    ∀ (s t : Machine β) (ps : List Progress), Run s ps t →
      t.cpu.cycles = s.cpu.cycles + (ps.map Progress.cycles).sum ∧
      s.cpu.cycles ≤ t.cpu.cycles ∧
      (∀ p ∈ ps, 4 ∣ p.cycles ∧ 4 ≤ p.cycles ∧ p.cycles ≤ 24) ∧
      t.cpu.instructions + t.cpu.idleSteps + ps.countP Progress.isServed =
        s.cpu.instructions + s.cpu.idleSteps + ps.length := by
  constructor
  · intro s t p h
    obtain ⟨hcycles, hentered, -⟩ := step_entered h
    refine ⟨hcycles, hentered, ?_⟩
    intro traffic
    obtain ⟨seen, hseen, hstep⟩ := s.step_watch traffic
    rw [h] at hstep
    exact ⟨seen, hseen, hstep⟩
  · intro s t ps h
    have hcycles := h.cycles
    exact ⟨hcycles, by omega, h.costs, h.counts⟩

/-- A program that halts at once and then waits: two steps, eight cycles. -/
theorem accounting_halt : ∃ s t u : Machine ProgramBus,
    step s = .ok (.executed ⟨0x76, false⟩ 4) t ∧
    (Progress.executed ⟨0x76, false⟩ 4).Entered s.cpu t.cpu ∧
    Run s [.executed ⟨0x76, false⟩ 4, .idle] u ∧
    u.cpu.cycles = 8 ∧ u.cpu.instructions + u.cpu.idleSteps = 2 := by
  obtain ⟨s, t, u, hhalt, hwait, hcycles, hcounts⟩ : ∃ s t u : Machine ProgramBus,
      step s = .ok (.executed ⟨0x76, false⟩ 4) t ∧ step t = .ok .idle u ∧
      s.cpu.cycles = 0 ∧ s.cpu.instructions + s.cpu.idleSteps = 0 :=
    ⟨start .powerOn ⟨#[0x76]⟩, _, _, rfl, rfl, rfl, rfl⟩
  have hrun : Run s [.executed ⟨0x76, false⟩ 4, .idle] u := .snoc (.snoc .refl hhalt) hwait
  obtain ⟨hsum, -, -, hcount⟩ := accounting.2 s u _ hrun
  refine ⟨s, t, u, hhalt, (accounting.1 s t _ hhalt).2.1, hrun, ?_, ?_⟩
  · rw [hsum, hcycles]
    rfl
  · rw [hcounts] at hcount
    exact hcount

end Machine

end GameBoy
