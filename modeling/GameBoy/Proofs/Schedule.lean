import GameBoy.Proofs.Accounting
import GameBoy.Proofs.FirstFault
import GameBoy.Proofs.Overlay

/-!
# Calls only schedule steps

The calls that drive a machine differ in where they stop, and in nothing else. Each leaves the
machine as some number of single steps does, and that number is the least after which the call's
condition holds. A machine that has stopped is not changed by further steps. So it does not matter
into which calls a run is divided.

Main statement: `Console.schedule`.
-/

namespace GameBoy

namespace Machine

variable {β : Type} [Bus β] {s t : Machine β} {done : Machine β → Bool} {k m n fuel : Nat}
  {result : Except Fault Unit}

/-! ## Stopping at the first occasion -/

/-- A condition holds after `n` steps, and not before. -/
structure FirstAt (done : Machine β → Bool) (s : Machine β) (n : Nat) : Prop where
  holds : done (next^[n] s) = true
  before : ∀ m < n, done (next^[m] s) = false

theorem FirstAt.le (hm : FirstAt done s m) (hn : done (next^[n] s) = true) : m ≤ n := by
  by_contra hlt
  have hnot := hm.before n (Nat.lt_of_not_le hlt)
  rw [hn] at hnot
  cases hnot

theorem FirstAt.unique (hm : FirstAt done s m) (hn : FirstAt done s n) : m = n :=
  Nat.le_antisymm (hm.le hn.holds) (hn.le hm.holds)

/-- Stepping until a condition holds makes the fewest steps that do, unless it may not make that
many. -/
theorem stepUntil_iterate (done : Machine β → Bool) (fuel : Nat) (s : Machine β) :
    ∃ n ≤ fuel, stepUntil done fuel s = next^[n] s ∧ (∀ m < n, done (next^[m] s) = false) ∧
      (done (next^[n] s) = true ∨ n = fuel) := by
  induction fuel generalizing s with
  | zero => exact ⟨0, Nat.le_refl 0, rfl, by simp, .inr rfl⟩
  | succ fuel ih =>
    by_cases hdone : done s = true
    · exact ⟨0, Nat.zero_le _, stepUntil_stopped hdone _, by simp, .inl hdone⟩
    · obtain ⟨n, hn, hlast, hbefore, hend⟩ := ih s.next
      rw [stepUntil, if_neg hdone]
      refine ⟨n + 1, Nat.succ_le_succ hn, hlast, ?_, hend.imp id (congrArg (· + 1))⟩
      intro m hm
      cases m with
      | zero => exact Bool.eq_false_iff.2 hdone
      | succ m => exact hbefore m (Nat.lt_of_succ_lt_succ hm)

/-- A run until a condition holds has a result exactly if it may make enough steps. -/
theorem runUntil_eq_some : runUntil done fuel s = (some result, t) ↔
    ∃ k ≤ fuel, FirstAt (fun u => done u || u.hasStopped) s k ∧ t = next^[k] s ∧
      result = t.verdict := by
  obtain ⟨n, hn, hlast, hbefore, hend⟩ :=
    stepUntil_iterate (fun u => done u || u.hasStopped) fuel s
  rw [runUntil, hlast]
  constructor
  · intro h
    by_cases hover : (done (next^[n] s) || (next^[n] s).hasStopped) = true
    · rw [if_pos hover] at h
      obtain ⟨hresult, rfl⟩ := Prod.mk.inj h
      exact ⟨n, hn, ⟨hover, hbefore⟩, rfl, (Option.some.inj hresult).symm⟩
    · rw [if_neg hover] at h
      cases h
  · rintro ⟨k, hk, hfirst, rfl, rfl⟩
    have hkn : k = n := by
      rcases hend with hover | rfl
      · exact hfirst.unique ⟨hover, hbefore⟩
      · by_contra hne
        have hnot := hbefore k (Nat.lt_of_le_of_ne hk hne)
        rw [hfirst.holds] at hnot
        cases hnot
    rw [← hkn, if_pos hfirst.holds]

/-! ## Runs to the end -/

/-- A run to the end has a result if some number of steps stops the machine, which it then leaves as
these steps do. -/
theorem exists_run_iff : (∃ fuel, s.run fuel = (some result, t)) ↔
    t.hasStopped = true ∧ (∃ n, t = next^[n] s) ∧ result = t.verdict := by
  constructor
  · rintro ⟨fuel, hrun⟩
    obtain ⟨k, -, hfirst, rfl, hresult⟩ := runUntil_eq_some.1 hrun
    exact ⟨hfirst.holds, ⟨k, rfl⟩, hresult⟩
  · rintro ⟨hstopped, ⟨n, rfl⟩, hresult⟩
    obtain ⟨k, hk, -, hbefore, hend⟩ := stepUntil_iterate hasStopped n s
    have hfirst : (next^[k] s).hasStopped = true := by
      rcases hend with hend | rfl
      · exact hend
      · exact hstopped
    have hsame : next^[n] s = next^[k] s := by
      rw [← Nat.sub_add_cancel hk, Function.iterate_add_apply, iterate_stopped hfirst]
    exact ⟨n, runUntil_eq_some.2 ⟨k, hk, ⟨hfirst, hbefore⟩, hsame, hresult⟩⟩

/-- Steps that are made before a run to the end are part of it. -/
theorem exists_run_iterate (n : Nat) : (∃ fuel, (next^[n] s).run fuel = (some result, t)) ↔
    ∃ fuel, s.run fuel = (some result, t) := by
  rw [exists_run_iff, exists_run_iff]
  constructor
  · rintro ⟨hstopped, ⟨m, rfl⟩, hresult⟩
    exact ⟨hstopped, ⟨m + n, (Function.iterate_add_apply next m n s).symm⟩, hresult⟩
  · rintro ⟨hstopped, ⟨m, rfl⟩, hresult⟩
    refine ⟨hstopped, ⟨m, ?_⟩, hresult⟩
    rw [← Function.iterate_add_apply, Nat.add_comm, Function.iterate_add_apply,
      iterate_stopped hstopped]

/-! ## Frames -/

/-- Each step of a machine that goes on takes at least four cycles. -/
theorem cycles_iterate (h : (next^[n] s).cpu.fault = none) :
    s.cpu.cycles + 4 * n ≤ (next^[n] s).cpu.cycles := by
  induction n with
  | zero => exact Nat.le_refl _
  | succ n ih =>
    rw [Function.iterate_succ_apply'] at h ⊢
    cases hstep : step (next^[n] s) with
    | ok p t =>
      rw [next_of_ok hstep]
      have hbefore := ih (step_ok hstep).1
      obtain ⟨hcycles, -, -, hcost, -⟩ := step_entered hstep
      omega
    | error e t =>
      rw [next_of_error hstep, fault_of_error hstep] at h
      cases h

/-- Whether the cycles of a frame have been spent since the machine was `s`, or a step has failed. -/
def frameOver (s t : Machine β) : Bool :=
  decide (t.cpu.cycles - s.cpu.cycles ≥ cyclesPerFrame) || t.hasStopped

/-- A frame ends when its cycles have been spent, or in the fault of a step. -/
theorem frame_firstAt (s : Machine β) : ∃ k, FirstAt s.frameOver s k ∧
    ((∃ spent, s.frame = (some (.ok spent), next^[k] s) ∧ cyclesPerFrame ≤ spent ∧
      (next^[k] s).cpu.cycles = s.cpu.cycles + spent) ∨
    ∃ e, s.frame = (some (.error e), next^[k] s) ∧ (next^[k] s).cpu.fault = some e ∧
      (next^[k] s).cpu.cycles < s.cpu.cycles + cyclesPerFrame) := by
  obtain ⟨k, -, hlast, hbefore, hend⟩ := stepUntil_iterate s.frameOver Console.frameSteps s
  have hframe : s.frame =
      if (next^[k] s).cpu.cycles - s.cpu.cycles ≥ cyclesPerFrame then
        (some (.ok ((next^[k] s).cpu.cycles - s.cpu.cycles)), next^[k] s)
      else ((next^[k] s).cpu.fault.map .error, next^[k] s) := by
    rw [← hlast]
    simp only [frame, decide_eq_true_eq]
    rfl
  by_cases hover : (next^[k] s).cpu.cycles - s.cpu.cycles ≥ cyclesPerFrame
  · have hholds : s.frameOver (next^[k] s) = true := by
      rw [frameOver, decide_eq_true hover, Bool.true_or]
    rw [if_pos hover] at hframe
    refine ⟨k, ⟨hholds, hbefore⟩, .inl ⟨_, hframe, hover, ?_⟩⟩
    have hpositive : 0 < cyclesPerFrame := by decide
    omega
  · -- All the steps that a frame can take would have spent its cycles.
    have hfault : (next^[k] s).cpu.fault ≠ none := by
      intro hnone
      rcases hend with hend | rfl
      · rw [frameOver, decide_eq_false hover, hasStopped, hnone] at hend
        cases hend
      · have hcycles := cycles_iterate hnone
        have hsteps : 4 * Console.frameSteps = cyclesPerFrame := rfl
        omega
    obtain ⟨e, he⟩ := Option.ne_none_iff_exists'.1 hfault
    have hholds : s.frameOver (next^[k] s) = true := by
      rw [frameOver, hasStopped, he, Option.isSome_some, Bool.or_true]
    rw [if_neg hover, he] at hframe
    exact ⟨k, ⟨hholds, hbefore⟩, .inr ⟨e, hframe, he, by omega⟩⟩

/-! ## Calls -/

variable (covered : β → Bool)

theorem call_step (s : Machine β) : (s.call covered .step).2 = s.next := by
  rw [call, next]
  cases step s <;> rfl

theorem call_tryStep (s : Machine β) : (s.call covered .tryStep).2 = s.next := by
  rw [call, next]
  cases step s <;> rfl

/-- A call that sets no limit makes some number of steps. -/
theorem call_iterate (s : Machine β) {call : Call} (h : ∀ limit, call ≠ .setLimit limit) :
    ∃ n, (s.call covered call).2 = next^[n] s := by
  cases call with
  | step => exact ⟨1, s.call_step covered⟩
  | tryStep => exact ⟨1, s.call_tryStep covered⟩
  | run fuel | runBoot fuel =>
    obtain ⟨n, -, hlast, -⟩ := stepUntil_iterate _ fuel s
    exact ⟨n, hlast⟩
  | frame =>
    obtain ⟨k, -, ⟨spent, hframe, -⟩ | ⟨e, hframe, -⟩⟩ := s.frame_firstAt
    · exact ⟨k, congrArg Prod.snd hframe⟩
    · exact ⟨k, congrArg Prod.snd hframe⟩
  | setLimit limit => exact absurd rfl (h limit)

theorem afterCalls_iterate (s : Machine β) {calls : List Call}
    (h : ∀ limit, .setLimit limit ∉ calls) : ∃ n, s.afterCalls covered calls = next^[n] s := by
  induction calls generalizing s with
  | nil => exact ⟨0, rfl⟩
  | cons call calls ih =>
    have hfirst (limit : Option Nat) : call ≠ .setLimit limit := fun heq =>
      h limit (heq ▸ List.mem_cons_self)
    obtain ⟨m, hcall⟩ := s.call_iterate covered hfirst
    obtain ⟨n, hcalls⟩ := ih (s.call covered call).2 fun limit hmem =>
      h limit (List.mem_cons_of_mem call hmem)
    refine ⟨n + m, ?_⟩
    rw [Function.iterate_add_apply, ← hcall]
    exact hcalls

end Machine

namespace Console

open Machine

/-- Every call makes a definite number of steps: a run of the boot program as many as it takes until
the program is gone or the processor has stopped, a run until the processor has stopped, a frame
until its cycles have been spent or a step has failed. So a run to the end gives the same result and
leaves the console in the same state, whatever calls were made before it. -/
theorem schedule (s : Console) :
    ((s.call Memory.bootActive .step).2 = s.next ∧
      (s.call Memory.bootActive .tryStep).2 = s.next) ∧
    (∀ fuel result t, Machine.run fuel s = (some result, t) ↔
      ∃ k ≤ fuel, FirstAt hasStopped s k ∧ t = next^[k] s ∧ result = t.verdict) ∧
    (∀ fuel result t, runBoot fuel s = (some result, t) ↔
      ∃ k ≤ fuel, FirstAt (fun u => !u.bus.bootActive || u.hasStopped) s k ∧ t = next^[k] s ∧
        result = t.verdict) ∧
    (∃ k, FirstAt (fun u => decide (u.cpu.cycles - s.cpu.cycles ≥ 70224) || u.hasStopped) s k ∧
      ((∃ spent, frame s = (some (.ok spent), next^[k] s) ∧ 70224 ≤ spent ∧
        (next^[k] s).cpu.cycles = s.cpu.cycles + spent) ∨
      ∃ e, frame s = (some (.error e), next^[k] s) ∧ (next^[k] s).cpu.fault = some e ∧
        (next^[k] s).cpu.cycles < s.cpu.cycles + 70224)) ∧
    ∀ calls : List Call, (∀ limit, .setLimit limit ∉ calls) → ∀ result t,
      (∃ fuel, Machine.run fuel (s.afterCalls Memory.bootActive calls) = (some result, t)) ↔
        ∃ fuel, Machine.run fuel s = (some result, t) := by
  refine ⟨⟨s.call_step _, s.call_tryStep _⟩, ?_, ?_, s.frame_firstAt, ?_⟩
  · intro fuel result t
    exact runUntil_eq_some
  · intro fuel result t
    exact runUntil_eq_some
  · intro calls hcalls result t
    obtain ⟨n, hn⟩ := s.afterCalls_iterate Memory.bootActive hcalls
    rw [hn]
    exact exists_run_iterate n

/-- A boot program that takes itself away, with nothing in its place: however it is driven, the end
of the program is reached after the second instruction, and that is a normal end. -/
theorem schedule_self_release : ∃ console t : Console,
    build none ⟨some ⟨releasingBoot.toArray⟩, none, false⟩ = .ok console ∧
    (∃ fuel, Machine.run fuel console = (some (.ok ()), t)) ∧
    (∃ fuel, Machine.run fuel (console.afterCalls Memory.bootActive
      [.step, .runBoot 5, .frame, .tryStep]) = (some (.ok ()), t)) ∧
    ∃ k ≤ 3, FirstAt hasStopped console k ∧ t = next^[k] console := by
  obtain ⟨console, hconsole, hbuild⟩ := build_releasing
  have hresult : (Machine.run 3 console).1 = some (.ok ()) := by
    rw [hconsole]
    decide +kernel
  obtain ⟨-, hrun, -, -, hcalls⟩ := schedule console
  have hended : Machine.run 3 console = (some (.ok ()), (Machine.run 3 console).2) :=
    Prod.ext hresult rfl
  obtain ⟨k, hk, hfirst, hlast, -⟩ := (hrun 3 _ _).1 hended
  have hdivided := (hcalls [.step, .runBoot 5, .frame, .tryStep] (by simp) _ _).2 ⟨3, hended⟩
  exact ⟨console, _, hbuild, ⟨3, hended⟩, hdivided, k, hk, hfirst, hlast⟩

end Console

end GameBoy
