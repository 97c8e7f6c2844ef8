import GameBoy.Proofs.Accounting
import GameBoy.Proofs.FirstFault

/-!
# Frames

A frame tries one step after another until its cycles have been spent. Each step that succeeds takes
one to six units of four cycles, and one that fails takes none and ends the frame. So the number of
steps is bounded, and the last one goes beyond the frame by less than it takes itself.

Main statement: `Console.frame_ends`.
-/

namespace GameBoy

namespace Machine

variable {β : Type} [Bus β] {s t u : Machine β} {e : Fault} {p : Progress}
  {r : Except Fault Nat} {start spent n fuel : Nat}

/-! ## Failing steps -/

/-- A step that fails leaves all counters alone, and what belongs to the observer. -/
theorem error_frame (h : step s = .error e t) : ∃ regs ime halted fault current,
    t.cpu = { s.cpu with regs, ime, halted, fault, current } := by
  cases hfault : s.cpu.fault with
  | some fault =>
    rw [step_stopped hfault] at h
    rw [← (EStateM.Result.error.inj h).2]
    exact ⟨_, _, _, _, _, rfl⟩
  | none =>
    obtain ⟨u, hstuck, rfl⟩ := step_error hfault h
    rw [cpu_stopWith]
    cases hcalm : s.cpu.interrupted (Bus.pending s.bus) with
    | false =>
      obtain ⟨_, _, _, hframe⟩ := hstuck.frame hcalm
      rw [hframe]
      exact ⟨_, _, _, _, _, rfl⟩
    | true =>
      cases hstuck with
      | limit => exact ⟨_, _, _, _, _, rfl⟩
      | served i _ _ _ _ failed =>
        rcases Exec.push_eq_error.1 failed with
          ⟨_, _, -, -, rfl⟩ | ⟨_, _, _, _, -, -, -, rfl⟩ <;> exact ⟨_, _, _, _, _, rfl⟩
      | opcode _ _ calm | extended _ _ _ calm | executed _ _ _ _ calm =>
        rw [calm] at hcalm
        cases hcalm

/-- A step that fails takes no cycles. -/
theorem cycles_of_error (h : step s = .error e t) : t.cpu.cycles = s.cpu.cycles := by
  obtain ⟨_, _, _, _, _, hframe⟩ := error_frame h
  rw [hframe]

/-- The total of cycles never goes back. -/
theorem cycles_le_next (s : Machine β) : s.cpu.cycles ≤ s.next.cpu.cycles := by
  cases hstep : step s with
  | error e t =>
    rw [next_of_error hstep]
    exact Nat.le_of_eq (cycles_of_error hstep).symm
  | ok p t =>
    rw [next_of_ok hstep, (step_entered hstep).1]
    exact Nat.le_add_right _ _

/-! ## The loop -/

/-- The loop of a frame that began when `start` cycles had been counted, from where `s` is: it tries
`n` more steps, ends with the result `r` and leaves the machine as `t`. -/
inductive FrameLoop (start : Nat) : Machine β → Nat → Except Fault Nat → Machine β → Prop where
  | ended {s : Machine β} : cyclesPerFrame ≤ s.cpu.cycles - start →
    FrameLoop start s 0 (.ok (s.cpu.cycles - start)) s
  | failed {s t : Machine β} {e : Fault} : s.cpu.cycles - start < cyclesPerFrame →
    step s = .error e t → FrameLoop start s 1 (.error e) t
  | next {s t u : Machine β} {p : Progress} {r : Except Fault Nat} {n : Nat} :
    s.cpu.cycles - start < cyclesPerFrame → step s = .ok p t → FrameLoop start t n r u →
    FrameLoop start s (n + 1) r u

namespace FrameLoop

/-- The loop ends when the cycles of a frame have been spent, or in the fault of a step. -/
theorem result (h : FrameLoop start s n r t) :
    (cyclesPerFrame ≤ t.cpu.cycles - start ∧ r = .ok (t.cpu.cycles - start)) ∨
    (t.cpu.cycles - start < cyclesPerFrame ∧ ∃ e, t.cpu.fault = some e ∧ r = .error e) := by
  induction h with
  | ended hover => exact .inl ⟨hover, rfl⟩
  | failed hbelow hstep =>
    rw [← cycles_of_error hstep] at hbelow
    exact .inr ⟨hbelow, _, fault_of_error hstep, rfl⟩
  | next _ _ _ ih => exact ih

/-- All steps before the last one succeed, and then the frame is not over yet. -/
theorem exists_last (h : FrameLoop start s (n + 1) r t) : ∃ ps u, Run s ps u ∧ ps.length = n ∧
    u.cpu.cycles - start < cyclesPerFrame ∧
    ((∃ p, step u = .ok p t) ∨ ∃ e, step u = .error e t) := by
  induction n generalizing s with
  | zero =>
    cases h with
    | failed hbelow hstep => exact ⟨[], s, .refl, rfl, hbelow, .inr ⟨_, hstep⟩⟩
    | next hbelow hstep hrest =>
      cases hrest with
      | ended => exact ⟨[], s, .refl, rfl, hbelow, .inl ⟨_, hstep⟩⟩
  | succ n ih =>
    cases h with
    | next _ hstep hrest =>
      obtain ⟨ps, u, hrun, hlength, hlast⟩ := ih hrest
      exact ⟨_ :: ps, u, hrun.cons hstep, congrArg (· + 1) hlength, hlast⟩

end FrameLoop

/-- Stepping until a frame is over goes through its loop. -/
theorem exists_frameLoop (hfault : s.cpu.fault = none) (hstart : start ≤ s.cpu.cycles)
    (hfuel : start + cyclesPerFrame ≤ s.cpu.cycles + 4 * fuel) :
    ∃ n r t, FrameLoop start s n r t ∧ stepUntil (fun t =>
      decide (t.cpu.cycles - start ≥ cyclesPerFrame) || t.hasStopped) fuel s = t := by
  induction fuel generalizing s with
  | zero => exact ⟨0, _, s, .ended (by omega), rfl⟩
  | succ fuel ih =>
    by_cases hover : cyclesPerFrame ≤ s.cpu.cycles - start
    · refine ⟨0, _, s, .ended hover, stepUntil_stopped ?_ _⟩
      rw [decide_eq_true hover, Bool.true_or]
    · have hgoes : (decide (s.cpu.cycles - start ≥ cyclesPerFrame) || s.hasStopped) = false := by
        rw [decide_eq_false hover, hasStopped, hfault]
        rfl
      rw [stepUntil, hgoes]
      cases hstep : step s with
      | error e t =>
        rw [next_of_error hstep]
        refine ⟨1, _, t, .failed (by omega) hstep, stepUntil_stopped ?_ _⟩
        rw [hasStopped, fault_of_error hstep, Option.isSome_some, Bool.or_true]
      | ok p t =>
        rw [next_of_ok hstep]
        obtain ⟨hcycles, -, -, hcost, -⟩ := step_entered hstep
        obtain ⟨n, r, u, hloop, hlast⟩ := ih (step_frame hstep).1 (by omega) (by omega)
        exact ⟨n + 1, r, u, .next (by omega) hstep hloop, hlast⟩

/-- What a frame gives is what its loop ends with. -/
theorem frame_loop (s : Machine β) : ∃ n r t, FrameLoop s.cpu.cycles s n r t ∧
    s.frame = (some r, t) := by
  cases hfault : s.cpu.fault with
  | some e =>
    have hbelow : s.cpu.cycles - s.cpu.cycles < cyclesPerFrame := by
      rw [Nat.sub_self]
      decide
    exact ⟨1, _, s, .failed hbelow (step_stopped hfault), frame_fault hfault⟩
  | none =>
    have hfuel : s.cpu.cycles + cyclesPerFrame ≤ s.cpu.cycles + 4 * Console.frameSteps :=
      Nat.le_refl _
    obtain ⟨n, r, t, hloop, hlast⟩ := exists_frameLoop hfault (Nat.le_refl _) hfuel
    refine ⟨n, r, t, hloop, ?_⟩
    rw [frame, hlast]
    rcases hloop.result with ⟨hover, rfl⟩ | ⟨hbelow, e, he, rfl⟩
    · exact if_pos (decide_eq_true hover)
    · have hnot : ¬t.cpu.cycles - s.cpu.cycles ≥ cyclesPerFrame := by omega
      simp only [decide_eq_false hnot, Bool.false_eq_true, if_false, he, Option.map_some]

/-! ## The bounds -/

/-- A run takes whole units of four cycles, and for each step at least one. -/
theorem Run.units {ps : List Progress} (h : Run s ps t) :
    ∃ k, t.cpu.cycles = s.cpu.cycles + 4 * k ∧ ps.length ≤ k := by
  induction h with
  | refl => exact ⟨0, rfl, Nat.le_refl 0⟩
  | snoc _ hstep ih =>
    obtain ⟨k, hcycles, hlength⟩ := ih
    obtain ⟨hstep', -, ⟨units, hunits⟩, hcost, -⟩ := step_entered hstep
    refine ⟨k + units, by omega, ?_⟩
    rw [List.length_append, List.length_singleton]
    omega

end Machine

namespace Console

open Machine

/-- A frame of a console in any state ends after so many steps. -/
theorem frame_ends (s : Console) : ∃ n ≤ 17556, ∃ r t, FrameLoop s.cpu.cycles s n r t ∧
    frame s = (some r, t) ∧
    match r with
    | .ok spent => 70224 ≤ spent ∧ spent ≤ 70244 ∧ t.cpu.cycles = s.cpu.cycles + spent ∧
      ∃ ps u p, Run s ps u ∧ ps.length + 1 = n ∧ u.cpu.cycles < s.cpu.cycles + 70224 ∧
        step u = .ok p t
    | .error e => t.cpu.fault = some e ∧ t.cpu.cycles < s.cpu.cycles + 70224 := by
  obtain ⟨n, r, t, hloop, hframe⟩ := s.frame_loop
  have hcycles : cyclesPerFrame = 70224 := rfl
  have hresult := hloop.result
  rw [hcycles] at hresult
  cases n with
  | zero =>
    -- Without any step the frame would have to be over where it begins.
    cases hloop with
    | ended hover =>
      rw [hcycles] at hover
      omega
  | succ n =>
    obtain ⟨ps, u, hrun, hlength, hbelow, hlast⟩ := hloop.exists_last
    obtain ⟨units, hunits, hsteps⟩ := hrun.units
    rw [hcycles] at hbelow
    refine ⟨n + 1, by omega, r, t, hloop, hframe, ?_⟩
    rcases hresult with ⟨hover, rfl⟩ | ⟨hnot, e, he, rfl⟩
    · rcases hlast with ⟨p, hstep⟩ | ⟨e, hstep⟩
      · obtain ⟨hspent, -, ⟨last, hunit⟩, -, hcost⟩ := step_entered hstep
        exact ⟨hover, by omega, by omega, ps, u, p, hrun, congrArg (· + 1) hlength, by omega,
          hstep⟩
      · rw [cycles_of_error hstep] at hover
        omega
    · exact ⟨he, by omega⟩

end Console

end GameBoy
