import GameBoy.Proofs.Steps
import Mathlib.Logic.Function.Iterate

/-!
# Runs that a condition ends

`Machine.Run` is a run of steps that succeed; `Machine.stepUntil` and what is defined by it go on
until a condition holds, or a step fails. A run to the end is a `Run` followed by one step that
fails, and such a run exists if no `Run` is longer than some bound. Main statements:
`Machine.Run.run_eq` and `Machine.exists_stuck`.
-/

namespace GameBoy

variable {β : Type} [Bus β]

namespace Machine

variable {s t u : Machine β} {p : Progress} {ps : List Progress} {e : Fault}

/-! ## What a successful step leaves alone -/

/-- A successful step touches neither the fault nor what belongs to the observer. -/
theorem Stepped.frame (h : Stepped s p t) :
    t.cpu.fault = s.cpu.fault ∧ t.cpu.limit = s.cpu.limit ∧ t.cpu.hook = s.cpu.hook := by
  cases h with
  | served i u _ _ hpush =>
    obtain ⟨_, _, _, _, -, -, rfl⟩ := Exec.push_eq_ok.1 hpush
    exact ⟨rfl, rfl, rfl⟩
  | idle => exact ⟨rfl, rfl, rfl⟩
  | executed i b cost u _ _ hdecoded hperformed =>
    obtain ⟨_, _, _, _, _, hframe⟩ :=
      Instruction.execute_frame (Exec.instructionAt_ok hdecoded) hperformed
    obtain ⟨halted, hcpu⟩ := s.cpu_entered i b
    simp only [cpu_shown, cpu_counted, Cpu.advanceEnable_eq, hframe, hcpu, and_self]

theorem step_frame (h : step s = .ok p t) :
    t.cpu.fault = none ∧ t.cpu.limit = s.cpu.limit ∧ t.cpu.hook = s.cpu.hook := by
  obtain ⟨hfault, -, hstepped⟩ := step_ok h
  rw [← hfault]
  exact hstepped.frame

theorem Run.limit_eq (h : Run s ps t) : t.cpu.limit = s.cpu.limit := by
  induction h with
  | refl => rfl
  | snoc _ hstep ih => exact (step_frame hstep).2.1.trans ih

theorem Run.fault_eq_none (h : Run s ps t) (hfault : s.cpu.fault = none) :
    t.cpu.fault = none := by
  cases h with
  | refl => exact hfault
  | snoc _ hstep => exact (step_frame hstep).1

/-! ## One step after another -/

theorem Run.cons (hstep : step s = .ok p t) (h : Run t ps u) : Run s (p :: ps) u := by
  induction h with
  | refl => exact Run.refl.snoc hstep
  | snoc _ hlast ih => exact ih.snoc hlast

theorem step_stopped (h : s.cpu.fault = some e) : step s = .error e s := by
  simp [step, h]

theorem next_of_ok (h : step s = .ok p t) : s.next = t := by
  rw [next, h]

theorem next_of_error (h : step s = .error e t) : s.next = t := by
  rw [next, h]

theorem fault_of_error (h : step s = .error e t) : t.cpu.fault = some e := by
  cases hfault : s.cpu.fault with
  | some fault =>
    rw [step_stopped hfault] at h
    obtain ⟨rfl, rfl⟩ := EStateM.Result.error.inj h
    exact hfault
  | none =>
    obtain ⟨u, -, rfl⟩ := step_error hfault h
    rfl

theorem next_stopped (h : s.hasStopped = true) : s.next = s := by
  obtain ⟨e, he⟩ := Option.isSome_iff_exists.1 h
  exact next_of_error (step_stopped he)

theorem iterate_stopped (h : s.hasStopped = true) (n : Nat) : next^[n] s = s :=
  Function.iterate_fixed (next_stopped h) n

/-- A step that has left no fault has succeeded. -/
theorem exists_step_of_next (h : s.next.cpu.fault = none) : ∃ p, step s = .ok p s.next := by
  cases hstep : step s with
  | ok p t =>
    rw [next_of_ok hstep]
    exact ⟨p, rfl⟩
  | error e t =>
    rw [next_of_error hstep, fault_of_error hstep] at h
    cases h

/-- Steps that have left no fault make a run. -/
theorem exists_run_of_iterate {n : Nat} (h : (next^[n] s).cpu.fault = none) :
    ∃ ps, Run s ps (next^[n] s) := by
  induction n with
  | zero => exact ⟨[], .refl⟩
  | succ n ih =>
    rw [Function.iterate_succ_apply'] at h ⊢
    obtain ⟨p, hstep⟩ := exists_step_of_next h
    obtain ⟨ps, hrun⟩ := ih (step_ok hstep).1
    exact ⟨ps ++ [p], hrun.snoc hstep⟩

/-- A fault that is stored after some steps is the failure of one of them. -/
theorem fault_raised {n : Nat} (hfault : s.cpu.fault = none)
    (h : (next^[n] s).cpu.fault = some e) :
    ∃ m < n, (next^[m] s).cpu.fault = none ∧ ∃ t, step (next^[m] s) = .error e t := by
  induction n with
  | zero => exact absurd (hfault.symm.trans h) (by simp)
  | succ n ih =>
    rw [Function.iterate_succ_apply'] at h
    cases hbefore : (next^[n] s).cpu.fault with
    | some e' =>
      rw [next_of_error (step_stopped hbefore)] at h
      obtain ⟨m, hm, hraised⟩ := ih h
      exact ⟨m, Nat.lt_succ_of_lt hm, hraised⟩
    | none =>
      cases hstep : step (next^[n] s) with
      | ok p t =>
        rw [next_of_ok hstep, (step_frame hstep).1] at h
        cases h
      | error e' t =>
        rw [next_of_error hstep, fault_of_error hstep] at h
        cases h
        exact ⟨n, n.lt_succ_self, hbefore, t, hstep⟩

/-- A fault that a step ends in, after some others, was raised by it or by one of those. -/
theorem step_raised {n : Nat} (hfault : s.cpu.fault = none)
    (h : step (next^[n] s) = .error e t) :
    ∃ m ≤ n, (next^[m] s).cpu.fault = none ∧ ∃ t, step (next^[m] s) = .error e t := by
  cases hbefore : (next^[n] s).cpu.fault with
  | none => exact ⟨n, Nat.le_refl n, hbefore, t, h⟩
  | some e' =>
    rw [step_stopped hbefore] at h
    obtain ⟨rfl, -⟩ := EStateM.Result.error.inj h
    obtain ⟨m, hm, hraised⟩ := fault_raised hfault hbefore
    exact ⟨m, Nat.le_of_lt hm, hraised⟩

/-- What one step keeps, a run until a condition keeps. -/
theorem stepUntil_keeps {P : Machine β → Prop} (hnext : ∀ s, P s → P s.next)
    (done : Machine β → Bool) (fuel : Nat) (h : P s) : P (stepUntil done fuel s) := by
  induction fuel generalizing s with
  | zero => exact h
  | succ fuel ih =>
    unfold stepUntil
    split
    · exact h
    · exact ih (hnext s h)

/-- A run until a condition ends well in two ways. -/
theorem runUntil_eq_ok {done : Machine β → Bool} {fuel : Nat}
    (h : (runUntil done fuel s).1 = some (.ok ())) :
    let t := (runUntil done fuel s).2
    t.cpu.fault = some .endOfProgram ∨ t.cpu.fault = none ∧ done t = true := by
  simp only [runUntil] at h ⊢
  generalize stepUntil _ fuel s = t at h ⊢
  split at h
  · rename_i hover
    cases hfault : t.cpu.fault with
    | none => exact .inr ⟨rfl, by simpa [hasStopped, hfault] using hover⟩
    | some e => cases e <;> simp_all [verdict]
  · cases h

/-! ## Runs to the end -/

/-- Stepping until a condition that only a machine that has stopped can meet follows a run. -/
theorem Run.stepUntil_add {done : Machine β → Bool}
    (hdone : ∀ t : Machine β, t.cpu.fault = none → done t = false) (h : Run s ps t) (k : Nat) :
    stepUntil done (ps.length + k) s = stepUntil done k t := by
  induction h generalizing k with
  | refl => simp
  | @snoc ps t u p _ hstep ih =>
    have hlength : (ps ++ [p]).length + k = ps.length + (k + 1) := by
      simp only [List.length_append, List.length_singleton]
      omega
    rw [hlength, ih, stepUntil, hdone t (step_ok hstep).1, next_of_ok hstep]
    rfl

theorem stepUntil_stopped {done : Machine β → Bool} (h : done s = true) (fuel : Nat) :
    stepUntil done fuel s = s := by
  cases fuel with
  | zero => rfl
  | succ fuel => rw [stepUntil, if_pos h]

/-- A run that ends in a failing step, for any number of steps that is enough. -/
theorem Run.run_eq (h : Run s ps t) (hfault : s.cpu.fault = none) (hstep : step t = .error e u)
    {fuel : Nat} (hfuel : ps.length < fuel) : run fuel s = (some u.verdict, u) := by
  obtain ⟨k, rfl⟩ : ∃ k, fuel = ps.length + (k + 1) := ⟨fuel - ps.length - 1, by omega⟩
  have hdone (v : Machine β) (hv : v.cpu.fault = none) : (false || v.hasStopped) = false := by
    simp [hasStopped, hv]
  have hstopped : (false || u.hasStopped) = true := by simp [hasStopped, fault_of_error hstep]
  have hlast : stepUntil (fun v => false || v.hasStopped) (ps.length + (k + 1)) s = u := by
    rw [h.stepUntil_add hdone, stepUntil, hdone t (h.fault_eq_none hfault), next_of_error hstep]
    exact stepUntil_stopped hstopped k
  rw [run, runUntil, hlast, if_pos hstopped]

/-- A run that is over in time has only as many steps to spend, or they have all been spent. -/
theorem stuck_or_longer (s : Machine β) (n : Nat) :
    (∃ ps t e u, Run s ps t ∧ step t = .error e u) ∨ ∃ ps t, ps.length = n ∧ Run s ps t := by
  induction n with
  | zero => exact .inr ⟨[], s, rfl, .refl⟩
  | succ n ih =>
    rcases ih with hstuck | ⟨ps, t, hlength, hrun⟩
    · exact .inl hstuck
    cases hstep : step t with
    | error e u => exact .inl ⟨ps, t, e, u, hrun, hstep⟩
    | ok p u => exact .inr ⟨ps ++ [p], u, by simp [hlength], hrun.snoc hstep⟩

/-- A machine whose runs have bounded length gets stuck. -/
theorem exists_stuck {n : Nat} (h : ∀ ps t, Run s ps t → ps.length ≤ n) :
    ∃ ps t e u, Run s ps t ∧ step t = .error e u := by
  rcases s.stuck_or_longer (n + 1) with hstuck | ⟨ps, t, hlength, hrun⟩
  · exact hstuck
  · have := h ps t hrun
    omega

end Machine

end GameBoy
