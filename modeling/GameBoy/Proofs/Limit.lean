import GameBoy.Bus.Flat
import GameBoy.Proofs.Accesses
import GameBoy.Proofs.Accounting
import GameBoy.Proofs.InterruptEnable
import GameBoy.Proofs.Lockstep
import GameBoy.Proofs.Runs

/-!
# The limit

Serving an interrupt does not count toward the limit. But it clears the enable, and only a step that
counts raises it again, so interrupts are never served twice in a row, and a limit ends every run.

A limit does nothing else: until it is reached, a machine does what it would do without one, since
the machine without its limit attempts a step in lockstep with it.

Main statement: `Machine.limited_run`.
-/

namespace GameBoy

variable {β α : Type}

/-! ## Machines without a limit -/

def Cpu.unlimited (cpu : Cpu) : Cpu := { cpu with limit := none }

/-- The machine without its limit, also in what the hook has recorded. -/
def Machine.unlimited (s : Machine β) : Machine β :=
  ⟨s.cpu.unlimited, s.bus, s.journal, s.records.map fun r => { r with cpu := r.cpu.unlimited }⟩

theorem Cpu.Change.unlimited {f : Cpu → Cpu} (hf : Change f) (cpu : Cpu) :
    f cpu.unlimited = (f cpu).unlimited := by
  have hunlimited : f cpu.unlimited = { f cpu with limit := none, hook := cpu.hook } :=
    hf.observer cpu none cpu.hook
  rw [hunlimited, ← (hf.observer_eq cpu).2]
  rfl

/-- No step sees the limit, apart from its check of it. -/
theorem Cpu.unseen_unlimited : Unseen unlimited where
  regs _ := rfl
  ime _ := rfl
  halted _ := rfl
  cycles _ := rfl
  hook _ := rfl
  unhooked _ := rfl
  traceNotice _ _ _ := rfl
  change hg cpu := hg.unlimited cpu
  spend _ _ := rfl

namespace Exec

/-- An outcome on the machine without its limit. -/
def unlimited : EStateM.Result Fault (Machine β) α → EStateM.Result Fault (Machine β) α
  | .ok a t => .ok a t.unlimited
  | .error e t => .error e t.unlimited

variable [Bus β] {s : Machine β}

theorem unlimited_simulation : StepSimulation fun s t : Machine β => t = s.unlimited :=
  Cpu.unseen_unlimited.simulation

/-- Only the check at the start of a step looks at the limit. -/
theorem attempt_unlimited (h : s.cpu.exhausted = false) :
    attempt s.unlimited = unlimited (attempt s) := by
  have hattempt := unlimited_simulation.attempt (t := s.unlimited) rfl h rfl
  generalize attempt s = outcome, attempt s.unlimited = outcome' at hattempt
  cases hattempt with
  | ok p h => rw [h, unlimited]
  | error e h => rw [h, unlimited]

end Exec

namespace Machine

variable [Bus β] {s t u : Machine β} {p : Progress} {ps : List Progress} {e : Fault}

theorem step_unlimited (h : s.cpu.exhausted = false) :
    step s.unlimited = Exec.unlimited (step s) := by
  have hfault : s.unlimited.cpu.fault = s.cpu.fault := rfl
  simp only [step, hfault, Exec.attempt_unlimited h]
  cases s.cpu.fault with
  | some fault => rfl
  | none =>
    cases Exec.attempt s with
    | ok p t => rfl
    | error e t => cases e <;> rfl

/-- Every run is a run without the limit, in the same steps. -/
theorem Run.unlimited (h : Run s ps t) : Run s.unlimited ps t.unlimited := by
  induction h with
  | refl => exact .refl
  | snoc _ hstep ih =>
    refine ih.snoc ?_
    rw [step_unlimited (step_ok hstep).2.1, hstep]
    rfl

end Machine

/-! ## How many steps there can be -/

/-- Whether a step counts toward the limit. -/
def Progress.isCounted (p : Progress) : Bool := !p.isServed

namespace Machine

variable [Bus β] {s t u : Machine β} {p : Progress} {ps : List Progress} {e : Fault} {n : Nat}

theorem Run.countedSteps (h : Run s ps t) :
    t.cpu.countedSteps = s.cpu.countedSteps + ps.countP Progress.isCounted := by
  have hcounts := h.counts
  have hlength := ps.length_eq_countP_add_countP Progress.isServed
  have hcounted : ps.countP Progress.isCounted = ps.countP fun p => decide ¬ p.isServed = true := by
    congr 1
    funext p
    cases hserved : p.isServed <;> simp [Progress.isCounted, hserved]
  simp only [Cpu.countedSteps]
  omega

theorem below_limit (hlimit : s.cpu.limit = some n) (h : step s = .ok p t) :
    s.cpu.countedSteps < n := by
  simpa [Cpu.exhausted, hlimit] using (step_ok h).2.1

theorem Run.countedSteps_le (hlimit : s.cpu.limit = some n) (hle : s.cpu.countedSteps ≤ n)
    (h : Run s ps t) : t.cpu.countedSteps ≤ n := by
  cases h with
  | refl => exact hle
  | @snoc _ t u p hrun hstep =>
    have hbelow := below_limit (hrun.limit_eq.trans hlimit) hstep
    have hcounted := (Run.snoc .refl hstep).countedSteps
    have hone := List.countP_le_length (p := Progress.isCounted) (l := [p])
    simp only [List.nil_append, List.length_singleton] at hcounted hone
    omega

/-- How many more steps may succeed: each that counts, and before each one interrupt, which must be
enabled if it comes next. -/
def budget (n : Nat) (s : Machine β) : Nat :=
  if s.cpu.countedSteps < n then 2 * (n - s.cpu.countedSteps) - 1 + s.cpu.ime.toNat else 0

omit [Bus β] in
theorem budget_le (n : Nat) (s : Machine β) : s.budget n ≤ 2 * (n - s.cpu.countedSteps) := by
  have hime := s.cpu.ime.toNat_le
  unfold budget
  split <;> omega

theorem budget_lt (hlimit : s.cpu.limit = some n) (h : step s = .ok p t) :
    t.budget n < s.budget n := by
  have hbelow := below_limit hlimit h
  have hcounted := (Run.snoc .refl h).countedSteps
  have hime := s.cpu.ime.toNat_le
  have hime' := t.cpu.ime.toNat_le
  simp only [budget, if_pos hbelow]
  -- Serving an interrupt spends the enable. A step that counts spends two, of which the enable may
  -- be raised again.
  cases p with
  | served i =>
    obtain ⟨hbefore, hafter, -⟩ := step_enables h
    replace hcounted : t.cpu.countedSteps = s.cpu.countedSteps := hcounted
    rw [hcounted, if_pos hbelow, hbefore, hafter]
    simp
  | idle | executed i cost =>
    replace hcounted : t.cpu.countedSteps = s.cpu.countedSteps + 1 := hcounted
    rw [hcounted]
    split <;> omega

theorem Run.length_le (hlimit : s.cpu.limit = some n) (h : Run s ps t) :
    ps.length + t.budget n ≤ s.budget n := by
  induction h with
  | refl => simp
  | snoc hrun hstep ih =>
    have hless := budget_lt (hrun.limit_eq.trans hlimit) hstep
    rw [List.length_append, List.length_singleton]
    omega

/-! ## How a limited run ends -/

theorem step_limited (hlimit : s.cpu.limit = some n) (hfault : s.cpu.fault = none)
    (hreached : n ≤ s.cpu.countedSteps) :
    step s = .error (.stepLimit n) (s.stopWith (.stepLimit n)) := by
  have hexhausted : s.cpu.exhausted = true := by simp [Cpu.exhausted, hlimit, hreached]
  simp only [step, hfault, Exec.attempt, Exec.bind_apply, Exec.checkLimit_apply, hexhausted,
    if_true, hlimit]
  rfl

/-- A step fails because of the limit exactly if that is reached. -/
theorem error_eq_stepLimit_iff (hlimit : s.cpu.limit = some n) (hfault : s.cpu.fault = none)
    (h : step s = .error e t) : e = .stepLimit n ↔ n ≤ s.cpu.countedSteps := by
  constructor
  · rintro rfl
    obtain ⟨u, hstuck, rfl⟩ := step_error hfault h
    rcases hstuck.bus with ⟨m, hm, -, hreached, -⟩ | ⟨_, _, -, he, -⟩ | ⟨_, he | he, -⟩
    · obtain rfl := Fault.stepLimit.inj hm
      exact hreached
    all_goals cases he
  · intro hreached
    rw [step_limited hlimit hfault hreached] at h
    exact (EStateM.Result.error.inj h).1.symm

theorem verdict_eq_stepLimit_iff (h : step s = .error e t) :
    t.verdict = .error (.stepLimit n) ↔ e = .stepLimit n := by
  have hfault := fault_of_error h
  cases e <;> simp [verdict, hfault]

/-- A limit ends every run, on any bus, and each of the remaining steps may take one interrupt with
it. The run ends because of the limit exactly if that many more steps have counted; otherwise it ends
as it does without one, and on the way there it passes through the same machines. -/
theorem limited_run (hlimit : s.cpu.limit = some n) (hfault : s.cpu.fault = none)
    (hle : s.cpu.countedSteps ≤ n) :
    ∃ ps t e u, Run s ps t ∧ step t = .error e u ∧
      ps.length + 1 ≤ 2 * (n - s.cpu.countedSteps) + 1 ∧
      (∀ fuel, ps.length < fuel → run fuel s = (some u.verdict, u)) ∧
      (u.verdict = .error (.stepLimit n) ↔
        ps.countP Progress.isCounted = n - s.cpu.countedSteps) ∧
      (u.verdict = .error (.stepLimit n) →
        u.cpu.countedSteps = n ∧ u = t.stopWith (.stepLimit n)) ∧
      (u.verdict ≠ .error (.stepLimit n) → step t.unlimited = .error e u.unlimited) ∧
      ∀ qs v, Run s qs v → Run s.unlimited qs v.unlimited := by
  have hbound (qs : List Progress) (v : Machine β) (hrun : Run s qs v) :
      qs.length ≤ 2 * (n - s.cpu.countedSteps) := by
    have hlength := hrun.length_le hlimit
    have hbudget := s.budget_le n
    omega
  obtain ⟨ps, t, e, u, hrun, hstep⟩ := exists_stuck hbound
  have hfault' := hrun.fault_eq_none hfault
  have hlimit' := hrun.limit_eq.trans hlimit
  have hle' := hrun.countedSteps_le hlimit hle
  have hcounted := hrun.countedSteps
  have hreached := error_eq_stepLimit_iff hlimit' hfault' hstep
  have hverdict := verdict_eq_stepLimit_iff (n := n) hstep
  refine ⟨ps, t, e, u, hrun, hstep, Nat.succ_le_succ (hbound ps t hrun),
    fun fuel => hrun.run_eq hfault hstep, ?_, ?_, ?_, fun _ _ => Run.unlimited⟩
  · rw [hverdict, hreached]
    omega
  · intro he
    have hspent := hreached.1 (hverdict.1 he)
    rw [step_limited hlimit' hfault' hspent] at hstep
    obtain ⟨-, rfl⟩ := EStateM.Result.error.inj hstep
    exact ⟨Nat.le_antisymm hle' hspent, rfl⟩
  · intro hother
    have hbelow : ¬ n ≤ t.cpu.countedSteps := fun hspent => hother (hverdict.2 (hreached.2 hspent))
    have hexhausted : t.cpu.exhausted = false := by
      simpa [Cpu.exhausted, hlimit'] using hbelow
    rw [step_unlimited hexhausted, hstep]
    rfl

/-- An instruction that jumps to itself, three times. -/
theorem limited_run_loop : ∃ s : Machine ProgramBus,
    s.cpu.limit = some 3 ∧ s.cpu.fault = none ∧ s.cpu.countedSteps ≤ 3 ∧
    ∃ ps t u, Run s ps t ∧ ps.countP Progress.isCounted = 3 ∧ u = t.stopWith (.stepLimit 3) ∧
      run 7 s = (some (.error (.stepLimit 3)), u) ∧ Run s.unlimited ps t.unlimited := by
  obtain ⟨s, hlimit, hfault, hspent, hrun⟩ : ∃ s : Machine ProgramBus, s.cpu.limit = some 3 ∧
      s.cpu.fault = none ∧ s.cpu.countedSteps = 0 ∧
      (run 7 s).1 = some (.error (.stepLimit 3)) :=
    ⟨start { Cpu.powerOn with limit := some 3 } ⟨#[0x18, 0xFE]⟩, rfl, rfl, rfl, rfl⟩
  have hle : s.cpu.countedSteps ≤ 3 := hspent ▸ Nat.zero_le 3
  obtain ⟨ps, t, e, u, hsteps, -, hlength, hover, hcount, hlast, -, hsame⟩ :=
    limited_run hlimit hfault hle
  have hrun7 : run 7 s = (some u.verdict, u) := hover 7 (by omega)
  have hverdict : u.verdict = .error (.stepLimit 3) := by
    rw [hrun7] at hrun
    exact Option.some.inj hrun
  rw [hspent] at hcount
  rw [hverdict] at hrun7
  exact ⟨s, hlimit, hfault, hle, ps, t, u, hsteps, hcount.1 hverdict, (hlast hverdict).2, hrun7,
    hsame ps t hsteps⟩

end Machine

end GameBoy
