import GameBoy.Proofs.Frames
import GameBoy.Proofs.Lines
import GameBoy.Proofs.Waiting

/-!
# The line after a reset

Resetting the processor clears its cycles, but the line counter keeps the moment at which the line
last changed. So the next line is due when the cycles have got a line's length beyond that moment
again: the line stands still for as long as the run before the reset had taken. Only if the line had
not changed by then does it move on in time.

The times of the changes keep their distances through the reset, because the counter carries the
latest one over. Main statement: `Console.line_after_reset`.
-/

namespace GameBoy

namespace Console

open Machine

variable {cartridge : Option Cartridge} {config : Config} {s₀ s t : Console} {e : Fault}
  {times : List Nat} {line start cost : Nat}

/-! ## Failing steps -/

/-- A step that fails leaves the line and its counter alone. -/
theorem alike_of_error (h : step s = .error e t) : Memory.Alike s.bus t.bus := by
  cases hfault : s.cpu.fault with
  | some fault =>
    rw [step_stopped hfault] at h
    rw [(EStateM.Result.error.inj h).2]
    exact .refl _
  | none =>
    obtain ⟨u, hstuck, rfl⟩ := step_error hfault h
    change Memory.Alike s.bus u.bus
    rcases hstuck.bus with ⟨_, -, -, -, rfl⟩ | ⟨_, _, -, -, haccessed⟩ | ⟨_, -, hfailed⟩
    · exact .refl _
    · exact Memory.alike_of_accessed haccessed
    · exact Memory.alike_of_failed hfailed

/-! ## The times of the changes -/

/-- At how many cycles the line changes in the next steps, the latest time first. -/
def lineChanges (s : Console) : (steps : Nat) → List Nat
  | 0 => []
  | n + 1 =>
    let t := next^[n + 1] s
    if t.bus.ly = (next^[n] s).bus.ly then lineChanges s n else t.cpu.cycles :: lineChanges s n

/-- The line and its counter agree with the times at which the line has changed since it was
`line`, even if the processor has been reset since the latest change. -/
structure Paced (line start : Nat) (times : List Nat) (s : Console) : Prop where
  line : s.bus.ly.toNat = (line + times.length) % 154
  noted : times.headD start = s.bus.lines.lastCycles
  apart : (times ++ [start]).IsChain LineApart
  spent : 4 ∣ s.cpu.cycles
  marked : 4 ∣ s.bus.lines.lastCycles
  early : s.cpu.cycles ≤ s.bus.lines.lastCycles + 452

theorem paced_build (h : build cartridge config = .ok s) : Paced 0 0 [] s := by
  obtain ⟨hcycles, hlast, hline⟩ := build_times h
  constructor
  · rw [hline]
    rfl
  · rw [hlast, List.headD_nil]
  · exact List.isChain_singleton _
  all_goals omega

theorem Paced.after (h : Paced line start times s) : Paced line start
    (if s.next.bus.ly = s.bus.ly then times else s.next.cpu.cycles :: times) s.next := by
  obtain ⟨hline, hnoted, hapart, hspent, hmarked, hearly⟩ := h
  cases hstep : step s with
  | error e t =>
    obtain ⟨hly, hlines, -⟩ := alike_of_error hstep
    have hcycles := cycles_of_error hstep
    rw [next_of_error hstep, if_pos hly]
    exact ⟨hly ▸ hline, hlines ▸ hnoted, hapart, hcycles ▸ hspent, hlines ▸ hmarked,
      by rw [hcycles, hlines]; exact hearly⟩
  | ok p t =>
    have hbelow : s.bus.ly.toNat < 154 := by
      rw [hline]
      exact Nat.mod_lt _ (by decide)
    obtain ⟨hcycles, -, hfours, -, hmost⟩ := step_entered hstep
    rw [next_of_ok hstep]
    obtain ⟨_, -, -, -, ⟨hbefore, hly, hlines, -⟩ | ⟨hdue, hly, hnext, hlast, -⟩⟩ :=
      step_line hbelow hstep
    · rw [if_pos hly]
      -- Both totals are multiples of four, so less than 456 apart is no more than 452 apart.
      exact ⟨hly ▸ hline, hlines ▸ hnoted, hapart, by omega, hlines ▸ hmarked,
        by rw [hlines]; omega⟩
    · rw [if_neg hly]
      have hlatest : LineApart t.cpu.cycles (times.headD start) := by
        rw [hnoted]
        exact ⟨hdue, by omega⟩
      refine ⟨?_, hlast.symm, chain_cons hlatest hapart, by omega, by omega, by omega⟩
      rw [hnext, hline, List.length_cons, Nat.mod_add_mod, Nat.add_assoc]

theorem Paced.iterate (h : Paced line start [] s) (n : Nat) :
    Paced line start (lineChanges s n) (next^[n] s) := by
  induction n with
  | zero => exact h
  | succ n ih =>
    rw [lineChanges, Function.iterate_succ_apply']
    exact ih.after

/-- A change of the line is in the past. -/
theorem le_of_mem_lineChanges (s : Console) (n : Nat) :
    ∀ time ∈ lineChanges s n, time ≤ (next^[n] s).cpu.cycles := by
  induction n with
  | zero => exact fun _ h => absurd h List.not_mem_nil
  | succ n ih =>
    have hgrows : (next^[n] s).cpu.cycles ≤ (next^[n + 1] s).cpu.cycles := by
      rw [Function.iterate_succ_apply']
      exact cycles_le_next _
    intro time htime
    rw [lineChanges] at htime
    split at htime
    · exact (ih time htime).trans hgrows
    · rcases List.mem_cons.1 htime with rfl | hearlier
      · exact Nat.le_refl _
      · exact (ih time hearlier).trans hgrows

/-- Every change comes at least a line's length after the start. -/
theorem le_of_mem_chain (h : (times ++ [start]).IsChain LineApart) :
    ∀ time ∈ times, start + 456 ≤ time := by
  induction times with
  | nil => exact fun _ htime => absurd htime List.not_mem_nil
  | cons latest earlier ih =>
    rw [List.cons_append] at h
    have hrest := ih h.tail
    intro time htime
    rcases List.mem_cons.1 htime with rfl | hearlier
    · cases earlier with
      | nil => exact (List.isChain_cons_cons.1 h).1.1
      | cons previous others =>
        obtain ⟨hleast, -⟩ := (List.isChain_cons_cons.1 h).1
        have hprevious := hrest previous List.mem_cons_self
        omega
    · exact hrest time hearlier

/-- The first change comes at most six units more than a line's length after the start. -/
theorem exists_first (h : (times ++ [start]).IsChain LineApart) (hsome : times ≠ []) :
    ∃ time ∈ times, time ≤ start + 476 := by
  induction times with
  | nil => exact absurd rfl hsome
  | cons latest earlier ih =>
    rw [List.cons_append] at h
    by_cases hearlier : earlier = []
    · subst hearlier
      exact ⟨latest, List.mem_cons_self, (List.isChain_cons_cons.1 h).1.2⟩
    · obtain ⟨time, htime, hmost⟩ := ih h.tail hearlier
      exact ⟨time, List.mem_cons_of_mem latest htime, hmost⟩

/-! ## Resetting -/

/-- Reset the processor, either to what it is when the power comes on or to what the boot program
leaves. -/
def resetCpu (power : Bool) (s : Console) : Console :=
  { s with cpu := if power then s.cpu.resetPowerOn else s.cpu.reset }

@[simp] theorem cycles_resetCpu (power : Bool) (s : Console) :
    (resetCpu power s).cpu.cycles = 0 := by
  cases power <;> rfl

/-- After a reset the line counts on, from where it is, and takes its latest change for the start of
the new run. -/
theorem Paced.reset (h : Paced line start times s) (power : Bool) :
    Paced (line + times.length) (times.headD start) [] (resetCpu power s) where
  line := h.line
  noted := h.noted
  apart := List.isChain_singleton _
  spent := by
    rw [cycles_resetCpu]
    exact Nat.dvd_zero 4
  marked := h.marked
  early := by
    rw [cycles_resetCpu]
    exact Nat.zero_le _

/-- After a run and a reset, the changes of the line are as far apart as ever, but the first one
comes a line's length after the latest one before the reset, as if both had been counted from the
same moment. So it comes within the first 476 cycles exactly if the line had not changed before. -/
theorem line_after_reset (hbuild : build cartridge config = .ok s₀) (n m : Nat) (power : Bool) :
    let s : Console := next^[n] s₀
    let before := lineChanges s₀ n
    let latest := before.headD 0
    let t : Console := next^[m] (resetCpu power s)
    let times := lineChanges (resetCpu power s) m
    (s.bus.ly.toNat = before.length % 154 ∧ (before ++ [0]).IsChain LineApart ∧
      latest ≤ s.cpu.cycles ∧ s.cpu.cycles ≤ latest + 452) ∧
    (t.bus.ly.toNat = (before.length + times.length) % 154 ∧
      (times ++ [latest]).IsChain LineApart ∧ t.cpu.cycles ≤ times.headD latest + 452) ∧
    (476 < t.cpu.cycles → ((∃ time ∈ times, time ≤ 476) ↔ before = [])) := by
  intro s before latest t times
  have hrun : Paced 0 0 before s := (paced_build hbuild).iterate n
  have hagain : Paced (0 + before.length) latest times t := (hrun.reset power).iterate m
  have hlatest : latest ≤ s.cpu.cycles := by
    cases hbefore : before with
    | nil => simp only [latest, hbefore, List.headD_nil, Nat.zero_le]
    | cons time others =>
      have htime : time ∈ before := hbefore ▸ List.mem_cons_self
      simp only [latest, hbefore, List.headD_cons]
      exact le_of_mem_lineChanges s₀ n time htime
  have hsoon : s.cpu.cycles ≤ latest + 452 := by
    have hmark : s.bus.lines.lastCycles = latest := hrun.noted.symm
    rw [← hmark]
    exact hrun.early
  have hearly : t.cpu.cycles ≤ times.headD latest + 452 := hagain.noted.symm ▸ hagain.early
  rw [Nat.zero_add] at hagain
  refine ⟨⟨?_, hrun.apart, hlatest, hsoon⟩,
    ⟨hagain.line, hagain.apart, hearly⟩, fun hover => ⟨?_, fun hnone => ?_⟩⟩
  · rw [hrun.line, Nat.zero_add]
  · rintro ⟨time, htime, hmost⟩
    have hleast := le_of_mem_chain hagain.apart time htime
    cases hbefore : before with
    | nil => rfl
    | cons first others =>
      have hmem : first ∈ before := hbefore ▸ List.mem_cons_self
      have hfirst := le_of_mem_chain hrun.apart first hmem
      simp only [latest, hbefore, List.headD_cons] at hleast
      omega
  · have hstart : latest = 0 := by simp only [latest, hnone, List.headD_nil]
    have hsome : times ≠ [] := by
      intro hempty
      rw [hempty, List.headD_nil] at hearly
      omega
    obtain ⟨time, htime, hmost⟩ := exists_first hagain.apart hsome
    exact ⟨time, htime, by omega⟩

/-- After the first jump the line has not changed yet, so a reset does not delay it. -/
theorem line_after_reset_early : ∃ s₀ : Console,
    build none ⟨some ⟨loopingBoot.toArray⟩, none, false⟩ = .ok s₀ ∧
    476 < (next^[40] (resetCpu true (next^[1] s₀))).cpu.cycles ∧
    ∃ time ∈ lineChanges (resetCpu true (next^[1] s₀)) 40, time ≤ 476 := by
  let s₀ : Console := Machine.start (startCpu ⟨some ⟨loopingBoot.toArray⟩, none, false⟩ true)
    (Memory.start none (some loopingBoot))
  have hbuild : build none _ = .ok s₀ := build_boot none loopingBoot none
  have hover : 476 < (next^[40] (resetCpu true (next^[1] s₀))).cpu.cycles := by decide +kernel
  have hbefore : lineChanges s₀ 1 = [] := by decide +kernel
  obtain ⟨-, -, hintime⟩ := line_after_reset hbuild 1 40 true
  exact ⟨s₀, hbuild, hover, (hintime hover).2 hbefore⟩

/-- After thirty-eight jumps the line has just changed for the first time. After a reset it does not
change within forty more, which take 480 cycles. -/
theorem line_stalls : ∃ (s₀ s t : Console) (ps qs : List Progress),
    build none ⟨some ⟨loopingBoot.toArray⟩, none, false⟩ = .ok s₀ ∧ Run s₀ ps s ∧
    t = next^[40] (resetCpu true s) ∧ Run (resetCpu true s) qs t ∧ t.cpu.cycles = 480 ∧
    ∀ k ≤ 40, (next^[k] (resetCpu true s)).bus.ly = s.bus.ly := by
  let s₀ : Console := Machine.start (startCpu ⟨some ⟨loopingBoot.toArray⟩, none, false⟩ true)
    (Memory.start none (some loopingBoot))
  have hfault : (next^[38] s₀).cpu.fault = none := by decide +kernel
  have hagain : (next^[40] (resetCpu true (next^[38] s₀))).cpu.fault = none ∧
      (next^[40] (resetCpu true (next^[38] s₀))).cpu.cycles = 480 ∧
      ∀ k ≤ 40, (next^[k] (resetCpu true (next^[38] s₀))).bus.ly = (next^[38] s₀).bus.ly := by
    decide +kernel
  obtain ⟨hfault', hcycles, hline⟩ := hagain
  obtain ⟨ps, hrun⟩ := exists_run_of_iterate hfault
  obtain ⟨qs, hrun'⟩ := exists_run_of_iterate hfault'
  exact ⟨s₀, _, _, ps, qs, build_boot none loopingBoot none, hrun, rfl, hrun', hcycles, hline⟩

end Console

end GameBoy
