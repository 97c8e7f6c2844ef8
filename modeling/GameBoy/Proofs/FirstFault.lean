import GameBoy.Bus.Program
import GameBoy.Console
import GameBoy.Proofs.Journals
import GameBoy.Proofs.Watch

/-!
# The first fault

A machine is driven by single steps, by runs, by frames and by runs of the boot program, and its
limit may be changed in between. The first fault is the last thing that happens to it: from then on
every call gives that fault as its answer, each in its own way, and changes nothing but the limit.

Main statement: `Machine.first_fault`.
-/

namespace GameBoy

variable {β : Type}

/-! ## Calls -/

/-- The calls that drive a machine. -/
inductive Call where
  | step
  | tryStep
  | run (fuel : Nat)
  | runBoot (fuel : Nat)
  | frame
  | setLimit (limit : Option Nat)

/-- What a call answers. What is made of several steps may have no answer yet when it has made as many
of them as it may. -/
def Call.Answer : Call → Type
  | step => Bool
  | tryStep => Except Fault Nat
  | run _ | runBoot _ => Option (Except Fault Unit)
  | frame => Option (Except Fault Nat)
  | setLimit _ => Unit

/-- How a run ends that a fault has stopped: the end of the program is a normal end. -/
def Fault.verdict (e : Fault) : Except Fault Unit :=
  if e = endOfProgram then .ok () else .error e

/-- What a machine that a fault has stopped answers. -/
def Fault.answer (e : Fault) : (call : Call) → call.Answer
  | .step => false
  | .tryStep => .error e
  | .run _ | .runBoot _ => some e.verdict
  | .frame => some (.error e)
  | .setLimit _ => ()

/-- The limit of a machine that has stopped, after a call. -/
def Call.newLimit (limit : Option Nat) : Call → Option Nat
  | setLimit limit => limit
  | _ => limit

/-- How serious a fault is. -/
def Fault.level : Fault → Level
  | endOfProgram | stepLimit _ => .info
  | _ => .error

theorem Cpu.level_faultNotice (cpu : Cpu) (e : Fault) : (cpu.faultNotice e).level = e.level := by
  cases e <;> rfl

/-- Whether faults are reported at a level. -/
def Level.isOfFaults : Level → Bool
  | error | info => true
  | _ => false

theorem Fault.isOfFaults_level (e : Fault) : e.level.isOfFaults = true := by
  cases e <;> rfl

/-- The processor itself reports nothing else at the levels of faults. -/
theorem Notice.OfStep.level [Bus β] {hook : Option Hook} {notice : Notice}
    (h : notice.OfStep β hook)
    (hbus : ∀ notice, Bus.Reports β notice → notice.level.isOfFaults = false) :
    notice.level.isOfFaults = false := by
  cases h with
  | bus _ reported => exact hbus notice reported
  | served | traced => rfl

namespace Machine

def setLimit (s : Machine β) (limit : Option Nat) : Machine β :=
  { s with cpu := { s.cpu with limit } }

variable [Bus β]

/-- A frame on any bus. -/
def frame (s : Machine β) : Option (Except Fault Nat) × Machine β :=
  let isOver (t : Machine β) : Bool := t.cpu.cycles - s.cpu.cycles ≥ cyclesPerFrame
  let last := stepUntil (fun t => isOver t || t.hasStopped) Console.frameSteps s
  if isOver last then (some (.ok (last.cpu.cycles - s.cpu.cycles)), last)
  else (last.cpu.fault.map .error, last)

/-- Make a call on a machine on any bus, where `covered` says whether the bus still shows the boot
program. -/
def call (covered : β → Bool) (s : Machine β) : (call : Call) → call.Answer × Machine β
  | .step =>
    match Machine.step s with
    | .ok _ t => (true, t)
    | .error _ t => (false, t)
  | .tryStep =>
    match Machine.step s with
    | .ok p t => (.ok p.cycles, t)
    | .error e t => (.error e, t)
  | .run fuel => s.run fuel
  | .runBoot fuel => runUntil (fun t => !covered t.bus) fuel s
  | .frame => s.frame
  | .setLimit limit => ((), s.setLimit limit)

/-- The machine after calls, in order. -/
def afterCalls (covered : β → Bool) (s : Machine β) (calls : List Call) : Machine β :=
  calls.foldl (fun s call => (s.call covered call).2) s

variable (covered : β → Bool) {s t : Machine β} {e : Fault}

/-- What steps and new limits keep, calls keep. -/
theorem call_keeps {P : Machine β → Prop} (hnext : ∀ s, P s → P s.next)
    (hlimit : ∀ s limit, P s → P (s.setLimit limit)) (h : P s) (call : Call) :
    P (s.call covered call).2 := by
  cases call with
  | step | tryStep =>
    have hstep := hnext s h
    unfold next at hstep
    unfold Machine.call
    cases hresult : Machine.step s <;> simpa only [hresult] using hstep
  | run fuel | runBoot fuel => exact stepUntil_keeps hnext _ fuel h
  | frame =>
    have hlast := stepUntil_keeps hnext
      (fun t => decide (t.cpu.cycles - s.cpu.cycles ≥ cyclesPerFrame) || t.hasStopped)
      Console.frameSteps h
    simp only [Machine.call, frame]
    split <;> exact hlast
  | setLimit limit => exact hlimit s limit h

theorem afterCalls_keeps {P : Machine β → Prop} (hnext : ∀ s, P s → P s.next)
    (hlimit : ∀ s limit, P s → P (s.setLimit limit)) (h : P s) (calls : List Call) :
    P (s.afterCalls covered calls) := by
  induction calls generalizing s with
  | nil => exact h
  | cons call calls ih => exact ih (call_keeps covered hnext hlimit h call)

/-! ## After a fault -/

theorem stepUntil_fault (h : s.cpu.fault = some e) (done : Machine β → Bool) (fuel : Nat) :
    stepUntil (fun t => done t || t.hasStopped) fuel s = s :=
  stepUntil_stopped (by simp [hasStopped, h]) fuel

omit [Bus β] in
theorem verdict_fault (h : s.cpu.fault = some e) : s.verdict = e.verdict := by
  rw [verdict, h]
  cases e <;> rfl

theorem runUntil_fault (h : s.cpu.fault = some e) (done : Machine β → Bool) (fuel : Nat) :
    runUntil done fuel s = (some e.verdict, s) := by
  have hstopped : s.hasStopped = true := by simp [hasStopped, h]
  simp only [runUntil, stepUntil_fault h, hstopped, Bool.or_true, if_true, verdict_fault h]

theorem frame_fault (h : s.cpu.fault = some e) : s.frame = (some (.error e), s) := by
  have hbegun : ¬ s.cpu.cycles - s.cpu.cycles ≥ cyclesPerFrame := by
    rw [Nat.sub_self]
    decide
  simp only [frame, stepUntil_fault h, hbegun, decide_false, Bool.false_eq_true, if_false, h]
  rfl

/-- A machine that has stopped answers every call with its fault, and only its limit can change. -/
theorem call_fault (h : s.cpu.fault = some e) (call : Call) :
    s.call covered call = (e.answer call, s.setLimit (call.newLimit s.cpu.limit)) := by
  cases call with
  | step | tryStep =>
    rw [Machine.call, step_stopped h]
    rfl
  | run fuel | runBoot fuel =>
    simp only [Machine.call, run, runUntil_fault h]
    rfl
  | frame =>
    rw [Machine.call, frame_fault h]
    rfl
  | setLimit limit => rfl

theorem afterCalls_fault (h : s.cpu.fault = some e) (calls : List Call) :
    s.afterCalls covered calls = s.setLimit (calls.foldl Call.newLimit s.cpu.limit) := by
  induction calls generalizing s with
  | nil => rfl
  | cons call calls ih =>
    have hrest := ih (s := s.setLimit (call.newLimit s.cpu.limit)) h
    rw [afterCalls, List.foldl_cons, call_fault covered h]
    exact hrest

/-! ## Up to a fault -/

/-- A machine gets from one state to another by steps that succeed and by new limits. -/
inductive Progressed (s : Machine β) : Machine β → Prop where
  | refl : Progressed s s
  | step {t u : Machine β} {p : Progress} :
      Progressed s t → Machine.step t = .ok p u → Progressed s u
  | setLimit {t : Machine β} (limit : Option Nat) : Progressed s t → Progressed s (t.setLimit limit)

/-- A machine has come to its first fault: after steps that succeed, one has failed and has left the
machine `u`, in which the fault is stored and reported. Only the limit may have changed since. -/
def FailedAt (s : Machine β) (e : Fault) (u t : Machine β) : Prop :=
  ∃ v limit, Progressed s v ∧ v.cpu.fault = none ∧ Exec.attempt v = .error e u ∧
    t = (u.stopWith e).setLimit limit

theorem Progressed.fault (h : Progressed s t) (hfault : s.cpu.fault = none) :
    t.cpu.fault = none := by
  induction h with
  | refl => exact hfault
  | step _ hstep => exact (step_frame hstep).1
  | setLimit _ _ ih => exact ih

/-- Steps that succeed report no fault. -/
theorem Progressed.continues (h : Progressed s t) : t.Continues s.journal s.cpu.hook := by
  induction h with
  | refl => exact .refl s
  | step _ hstep ih =>
    obtain ⟨-, hlimit, hstepped⟩ := step_ok hstep
    exact ih.attempt_ok (attempt_of_stepped hlimit hstepped)
  | setLimit _ _ ih => exact ih.silent rfl rfl

/-- The fault is reported where it is stored, and nowhere before. -/
theorem FailedAt.journal {u : Machine β} (h : FailedAt s e u t) :
    t.journal = u.journal.push (u.cpu.faultNotice e) ∧ u.Continues s.journal s.cpu.hook := by
  obtain ⟨v, limit, hprogressed, -, hattempt, rfl⟩ := h
  exact ⟨rfl, hprogressed.continues.attempt_error hattempt⟩

/-- Calls on a machine that has not stopped make steps that succeed, and stop at the first one that
fails. -/
theorem afterCalls_cases (hfault : s.cpu.fault = none) (calls : List Call) :
    Progressed s (s.afterCalls covered calls) ∨
      ∃ e u, FailedAt s e u (s.afterCalls covered calls) := by
  refine afterCalls_keeps covered (P := fun t => Progressed s t ∨ ∃ e u, FailedAt s e u t) ?_ ?_
    (.inl .refl) calls
  · rintro t (hprogressed | ⟨e, u, v, limit, hprogressed, hnone, hattempt, rfl⟩)
    · have hnone := hprogressed.fault hfault
      cases hattempt : Exec.attempt t with
      | ok p u =>
        have hstep : step t = .ok p u := by simp only [step, hnone, hattempt]
        rw [next_of_ok hstep]
        exact .inl (hprogressed.step hstep)
      | error e u =>
        have hstep : step t = .error e (u.stopWith e) := by simp only [step, hnone, hattempt]
        rw [next_of_error hstep]
        exact .inr ⟨e, u, t, u.cpu.limit, hprogressed, hnone, hattempt, rfl⟩
    · have hstopped : ((u.stopWith e).setLimit limit).cpu.fault = some e := rfl
      rw [next_of_error (step_stopped hstopped)]
      exact .inr ⟨e, u, v, limit, hprogressed, hnone, hattempt, rfl⟩
  · rintro t limit (hprogressed | ⟨e, u, v, _, hprogressed, hnone, hattempt, rfl⟩)
    · exact .inl (hprogressed.setLimit limit)
    · exact .inr ⟨e, u, v, limit, hprogressed, hnone, hattempt, rfl⟩

/-- A run has a result only if a fault has stopped the machine, and the fault decides it. -/
theorem run_eq_some {fuel : Nat} {result : Except Fault Unit} (h : s.run fuel = (some result, t)) :
    ∃ e, t.cpu.fault = some e ∧ result = e.verdict := by
  simp only [run, runUntil, Prod.mk.injEq] at h
  obtain ⟨hresult, rfl⟩ := h
  generalize stepUntil _ fuel s = t at hresult ⊢
  split at hresult
  · rename_i hover
    have hstopped : t.cpu.fault.isSome := by simpa [hasStopped] using hover
    obtain ⟨e, he⟩ := Option.isSome_iff_exists.1 hstopped
    rw [verdict_fault he] at hresult
    exact ⟨e, he, (Option.some.inj hresult).symm⟩
  · cases hresult

/-- The first fault is final, however a machine is driven, on any bus. Once a step has failed, every
later call has the answer of that fault and leaves everything but the limit as the failing step has
left it, the traffic that a monitor has seen included. A machine that has not stopped comes to a
fault in a single step that fails after others that succeed. Until then its journal has only been
continued by what the bus reports, by the interrupts that were served and, under a tracing hook, by
the instructions; then comes the fault, as the last notice of all. If the bus reports nothing at the
levels of faults, it is the only notice at these levels. A run has a result only if there is a fault.
The calls are those of a console. -/
theorem first_fault :
    (∀ (s t : Machine β) (e : Fault), step s = .error e t →
      t.cpu.fault = some e ∧ ∀ calls : List Call,
        let limit := calls.foldl Call.newLimit t.cpu.limit
        t.afterCalls covered calls = t.setLimit limit ∧
        (∀ call, ((t.afterCalls covered calls).call covered call).1 = e.answer call) ∧
        ∀ traffic, (t.watch traffic).afterCalls (covered ·.inner) calls =
          (t.setLimit limit).watch traffic) ∧
    (∀ (s : Machine β) (e : Fault) (calls : List Call), s.cpu.fault = none →
      (s.afterCalls covered calls).cpu.fault = some e →
        ∃ (u : Machine β) (new : Array Notice), FailedAt s e u (s.afterCalls covered calls) ∧
          u.journal = s.journal ++ new ∧ (∀ notice ∈ new, notice.OfStep β s.cpu.hook) ∧
          (s.afterCalls covered calls).journal = u.journal.push (u.cpu.faultNotice e) ∧
          (u.cpu.faultNotice e).level = e.level ∧
          ((∀ notice, Bus.Reports β notice → notice.level.isOfFaults = false) →
            (new.push (u.cpu.faultNotice e)).filter (·.level.isOfFaults) =
              #[u.cpu.faultNotice e])) ∧
    (∀ (s t : Machine β) (fuel : Nat) (result : Except Fault Unit),
      s.run fuel = (some result, t) →
        ∃ e, t.cpu.fault = some e ∧ result = e.verdict) ∧
    ∀ console : Console,
      (∀ fuel, console.call Memory.bootActive (.run fuel) = Machine.run fuel console) ∧
      (∀ fuel, console.call Memory.bootActive (.runBoot fuel) = Console.runBoot fuel console) ∧
      console.call Memory.bootActive .frame = Console.frame console := by
  refine ⟨?_, ?_, fun s t fuel result => run_eq_some,
    fun console => ⟨fun _ => rfl, fun _ => rfl, rfl⟩⟩
  · intro s t e hstep
    have hfault := fault_of_error hstep
    refine ⟨hfault, fun calls => ?_⟩
    have hcalls := afterCalls_fault covered hfault calls
    refine ⟨hcalls, fun call => ?_, fun traffic => ?_⟩
    · have hstopped : (t.setLimit (calls.foldl Call.newLimit t.cpu.limit)).cpu.fault = some e :=
        hfault
      rw [hcalls, call_fault covered hstopped]
    · have hwatched : (t.watch traffic).cpu.fault = some e := hfault
      rw [afterCalls_fault _ hwatched]
      rfl
  · intro s e calls hnone hsome
    rcases afterCalls_cases covered hnone calls with hprogressed | ⟨e', u, hfailed⟩
    · rw [hprogressed.fault hnone] at hsome
      cases hsome
    · obtain rfl : e' = e := by
        obtain ⟨v, limit, -, -, -, hlast⟩ := hfailed
        rw [hlast] at hsome
        exact Option.some.inj hsome
      obtain ⟨hreported, -, new, hnew, hofStep⟩ := hfailed.journal
      have hlevel := u.cpu.level_faultNotice e'
      refine ⟨u, new, hfailed, hnew, hofStep, hreported, hlevel, fun hbus => ?_⟩
      have hothers : new.filter (·.level.isOfFaults) = #[] := by
        simp only [Array.filter_eq_empty_iff, Bool.not_eq_true]
        exact fun notice hnotice => (hofStep notice hnotice).level hbus
      rw [Array.filter_push, hothers, hlevel, e'.isOfFaults_level]
      rfl

end Machine

theorem ProgramBus.not_reports (notice : Notice) : ¬ Bus.Reports ProgramBus notice := by
  rintro (⟨address, value, b, b', reported⟩ | ⟨b, b', cycles, reported⟩)
  · change (if address.toNat < b.bytes.size then _ else _) = _ at reported
    split at reported <;> cases reported
  · cases reported

namespace Machine

/-- A program whose second instruction has no meaning, under a hook that traces it. -/
def tracedProgram : Machine ProgramBus :=
  start { Cpu.powerOn with hook := some .trace } ⟨#[0x00, 0xD3]⟩

/-- The limit that is set after the fault has long been reached, and the answers are still those of
the fault. Of the two notices in the journal only one reports a fault. -/
theorem first_fault_illegal : ∃ s t : Machine ProgramBus,
    s.cpu.fault = none ∧ step s.next = .error (.illegalOpcode 0xD3 1) t ∧
    t.afterCalls (fun _ => false) [.run 7, .setLimit (some 0), .frame] = t.setLimit (some 0) ∧
    (∃ u, FailedAt s (.illegalOpcode 0xD3 1) u (s.afterCalls (fun _ => false) [.tryStep, .run 7]) ∧
      (u.cpu.faultNotice (.illegalOpcode 0xD3 1)).level = .error ∧
      (s.afterCalls (fun _ => false) [.tryStep, .run 7]).journal.size = 2 ∧
      (s.afterCalls (fun _ => false) [.tryStep, .run 7]).journal.filter (·.level.isOfFaults) =
        #[u.cpu.faultNotice (.illegalOpcode 0xD3 1)]) ∧
    ∃ e, (s.run 7).2.cpu.fault = some e ∧ e.verdict = .error (.illegalOpcode 0xD3 1) := by
  obtain ⟨t, hstep⟩ : ∃ t, step tracedProgram.next = .error (.illegalOpcode 0xD3 1) t := ⟨_, rfl⟩
  obtain ⟨hfinal, hwhole, hruns, -⟩ := first_fault fun _ : ProgramBus => false
  obtain ⟨-, hcalls⟩ := hfinal _ t _ hstep
  obtain ⟨hlast, -, -⟩ := hcalls [.run 7, .setLimit (some 0), .frame]
  obtain ⟨u, new, hfailed, hnew, -, hjournal, hlevel, honce⟩ :=
    hwhole tracedProgram (.illegalOpcode 0xD3 1) [.tryStep, .run 7] rfl rfl
  have hquiet := honce fun notice h => absurd h (ProgramBus.not_reports notice)
  obtain ⟨e, hfault, hverdict⟩ := hruns tracedProgram _ 7 (.error (.illegalOpcode 0xD3 1)) rfl
  refine ⟨tracedProgram, t, rfl, hstep, hlast, ⟨u, hfailed, hlevel, rfl, ?_⟩, e, hfault,
    hverdict.symm⟩
  have hempty : tracedProgram.journal = #[] := rfl
  rw [hjournal, hnew, hempty, Array.empty_append]
  exact hquiet

end Machine

end GameBoy
