import GameBoy.Proofs.Lockstep

/-!
# What steps report

A machine keeps its notices in a journal, and whatever it does only ever continues that journal. In
a step the bus may report a write or the end of the step, an interrupt is reported once it is served,
and a hook may trace the instruction; nothing else is reported until a fault stops the processor.

That a journal has been continued so is an invariant of all the parts of a step, as a simulation of
the machine by itself. Main statements: `Machine.Continues.attempt_ok` and
`Machine.Continues.attempt_error`.
-/

namespace GameBoy

variable {α β : Type}

/-- A notice that the bus reports, at a write or at the end of a step. -/
inductive Bus.Reports (β : Type) [Bus β] (notice : Notice) : Prop where
  | write (address : UInt16) (value : UInt8) (b b' : β)
      (reported : write address value b = .ok (some notice) b')
  | endStep (b b' : β) (cycles : Nat) (reported : endStep b cycles = (some notice, b'))

/-- A notice that a step leaves on its way, under the given hook. -/
inductive Notice.OfStep (β : Type) [Bus β] (hook : Option Hook) : Notice → Prop where
  | bus (notice : Notice) (reported : Bus.Reports β notice) : OfStep β hook notice
  | served (i : Interrupt) (pc sp : UInt16) : OfStep β hook (i.notice pc sp)
  | traced (cpu : Cpu) (pc : UInt16) (i : Instruction) (hooked : hook = some .trace) :
      OfStep β hook (cpu.traceNotice pc i)

namespace Machine

/-- The machine has continued a journal by notices of steps, and still has the same hook. -/
def Continues [Bus β] (journal : Journal) (hook : Option Hook) (s : Machine β) : Prop :=
  s.cpu.hook = hook ∧ ∃ new : Array Notice, s.journal = journal ++ new ∧
    ∀ notice ∈ new, notice.OfStep β hook

namespace Continues

variable [Bus β] {journal : Journal} {hook : Option Hook} {s t : Machine β} {e : Fault}
  {p : Progress}

theorem refl (s : Machine β) : s.Continues s.journal s.cpu.hook :=
  ⟨rfl, #[], by simp, by simp⟩

/-- What neither reports anything nor changes the hook. -/
theorem silent (h : s.Continues journal hook) (hhook : t.cpu.hook = s.cpu.hook)
    (hjournal : t.journal = s.journal) : t.Continues journal hook := by
  rw [Continues, hhook, hjournal]
  exact h

/-- One more notice. -/
theorem push {notice : Notice} (h : s.Continues journal hook) (hnotice : notice.OfStep β hook)
    (hhook : t.cpu.hook = s.cpu.hook) (hjournal : t.journal = s.journal.push notice) :
    t.Continues journal hook := by
  obtain ⟨hs, new, hnew, hall⟩ := h
  refine ⟨hhook.trans hs, new.push notice, ?_, ?_⟩
  · rw [hjournal, hnew, Array.append_push]
  · intro other hother
    rcases Array.mem_push.1 hother with hold | rfl
    · exact hall other hold
    · exact hnotice

/-- A notice of the bus, if it has one. -/
theorem note (h : s.Continues journal hook) (report : Option Notice)
    (hreport : ∀ notice, report = some notice → Bus.Reports β notice)
    (hhook : t.cpu.hook = s.cpu.hook) (hjournal : t.journal = s.journal.note report) :
    t.Continues journal hook := by
  cases report with
  | none => exact h.silent hhook hjournal
  | some notice => exact h.push (.bus notice (hreport notice rfl)) hhook hjournal

/-! ## Parts of a step -/

/-- An execution that continues a journal is in lockstep with itself. -/
theorem lockstep {x : Exec β α} (h : ∀ s : Machine β, s.Continues journal hook →
      match x s with | .ok _ t | .error _ t => t.Continues journal hook) :
    Exec.Lockstep (fun s t => t = s ∧ s.Continues journal hook) x x := by
  rintro _ s ⟨rfl, hs⟩
  have hx := h s hs
  cases hresult : x s with
  | ok a t =>
    rw [hresult] at hx
    exact .ok a ⟨rfl, hx⟩
  | error e t =>
    rw [hresult] at hx
    exact .error e ⟨rfl, hx⟩

theorem shown (h : s.Continues journal hook) (pc : UInt16) (i : Instruction) :
    (s.shown pc i).Continues journal hook := by
  unfold Machine.shown
  split
  · exact h
  · rename_i hhook
    exact h.push (.traced s.cpu pc i (h.1.symm.trans hhook)) rfl rfl
  · exact h.silent rfl rfl

theorem finished (h : s.Continues journal hook) (cycles : Nat) :
    (s.finished cycles).Continues journal hook := by
  refine h.note (Bus.endStep s.bus (s.cpu.cycles + cycles)).1 ?_ rfl rfl
  intro notice hnotice
  exact .endStep s.bus _ (s.cpu.cycles + cycles) (Prod.ext hnotice rfl)

/-- All parts of a step continue a journal. -/
theorem simulation (journal : Journal) (hook : Option Hook) :
    StepSimulation fun s t : Machine β => t = s ∧ s.Continues journal hook where
  regs := by
    rintro s _ ⟨rfl, -⟩
    rfl
  change hf := lockstep fun s hs => hs.silent (hf.observer_eq s.cpu).2 rfl
  read address fault := by
    refine lockstep fun s hs => ?_
    rw [Exec.access_apply]
    cases Bus.read address s.bus <;> exact hs.silent rfl rfl
  write address v := by
    refine lockstep fun s hs => ?_
    rw [Exec.write_apply]
    cases hwrite : Bus.write address v s.bus with
    | error => exact hs.silent rfl rfl
    | ok report b =>
      refine hs.note report ?_ rfl rfl
      rintro notice rfl
      exact .write address v s.bus b hwrite
  finish cycles := lockstep fun s hs => hs.finished cycles
  fireHook pc i := by
    refine lockstep fun s hs => ?_
    rw [Exec.fireHook_apply]
    exact hs.shown pc i
  ime := by
    rintro s _ ⟨rfl, -⟩
    rfl
  halted := by
    rintro s _ ⟨rfl, -⟩
    rfl
  pending := by
    rintro s _ ⟨rfl, -⟩
    rfl
  acknowledge line := lockstep fun s hs => hs.silent rfl rfl
  note i pc sp := lockstep fun s hs => hs.push (.served i pc sp) rfl rfl

/-! ## Steps -/

theorem attempt (h : s.Continues journal hook) :
    Exec.SameOutcome (fun s t => t = s ∧ s.Continues journal hook) (Exec.attempt s)
      (Exec.attempt s) := by
  cases hlimit : s.cpu.exhausted with
  | false => exact (simulation journal hook).attempt ⟨rfl, h⟩ hlimit hlimit
  | true =>
    rw [attempt_exhausted hlimit]
    exact .error _ ⟨rfl, h⟩

theorem attempt_ok (h : s.Continues journal hook) (hattempt : Exec.attempt s = .ok p t) :
    t.Continues journal hook := by
  have hsame := h.attempt
  rw [hattempt] at hsame
  cases hsame with
  | ok _ ht => exact ht.2

theorem attempt_error (h : s.Continues journal hook) (hattempt : Exec.attempt s = .error e t) :
    t.Continues journal hook := by
  have hsame := h.attempt
  rw [hattempt] at hsame
  cases hsame with
  | error _ ht => exact ht.2

end Continues

end Machine

end GameBoy
