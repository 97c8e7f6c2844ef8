import GameBoy.Bus.Flat
import GameBoy.Proofs.Steps

/-!
# When interrupts become enabled

The enable is raised by RETI, and by the instruction after an EI: the request passes through two
latches, and takes effect when the second instruction ends. An EI that is itself the instruction
after an EI finds the second latch in use. It raises the enable for the EI before it, and its own
request stays in the first latch. The request moves on while an interrupt is served, and raises the
enable when the second instruction of the interrupt's routine ends.

Main statements: `Machine.enable_raised_iff`, which has the exact condition under which a step
raises the enable, and `Machine.enable_raised_in_routine`, in which nothing asked for it.
-/

namespace GameBoy

variable {β : Type}

/-! ## What a step does to the enable -/

namespace Action

/-- The enable and its two latches after a commit. -/
def enable (ime pending armed : Bool) : Action → Bool × Bool × Bool
  | operation .di => (false, false, false)
  | operation .ei => (ime, pending || !ime, armed)
  | operation .reti => (true, pending, armed)
  | _ => (ime, pending, armed)

theorem enable_commit (action : Action) (fetched loaded : UInt16) (cpu : Cpu) :
    let after := action.phases.commit fetched loaded cpu
    (after.ime, after.enablePending, after.enableArmed) =
      action.enable cpu.ime cpu.enablePending cpu.enableArmed := by
  cases action with
  | operation op =>
    cases op with
    | ei =>
      obtain ⟨_, ime, _, pending, armed, _, _, _, _, _, _, _⟩ := cpu
      cases ime <;> simp [phases, Operation.phases, Operation.control, enable]
    | _ => rfl
  | _ => rfl

/-- What becomes of the latches when an instruction ends, if only one of them was in use: the first
is in use if an EI raised the enable, and the second if an EI did not, or if the first was in use
and not cancelled. -/
theorem enable_advance (action : Action) {ime pending armed : Bool}
    (h : ¬ (pending = true ∧ armed = true)) :
    let (ime', pending', armed') := action.enable ime pending armed
    ((armed' && pending') = true ↔
      action = .operation .ei ∧ ime = false ∧ (ime' || armed') = true) ∧
    ((!armed' && pending') = true ↔
      (action = .operation .ei ∧ (ime' || armed') = false) ∨
        action ≠ .operation .di ∧ pending = true) := by
  by_cases hspecial : action = .operation .di ∨ action = .operation .ei ∨
      action = .operation .reti
  · rcases hspecial with rfl | rfl | rfl
    all_goals cases ime <;> cases pending <;> cases armed <;> simp_all [enable]
  · have hother : action.enable ime pending armed = (ime, pending, armed) := by
      unfold enable
      split <;> simp_all
    rw [hother]
    cases pending <;> cases armed <;> simp_all

/-- A commit and the end of its instruction raise an enable that is clear, if the commit is RETI's,
or if the second latch was in use and is not cancelled. -/
theorem enable_raises (action : Action) (pending armed : Bool) :
    ((action.enable false pending armed).1 || (action.enable false pending armed).2.2) = true ↔
      action = .operation .reti ∨ action ≠ .operation .di ∧ armed = true := by
  by_cases hspecial : action = .operation .di ∨ action = .operation .ei ∨
      action = .operation .reti
  · rcases hspecial with rfl | rfl | rfl
    all_goals simp [enable]
  · have hother : action.enable false pending armed = (false, pending, armed) := by
      unfold enable
      split <;> simp_all
    rw [hother]
    simp_all

/-- Nothing but HALT makes the processor wait. -/
theorem halted_commit {action : Action} (h : action ≠ .operation .halt) (fetched loaded : UInt16)
    (cpu : Cpu) : (action.phases.commit fetched loaded cpu).halted = cpu.halted := by
  cases action with
  | operation op =>
    cases op with
    | halt => exact absurd rfl h
    | ei =>
      change (if cpu.ime then _ else _ : Cpu).halted = _
      split <;> rfl
    | _ => rfl
  | _ => rfl

end Action

namespace Progress

/-- Whether a step executed an instruction. -/
def isExecuted : Progress → Bool
  | executed .. => true
  | _ => false

/-- Whether a step executed the given operation. -/
def executes (op : Operation) : Progress → Bool
  | executed i _ => i.action == .operation op
  | _ => false

/-- What a step does to the enable and its latches. -/
def Enables (before after : Cpu) : Progress → Prop
  | served _ => before.ime = true ∧ after.ime = false ∧
      after.enablePending = before.enablePending ∧ after.enableArmed = before.enableArmed
  | idle => before.halted = true ∧ after.ime = before.ime ∧
      after.enablePending = before.enablePending ∧ after.enableArmed = before.enableArmed
  | executed i _ =>
    let (ime, pending, armed) :=
      i.action.enable before.ime before.enablePending before.enableArmed
    after.ime = (ime || armed) ∧ after.enablePending = (armed && pending) ∧
      after.enableArmed = (!armed && pending) ∧
      (i.action = .operation .ei → after.halted = false)

end Progress

/-- A processor that has done nothing yet; its limit and its hook may have been set. -/
def Cpu.IsNew (cpu : Cpu) : Prop :=
  ∃ limit hook, cpu = { powerOn with limit, hook } ∨ cpu = { booted with limit, hook }

theorem Cpu.IsNew.latches {cpu : Cpu} (h : cpu.IsNew) :
    cpu.enablePending = false ∧ cpu.enableArmed = false := by
  obtain ⟨limit, hook, rfl | rfl⟩ := h <;> exact ⟨rfl, rfl⟩

namespace Machine

variable [Bus β] {s t u : Machine β} {p : Progress} {ps : List Progress}

theorem step_enables (h : step s = .ok p t) : p.Enables s.cpu t.cpu := by
  cases (step_ok h).2.2 with
  | served i v _ hime hpush =>
    obtain ⟨_, _, _, _, -, -, rfl⟩ := Exec.push_eq_ok.1 hpush
    exact ⟨hime, rfl, rfl, rfl⟩
  | idle _ hhalted => exact ⟨hhalted, rfl, rfl, rfl⟩
  | executed i b cost v _ hawake hdecoded hperformed =>
    obtain ⟨fetched, loaded, pc, sp, hcpu⟩ :=
      Instruction.execute_commit (Exec.instructionAt_ok hdecoded) hperformed
    obtain ⟨halted, hentered⟩ := s.cpu_entered i b
    generalize hready : ({ (s.entered i b).cpu with
      regs := { (s.entered i b).cpu.regs with pc, sp } } : Cpu) = ready at hcpu
    obtain ⟨hime, hpending, harmed, hhalted⟩ : ready.ime = s.cpu.ime ∧
        ready.enablePending = s.cpu.enablePending ∧ ready.enableArmed = s.cpu.enableArmed ∧
        ready.halted = false := by
      rw [← hready]
      refine ⟨?_, ?_, ?_, hawake⟩
      all_goals rw [hentered]
    have henable := i.action.enable_commit fetched loaded ready
    rw [hime, hpending, harmed] at henable
    simp only [Progress.Enables, cpu_shown, cpu_counted, Cpu.advanceEnable_eq, ← henable, hcpu,
      Instruction.phases, true_and]
    intro hei
    have hother : i.action ≠ .operation .halt := by
      rw [hei]
      decide
    exact (Action.halted_commit hother _ _ _).trans hhalted

/-! ## Histories -/

/-- Whether the last step of a history executed EI. -/
def Asked (ps : List Progress) : Bool := ps.getLast?.any (·.executes .ei)

/-- In the history of a run an EI raised the enable itself, and since then `n` instructions were
executed, none of which was DI. The request of that EI is still on its way while `n` is at most
one. -/
inductive Leftover (s₀ : Machine β) : Nat → List Progress → Machine β → Prop where
  | raised {ps : List Progress} {t u : Machine β} {p : Progress} : Run s₀ ps t →
      step t = .ok p u → p.executes .ei = true → t.cpu.ime = false → u.cpu.ime = true →
      Leftover s₀ 0 (ps ++ [p]) u
  | other {n : Nat} {ps : List Progress} {t u : Machine β} {p : Progress} : Leftover s₀ n ps t →
      step t = .ok p u → p.isExecuted = false → Leftover s₀ n (ps ++ [p]) u
  | executed {n : Nat} {ps : List Progress} {t u : Machine β} {p : Progress} : Leftover s₀ n ps t →
      step t = .ok p u → p.isExecuted = true → p.executes .di = false →
      Leftover s₀ (n + 1) (ps ++ [p]) u

theorem Leftover.run {s₀ : Machine β} {n : Nat} (h : Leftover s₀ n ps t) : Run s₀ ps t := by
  induction h with
  | raised hrun hstep => exact .snoc hrun hstep
  | other _ hstep _ ih => exact .snoc ih hstep
  | executed _ hstep _ _ ih => exact .snoc ih hstep

theorem Leftover.not_nil {s₀ : Machine β} {n : Nat} : ¬ Leftover s₀ n [] t := by
  intro h
  generalize hps : ([] : List Progress) = ps at h
  cases h <;> simp at hps

/-- How one more step changes what is left over. -/
theorem leftover_snoc {s₀ : Machine β} {n : Nat} (hrun : Run s₀ ps t) (hstep : step t = .ok p u) :
    Leftover s₀ n (ps ++ [p]) u ↔
      (n = 0 ∧ p.executes .ei = true ∧ t.cpu.ime = false ∧ u.cpu.ime = true) ∨
      (p.isExecuted = false ∧ Leftover s₀ n ps t) ∨
      ∃ m, n = m + 1 ∧ p.isExecuted = true ∧ p.executes .di = false ∧ Leftover s₀ m ps t := by
  constructor
  · intro h
    generalize hqs : ps ++ [p] = qs at h
    cases h with
    | raised hrun' hstep' hei hbefore hafter =>
      obtain ⟨rfl, rfl⟩ := List.append_singleton_inj.1 hqs
      rw [hrun.unique hrun']
      exact .inl ⟨rfl, hei, hbefore, hafter⟩
    | other hleft _ hother =>
      obtain ⟨rfl, rfl⟩ := List.append_singleton_inj.1 hqs
      rw [hrun.unique hleft.run]
      exact .inr (.inl ⟨hother, hleft⟩)
    | executed hleft _ hexecuted hdi =>
      obtain ⟨rfl, rfl⟩ := List.append_singleton_inj.1 hqs
      rw [hrun.unique hleft.run]
      exact .inr (.inr ⟨_, rfl, hexecuted, hdi, hleft⟩)
  · rintro (⟨rfl, hei, hbefore, hafter⟩ | ⟨hother, hleft⟩ | ⟨m, rfl, hexecuted, hdi, hleft⟩)
    · exact .raised hrun hstep hei hbefore hafter
    · exact .other hleft hstep hother
    · exact .executed hleft hstep hexecuted hdi

/-! ## The latches tell the history -/

/-- What the latches say about the history of a run. -/
structure EnableHistory (s₀ : Machine β) (ps : List Progress) (s : Machine β) : Prop where
  /-- A request is in one latch at a time. -/
  exclusive : ¬ (s.cpu.enablePending = true ∧ s.cpu.enableArmed = true)
  /-- The first latch holds only what an EI left over. -/
  pending : s.cpu.enablePending = true ↔ Leftover s₀ 0 ps s
  /-- The second latch holds the request of the last step, or what is left over. -/
  armed : s.cpu.enableArmed = true ↔
    (Asked ps = true ∧ s.cpu.ime = false) ∨ Leftover s₀ 1 ps s
  /-- After an EI the processor does not wait. -/
  awake : Asked ps = true → s.cpu.halted = false

theorem enableHistory_refl {s₀ : Machine β} (hpending : s₀.cpu.enablePending = false)
    (harmed : s₀.cpu.enableArmed = false) :
    EnableHistory s₀ [] s₀ where
  exclusive := by simp [hpending]
  pending := by simp [hpending, Leftover.not_nil]
  armed := by simp [harmed, Leftover.not_nil, Asked]
  awake := by simp [Asked]

theorem EnableHistory.snoc {s₀ : Machine β} (h : EnableHistory s₀ ps t) (hrun : Run s₀ ps t)
    (hstep : step t = .ok p u) : EnableHistory s₀ (ps ++ [p]) u := by
  have henables := step_enables hstep
  have hleft (n : Nat) := leftover_snoc (n := n) hrun hstep
  have hasked : Asked (ps ++ [p]) = p.executes .ei := by simp [Asked]
  obtain ⟨hexclusive, hpending, harmed, hawake⟩ := h
  cases p with
  | served i =>
    obtain ⟨hime, -, hpending', harmed'⟩ := henables
    have hsame (n : Nat) : Leftover s₀ n (ps ++ [.served i]) u ↔ Leftover s₀ n ps t := by
      simpa [Progress.isExecuted, Progress.executes] using hleft n
    refine ⟨by rwa [hpending', harmed'], by rw [hpending', hsame, hpending], ?_, ?_⟩
    · rw [harmed', harmed, hsame, hasked]
      simp [hime, Progress.executes]
    · simp [hasked, Progress.executes]
  | idle =>
    obtain ⟨hhalted, hime, hpending', harmed'⟩ := henables
    have hsame (n : Nat) : Leftover s₀ n (ps ++ [.idle]) u ↔ Leftover s₀ n ps t := by
      simpa [Progress.isExecuted, Progress.executes] using hleft n
    have hnot : ¬ Asked ps = true := by
      intro h
      rw [hawake h] at hhalted
      exact Bool.false_ne_true hhalted
    refine ⟨by rwa [hpending', harmed'], by rw [hpending', hsame, hpending], ?_, ?_⟩
    · rw [harmed', harmed, hsame, hasked]
      simp [hnot, Progress.executes]
    · simp [hasked, Progress.executes]
  | executed i cost =>
    have hnow : Leftover s₀ 0 (ps ++ [.executed i cost]) u ↔
        i.action = .operation .ei ∧ t.cpu.ime = false ∧ u.cpu.ime = true := by
      simpa [Progress.isExecuted, Progress.executes] using hleft 0
    have hlast : Leftover s₀ 1 (ps ++ [.executed i cost]) u ↔
        i.action ≠ .operation .di ∧ t.cpu.enablePending = true := by
      simpa [Progress.isExecuted, Progress.executes, hpending] using hleft 1
    have hasked' : Asked (ps ++ [.executed i cost]) = true ↔ i.action = .operation .ei := by
      simp [hasked, Progress.executes]
    obtain ⟨hime', hpending', harmed', hhalted⟩ := henables
    obtain ⟨hfirst, hsecond⟩ := i.action.enable_advance hexclusive
    refine ⟨?_, ?_, ?_, ?_⟩
    · rintro ⟨hp, ha⟩
      rw [hpending'] at hp
      rw [harmed'] at ha
      simp_all
    · rw [hnow, hpending', hime']
      exact hfirst
    · rw [hlast, hasked', harmed', hime']
      exact hsecond
    · intro h
      exact hhalted (hasked'.1 h)

theorem enableHistory {s₀ : Machine β} (hpending : s₀.cpu.enablePending = false)
    (harmed : s₀.cpu.enableArmed = false) (h : Run s₀ ps s) : EnableHistory s₀ ps s := by
  induction h with
  | refl => exact enableHistory_refl hpending harmed
  | snoc hrun hstep ih => exact ih.snoc hrun hstep

/-! ## When the enable is raised -/

/-- A step raises the enable, in a run that begins when the processor is new, exactly if it executes
RETI, or any instruction but DI right after an EI, or any instruction but DI when the request of an
EI was left over and one instruction has been executed since. -/
theorem enable_raised_iff {s₀ : Machine β} (hnew : s₀.cpu.IsNew) (hrun : Run s₀ ps s)
    (hclear : s.cpu.ime = false) (hstep : step s = .ok p t) :
    t.cpu.ime = true ↔ p.executes .reti = true ∨
      (p.isExecuted = true ∧ p.executes .di = false ∧
        (Asked ps = true ∨ Leftover s₀ 1 ps s)) := by
  have hhistory := enableHistory hnew.latches.1 hnew.latches.2 hrun
  have henables := step_enables hstep
  cases p with
  | served i => simp [henables.1] at hclear
  | idle => simp [henables.2.1, hclear, Progress.executes, Progress.isExecuted]
  | executed i cost =>
    have harmed : s.cpu.enableArmed = true ↔ Asked ps = true ∨ Leftover s₀ 1 ps s := by
      rw [hhistory.armed]
      simp [hclear]
    have hraises := i.action.enable_raises s.cpu.enablePending s.cpu.enableArmed
    rw [harmed, ← hclear] at hraises
    calc t.cpu.ime = true
      _ ↔ _ := iff_of_eq (congrArg (· = true) henables.1)
      _ ↔ _ := hraises
      _ ↔ _ := by simp [Progress.executes, Progress.isExecuted]

/-- The instruction after an EI raises the enable. -/
theorem enable_raised_after_ei : ∃ s₀ s t : Machine FlatBus,
    s₀.cpu.IsNew ∧ Run s₀ [.executed ⟨0xFB, false⟩ 4] s ∧ s.cpu.ime = false ∧
    step s = .ok (.executed ⟨0x00, false⟩ 4) t ∧ t.cpu.ime = true := by
  obtain ⟨s₀, s, t, hnew, hei, hclear, hnop⟩ : ∃ s₀ s t : Machine FlatBus, s₀.cpu.IsNew ∧
      step s₀ = .ok (.executed ⟨0xFB, false⟩ 4) s ∧ s.cpu.ime = false ∧
      step s = .ok (.executed ⟨0x00, false⟩ 4) t :=
    ⟨start .powerOn ⟨(Vector.replicate 0x10000 0).set 0 0xFB, fun _ => true, fun _ => true, 0, 0⟩,
      _, _, ⟨none, none, .inl rfl⟩, rfl, rfl, rfl⟩
  have hrun : Run s₀ [.executed ⟨0xFB, false⟩ 4] s := .snoc .refl hei
  exact ⟨s₀, s, t, hnew, hrun, hclear, hnop,
    (enable_raised_iff hnew hrun hclear hnop).2 (.inr ⟨rfl, by decide, .inl (by decide)⟩)⟩

/-- Two EIs in a row, an interrupt that is served at once, and two instructions of its routine,
which do nothing: the second of them raises the enable, although it is not RETI and comes after no
EI. -/
theorem enable_raised_in_routine : ∃ s₀ s t : Machine FlatBus,
    s₀.cpu = Cpu.powerOn ∧
    Run s₀ [.executed ⟨0xFB, false⟩ 4, .executed ⟨0xFB, false⟩ 4, .served .vblank,
      .executed ⟨0x00, false⟩ 4] s ∧
    s.cpu.ime = false ∧ step s = .ok (.executed ⟨0x00, false⟩ 4) t ∧ t.cpu.ime = true := by
  obtain ⟨s₀, s₁, s₂, s₃, s, t, hnew, h₁, h₂, h₃, h₄, hclear, h₅, hraised⟩ :
      ∃ s₀ s₁ s₂ s₃ s t : Machine FlatBus, s₀.cpu = Cpu.powerOn ∧
        step s₀ = .ok (.executed ⟨0xFB, false⟩ 4) s₁ ∧
        step s₁ = .ok (.executed ⟨0xFB, false⟩ 4) s₂ ∧
        step s₂ = .ok (.served .vblank) s₃ ∧
        step s₃ = .ok (.executed ⟨0x00, false⟩ 4) s ∧ s.cpu.ime = false ∧
        step s = .ok (.executed ⟨0x00, false⟩ 4) t ∧ t.cpu.ime = true :=
    ⟨start .powerOn ⟨((Vector.replicate 0x10000 0).set 0 0xFB).set 1 0xFB, fun _ => true,
      fun _ => true, 1, 1⟩, _, _, _, _, _, rfl, rfl, rfl, rfl, rfl, rfl, rfl, rfl⟩
  exact ⟨s₀, s, t, hnew, .snoc (.snoc (.snoc (.snoc .refl h₁) h₂) h₃) h₄, hclear, h₅, hraised⟩

end Machine

end GameBoy
