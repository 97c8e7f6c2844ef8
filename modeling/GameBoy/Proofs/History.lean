import GameBoy.Proofs.Accesses
import GameBoy.Proofs.Lockstep
import GameBoy.Proofs.Watch

/-!
# Histories of a bus

A history is what passes over a bus, event by event, with the states of the bus in between. A monitor
sees the events of a history of its bus, and the request of an interrupt line is withdrawn only by a
step that serves it.

Main statements: `Machine.history_of_serves`, `Machine.history_of_calm` and `Machine.run_history`.
-/

namespace GameBoy

variable {β : Type}

/-- Whether an event withdraws the request of an interrupt line. -/
def Traffic.withdraws : Traffic → Bool
  | acknowledged _ => true
  | _ => false

namespace Bus

/-! ## Histories -/

/-- An event, with the bus before and after it. -/
structure Passage (β : Type) where
  before : β
  event : Traffic
  after : β

variable [Bus β]

/-- The bus reacts to the event in this way. -/
def Passage.IsGenuine (p : Passage β) : Prop :=
  match p.event with
  | .read address v => Bus.read address p.before = .ok v p.after
  | .readFailed address => ∃ e, Bus.read address p.before = .error e p.after
  | .wrote address v => ∃ notice, Bus.write address v p.before = .ok notice p.after
  | .writeFailed address v => ∃ e, Bus.write address v p.before = .error e p.after
  | .acknowledged line => p.after = Bus.acknowledge p.before line
  | .ended cycles => p.after = (Bus.endStep p.before cycles).2

/-- A bus gets from one state to another by events, the first one first. -/
inductive History : β → List (Passage β) → β → Prop where
  | nil (b : β) : History b [] b
  | cons {p : Passage β} {ps : List (Passage β)} {c : β} :
      p.IsGenuine → History p.after ps c → History p.before (p :: ps) c

variable {b c d : β} {p : Passage β} {ps qs : List (Passage β)}

theorem history_append : History b (ps ++ qs) d ↔ ∃ c, History b ps c ∧ History c qs d := by
  induction ps generalizing b with
  | nil =>
    constructor
    · exact fun h => ⟨b, .nil b, h⟩
    · rintro ⟨_, ⟨⟩, h⟩
      exact h
  | cons p ps ih =>
    constructor
    · rintro (_ | ⟨hp, h⟩)
      obtain ⟨c, hps, hqs⟩ := ih.1 h
      exact ⟨c, .cons hp hps, hqs⟩
    · rintro ⟨c, _ | ⟨hp, hps⟩, hqs⟩
      exact .cons hp (ih.2 ⟨c, hps, hqs⟩)

theorem History.snoc (h : History b ps p.before) (hp : p.IsGenuine) :
    History b (ps ++ [p]) p.after :=
  history_append.2 ⟨_, h, .cons hp (.nil _)⟩

theorem History.genuine (h : History b ps c) : ∀ p ∈ ps, p.IsGenuine := by
  induction h with
  | nil => simp
  | cons hp _ ih => exact List.forall_mem_cons.2 ⟨hp, ih⟩

theorem Passage.IsGenuine.keeps {P : β → Prop} (hP : Bus.Invariant P) (hp : p.IsGenuine)
    (hbefore : P p.before) : P p.after := by
  obtain ⟨before, event, after⟩ := p
  cases event with
  | read address v => exact hP.read_ok hbefore hp
  | readFailed address =>
    obtain ⟨e, hread⟩ := hp
    exact hP.read_error hbefore hread
  | wrote address v =>
    obtain ⟨notice, hwrite⟩ := hp
    exact hP.write_ok hbefore hwrite
  | writeFailed address v =>
    obtain ⟨e, hwrite⟩ := hp
    exact hP.write_error hbefore hwrite
  | acknowledged line =>
    have hafter : after = Bus.acknowledge before line := hp
    exact hafter ▸ hP.acknowledge line hbefore
  | ended cycles =>
    have hafter : after = (Bus.endStep before cycles).2 := hp
    exact hafter ▸ hP.endStep cycles hbefore

/-- An invariant of the bus holds throughout a history. -/
theorem History.keeps {P : β → Prop} (hP : Bus.Invariant P) (h : History b ps c) (hb : P b) :
    ∀ p ∈ ps, P p.after := by
  induction h with
  | nil => simp
  | cons hp _ ih =>
    have hafter := hp.keeps hP hb
    exact List.forall_mem_cons.2 ⟨hafter, ih hafter⟩

/-- The events of a history. -/
def events (ps : List (Passage β)) : Array Traffic := (ps.map (·.event)).toArray

omit [Bus β] in
@[simp] theorem append_events_nil (traffic : Array Traffic) :
    traffic ++ events ([] : List (Passage β)) = traffic := Array.append_empty

omit [Bus β] in
@[simp] theorem append_events_cons (traffic : Array Traffic) (p : Passage β)
    (ps : List (Passage β)) :
    traffic ++ events (p :: ps) = traffic.push p.event ++ events ps := by
  simp [events]

omit [Bus β] in
theorem append_events_append (traffic : Array Traffic) (ps qs : List (Passage β)) :
    traffic ++ events (ps ++ qs) = traffic ++ events ps ++ events qs := by
  simp [events]

end Bus

namespace Machine

open Bus (Passage History events)

variable [Bus β]

/-! ## Steps that serve no interrupt -/

/-- A machine with a monitor is where the machine itself is. The monitor has seen the given traffic
and then a history in which no request is withdrawn. -/
def Follows (b : β) (traffic : Array Traffic) (s : Machine β) (t : Machine (Monitored β)) : Prop :=
  ∃ ps, History b ps s.bus ∧ (∀ p ∈ ps, p.event.withdraws = false) ∧
    t = s.watch (traffic ++ events ps)

variable {b : β} {traffic : Array Traffic} {s t : Machine β} {ps : List (Passage β)}

theorem Follows.snoc (hhistory : History b ps s.bus) (hps : ∀ p ∈ ps, p.event.withdraws = false)
    {event : Traffic} (hevent : event.withdraws = false)
    (hgenuine : Passage.IsGenuine ⟨s.bus, event, t.bus⟩) :
    Follows b traffic t (t.watch ((traffic ++ events ps).push event)) := by
  refine ⟨ps ++ [⟨s.bus, event, t.bus⟩], hhistory.snoc hgenuine, ?_, by simp [events]⟩
  intro p hp
  rcases List.mem_append.1 hp with hp | hp
  · exact hps p hp
  · rwa [List.mem_singleton.1 hp]

theorem follows_calm (b : β) (traffic : Array Traffic) :
    CalmSimulation (Follows b traffic) where
  regs := by
    rintro s _ ⟨ps, -, -, rfl⟩
    rfl
  change hf := by
    rintro s _ ⟨ps, hhistory, hps, rfl⟩
    exact .ok () ⟨ps, hhistory, hps, rfl⟩
  read address fault := by
    rintro s _ ⟨ps, hhistory, hps, rfl⟩
    simp only [Exec.access_apply, watch, Monitored.read_apply]
    cases hread : Bus.read address s.bus with
    | ok v c => exact .ok v (Follows.snoc (t := { s with bus := c }) hhistory hps rfl hread)
    | error e c =>
      exact .error _ (Follows.snoc (t := { s with bus := c }) hhistory hps rfl ⟨e, hread⟩)
  write address v := by
    rintro s _ ⟨ps, hhistory, hps, rfl⟩
    simp only [Exec.write_apply, watch, Monitored.write_apply]
    cases hwrite : Bus.write address v s.bus with
    | ok notice c =>
      exact .ok () (Follows.snoc (t := { s with bus := c, journal := s.journal.note notice })
        hhistory hps rfl ⟨notice, hwrite⟩)
    | error e c =>
      exact .error _ (Follows.snoc (t := { s with bus := c }) hhistory hps rfl ⟨e, hwrite⟩)
  finish cycles := by
    rintro s _ ⟨ps, hhistory, hps, rfl⟩
    exact .ok () (Follows.snoc (t := s.finished cycles) hhistory hps rfl rfl)
  fireHook pc i := by
    rintro s _ ⟨ps, hhistory, hps, rfl⟩
    have hshown : (s.watch (traffic ++ events ps)).shown pc i =
        (s.shown pc i).watch (traffic ++ events ps) := s.shown_watch _ pc i
    rw [Exec.fireHook_apply, Exec.fireHook_apply, hshown]
    exact .ok () ⟨ps, s.bus_shown pc i ▸ hhistory, hps, rfl⟩

/-! ## Steps that serve an interrupt -/

/-- The next step serves an interrupt. -/
structure Serves (s : Machine β) (i : Interrupt) : Prop where
  running : s.cpu.fault = none
  allowed : s.cpu.exhausted = false
  enabled : s.cpu.ime = true
  pending : Interrupt.first? (Bus.pending s.bus) = some i

/-- The events of a step that serves an interrupt: the request of its line is withdrawn, and the
program counter is pushed, high byte first. If the bus accepts both bytes, the processor goes on at
the line's address; otherwise the step fails. -/
inductive Dispatched (s : Machine β) (i : Interrupt) : List Traffic → Prop where
  | served (t : Machine β) (stepped : step s = .ok (.served i) t)
      (pc : t.cpu.regs.pc = 0x40 + 8 * i.line.val.toUInt16)
      (sp : t.cpu.regs.sp = s.cpu.regs.sp - 2) (disabled : t.cpu.ime = false) :
      Dispatched s i [.acknowledged i.line,
        .wrote (s.cpu.regs.sp - 1) (Word.high s.cpu.regs.pc),
        .wrote (s.cpu.regs.sp - 2) (Word.low s.cpu.regs.pc), .ended t.cpu.cycles]
  | highRefused (e : BusError) (t : Machine β) (failed : step s = .error (.bus e) t) :
      Dispatched s i [.acknowledged i.line,
        .writeFailed (s.cpu.regs.sp - 1) (Word.high s.cpu.regs.pc)]
  | lowRefused (e : BusError) (t : Machine β) (failed : step s = .error (.bus e) t) :
      Dispatched s i [.acknowledged i.line,
        .wrote (s.cpu.regs.sp - 1) (Word.high s.cpu.regs.pc),
        .writeFailed (s.cpu.regs.sp - 2) (Word.low s.cpu.regs.pc)]

variable {i : Interrupt} {w : UInt16} {e : Fault}

theorem Dispatched.withdraws {es : List Traffic} (h : s.Dispatched i es) :
    ∃ event ∈ es, event.withdraws = true := by
  cases h <;> exact ⟨_, List.mem_cons_self, rfl⟩

theorem history_push_ok (h : Exec.push w s = .ok () t) (traffic : Array Traffic) :
    ∃ ps, History s.bus ps t.bus ∧ t.cpu = s.cpu.drop 2 ∧
      Exec.push w (s.watch traffic) = .ok () (t.watch (traffic ++ events ps)) ∧
      ps.map (·.event) = [.wrote (s.cpu.regs.sp - 1) (Word.high w),
        .wrote (s.cpu.regs.sp - 2) (Word.low w)] := by
  obtain ⟨notice, b, notice', b', hhigh, hlow, rfl⟩ := Exec.push_eq_ok.1 h
  let high : Passage β := ⟨s.bus, .wrote (s.cpu.regs.sp - 1) (Word.high w), b⟩
  let low : Passage β := ⟨b, .wrote (s.cpu.regs.sp - 2) (Word.low w), b'⟩
  have hgenuine : high.IsGenuine ∧ low.IsGenuine := ⟨⟨notice, hhigh⟩, notice', hlow⟩
  refine ⟨[high, low], .cons hgenuine.1 (.cons hgenuine.2 (.nil _)), rfl, ?_, rfl⟩
  exact Exec.push_eq_ok.2 ⟨notice, _, notice', _, Monitored.write_ok hhigh,
    Monitored.write_ok hlow, by simp [watch, high, low]⟩

theorem history_push_error (h : Exec.push w s = .error e t) (traffic : Array Traffic) :
    ∃ ps error, History s.bus ps t.bus ∧ e = .bus error ∧
      Exec.push w (s.watch traffic) = .error e (t.watch (traffic ++ events ps)) ∧
      (ps.map (·.event) = [.writeFailed (s.cpu.regs.sp - 1) (Word.high w)] ∨
        ps.map (·.event) = [.wrote (s.cpu.regs.sp - 1) (Word.high w),
          .writeFailed (s.cpu.regs.sp - 2) (Word.low w)]) := by
  rcases Exec.push_eq_error.1 h with
    ⟨error, b, hhigh, rfl, rfl⟩ | ⟨notice, b, error, b', hhigh, hlow, rfl, rfl⟩
  · let high : Passage β := ⟨s.bus, .writeFailed (s.cpu.regs.sp - 1) (Word.high w), b⟩
    have hgenuine : high.IsGenuine := ⟨error, hhigh⟩
    refine ⟨[high], error, .cons hgenuine (.nil _), rfl, ?_, .inl rfl⟩
    exact Exec.push_eq_error.2 (.inl ⟨error, _, Monitored.write_error hhigh, rfl,
      by simp [watch, high]⟩)
  · let high : Passage β := ⟨s.bus, .wrote (s.cpu.regs.sp - 1) (Word.high w), b⟩
    let low : Passage β := ⟨b, .writeFailed (s.cpu.regs.sp - 2) (Word.low w), b'⟩
    have hgenuine : high.IsGenuine ∧ low.IsGenuine := ⟨⟨notice, hhigh⟩, error, hlow⟩
    refine ⟨[high, low], error, .cons hgenuine.1 (.cons hgenuine.2 (.nil _)), rfl, ?_, .inr rfl⟩
    exact Exec.push_eq_error.2 (.inr ⟨notice, _, error, _, Monitored.write_ok hhigh,
      Monitored.write_error hlow, rfl, by simp [watch, high, low]⟩)

theorem Serves.watch (h : s.Serves i) (traffic : Array Traffic) : (s.watch traffic).Serves i :=
  ⟨h.running, h.allowed, h.enabled, h.pending⟩

theorem Serves.step_ok (h : s.Serves i)
    (hpush : Exec.push s.cpu.regs.pc (s.accepted i) = .ok () t) :
    step s = .ok (.served i) ((t.landed i s.cpu.regs.pc).finished Interrupt.serviceCycles) := by
  simp only [step, h.running, attempt_served h.allowed h.pending h.enabled, hpush]

theorem Serves.step_error (h : s.Serves i)
    (hpush : Exec.push s.cpu.regs.pc (s.accepted i) = .error e t) :
    step s = .error e (t.stopWith e) := by
  simp only [step, h.running, attempt_served h.allowed h.pending h.enabled, hpush]

/-- What passes over the bus in a step that serves an interrupt, once the request is withdrawn. -/
theorem history_of_accepted (h : s.Serves i) (traffic : Array Traffic) :
    ∃ ps, History (s.accepted i).bus ps s.next.bus ∧
      (s.watch traffic).next =
        s.next.watch (traffic.push (.acknowledged i.line) ++ events ps) ∧
      s.Dispatched i (.acknowledged i.line :: ps.map (·.event)) ∧
      ∀ event ∈ ps.map (·.event), event.withdraws = false := by
  cases hpush : Exec.push s.cpu.regs.pc (s.accepted i) with
  | ok _ t =>
    obtain ⟨ps, hhistory, hcpu, hpushed, hevents⟩ :=
      history_push_ok hpush (traffic.push (.acknowledged i.line))
    let u := (t.landed i s.cpu.regs.pc).finished Interrupt.serviceCycles
    let last : Passage β := ⟨t.bus, .ended u.cpu.cycles, u.bus⟩
    have hlast : last.IsGenuine := rfl
    have hstep : step s = .ok (.served i) u := h.step_ok hpush
    have hwatched : step (s.watch traffic) = .ok (.served i)
        (u.watch ((traffic.push (.acknowledged i.line) ++ events ps).push last.event)) :=
      (h.watch traffic).step_ok hpushed
    have hall : (ps ++ [last]).map (·.event) =
        [.wrote (s.cpu.regs.sp - 1) (Word.high s.cpu.regs.pc),
          .wrote (s.cpu.regs.sp - 2) (Word.low s.cpu.regs.pc), .ended u.cpu.cycles] := by
      rw [List.map_append, hevents]
      rfl
    refine ⟨ps ++ [last], ?_, ?_, ?_, ?_⟩
    · rw [next_of_ok hstep]
      exact hhistory.snoc hlast
    · rw [next_of_ok hstep, next_of_ok hwatched, Bus.append_events_append]
      simp
    · rw [hall]
      have hlanded : u.cpu.regs.sp = t.cpu.regs.sp ∧ u.cpu.ime = t.cpu.ime := ⟨rfl, rfl⟩
      exact .served u hstep rfl (by rw [hlanded.1, hcpu]; rfl) (by rw [hlanded.2, hcpu]; rfl)
    · rw [hall]
      simp [Traffic.withdraws]
  | error e t =>
    obtain ⟨ps, error, hhistory, rfl, hpushed, hevents⟩ :=
      history_push_error hpush (traffic.push (.acknowledged i.line))
    have hstep := h.step_error hpush
    have hwatched : step (s.watch traffic) = .error (.bus error)
        ((t.stopWith (.bus error)).watch (traffic.push (.acknowledged i.line) ++ events ps)) :=
      (h.watch traffic).step_error hpushed
    refine ⟨ps, ?_, ?_, ?_, ?_⟩
    · rw [next_of_error hstep]
      exact hhistory
    · rw [next_of_error hstep, next_of_error hwatched]
    · rcases hevents with hevents | hevents
      · rw [hevents]
        exact .highRefused error _ hstep
      · rw [hevents]
        exact .lowRefused error _ hstep
    · rcases hevents with hevents | hevents <;> simp [hevents, Traffic.withdraws]

/-- What passes over the bus in a step that serves an interrupt. -/
theorem history_of_serves (h : s.Serves i) (traffic : Array Traffic) :
    ∃ ps, History s.bus ps s.next.bus ∧
      (s.watch traffic).next = s.next.watch (traffic ++ events ps) ∧
      s.Dispatched i (ps.map (·.event)) ∧
      ∀ p ∈ ps, p.event.withdraws = true → p.event = .acknowledged i.line ∧ p.before = s.bus := by
  obtain ⟨ps, hhistory, hnext, hdispatched, hquiet⟩ := history_of_accepted h traffic
  let first : Passage β := ⟨s.bus, .acknowledged i.line, Bus.acknowledge s.bus i.line⟩
  have hfirst : first.IsGenuine := rfl
  refine ⟨first :: ps, .cons hfirst hhistory, ?_, hdispatched, ?_⟩
  · rw [hnext, Bus.append_events_cons]
  · intro p hp hwithdraws
    rcases List.mem_cons.1 hp with rfl | hp
    · exact ⟨rfl, rfl⟩
    · rw [hquiet _ (List.mem_map_of_mem hp)] at hwithdraws
      cases hwithdraws

/-- What passes over the bus in a step that serves no interrupt, be it because nothing is pending or
because the machine has stopped. -/
theorem history_of_calm (h : ∀ i, ¬ s.Serves i) (traffic : Array Traffic) :
    ∃ ps, History s.bus ps s.next.bus ∧
      (s.watch traffic).next = s.next.watch (traffic ++ events ps) ∧
      ∀ p ∈ ps, p.event.withdraws = false := by
  have hfollows {u : Machine β} (hu : u.bus = s.bus) : Follows s.bus traffic u (u.watch traffic) :=
    ⟨[], hu ▸ .nil _, by simp, by simp⟩
  have hattempt (hfault : s.cpu.fault = none) : Exec.SameOutcome (Follows s.bus traffic)
      (Exec.attempt s) (Exec.attempt (s.watch traffic)) := by
    cases hlimit : s.cpu.exhausted with
    | true =>
      have hwatched : Exec.attempt (s.watch traffic) = _ := attempt_exhausted hlimit
      rw [attempt_exhausted hlimit, hwatched]
      exact .error _ (hfollows rfl)
    | false =>
      have hcalm : s.cpu.interrupted (Bus.pending s.bus) = false := by
        rw [← Bool.not_eq_true, Cpu.interrupted_iff]
        rintro ⟨i, hpending, hime⟩
        exact h i ⟨hfault, hlimit, hime, hpending⟩
      have hwatched : Exec.attempt (s.watch traffic) =
          if s.woken.cpu.halted then Exec.wait (s.woken.watch traffic)
          else Exec.executeNext (s.woken.watch traffic) :=
        attempt_calm (s := s.watch traffic) hlimit hcalm
      rw [attempt_calm hlimit hcalm, hwatched]
      have hcalm := follows_calm s.bus traffic
      cases s.woken.cpu.halted with
      | true => exact hcalm.wait _ _ (hfollows rfl)
      | false => exact hcalm.executeNext _ _ (hfollows rfl)
  have hstep : Exec.SameOutcome (Follows s.bus traffic) (step s) (step (s.watch traffic)) := by
    cases hfault : s.cpu.fault with
    | some e =>
      have hwatched : (s.watch traffic).cpu.fault = some e := hfault
      rw [step_stopped hfault, step_stopped hwatched]
      exact .error e (hfollows rfl)
    | none =>
      refine (hattempt hfault).step (hfollows rfl) rfl ?_
      rintro s _ e ⟨ps, hhistory, hps, rfl⟩
      exact ⟨ps, hhistory, hps, rfl⟩
  obtain ⟨ps, hhistory, hps, hnext⟩ := hstep.next
  exact ⟨ps, hhistory, hnext, hps⟩

/-! ## Runs -/

/-- What passes over the bus in a step. A request is withdrawn only by a step that serves it, and
before anything else happens in that step. -/
theorem step_history (s : Machine β) (traffic : Array Traffic) :
    ∃ ps, History s.bus ps s.next.bus ∧
      (s.watch traffic).next = s.next.watch (traffic ++ events ps) ∧
      ∀ p ∈ ps, p.event.withdraws = true →
        ∃ i, p.event = .acknowledged i.line ∧ p.before = s.bus ∧ s.Serves i := by
  by_cases hserves : ∃ i, s.Serves i
  · obtain ⟨i, hi⟩ := hserves
    obtain ⟨ps, hhistory, hnext, -, hfirst⟩ := history_of_serves hi traffic
    refine ⟨ps, hhistory, hnext, fun p hp hwithdraws => ?_⟩
    obtain ⟨hevent, hbefore⟩ := hfirst p hp hwithdraws
    exact ⟨i, hevent, hbefore, hi⟩
  · obtain ⟨ps, hhistory, hnext, hquiet⟩ := history_of_calm (not_exists.1 hserves) traffic
    refine ⟨ps, hhistory, hnext, fun p hp hwithdraws => ?_⟩
    rw [hquiet p hp] at hwithdraws
    cases hwithdraws

/-- What passes over the bus in a run of steps. -/
theorem run_history (s : Machine β) (n : Nat) (traffic : Array Traffic) :
    ∃ ps, History s.bus ps (next^[n] s).bus ∧
      next^[n] (s.watch traffic) = (next^[n] s).watch (traffic ++ events ps) ∧
      ∀ p ∈ ps, p.event.withdraws = true → ∃ m < n, ∃ i, p.event = .acknowledged i.line ∧
        p.before = (next^[m] s).bus ∧ (next^[m] s).Serves i := by
  induction n with
  | zero => exact ⟨[], .nil _, by simp, by simp⟩
  | succ n ih =>
    obtain ⟨ps, hhistory, hrun, hserved⟩ := ih
    obtain ⟨qs, hlast, hnext, hserves⟩ := (next^[n] s).step_history (traffic ++ events ps)
    rw [Function.iterate_succ_apply', Function.iterate_succ_apply', hrun, hnext]
    refine ⟨ps ++ qs, Bus.history_append.2 ⟨_, hhistory, hlast⟩, ?_, ?_⟩
    · rw [Bus.append_events_append]
    · intro p hp hwithdraws
      rcases List.mem_append.1 hp with hp | hp
      · obtain ⟨m, hm, hbefore⟩ := hserved p hp hwithdraws
        exact ⟨m, Nat.lt_succ_of_lt hm, hbefore⟩
      · exact ⟨n, n.lt_succ_self, hserves p hp hwithdraws⟩

end Machine

end GameBoy
