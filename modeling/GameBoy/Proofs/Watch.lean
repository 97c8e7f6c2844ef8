import GameBoy.Bus.Monitor
import GameBoy.Proofs.Lockstep
import GameBoy.Proofs.Runs

/-!
# Steps under a monitor

A monitor does not change what a step does, and what it sees of a step has a shape: some accesses,
and then, exactly if the step succeeds, one signal with the new total of cycles.

The shape is kept by sequencing, and an instruction under a monitor is executed in lockstep with the
instruction itself. Main statement: `Machine.step_watch`.
-/

namespace GameBoy

variable {β α γ : Type}

/-- Whether an event is the signal at the end of a step. -/
def Traffic.isEnd : Traffic → Bool
  | ended _ => true
  | _ => false

/-- The machine with a monitor on its bus, which has seen the given events. -/
def Machine.watch (s : Machine β) (traffic : Array Traffic) : Machine (Monitored β) :=
  ⟨s.cpu, ⟨s.bus, traffic⟩, s.journal, s.records⟩

theorem Machine.shown_watch (s : Machine β) (traffic : Array Traffic) (pc : UInt16)
    (i : Instruction) : (s.watch traffic).shown pc i = (s.shown pc i).watch traffic := by
  simp only [shown, watch]
  split <;> rfl

/-! ## Accesses under a monitor -/

namespace Monitored

variable [Bus β] (address : UInt16) (value : UInt8) (b : β) (traffic : Array Traffic)

theorem read_apply : Bus.read address (⟨b, traffic⟩ : Monitored β) =
    match Bus.read address b with
    | .ok value b => .ok value ⟨b, traffic.push (.read address value)⟩
    | .error e b => .error e ⟨b, traffic.push (.readFailed address)⟩ := rfl

theorem write_apply : Bus.write address value (⟨b, traffic⟩ : Monitored β) =
    match Bus.write address value b with
    | .ok notice b => .ok notice ⟨b, traffic.push (.wrote address value)⟩
    | .error e b => .error e ⟨b, traffic.push (.writeFailed address value)⟩ := rfl

variable {address value b traffic} {b' : β} {notice : Option Notice} {e : BusError}

theorem write_ok (h : Bus.write address value b = .ok notice b') :
    Bus.write address value (⟨b, traffic⟩ : Monitored β) =
      .ok notice ⟨b', traffic.push (.wrote address value)⟩ := by
  rw [write_apply, h]

theorem write_error (h : Bus.write address value b = .error e b') :
    Bus.write address value (⟨b, traffic⟩ : Monitored β) =
      .error e ⟨b', traffic.push (.writeFailed address value)⟩ := by
  rw [write_apply, h]

end Monitored

namespace Bus

/-- The access `y` does under a monitor what `x` does without, and the end of a step is not among
the events that it leaves. -/
def Watched (x : EStateM BusError β α) (y : EStateM BusError (Monitored β) α) : Prop :=
  ∀ b traffic, ∃ seen : Array Traffic, (∀ event ∈ seen, event.isEnd = false) ∧
    y ⟨b, traffic⟩ = match x b with
      | .ok a b => .ok a ⟨b, traffic ++ seen⟩
      | .error e b => .error e ⟨b, traffic ++ seen⟩

variable [Bus β]

theorem watched_read (address : UInt16) : Watched (β := β) (read address) (read address) := by
  intro b traffic
  rw [Monitored.read_apply]
  cases read address b with
  | ok v b => exact ⟨#[.read address v], by simp [Traffic.isEnd], by simp⟩
  | error e b => exact ⟨#[.readFailed address], by simp [Traffic.isEnd], by simp⟩

end Bus

namespace Exec

/-- The execution `y` does under a monitor what `x` does without. The end of a step is not among the
events that it leaves, apart from the last ones if it succeeds, which depend on the processor. -/
def Watched (last : Cpu → Array Traffic) (x : Exec β α) (y : Exec (Monitored β) α) : Prop :=
  ∀ s traffic, ∃ seen : Array Traffic, (∀ event ∈ seen, event.isEnd = false) ∧
    y (s.watch traffic) = match x s with
      | .ok a t => .ok a (t.watch (traffic ++ seen ++ last t.cpu))
      | .error e t => .error e (t.watch (traffic ++ seen))

/-- Under a monitor, nothing but accesses is seen. -/
abbrev Quiet (x : Exec β α) (y : Exec (Monitored β) α) : Prop := Watched (fun _ => #[]) x y

/-- Under a monitor, success ends with the one signal that ends a step. -/
abbrev Ending (x : Exec β α) (y : Exec (Monitored β) α) : Prop :=
  Watched (fun cpu => #[.ended cpu.cycles]) x y

variable {last : Cpu → Array Traffic} {x : Exec β α} {y : Exec (Monitored β) α} {f : α → Exec β γ}
  {g : α → Exec (Monitored β) γ}

theorem watched_bind (hx : Quiet x y) (hf : ∀ a, Watched last (f a) (g a)) :
    Watched last (x >>= f) (y >>= g) := by
  intro s traffic
  obtain ⟨seen, hseen, hy⟩ := hx s traffic
  simp only [bind_apply, hy]
  cases x s with
  | error e t => exact ⟨seen, hseen, rfl⟩
  | ok a t =>
    obtain ⟨seen', hseen', hg⟩ := hf a t (traffic ++ seen)
    refine ⟨seen ++ seen', ?_, by simp only [Array.append_empty, hg, Array.append_assoc]⟩
    intro event hevent
    exact (Array.mem_append.1 hevent).elim (hseen event) (hseen' event)

/-- What leaves the bus alone is not seen. -/
theorem quiet_of_silent (h : ∀ s traffic, y (s.watch traffic) = match x s with
    | .ok a t => .ok a (t.watch traffic)
    | .error e t => .error e (t.watch traffic)) : Quiet x y := by
  intro s traffic
  refine ⟨#[], by simp, ?_⟩
  rw [h]
  simp

theorem quiet_pure (a : α) : Quiet (pure a : Exec β α) (pure a) := quiet_of_silent fun _ _ => rfl

/-! ## The actions of the processor -/

theorem quiet_getCpu : Quiet (β := β) getCpu getCpu := quiet_of_silent fun _ _ => rfl

theorem quiet_getRegs : Quiet (β := β) getRegs getRegs := quiet_of_silent fun _ _ => rfl

theorem quiet_modifyCpu (f : Cpu → Cpu) : Quiet (β := β) (modifyCpu f) (modifyCpu f) :=
  quiet_of_silent fun _ _ => rfl

theorem quiet_modifyRegs (f : Registers → Registers) :
    Quiet (β := β) (modifyRegs f) (modifyRegs f) := quiet_of_silent fun _ _ => rfl

theorem quiet_note (notice : Notice) : Quiet (β := β) (note notice) (note notice) :=
  quiet_of_silent fun _ _ => rfl

theorem quiet_checkLimit : Quiet (β := β) checkLimit checkLimit := by
  apply quiet_of_silent
  intro s traffic
  rw [checkLimit_apply, checkLimit_apply]
  change (if s.cpu.exhausted then _ else _) = _
  cases s.cpu.exhausted with
  | true => rfl
  | false => rfl

/-! ## Accesses of the bus -/

theorem quiet_access {x : EStateM BusError β α} {y : EStateM BusError (Monitored β) α}
    (h : Bus.Watched x y) (fault : BusError → Fault) : Quiet (access x fault) (access y fault) := by
  intro s traffic
  obtain ⟨seen, hseen, hy⟩ := h s.bus traffic
  refine ⟨seen, hseen, ?_⟩
  simp only [access_apply, Machine.watch, hy]
  cases x s.bus <;> simp

variable [Bus β]

theorem quiet_write (address : UInt16) (value : UInt8) :
    Quiet (β := β) (write address value) (write address value) := by
  intro s traffic
  simp only [write_apply, Machine.watch, Monitored.write_apply]
  cases Bus.write address value s.bus with
  | ok notice b => exact ⟨#[.wrote address value], by simp [Traffic.isEnd], by simp⟩
  | error e b =>
    exact ⟨#[.writeFailed address value], by simp [Traffic.isEnd], by simp⟩

theorem quiet_acknowledge (line : Fin 8) :
    Quiet (β := β) (acknowledge line) (acknowledge line) := by
  intro s traffic
  exact ⟨#[.acknowledged line], by simp [Traffic.isEnd], by simp [acknowledge, Machine.watch]; rfl⟩

/-! ## Instructions -/

/-- A machine with a monitor is where the machine itself is. After the given traffic, the monitor has
seen nothing but accesses. -/
def Seen (traffic : Array Traffic) (s : Machine β) (t : Machine (Monitored β)) : Prop :=
  ∃ seen : Array Traffic, (∀ event ∈ seen, event.isEnd = false) ∧ t = s.watch (traffic ++ seen)

omit [Bus β] in
theorem Watched.lockstep (h : Quiet x y) (traffic : Array Traffic) :
    Lockstep (Seen traffic) x y := by
  rintro s _ ⟨seen, hseen, rfl⟩
  obtain ⟨seen', hseen', hy⟩ := h s (traffic ++ seen)
  have hall : ∀ event ∈ seen ++ seen', event.isEnd = false := fun event hevent =>
    (Array.mem_append.1 hevent).elim (hseen event) (hseen' event)
  rw [hy]
  cases x s with
  | ok a t => exact .ok a ⟨seen ++ seen', hall, by simp⟩
  | error e t => exact .error e ⟨seen ++ seen', hall, by simp⟩

omit [Bus β] in
theorem quiet_of_lockstep (h : ∀ traffic, Lockstep (Seen traffic) x y) : Quiet x y := by
  intro s traffic
  have houtcome := h traffic s (s.watch traffic) ⟨#[], by simp, by simp⟩
  generalize x s = outcome, y (s.watch traffic) = outcome' at houtcome
  cases houtcome with
  | ok a h =>
    obtain ⟨seen, hseen, rfl⟩ := h
    exact ⟨seen, hseen, by simp⟩
  | error e h =>
    obtain ⟨seen, hseen, rfl⟩ := h
    exact ⟨seen, hseen, rfl⟩

theorem seen_simulation (traffic : Array Traffic) : Simulation (β := β) (Seen traffic) where
  regs := by
    rintro s _ ⟨seen, -, rfl⟩
    rfl
  change _ := (quiet_modifyCpu _).lockstep traffic
  read address fault := (quiet_access (Bus.watched_read address) fault).lockstep traffic
  write address v := (quiet_write address v).lockstep traffic

theorem quiet_push (w : UInt16) : Quiet (β := β) (push w) (push w) :=
  quiet_of_lockstep fun traffic => (seen_simulation traffic).push w

theorem quiet_decode : Quiet (β := β) decode decode :=
  quiet_of_lockstep fun traffic => (seen_simulation traffic).decode

theorem quiet_execute (i : Instruction) : Quiet (β := β) i.execute i.execute :=
  quiet_of_lockstep fun traffic => (seen_simulation traffic).execute i

/-! ## Steps -/

theorem quiet_serveInterrupt : Quiet (β := β) serveInterrupt serveInterrupt := by
  have hserve (i : Interrupt) : Quiet (β := β) (serve i) (serve i) :=
    watched_bind quiet_getRegs fun _ => watched_bind (quiet_modifyCpu _) fun _ =>
      watched_bind (quiet_acknowledge _) fun _ => watched_bind (quiet_push _) fun _ =>
        watched_bind (quiet_modifyRegs _) fun _ => watched_bind quiet_getRegs fun _ =>
          quiet_note _
  have hpending : Quiet (β := β) pending pending := quiet_of_silent fun _ _ => rfl
  refine watched_bind hpending fun lines => ?_
  cases Interrupt.first? lines with
  | none => exact quiet_pure none
  | some i =>
    refine watched_bind (quiet_modifyCpu _) fun _ => watched_bind quiet_getCpu fun cpu => ?_
    cases cpu.ime with
    | true => exact watched_bind (hserve i) fun _ => quiet_pure _
    | false => exact quiet_pure none

/-- What comes after the signal may touch neither the bus nor the total of cycles. -/
theorem ending_finish (cycles : Nat) {rest : Exec β α} {rest' : Exec (Monitored β) α}
    (hrest : ∀ s traffic, ∃ a t, rest s = .ok a t ∧ t.cpu.cycles = s.cpu.cycles ∧
      rest' (s.watch traffic) = .ok a (t.watch traffic)) :
    Ending (do finish cycles; rest) (do finish cycles; rest') := by
  intro s traffic
  have hfinished : (s.watch traffic).finished cycles =
      (s.finished cycles).watch (traffic.push (.ended (s.cpu.cycles + cycles))) := rfl
  obtain ⟨a, t, hrest, hcycles, hrest'⟩ :=
    hrest (s.finished cycles) (traffic.push (.ended (s.cpu.cycles + cycles)))
  refine ⟨#[], by simp, ?_⟩
  simp only [bind_apply, finish_apply, hfinished, hrest, hrest']
  simp [hcycles]

theorem ending_executeNext : Ending (β := β) executeNext executeNext := by
  refine watched_bind quiet_getRegs fun regs => watched_bind quiet_decode fun i =>
    watched_bind (quiet_modifyCpu _) fun _ => watched_bind (quiet_execute i) fun cost =>
      watched_bind (quiet_modifyCpu _) fun _ => ending_finish cost fun s traffic => ?_
  refine ⟨.executed i cost,
    ({ s with cpu := s.cpu.advanceEnable } : Machine β).shown regs.pc i, ?_, ?_, ?_⟩
  · simp only [bind_apply, modifyCpu_apply, fireHook_apply, pure_apply]
  · rw [Machine.cpu_shown, Cpu.advanceEnable]
    split
    · rfl
    · split <;> rfl
  · simp only [bind_apply, modifyCpu_apply, fireHook_apply, pure_apply, ← Machine.shown_watch]
    rfl

theorem ending_attempt : Ending (β := β) attempt attempt := by
  refine watched_bind quiet_checkLimit fun _ => watched_bind quiet_serveInterrupt fun served => ?_
  cases served with
  | some i => exact ending_finish _ fun s traffic => ⟨_, s, rfl, rfl, rfl⟩
  | none =>
    refine watched_bind quiet_getCpu fun cpu => ?_
    cases cpu.halted with
    | true =>
      exact watched_bind (quiet_modifyCpu _) fun _ =>
        ending_finish _ fun s traffic => ⟨_, s, rfl, rfl, rfl⟩
    | false => exact ending_executeNext

end Exec

/-- A step under a monitor is a step. The monitor sees accesses, and then the end of the step with
the new total of cycles, unless the step fails. -/
theorem Machine.step_watch [Bus β] (s : Machine β) (traffic : Array Traffic) :
    ∃ seen : Array Traffic, (∀ event ∈ seen, event.isEnd = false) ∧
      step (s.watch traffic) = match step s with
        | .ok p t => .ok p (t.watch ((traffic ++ seen).push (.ended t.cpu.cycles)))
        | .error e t => .error e (t.watch (traffic ++ seen)) := by
  obtain ⟨seen, hseen, hattempt⟩ := Exec.ending_attempt s traffic
  cases hfault : s.cpu.fault with
  | some fault =>
    have hwatched : (s.watch traffic).cpu.fault = some fault := hfault
    refine ⟨#[], by simp, ?_⟩
    simp [step, hfault, hwatched]
  | none =>
    have hwatched : (s.watch traffic).cpu.fault = none := hfault
    refine ⟨seen, hseen, ?_⟩
    simp only [step, hfault, hwatched, hattempt]
    cases Exec.attempt s with
    | ok p t => simp
    | error e t => rfl

theorem Machine.next_watch [Bus β] (s : Machine β) (traffic : Array Traffic) :
    ∃ traffic', (s.watch traffic).next = s.next.watch traffic' := by
  obtain ⟨seen, -, hwatched⟩ := s.step_watch traffic
  unfold next
  rw [hwatched]
  cases step s with
  | ok p t | error e t => exact ⟨_, rfl⟩

/-- A monitor changes nothing about a run of steps. -/
theorem Machine.iterate_watch [Bus β] (s : Machine β) (n : Nat) (traffic : Array Traffic) :
    ∃ traffic', next^[n] (s.watch traffic) = (next^[n] s).watch traffic' := by
  induction n with
  | zero => exact ⟨traffic, rfl⟩
  | succ n ih =>
    obtain ⟨seen, hrun⟩ := ih
    rw [Function.iterate_succ_apply', Function.iterate_succ_apply', hrun]
    exact next_watch _ seen

end GameBoy
