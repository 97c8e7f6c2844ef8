import GameBoy.Proofs.Runs

/-!
# What steps do to a bus

A step reaches the bus through accesses, and signals its end once if it succeeds. If it fails, then
at an access, at an opcode without a meaning, or because it may not be made. So what accesses and
the signal keep of a bus is kept by every step on it.

That something reaches the bus only so is kept by sequencing, and is proved from the single accesses
upwards. Main statements: `Machine.Stepped.bus`, `Machine.Stuck.bus` and `Bus.Invariant.next`.
-/

namespace GameBoy

variable {β α γ ε σ : Type}

/-! ## Accesses -/

namespace Bus

variable [Bus β]

/-- A bus gets from one state to another by accesses that succeed and withdrawn requests. -/
inductive Accessed (b : β) : β → Prop where
  | refl : Accessed b b
  | read {c d : β} {address : UInt16} {v : UInt8} :
      Accessed b c → Bus.read address c = .ok v d → Accessed b d
  | write {c d : β} {address : UInt16} {v : UInt8} {notice : Option Notice} :
      Accessed b c → Bus.write address v c = .ok notice d → Accessed b d
  | acknowledge {c : β} (line : Fin 8) : Accessed b c → Accessed b (Bus.acknowledge c line)

theorem Accessed.trans {b c d : β} (h : Accessed b c) (h' : Accessed c d) : Accessed b d := by
  induction h' with
  | refl => exact h
  | read _ hread ih => exact ih.read hread
  | write _ hwrite ih => exact ih.write hwrite
  | acknowledge line _ ih => exact ih.acknowledge line

/-- After accesses that succeed, one fails and leaves the bus in another state. -/
inductive Failed (b : β) (e : BusError) : β → Prop where
  | read {c d : β} {address : UInt16} :
      Accessed b c → Bus.read address c = .error e d → Failed b e d
  | write {c d : β} {address : UInt16} {v : UInt8} :
      Accessed b c → Bus.write address v c = .error e d → Failed b e d

theorem Accessed.failed {b c d : β} {e : BusError} (h : Accessed b c) (h' : Failed c e d) :
    Failed b e d := by
  cases h' with
  | read hc hread => exact .read (h.trans hc) hread
  | write hc hwrite => exact .write (h.trans hc) hwrite

/-- Something that acts on states with a bus consists of accesses, and fails only at one of them,
whose error becomes the given one. -/
def ByAccess (bus : σ → β) (as : BusError → ε) (x : EStateM ε σ α) : Prop := ∀ s, match x s with
  | .ok _ t => Accessed (bus s) (bus t)
  | .error e t => ∃ error, e = as error ∧ Failed (bus s) error (bus t)

section

variable {bus : σ → β} {as : BusError → ε} {x : EStateM ε σ α} {f : α → EStateM ε σ γ} {s t : σ}

theorem ByAccess.ok {a : α} (hx : ByAccess bus as x) (h : x s = .ok a t) :
    Accessed (bus s) (bus t) := by
  have hs := hx s
  rw [h] at hs
  exact hs

theorem ByAccess.error {e : ε} (hx : ByAccess bus as x) (h : x s = .error e t) :
    ∃ error, e = as error ∧ Failed (bus s) error (bus t) := by
  have hs := hx s
  rw [h] at hs
  exact hs

theorem byAccess_pure (a : α) : ByAccess bus as (pure a) := fun _ => .refl

theorem byAccess_bind (hx : ByAccess bus as x) (hf : ∀ a, ByAccess bus as (f a)) :
    ByAccess bus as (x >>= f) := by
  intro s
  rw [Exec.bind_apply]
  cases hfirst : x s with
  | error e t => exact hx.error hfirst
  | ok a t =>
    have hreached := hx.ok hfirst
    cases hrest : f a t with
    | ok _ u => simpa only [hrest] using hreached.trans ((hf a).ok hrest)
    | error e u =>
      obtain ⟨error, he, hfailed⟩ := (hf a).error hrest
      simpa only [hrest] using ⟨error, he, hreached.failed hfailed⟩

end

theorem byAccess_read (address : UInt16) : ByAccess (β := β) id id (Bus.read address) := by
  intro b
  cases hread : Bus.read address b with
  | ok v c => exact Accessed.refl.read hread
  | error e c => exact ⟨e, rfl, .read .refl hread⟩

theorem byAccess_readSpan (address : UInt16) (n : Nat) :
    ByAccess (β := β) id id (readSpan address n) := by
  match n with
  | 0 => exact byAccess_pure 0
  | 1 => exact byAccess_bind (byAccess_read address) fun _ => byAccess_pure _
  | _ + 2 =>
    exact byAccess_bind (byAccess_read address) fun _ =>
      byAccess_bind (byAccess_read (address + 1)) fun _ => byAccess_pure _

theorem byAccess_instructionAt (address : UInt16) :
    ByAccess (β := β) id id (instructionAt address) := by
  refine byAccess_bind (byAccess_read address) fun opcode => ?_
  by_cases hextend : opcode = Opcode.extend
  · simp only [if_pos hextend]
    exact byAccess_bind (byAccess_read (address + 1)) fun _ => byAccess_pure _
  · simp only [if_neg hextend]
    exact byAccess_pure _

end Bus

/-! ## Executions -/

namespace Exec

open Bus (byAccess_pure byAccess_bind byAccess_readSpan)

variable [Bus β]

/-- An execution consists of accesses, and fails only at one of them. -/
abbrev ByAccess (x : Exec β α) : Prop := Bus.ByAccess Machine.bus Fault.bus x

theorem byAccess_getRegs : ByAccess (β := β) getRegs := fun _ => .refl

theorem byAccess_modifyCpu (f : Cpu → Cpu) : ByAccess (β := β) (modifyCpu f) := fun _ => .refl

theorem byAccess_skip (n : UInt16) : ByAccess (β := β) (skip n) := byAccess_modifyCpu (·.skip n)

theorem byAccess_access {x : EStateM BusError β α} (h : Bus.ByAccess id id x) :
    ByAccess (access x .bus) := by
  intro s
  rw [access_apply]
  cases hresult : x s.bus with
  | ok a b => exact h.ok hresult
  | error e b =>
    obtain ⟨error, rfl, hfailed⟩ := h.error hresult
    exact ⟨e, rfl, hfailed⟩

theorem byAccess_read (address : UInt16) : ByAccess (β := β) (read address) :=
  byAccess_access (Bus.byAccess_read address)

theorem byAccess_write (address : UInt16) (v : UInt8) : ByAccess (β := β) (write address v) := by
  intro s
  rw [write_apply]
  cases hwrite : Bus.write address v s.bus with
  | ok notice b => exact Bus.Accessed.refl.write hwrite
  | error e b => exact ⟨e, rfl, .write .refl hwrite⟩

theorem byAccess_push (w : UInt16) : ByAccess (β := β) (push w) := by
  have hbyte (v : UInt8) : ByAccess (β := β) (pushByte v) :=
    byAccess_bind (byAccess_modifyCpu _) fun _ =>
      byAccess_bind byAccess_getRegs fun _ => byAccess_write _ _
  exact byAccess_bind (hbyte _) fun _ => hbyte _

theorem byAccess_run (p : Phases) : ByAccess (β := β) p.run := by
  have hfetch : ByAccess (β := β) (fetchImmediate p.length) :=
    byAccess_bind byAccess_getRegs fun _ =>
      byAccess_bind (byAccess_access (byAccess_readSpan _ _)) fun _ =>
        byAccess_bind (byAccess_skip _) fun _ => byAccess_pure _
  have hload (l : Load) : ByAccess (β := β) l.perform := byAccess_access (byAccess_readSpan _ _)
  have hstore (store : Store) : ByAccess (β := β) store.perform := by
    cases store with
    | none => exact byAccess_pure ()
    | byte a v => exact byAccess_write a v
    | word a w => exact byAccess_bind (byAccess_write _ _) fun _ => byAccess_write _ _
    | push w => exact byAccess_push w
  exact byAccess_bind hfetch fun _ => byAccess_bind byAccess_getRegs fun _ =>
    byAccess_bind (hload _) fun _ => byAccess_bind (hstore _) fun _ => byAccess_modifyCpu _

theorem byAccess_fetchByte : ByAccess (β := β) fetchByte :=
  byAccess_bind byAccess_getRegs fun _ => byAccess_bind (byAccess_read _) fun _ =>
    byAccess_bind (byAccess_skip 1) fun _ => byAccess_pure _

end Exec

section

open Bus (byAccess_bind byAccess_pure)

variable [Bus β]

theorem Action.byAccess_execute {action : Action} (h : action.isProper) (opcode : UInt8) :
    Exec.ByAccess (β := β) (action.execute opcode) := by
  rw [execute_eq h]
  exact byAccess_bind (fun _ => .refl) fun _ =>
    byAccess_bind (Exec.byAccess_run _) fun _ => byAccess_pure _

/-- Executing an instruction consists of accesses, unless its opcode has no meaning. -/
theorem Instruction.byAccess_execute {i : Instruction} (h : i.action ≠ .illegal) :
    Exec.ByAccess (β := β) i.execute := by
  by_cases hi : i.prefixed ∨ i.opcode ≠ Opcode.extend
  · exact Action.byAccess_execute ((isProper hi).resolve_right h) i.opcode
  · obtain ⟨opcode, prefixed⟩ := i
    obtain ⟨rfl, rfl⟩ : prefixed = false ∧ opcode = Opcode.extend := by simpa using hi
    -- The prefix of the extended page fetches an opcode of that page and performs it.
    refine byAccess_bind Exec.byAccess_fetchByte fun opcode => ?_
    have hproper : (Action.bits (.ofOpcode opcode)).isProper := BitOperation.isField_target opcode
    exact Action.byAccess_execute hproper opcode

/-- Executing an instruction fails in an access or because its opcode has no meaning. -/
theorem Instruction.execute_fails {i : Instruction} {s t : Machine β} {e : Fault}
    (h : i.execute s = .error e t) :
    (∃ error, e = .bus error ∧ Bus.Failed s.bus error t.bus) ∨
      i.action = .illegal ∧ e = .illegalOpcode i.opcode (s.cpu.regs.pc - 1) ∧ t = s := by
  by_cases hillegal : i.action = .illegal
  · rw [execute_illegal hillegal] at h
    obtain ⟨rfl, rfl⟩ := EStateM.Result.error.inj h
    exact .inr ⟨hillegal, rfl, rfl⟩
  · exact .inl ((byAccess_execute hillegal).error h)

end

/-! ## Steps -/

namespace Machine

variable [Bus β] {s t : Machine β} {p : Progress} {e : Fault}

/-- A successful step makes accesses, and then signals its end with the new total of cycles. -/
theorem Stepped.bus (h : Stepped s p t) :
    ∃ b, Bus.Accessed s.bus b ∧ t.bus = (Bus.endStep b t.cpu.cycles).2 := by
  cases h with
  | served i u _ _ hpush =>
    have hpushed := (Exec.byAccess_push _).ok hpush
    exact ⟨u.bus, (Bus.Accessed.refl.acknowledge i.line).trans hpushed, rfl⟩
  | idle => exact ⟨s.bus, .refl, rfl⟩
  | executed i b cost u _ _ hdecoded hperformed =>
    have hfetched := (Bus.byAccess_instructionAt _).ok hdecoded
    obtain ⟨-, -, hrun⟩ := Instruction.execute_ok (Exec.instructionAt_ok hdecoded) hperformed
    refine ⟨u.bus, hfetched.trans ((Exec.byAccess_run _).ok hrun), ?_⟩
    rw [bus_shown, cpu_shown, cpu_counted, Cpu.advanceEnable_eq]
    rfl

/-- Why a step fails: the limit is reached, the opcode has no meaning, or an access fails. -/
theorem Stuck.bus (h : Stuck s e t) :
    (∃ n, e = .stepLimit n ∧ s.cpu.limit = some n ∧ n ≤ s.cpu.countedSteps ∧ t = s) ∨
    (∃ (i : Instruction) (pc : UInt16), i.action = .illegal ∧ e = .illegalOpcode i.opcode pc ∧
      Bus.Accessed s.bus t.bus) ∨
    ∃ error, (e = .endOfProgram ∨ e = .bus error) ∧ Bus.Failed s.bus error t.bus := by
  cases h with
  | limit n hlimit hreached => exact .inl ⟨n, rfl, hlimit, hreached, rfl⟩
  | served i _ _ _ _ hpush =>
    obtain ⟨error, rfl, hfailed⟩ := (Exec.byAccess_push _).error hpush
    exact .inr (.inr ⟨error, .inr rfl, (Bus.Accessed.refl.acknowledge i.line).failed hfailed⟩)
  | opcode error _ _ hfailed => exact .inr (.inr ⟨error, .inl rfl, .read .refl hfailed⟩)
  | extended _ error _ _ hopcode hfailed =>
    exact .inr (.inr ⟨error, .inl rfl, .read (Bus.Accessed.refl.read hopcode) hfailed⟩)
  | executed i b _ _ _ hdecoded hfailed =>
    have hfetched := (Bus.byAccess_instructionAt _).ok hdecoded
    rcases Instruction.execute_fails hfailed with ⟨error, he, hlast⟩ | ⟨hillegal, he, rfl⟩
    · exact .inr (.inr ⟨error, .inr he, hfetched.failed hlast⟩)
    · exact .inr (.inl ⟨i, _, hillegal, he, hfetched⟩)

end Machine

/-! ## Invariants -/

namespace Bus

variable [Bus β]

/-- The bus after a read, whether it succeeds or fails. -/
def afterRead (address : UInt16) (b : β) : β :=
  match read address b with
  | .ok _ c | .error _ c => c

/-- The bus after a write, whether it succeeds or fails. -/
def afterWrite (address : UInt16) (v : UInt8) (b : β) : β :=
  match write address v b with
  | .ok _ c | .error _ c => c

/-- Nothing that is done to a bus makes an invariant false. -/
structure Invariant (P : β → Prop) : Prop where
  read {b : β} (address : UInt16) : P b → P (afterRead address b)
  write {b : β} (address : UInt16) (v : UInt8) : P b → P (afterWrite address v b)
  acknowledge {b : β} (line : Fin 8) : P b → P (Bus.acknowledge b line)
  endStep {b : β} (cycles : Nat) : P b → P (Bus.endStep b cycles).2

namespace Invariant

variable {P : β → Prop} {b c : β} {address : UInt16} {v : UInt8}

theorem read_ok (hP : Invariant P) (hb : P b) (h : Bus.read address b = .ok v c) : P c := by
  have hc := hP.read address hb
  rwa [afterRead, h] at hc

theorem read_error {e : BusError} (hP : Invariant P) (hb : P b)
    (h : Bus.read address b = .error e c) : P c := by
  have hc := hP.read address hb
  rwa [afterRead, h] at hc

theorem write_ok {notice : Option Notice} (hP : Invariant P) (hb : P b)
    (h : Bus.write address v b = .ok notice c) : P c := by
  have hc := hP.write address v hb
  rwa [afterWrite, h] at hc

theorem write_error {e : BusError} (hP : Invariant P) (hb : P b)
    (h : Bus.write address v b = .error e c) : P c := by
  have hc := hP.write address v hb
  rwa [afterWrite, h] at hc

theorem accessed (hP : Invariant P) (hb : P b) (h : Accessed b c) : P c := by
  induction h with
  | refl => exact hb
  | read _ hread ih => exact hP.read_ok ih hread
  | write _ hwrite ih => exact hP.write_ok ih hwrite
  | acknowledge line _ ih => exact hP.acknowledge line ih

theorem failed {e : BusError} (hP : Invariant P) (hb : P b) (h : Failed b e c) : P c := by
  cases h with
  | read haccessed hread => exact hP.read_error (hP.accessed hb haccessed) hread
  | write haccessed hwrite => exact hP.write_error (hP.accessed hb haccessed) hwrite

/-- An invariant of the bus holds after every step, successful or not. -/
theorem next (hP : Invariant P) {s : Machine β} (hs : P s.bus) : P s.next.bus := by
  cases hfault : s.cpu.fault with
  | some fault => rwa [Machine.next_of_error (Machine.step_stopped hfault)]
  | none =>
    cases hstep : Machine.step s with
    | ok p t =>
      obtain ⟨-, -, hstepped⟩ := Machine.step_ok hstep
      obtain ⟨c, haccessed, hbus⟩ := hstepped.bus
      rw [Machine.next_of_ok hstep, hbus]
      exact hP.endStep _ (hP.accessed hs haccessed)
    | error e t =>
      obtain ⟨u, hstuck, rfl⟩ := Machine.step_error hfault hstep
      rw [Machine.next_of_error hstep]
      change P u.bus
      rcases hstuck.bus with ⟨_, -, -, -, rfl⟩ | ⟨_, _, -, -, haccessed⟩ | ⟨_, -, hfailed⟩
      · exact hs
      · exact hP.accessed hs haccessed
      · exact hP.failed hs hfailed

theorem iterate (hP : Invariant P) {s : Machine β} (hs : P s.bus) (n : Nat) :
    P (Machine.next^[n] s).bus := by
  induction n with
  | zero => exact hs
  | succ n ih =>
    rw [Function.iterate_succ_apply']
    exact hP.next ih

end Invariant

end Bus

end GameBoy
