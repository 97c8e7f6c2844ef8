import GameBoy.Proofs.Frames
import GameBoy.Proofs.LowNibble

/-!
# The hook

The hook is shown every instruction that is executed by a step, once the step is over, and nothing
else: not the service of an interrupt, not a step of waiting, and not a step that fails. It stays
until it is changed, through resets and faults.

A hook only looks. A machine whose hook is changed again and again does what the machine does that
never had one, up to the lines of trace and the records that the hooks have left.

Main statement: `Machine.hook_observes`.
-/

namespace GameBoy

variable {α β : Type}

namespace Machine

/-! ## Sessions -/

/-- What may be done to a machine in a session. -/
inductive Deed (β : Type) where
  /-- It makes a step, executes an instruction without a step, or its processor is acted on. -/
  | act (act : Act)
  /-- Registers and latches are stored. -/
  | store (regs : Registers) (ime halted : Bool)
  /-- Something is done to the bus by itself. -/
  | drive (f : β → β)
  /-- The limit is changed. -/
  | setLimit (limit : Option Nat)
  /-- The hook is registered, replaced or cleared. -/
  | setHook (hook : Option Hook)

namespace Deed

/-- Whether a deed changes the hook. -/
def isSetHook : Deed β → Bool
  | setHook _ => true
  | _ => false

/-- The hook after a deed. -/
def hookAfter (hook : Option Hook) : Deed β → Option Hook
  | setHook hook => hook
  | _ => hook

end Deed

variable [Bus β]

/-- The machine after a deed. -/
def obey (s : Machine β) : Deed β → Machine β
  | .act act => s.perform act
  | .store regs ime halted => { s with cpu := { s.cpu with regs, ime, halted } }
  | .drive f => { s with bus := f s.bus }
  | .setLimit limit => { s with cpu := { s.cpu with limit } }
  | .setHook hook => { s with cpu := { s.cpu with hook } }

/-- The machine after a session. -/
def session (s : Machine β) (deeds : List (Deed β)) : Machine β := deeds.foldl obey s

/-- What a recording hook is to keep of the next step: where it began, the instruction that it
executed, and the processor after it. -/
def nextRecord (s : Machine β) : Option Record :=
  match step s with
  | .ok (.executed i _) t => some ⟨s.cpu.regs.pc, i, t.cpu.unhooked⟩
  | _ => none

/-- The records of a deed: only a step of a machine with a recording hook may leave one. -/
def recordsOf (s : Machine β) : Deed β → List Record
  | .act .step => if s.cpu.hook = some .record then s.nextRecord.toList else []
  | _ => []

/-- The records of a session. -/
def recordsIn (s : Machine β) : List (Deed β) → List Record
  | [] => []
  | deed :: deeds => s.recordsOf deed ++ (s.obey deed).recordsIn deeds

/-! ## What a step leaves in the records -/

/-- That two machines are the same and have such records is kept by all that instructions do. -/
theorem recorded_simulation (records : Array Record) :
    Simulation fun s t : Machine β => s = t ∧ t.records = records where
  regs := by
    rintro s _ ⟨rfl, -⟩
    rfl
  change hf := by
    rintro s _ ⟨rfl, hrecords⟩
    exact .ok () ⟨rfl, hrecords⟩
  read address fault := by
    rintro s _ ⟨rfl, hrecords⟩
    rw [Exec.access_apply]
    cases Bus.read address s.bus with
    | ok v b => exact .ok v ⟨rfl, hrecords⟩
    | error e b => exact .error _ ⟨rfl, hrecords⟩
  write address v := by
    rintro s _ ⟨rfl, hrecords⟩
    rw [Exec.write_apply]
    cases Bus.write address v s.bus with
    | ok notice b => exact .ok () ⟨rfl, hrecords⟩
    | error e b => exact .error _ ⟨rfl, hrecords⟩

theorem records_execute (i : Instruction) (s : Machine β) :
    (afterExec i.execute s).records = s.records := by
  have hsame := (recorded_simulation s.records).execute i s s ⟨rfl, rfl⟩
  exact (afterExec_related hsame).2

variable {s t : Machine β} {p : Progress} {e : Fault}

theorem records_execute_ok {i : Instruction} {cost : Nat} (h : i.execute s = .ok cost t) :
    t.records = s.records := by
  have hkept := records_execute i s
  rwa [afterExec, h] at hkept

theorem records_execute_error {i : Instruction} (h : i.execute s = .error e t) :
    t.records = s.records := by
  have hkept := records_execute i s
  rwa [afterExec, h] at hkept

omit [Bus β] in
theorem records_shown (s : Machine β) (pc : UInt16) (i : Instruction) :
    (s.shown pc i).records =
      if s.cpu.hook = some .record then s.records.push ⟨pc, i, s.cpu.unhooked⟩
      else s.records := by
  unfold shown
  split <;> rename_i hhook <;> rw [hhook] <;> rfl

/-- A successful step leaves a record if there is a recording hook and an instruction has been
executed. -/
theorem Stepped.records (h : Stepped s p t) : t.records =
    match p with
    | .executed i _ =>
      if s.cpu.hook = some .record then s.records.push ⟨s.cpu.regs.pc, i, t.cpu.unhooked⟩
      else s.records
    | .served _ | .idle => s.records := by
  have hhook := h.frame.2.2
  cases h with
  | served i u _ _ hpush =>
    obtain ⟨_, _, _, _, -, -, rfl⟩ := Exec.push_eq_ok.1 hpush
    rfl
  | idle => rfl
  | executed i b cost u _ _ _ hperformed =>
    rw [cpu_shown] at hhook
    have hkept : u.records = (s.entered i b).records := records_execute_ok hperformed
    have hcounted : (u.counted cost).records = s.records := hkept
    simp only [records_shown, cpu_shown, hhook, hcounted]

theorem Stuck.records (h : Stuck s e t) : t.records = s.records := by
  cases h with
  | served i _ _ _ _ hpush =>
    rcases Exec.push_eq_error.1 hpush with ⟨_, _, -, -, rfl⟩ | ⟨_, _, _, _, -, -, -, rfl⟩ <;> rfl
  | executed i b _ _ _ _ hfailed =>
    have hkept : t.records = (s.entered i b).records := records_execute_error hfailed
    exact hkept
  | _ => rfl

theorem afterExec_step (s : Machine β) : afterExec step s = s.next := by
  unfold afterExec next
  cases step s <;> rfl

theorem records_of_error (h : step s = .error e t) : t.records = s.records := by
  cases hfault : s.cpu.fault with
  | some fault =>
    rw [step_stopped hfault] at h
    rw [(EStateM.Result.error.inj h).2]
  | none =>
    obtain ⟨u, hstuck, rfl⟩ := step_error hfault h
    exact hstuck.records

/-- A step leaves the records that it is to leave. -/
theorem records_next (s : Machine β) :
    s.next.records.toList = s.records.toList ++ s.recordsOf (.act .step) := by
  cases hstep : step s with
  | error e t =>
    have hnone : s.nextRecord = none := by rw [nextRecord, hstep]
    rw [next_of_error hstep, records_of_error hstep, recordsOf, hnone, Option.toList_none,
      ite_self, List.append_nil]
  | ok p t =>
    rw [next_of_ok hstep, (step_ok hstep).2.2.records, recordsOf, nextRecord, hstep]
    cases p with
    | served | idle => simp
    | executed i cost =>
      simp only
      split <;> simp

theorem records_obey (s : Machine β) (deed : Deed β) :
    (s.obey deed).records.toList = s.records.toList ++ s.recordsOf deed := by
  cases deed with
  | act act =>
    cases act with
    | step =>
      have hnext : s.obey (.act .step) = s.next := s.afterExec_step
      rw [hnext, records_next]
    | execute i =>
      have hkept : (s.obey (.act (.execute i))).records = s.records := records_execute i s
      rw [hkept, recordsOf, List.append_nil]
      exact fun h => nomatch h
    | change act => exact (List.append_nil _).symm
  | store | drive | setLimit | setHook => exact (List.append_nil _).symm

theorem records_session (s : Machine β) (deeds : List (Deed β)) :
    (s.session deeds).records.toList = s.records.toList ++ s.recordsIn deeds := by
  induction deeds generalizing s with
  | nil => exact (List.append_nil _).symm
  | cons deed deeds ih =>
    have hrest := ih (s.obey deed)
    rw [records_obey, List.append_assoc] at hrest
    exact hrest

/-! ## Recording step after step -/

/-- A record is of the instruction that a machine executes in its next step: it has the place from
which that is fetched, the instruction, and the processor when the step is over, with the step
counted and the enable moved on. -/
structure IsRecord (s : Machine β) (r : Record) : Prop where
  pc : r.pc = s.cpu.regs.pc
  executed : ∃ b cost u t, Bus.instructionAt s.cpu.regs.pc s.bus = .ok r.instruction b ∧
    r.instruction.execute (s.entered r.instruction b) = .ok cost u ∧
    step s = .ok (.executed r.instruction cost) t ∧ r.cpu = t.cpu.unhooked ∧
    t.cpu = ({ u.cpu with
      cycles := u.cpu.cycles + cost
      instructions := u.cpu.instructions + 1 } : Cpu).advanceEnable

theorem isRecord_of_step {i : Instruction} {cost : Nat}
    (h : step s = .ok (.executed i cost) t) :
    s.IsRecord ⟨s.cpu.regs.pc, i, t.cpu.unhooked⟩ := by
  cases (step_ok h).2.2 with
  | executed _ b _ u _ _ hdecoded hperformed =>
    exact ⟨rfl, b, cost, u, _, hdecoded, hperformed, h, rfl, by rw [cpu_shown, cpu_counted]⟩

/-- With a recording hook, a step either counts an instruction and records it or does neither. -/
theorem next_recording (hhook : s.cpu.hook = some .record) :
    s.next.cpu.hook = some .record ∧
    (s.next.cpu.instructions = s.cpu.instructions ∧ s.next.records = s.records ∨
      ∃ r, s.IsRecord r ∧ s.next.cpu.instructions = s.cpu.instructions + 1 ∧
        s.next.records = s.records.push r) := by
  cases hstep : step s with
  | error e t =>
    obtain ⟨_, _, _, _, _, hframe⟩ := error_frame hstep
    rw [next_of_error hstep, records_of_error hstep, hframe]
    exact ⟨hhook, .inl ⟨rfl, rfl⟩⟩
  | ok p t =>
    have hrecords := (step_ok hstep).2.2.records
    obtain ⟨-, hentered, -⟩ := step_entered hstep
    rw [next_of_ok hstep]
    refine ⟨(step_frame hstep).2.2.trans hhook, ?_⟩
    cases p with
    | served i => exact .inl ⟨hentered.2.1, hrecords⟩
    | idle => exact .inl ⟨by rw [hentered], hrecords⟩
    | executed i cost =>
      simp only [if_pos hhook] at hrecords
      exact .inr ⟨_, isRecord_of_step hstep, hentered.2.1, hrecords⟩

/-- Steps of a machine with a recording hook leave one record for each instruction that they count,
in the order of the instructions. -/
structure Recording (s : Machine β) (n : Nat) : Prop where
  hook : (next^[n] s).cpu.hook = some .record
  grown : s.records.size ≤ (next^[n] s).records.size
  counted : (next^[n] s).cpu.instructions + s.records.size =
    s.cpu.instructions + (next^[n] s).records.size
  kept : ∀ j < s.records.size, (next^[n] s).records[j]? = s.records[j]?
  recorded : ∀ k, s.records.size + k < (next^[n] s).records.size → ∃ m < n,
    (next^[m] s).cpu.instructions = s.cpu.instructions + k ∧
    ∃ r, (next^[n] s).records[s.records.size + k]? = some r ∧ (next^[m] s).IsRecord r

theorem recording (hhook : s.cpu.hook = some .record) (n : Nat) : s.Recording n := by
  induction n with
  | zero =>
    refine ⟨hhook, Nat.le_refl _, rfl, fun _ _ => rfl, fun k hk => ?_⟩
    change s.records.size + k < s.records.size at hk
    omega
  | succ n ih =>
    obtain ⟨hhook', hgrown, hcounted, hkept, hrecorded⟩ := ih
    have hlast : next^[n + 1] s = (next^[n] s).next := Function.iterate_succ_apply' next n s
    obtain ⟨hafter, ⟨hsame, hrecords⟩ | ⟨r, hr, hone, hrecords⟩⟩ := next_recording hhook'
    · rw [← hlast] at hafter hsame hrecords
      refine ⟨hafter, hrecords ▸ hgrown, by rw [hsame, hrecords, hcounted], ?_, ?_⟩
      · intro j hj
        rw [hrecords, hkept j hj]
      · intro k hk
        rw [hrecords] at hk ⊢
        obtain ⟨m, hm, hat⟩ := hrecorded k hk
        exact ⟨m, Nat.lt_succ_of_lt hm, hat⟩
    · rw [← hlast] at hafter hone hrecords
      have hsize : (next^[n + 1] s).records.size = (next^[n] s).records.size + 1 := by
        rw [hrecords, Array.size_push]
      refine ⟨hafter, by omega, by omega, ?_, ?_⟩
      · intro j hj
        rw [hrecords, Array.getElem?_push_lt (by omega), ← Array.getElem?_eq_getElem, hkept j hj]
      · intro k hk
        rw [hsize] at hk
        by_cases hend : s.records.size + k = (next^[n] s).records.size
        · -- The step that has just been made is the one of this record.
          refine ⟨n, n.lt_succ_self, by omega, r, ?_, hr⟩
          rw [hrecords, hend, Array.getElem?_push_size]
        · have hbefore : s.records.size + k < (next^[n] s).records.size := by omega
          obtain ⟨m, hm, hcount, r', hr', hof⟩ := hrecorded k hbefore
          refine ⟨m, Nat.lt_succ_of_lt hm, hcount, r', ?_, hof⟩
          rw [hrecords, Array.getElem?_push_lt hbefore, ← Array.getElem?_eq_getElem, hr']

/-! ## Machines without a hook -/

/-- A journal into which lines of trace have been put, if they are allowed. -/
inductive Traced (allowed : Prop) : Journal → Journal → Prop where
  | refl (j : Journal) : Traced allowed j j
  | note {j j' : Journal} (n : Notice) : Traced allowed j j' →
      Traced allowed (j.push n) (j'.push n)
  | line {j j' : Journal} (cpu : Cpu) (pc : UInt16) (i : Instruction) : allowed →
      Traced allowed j j' → Traced allowed (j.push (cpu.traceNotice pc i)) j'

/-- Where no line of trace is allowed, none has been put in. -/
theorem Traced.eq {allowed : Prop} {j j' : Journal} (h : Traced allowed j j') (hnot : ¬ allowed) :
    j = j' := by
  induction h with
  | refl => rfl
  | note n _ ih => rw [ih]
  | line _ _ _ hallowed => exact absurd hallowed hnot

theorem Traced.noteOption {allowed : Prop} {j j' : Journal} (h : Traced allowed j j')
    (notice : Option Notice) : Traced allowed (j.note notice) (j'.note notice) := by
  cases notice with
  | none => exact h
  | some n => exact h.note n

/-- A machine and what it is like if it never had a hook. -/
structure Veiled (hook : Option Hook) (allowed : Prop) (s t : Machine β) : Prop where
  cpu : s.cpu = { t.cpu with hook }
  bare : t.cpu.hook = none
  bus : s.bus = t.bus
  journal : Traced allowed s.journal t.journal

variable {hook : Option Hook} {allowed : Prop}

omit [Bus β] in
theorem Veiled.unhooked (h : Veiled hook allowed s t) : s.cpu.unhooked = t.cpu := by
  rw [h.cpu, Cpu.unhooked, ← h.bare]

omit [Bus β] in
theorem Veiled.shown (h : Veiled hook allowed s t) (hallowed : hook = some .trace → allowed)
    (pc : UInt16) (i : Instruction) :
    Veiled hook allowed (s.shown pc i) (t.shown pc i) := by
  obtain ⟨hcpu, hbare, hbus, hjournal⟩ := h
  have hunshown : t.shown pc i = t := by rw [Machine.shown, hbare]
  have hhook : s.cpu.hook = hook := by rw [hcpu]
  rw [hunshown]
  refine ⟨by rw [cpu_shown, hcpu], hbare, by rw [bus_shown, hbus], ?_⟩
  rw [Machine.shown, hhook]
  cases hook with
  | none => exact hjournal
  | some hook =>
    cases hook with
    | trace => exact hjournal.line s.cpu pc i (hallowed rfl)
    | record => exact hjournal

theorem veiled_simulation (hallowed : hook = some .trace → allowed) :
    StepSimulation (Veiled (β := β) hook allowed) where
  regs h := by rw [h.cpu]
  change {f} hf := by
    rintro s t ⟨hcpu, hbare, hbus, hjournal⟩
    obtain ⟨hlimit, hhook⟩ := hf.observer_eq t.cpu
    refine .ok () ⟨?_, hhook.trans hbare, hbus, hjournal⟩
    calc f s.cpu
      _ = f { t.cpu with hook } := by rw [hcpu]
      _ = { f t.cpu with limit := t.cpu.limit, hook } := hf.observer t.cpu t.cpu.limit hook
      _ = { f t.cpu with hook } := by rw [← hlimit]
  read address fault := by
    rintro s t ⟨hcpu, hbare, hbus, hjournal⟩
    rw [Exec.access_apply, Exec.access_apply, hbus]
    cases Bus.read address t.bus with
    | ok v b => exact .ok v ⟨hcpu, hbare, rfl, hjournal⟩
    | error e b => exact .error _ ⟨hcpu, hbare, rfl, hjournal⟩
  write address v := by
    rintro s t ⟨hcpu, hbare, hbus, hjournal⟩
    rw [Exec.write_apply, Exec.write_apply, hbus]
    cases Bus.write address v t.bus with
    | ok notice b => exact .ok () ⟨hcpu, hbare, rfl, hjournal.noteOption notice⟩
    | error e b => exact .error _ ⟨hcpu, hbare, rfl, hjournal⟩
  finish cycles := by
    rintro s t ⟨hcpu, hbare, hbus, hjournal⟩
    have htotal : s.cpu.cycles = t.cpu.cycles := by rw [hcpu]
    rw [Exec.finish_apply, Exec.finish_apply]
    simp only [finished, hbus, htotal]
    exact .ok () ⟨by rw [hcpu], hbare, rfl, hjournal.noteOption _⟩
  fireHook pc i := by
    rintro s t h
    rw [Exec.fireHook_apply, Exec.fireHook_apply]
    exact .ok () (h.shown hallowed pc i)
  ime h := by rw [h.cpu]
  halted h := by rw [h.cpu]
  pending h := by rw [h.bus]
  acknowledge line := by
    rintro s t ⟨hcpu, hbare, hbus, hjournal⟩
    exact .ok () ⟨hcpu, hbare, congrArg (Bus.acknowledge · line) hbus, hjournal⟩
  note i pc sp := by
    rintro s t ⟨hcpu, hbare, hbus, hjournal⟩
    exact .ok () ⟨hcpu, hbare, hbus, hjournal.note _⟩

/-- A step is the same with a hook as without one. -/
theorem veiled_step (hallowed : hook = some .trace → allowed) :
    Exec.Lockstep (Veiled (β := β) hook allowed) step step := by
  refine (veiled_simulation hallowed).step ?_ ?_ ?_ ?_
  · intro s t h
    rw [h.cpu]
  · intro s t h
    rw [h.cpu]
  · intro s t h
    rw [h.cpu]
    rfl
  · rintro s t e ⟨hcpu, hbare, hbus, hjournal⟩
    have hnotice : s.cpu.faultNotice e = t.cpu.faultNotice e := by
      rw [hcpu]
      rfl
    refine ⟨by rw [cpu_stopWith, cpu_stopWith, hcpu], hbare, hbus, ?_⟩
    simp only [stopWith, hnotice]
    exact hjournal.note _

theorem Veiled.obey (h : Veiled hook allowed s t) (hallowed : hook = some .trace → allowed)
    {deed : Deed β} (hother : deed.isSetHook = false) :
    Veiled hook allowed (s.obey deed) (t.obey deed) := by
  cases deed with
  | act act =>
    cases act with
    | step => exact afterExec_related (veiled_step hallowed s t h)
    | execute i => exact afterExec_related ((veiled_simulation hallowed).execute i s t h)
    | change act =>
      obtain ⟨hcpu, hbare, hbus, hjournal⟩ := h
      refine ⟨?_, ?_, hbus, hjournal⟩
      · simp only [Machine.obey, perform, hcpu]
        cases act <;> rfl
      · simp only [Machine.obey, perform]
        cases act <;> exact hbare
  | store | setLimit =>
    obtain ⟨hcpu, hbare, hbus, hjournal⟩ := h
    exact ⟨by simp only [Machine.obey, hcpu], hbare, hbus, hjournal⟩
  | drive f =>
    obtain ⟨hcpu, hbare, hbus, hjournal⟩ := h
    exact ⟨hcpu, hbare, congrArg f hbus, hjournal⟩
  | setHook => cases hother

/-- A session is the same without its changes of the hook. -/
theorem Veiled.session (h : Veiled hook allowed s t) (hallowed : hook = some .trace → allowed)
    {deeds : List (Deed β)} (hlater : .setHook (some .trace) ∈ deeds → allowed) :
    Veiled (deeds.foldl Deed.hookAfter hook) allowed (s.session deeds)
      (t.session (deeds.filter fun deed => !deed.isSetHook)) := by
  induction deeds generalizing hook s t with
  | nil => exact h
  | cons deed deeds ih =>
    have hrest : .setHook (some .trace) ∈ deeds → allowed :=
      fun hmem => hlater (List.mem_cons_of_mem _ hmem)
    cases hset : deed.isSetHook with
    | true =>
      cases deed with
      | setHook hook' =>
        have hset' : hook' = some .trace → allowed := by
          rintro rfl
          exact hlater List.mem_cons_self
        have hchanged : Veiled hook' allowed (s.obey (.setHook hook')) t :=
          ⟨by simp only [Machine.obey, h.cpu], h.bare, h.bus, h.journal⟩
        rw [List.filter_cons_of_neg (by simp [hset])]
        exact ih hchanged hset' hrest
      | _ => cases hset
    | false =>
      have hkept : Deed.hookAfter hook deed = hook := by
        cases deed with
        | setHook => cases hset
        | _ => rfl
      rw [List.filter_cons_of_pos (by simp [hset]), List.foldl_cons, hkept]
      exact ih (h.obey hallowed hset) hallowed hrest

omit [Bus β] in
theorem hookAfter_trace {deeds : List (Deed β)}
    (h : deeds.foldl Deed.hookAfter hook = some .trace) :
    hook = some .trace ∨ .setHook (some .trace) ∈ deeds := by
  induction deeds generalizing hook with
  | nil => exact .inl h
  | cons deed deeds ih =>
    rcases ih h with hfirst | hlater
    · cases deed with
      | setHook hook' =>
        obtain rfl : hook' = some .trace := hfirst
        exact .inr List.mem_cons_self
      | _ => exact .inl hfirst
    · exact .inr (List.mem_cons_of_mem _ hlater)

/-- In any session, whatever is done in it, the records are those of the instructions that steps
have executed with a recording hook in place, and the hook is the one that was set last. The machine
then does in its next step what the machine does that has never had a hook, and the two differ in the
hook and in lines of trace, of which there are none unless a hook for them has been set. From a
machine with a recording hook, any number of steps leave one record for each instruction that they
count. -/
theorem hook_observes (s : Machine β) (deeds : List (Deed β)) (n : Nat) :
    let t := s.session deeds
    let hook := deeds.foldl Deed.hookAfter s.cpu.hook
    let bare : Machine β := { s with cpu := s.cpu.unhooked }
    let twin := bare.session (deeds.filter fun deed => !deed.isSetHook)
    let allowed := s.cpu.hook = some .trace ∨ .setHook (some .trace) ∈ deeds
    t.records.toList = s.records.toList ++ s.recordsIn deeds ∧
    t.cpu.hook = hook ∧
    Veiled hook allowed t twin ∧
    Exec.SameOutcome (Veiled hook allowed) (step t) (step twin) ∧
    (s.cpu.hook = some .record → s.Recording n) := by
  intro t hook bare twin allowed
  have hbare : Veiled s.cpu.hook allowed s bare := ⟨rfl, rfl, rfl, .refl _⟩
  have hveiled : Veiled hook allowed t twin := hbare.session .inl .inr
  have hstep : Exec.SameOutcome (Veiled hook allowed) (step t) (step twin) :=
    veiled_step hookAfter_trace t twin hveiled
  exact ⟨s.records_session deeds, by rw [hveiled.cpu], hveiled, hstep, fun h => recording h n⟩

/-- NOP, INC B and SWAP A leave three records, and the step after them, which fails, none. If the
hook is taken away for INC B and put back, there is one record less, and nothing else is different. -/
theorem hook_observes_swap : ∃ s : Machine ProgramBus, s.cpu.hook = some .record ∧
    (next^[4] s).hasStopped = true ∧ (next^[4] s).records.size = 3 ∧
    (∃ m < 4, ∃ r, (next^[4] s).records[2]? = some r ∧ (next^[m] s).IsRecord r ∧ r.pc = 2 ∧
      r.instruction = ⟨0x37, true⟩) ∧
    let t := s.session
      [.act .step, .setHook none, .act .step, .setHook (some .record), .act .step]
    let u := s.session [.act .step, .act .step, .act .step]
    t.cpu.hook = some .record ∧ t.records.size = 2 ∧ t.cpu.unhooked = u.cpu.unhooked ∧
      t.bus = u.bus ∧ t.journal = u.journal := by
  let s : Machine ProgramBus :=
    start { Cpu.powerOn with hook := some .record } ⟨#[0x00, 0x04, 0xCB, 0x37]⟩
  let deeds : List (Deed ProgramBus) :=
    [.act .step, .setHook none, .act .step, .setHook (some .record), .act .step]
  let steps : List (Deed ProgramBus) := [.act .step, .act .step, .act .step]
  have hfacts : (next^[4] s).hasStopped = true ∧ (next^[4] s).cpu.instructions = 3 ∧
      (next^[4] s).records[2]?.map (fun r => (r.pc, r.instruction)) =
        some (2, ⟨0x37, true⟩) ∧
      (s.recordsIn deeds).length = 2 := by decide
  obtain ⟨hstopped, hthree, hlast, htwo⟩ := hfacts
  obtain ⟨hrecords, hhook, hveiled, -, hrecording⟩ := hook_observes s deeds 4
  obtain ⟨-, -, hveiled', -, -⟩ := hook_observes s steps 4
  have hrec : s.Recording 4 := hrecording rfl
  have hnone : s.cpu.instructions = 0 ∧ s.records.size = 0 := ⟨rfl, rfl⟩
  have hsize : (next^[4] s).records.size = 3 := by
    have hcounted := hrec.counted
    omega
  obtain ⟨m, hm, -, r, hr, hof⟩ := hrec.recorded 2 (by omega)
  rw [hnone.2, Nat.zero_add] at hr
  rw [hr, Option.map_some, Option.some.injEq, Prod.mk.injEq] at hlast
  have hlength := congrArg List.length hrecords
  rw [Array.length_toList, List.length_append, Array.length_toList, hnone.2, htwo] at hlength
  -- No line of trace has been allowed in either session.
  have hquiet : ¬ (s.cpu.hook = some .trace ∨ .setHook (some .trace) ∈ deeds) := by
    simp [s, deeds, start]
  have hquiet' : ¬ (s.cpu.hook = some .trace ∨ .setHook (some .trace) ∈ steps) := by
    simp [s, steps, start]
  refine ⟨s, rfl, hstopped, hsize, ⟨m, hm, r, hr, hof, hlast.1, hlast.2⟩, hhook, hlength, ?_, ?_, ?_⟩
  · exact hveiled.unhooked.trans hveiled'.unhooked.symm
  · exact hveiled.bus.trans hveiled'.bus.symm
  · exact (hveiled.journal.eq hquiet).trans (hveiled'.journal.eq hquiet').symm

end Machine

end GameBoy
