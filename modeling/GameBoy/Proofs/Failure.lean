import GameBoy.Proofs.Disassembly
import GameBoy.Proofs.Watch

/-!
# What a failing step leaves behind

A step fails at the first access that fails, and what was done before stays done. Since operations
commit last, that is little: the program counter has moved over the bytes that were fetched, a push
has moved the stack pointer, the first of two writes has been made, and an interrupt that could not
be served has been accepted.

`Machine.Failed` has one case for each access that can fail, with the whole machine as it is left
then. A step fails exactly in these cases, since it goes through the phases of its instruction, and
each of them fails in cases of its own.

Main statement: `Machine.step_failure`.
-/

namespace GameBoy

variable {β : Type}

/-! ## The accesses that can fail -/

/-- A write that changes the storage from `b` to `b'`, and there only the cell at its address. -/
structure Bus.Stored [Bus β] [Bus.Storage β] (address : UInt16) (value : UInt8) (b : β)
    (notice : Option Notice) (b' : β) : Prop where
  write : Bus.write address value b = .ok notice b'
  cells : ∀ x, Storage.cell b' x = if x = address then value else Storage.cell b x

/-- The word `w` is pushed only in part, which leaves the machine `t`. -/
inductive Machine.HalfPushed [Bus β] [Bus.Storage β] (s : Machine β) (w : UInt16) :
    BusError → Machine β → Prop where
  /-- The high byte cannot be written: the stack pointer has moved by one. -/
  | high (error : BusError)
      (failed : Bus.write (s.cpu.regs.sp - 1) (Word.high w) s.bus = .error error s.bus) :
      HalfPushed s w error { s with cpu := s.cpu.drop 1 }
  /-- The low byte cannot be written: the stack pointer has moved by two, and the high byte has been
  stored. -/
  | low (notice : Option Notice) (b : β) (error : BusError)
      (stored : Bus.Stored (s.cpu.regs.sp - 1) (Word.high w) s.bus notice b)
      (failed : Bus.write (s.cpu.regs.sp - 2) (Word.low w) b = .error error b) :
      HalfPushed s w error
        { s with cpu := s.cpu.drop 2, bus := b, journal := s.journal.note notice }

/-- An instruction pushes a word, given the registers before it and the address that follows it. -/
def Instruction.Pushes (i : Instruction) (r : Registers) (next w : UInt16) : Prop :=
  match i.action with
  | .operation (.push reg) => w = r.word reg
  | .operation (.call condition) => condition.all (·.holds r.flags) = true ∧ w = next
  | .operation (.rst _) => w = next
  | _ => False

namespace Machine

/-- The machine that has fetched the first bytes of an instruction, as many as given, and nothing
else of it. -/
def fetched [Bus β] (s : Machine β) (i : Instruction) (bytes : Nat) : Machine β :=
  { s.woken with cpu := { s.woken.cpu.skip bytes.toUInt16 with current := some i } }

/-- The next thing to do is to execute an instruction. -/
structure IsDue [Bus β] (s : Machine β) : Prop where
  going : s.cpu.exhausted = false
  calm : s.cpu.interrupted (Bus.pending s.bus) = false
  awake : s.woken.cpu.halted = false

/-- The instruction `i` is due and can be fetched whole, with the immediate value `w`. -/
structure Fetches [Bus β] (s : Machine β) (i : Instruction) (w : UInt16) : Prop
    extends s.IsDue where
  decoded : Bus.instructionAt s.cpu.regs.pc s.bus = .ok i s.bus
  legal : i.action ≠ .illegal
  immediate : Bus.readSpan (s.cpu.regs.pc + i.opcodeLength.toUInt16) i.phases.length s.bus =
    .ok w s.bus

/-- The ways in which a step fails, each with its fault and with the machine that it leaves, up to
where the fault is stored. -/
inductive Failed [Bus β] [Bus.Storage β] (s : Machine β) : Fault → Machine β → Prop where
  /-- The limit has been reached: nothing happens. -/
  | limit (n : Nat) (limit : s.cpu.limit = some n) (reached : n ≤ s.cpu.countedSteps) :
      Failed s (.stepLimit n) s
  /-- The program counter cannot be pushed for an interrupt: interrupts are disabled, and the
  request is withdrawn. -/
  | served (i : Interrupt) (error : BusError) (t : Machine β) (going : s.cpu.exhausted = false)
      (pending : Interrupt.first? (Bus.pending s.bus) = some i) (enabled : s.cpu.ime = true)
      (failed : (s.accepted i).HalfPushed s.cpu.regs.pc error t) : Failed s (.bus error) t
  /-- The opcode cannot be fetched: nothing but a wait has ended. -/
  | opcode (error : BusError) (due : s.IsDue)
      (failed : Bus.read s.cpu.regs.pc s.bus = .error error s.bus) :
      Failed s .endOfProgram s.woken
  /-- The opcode after the prefix of the extended page cannot be fetched: the program counter has
  moved over the prefix. -/
  | extended (error : BusError) (due : s.IsDue)
      (opcode : Bus.read s.cpu.regs.pc s.bus = .ok Opcode.extend s.bus)
      (failed : Bus.read (s.cpu.regs.pc + 1) s.bus = .error error s.bus) :
      Failed s .endOfProgram { s.woken with cpu := s.woken.cpu.skip 1 }
  /-- The opcode has no meaning: the program counter has moved over it. -/
  | illegal (i : Instruction) (due : s.IsDue)
      (decoded : Bus.instructionAt s.cpu.regs.pc s.bus = .ok i s.bus)
      (illegal : i.action = .illegal) :
      Failed s (.illegalOpcode i.opcode s.cpu.regs.pc) (s.fetched i 1)
  /-- The bytes after the opcode cannot all be fetched: the program counter has moved over the
  opcode and over none of these bytes. -/
  | immediate (i : Instruction) (error : BusError) (due : s.IsDue)
      (decoded : Bus.instructionAt s.cpu.regs.pc s.bus = .ok i s.bus) (legal : i.action ≠ .illegal)
      (failed : Bus.readSpan (s.cpu.regs.pc + i.opcodeLength.toUInt16) i.phases.length s.bus =
        .error error s.bus) : Failed s (.bus error) (s.fetched i i.opcodeLength)
  /-- What the instruction loads cannot be read: the program counter has moved over the
  instruction. -/
  | loaded (i : Instruction) (w : UInt16) (error : BusError) (fetches : s.Fetches i w)
      (failed : let load := i.phases.load (s.fetched i i.length).cpu.regs w
        Bus.readSpan load.address load.length s.bus = .error error s.bus) :
      Failed s (.bus error) (s.fetched i i.length)
  /-- The byte that the instruction stores cannot be written: the program counter has moved over the
  instruction. -/
  | stored (i : Instruction) (w v address : UInt16) (value : UInt8) (error : BusError)
      (fetches : s.Fetches i w)
      (loaded : let load := i.phases.load (s.fetched i i.length).cpu.regs w
        Bus.readSpan load.address load.length s.bus = .ok v s.bus)
      (store : i.phases.store (s.fetched i i.length).cpu.regs w v = .byte address value)
      (failed : Bus.write address value s.bus = .error error s.bus) :
      Failed s (.bus error) (s.fetched i i.length)
  /-- The low byte of the stack pointer cannot be stored: the program counter has moved over the
  instruction. -/
  | storedLow (i : Instruction) (address : UInt16) (error : BusError)
      (fetches : s.Fetches i address) (action : i.action = .operation .storeSP)
      (failed : Bus.write address (Word.low s.cpu.regs.sp) s.bus = .error error s.bus) :
      Failed s (.bus error) (s.fetched i i.length)
  /-- The high byte of the stack pointer cannot be stored, and the low byte has been. -/
  | storedHigh (i : Instruction) (address : UInt16) (notice : Option Notice) (b : β)
      (error : BusError) (fetches : s.Fetches i address) (action : i.action = .operation .storeSP)
      (stored : Bus.Stored address (Word.low s.cpu.regs.sp) s.bus notice b)
      (failed : Bus.write (address + 1) (Word.high s.cpu.regs.sp) b = .error error b) :
      Failed s (.bus error)
        { s.fetched i i.length with bus := b, journal := s.journal.note notice }
  /-- The word that the instruction pushes cannot be stored whole. -/
  | pushed (i : Instruction) (w v : UInt16) (error : BusError) (t : Machine β)
      (fetches : s.Fetches i w)
      (pushes : i.Pushes s.cpu.regs (s.cpu.regs.pc + i.length.toUInt16) v)
      (failed : (s.fetched i i.length).HalfPushed v error t) : Failed s (.bus error) t

end Machine

/-! ## Failing stores -/

/-- A store of at most one byte. -/
def Store.isSmall : Store → Bool
  | none | byte .. => true
  | _ => false

theorem Place.isSmall_store (place : Place) (r : Registers) (fetched : UInt16) (v : UInt8) :
    (place.store r fetched v).isSmall := by
  cases place <;> rfl

namespace Instruction

variable {i : Instruction} {r : Registers} {fetched loaded next w : UInt16}

/-- The only instructions that store more than a byte are the one that stores the stack pointer and
those that push. -/
theorem store_cases (i : Instruction) (r : Registers) (fetched loaded : UInt16) :
    (i.phases.store r fetched loaded).isSmall ∨
    (i.action = .operation .storeSP ∧ i.phases.store r fetched loaded = .word fetched r.sp) ∨
    ∃ w, i.Pushes r r.pc w ∧ i.phases.store r fetched loaded = .push w := by
  unfold Pushes phases
  cases i.action with
  | operation op =>
    cases op with
    | load target | inc target | dec target => exact .inl (target.isSmall_store r _ _)
    | storeSP => exact .inr (.inl ⟨rfl, rfl⟩)
    | push reg => exact .inr (.inr ⟨r.word reg, rfl, rfl⟩)
    | rst n => exact .inr (.inr ⟨r.pc, rfl, rfl⟩)
    | call condition =>
      by_cases htaken : condition.all (·.holds r.flags)
      · exact .inr (.inr ⟨r.pc, ⟨htaken, rfl⟩, if_pos htaken⟩)
      · left
        change (if condition.all (·.holds r.flags) then Store.push r.pc else .none).isSmall = true
        rw [if_neg htaken]
        rfl
    | _ => exact .inl rfl
  | bits op =>
    cases op with
    | bit => exact .inl rfl
    | shift _ target | res _ target | set _ target => exact .inl (target.isSmall_store r _ _)
  | extend | illegal => exact .inl rfl

/-- What is pushed does not depend on the program counter before the fetch. -/
theorem pushes_pc {pc : UInt16} : i.Pushes { r with pc } next w ↔ i.Pushes r next w := by
  have hword (reg : Reg16) : ({ r with pc } : Registers).word reg = r.word reg := by
    cases reg <;> rfl
  unfold Pushes
  simp only [hword]
  rfl

/-- An instruction that pushes a word loads nothing, and its store is that push. -/
theorem Pushes.phases (h : i.Pushes r r.pc w) :
    i.phases.load r fetched = .none ∧ i.phases.store r fetched loaded = .push w := by
  unfold Pushes at h
  unfold Instruction.phases
  split at h
  case h_1 reg haction =>
    subst h
    rw [haction]
    exact ⟨rfl, rfl⟩
  case h_2 condition haction =>
    obtain ⟨htaken, rfl⟩ := h
    rw [haction]
    exact ⟨rfl, if_pos htaken⟩
  case h_3 n haction =>
    subst h
    rw [haction]
    exact ⟨rfl, rfl⟩
  case h_4 => cases h

/-- Storing the stack pointer loads nothing. -/
theorem phases_storeSP (h : i.action = .operation .storeSP) :
    i.phases.load r fetched = .none ∧ i.phases.store r fetched loaded = .word fetched r.sp := by
  unfold phases
  rw [h]
  exact ⟨rfl, rfl⟩

theorem opcodeLength_illegal (h : i.action = .illegal) : i.opcodeLength = 1 := by
  unfold action at h
  split at h
  · cases h
  · rename_i hprefixed
    exact if_neg hprefixed

end Instruction

section

variable [Bus β] [Bus.Storage β] {s t : Machine β} {e : Fault}

theorem Store.byte_eq_error {a : UInt16} {v : UInt8} :
    (byte a v).perform s = .error e t ↔
      ∃ error, Bus.write a v s.bus = .error error s.bus ∧ e = .bus error ∧ t = s := by
  refine Exec.write_eq_error.trans ⟨?_, ?_⟩
  · rintro ⟨error, b, hfailed, rfl, rfl⟩
    obtain rfl := Bus.MemoryLike.write_error hfailed
    exact ⟨error, hfailed, rfl, rfl⟩
  · rintro ⟨error, hfailed, rfl, rfl⟩
    exact ⟨error, t.bus, hfailed, rfl, rfl⟩

theorem Store.word_eq_error {a w : UInt16} :
    (word a w).perform s = .error e t ↔
      (∃ error, Bus.write a (Word.low w) s.bus = .error error s.bus ∧ e = .bus error ∧ t = s) ∨
      ∃ notice b error, Bus.Stored a (Word.low w) s.bus notice b ∧
        Bus.write (a + 1) (Word.high w) b = .error error b ∧ e = .bus error ∧
        t = { s with bus := b, journal := s.journal.note notice } := by
  constructor
  · intro h
    rcases Exec.bind_eq_error.1 h with hlow | ⟨_, _, hlow, hhigh⟩
    · obtain ⟨error, b, hfailed, rfl, rfl⟩ := Exec.write_eq_error.1 hlow
      obtain rfl := Bus.MemoryLike.write_error hfailed
      exact .inl ⟨error, hfailed, rfl, rfl⟩
    · obtain ⟨notice, b, hwritten, rfl⟩ := Exec.write_eq_ok.1 hlow
      obtain ⟨error, b', hfailed, rfl, rfl⟩ := Exec.write_eq_error.1 hhigh
      obtain rfl := Bus.MemoryLike.write_error hfailed
      exact .inr ⟨notice, _, error, ⟨hwritten, Bus.Storage.write_ok hwritten⟩, hfailed, rfl, rfl⟩
  · rintro (⟨error, hfailed, rfl, rfl⟩ | ⟨notice, b, error, hstored, hfailed, rfl, rfl⟩)
    · exact Exec.bind_eq_error.2 (.inl (Exec.write_eq_error.2 ⟨error, _, hfailed, rfl, rfl⟩))
    · refine Exec.bind_eq_error.2
        (.inr ⟨(), _, Exec.write_eq_ok.2 ⟨notice, b, hstored.write, rfl⟩, ?_⟩)
      exact Exec.write_eq_error.2 ⟨error, b, hfailed, rfl, rfl⟩

/-- A push fails just by being made in part. -/
theorem Exec.push_eq_error_iff {w : UInt16} :
    push w s = .error e t ↔ ∃ error, e = .bus error ∧ s.HalfPushed w error t := by
  rw [push_eq_error]
  constructor
  · rintro (⟨error, b, hfailed, rfl, rfl⟩ | ⟨notice, b, error, b', hwritten, hfailed, rfl, rfl⟩)
    · obtain rfl := Bus.MemoryLike.write_error hfailed
      exact ⟨error, rfl, .high error hfailed⟩
    · obtain rfl := Bus.MemoryLike.write_error hfailed
      exact ⟨error, rfl, .low notice _ error ⟨hwritten, Bus.Storage.write_ok hwritten⟩ hfailed⟩
  · rintro ⟨error, rfl, hpushed⟩
    cases hpushed with
    | high _ failed => exact .inl ⟨error, s.bus, failed, rfl, rfl⟩
    | low notice b _ stored failed =>
      exact .inr ⟨notice, b, error, b, stored.write, failed, rfl, rfl⟩

end

/-! ## Failing instructions -/

namespace Machine

section

variable [Bus β] (s : Machine β) (i : Instruction)

theorem regs_woken : s.woken.cpu.regs = s.cpu.regs := s.cpu.regs_wake _

/-- The opcode comes first. -/
theorem fetched_opcode : s.fetched i i.opcodeLength = s.entered i s.bus := rfl

theorem cpu_fetched (n : Nat) : ∃ halted, (s.fetched i n).cpu = { s.cpu with
    regs := { s.cpu.regs with pc := s.cpu.regs.pc + n.toUInt16 }
    halted
    current := some i } := by
  obtain ⟨halted, hwake⟩ := s.cpu.wake_frame (Bus.pending s.bus)
  exact ⟨halted, by simp only [fetched, woken, hwake, Cpu.skip]⟩

theorem regs_fetched (n : Nat) : (s.fetched i n).cpu.regs =
    { s.cpu.regs with pc := s.cpu.regs.pc + n.toUInt16 } := by
  obtain ⟨halted, hcpu⟩ := s.cpu_fetched i n
  rw [hcpu]

theorem sp_fetched (n : Nat) : (s.fetched i n).cpu.regs.sp = s.cpu.regs.sp := by
  rw [regs_fetched]

variable {s i}

/-- The bytes after the opcode are the rest of the instruction. -/
theorem skip_entered (h : i.action.isProper) :
    (s.entered i s.bus).cpu.skip i.phases.length.toUInt16 = (s.fetched i i.length).cpu := by
  rw [Instruction.length_eq h]
  simp [fetched, entered, woken, Cpu.enter, Cpu.skip, Nat.toUInt16, UInt16.add_assoc]

/-- An instruction fails in its fetch, in its load or in its store. -/
theorem run_entered [Bus.PureReads β] {e : Fault} {t : Machine β} (hproper : i.action.isProper) :
    i.phases.run (s.entered i s.bus) = .error e t ↔
      (∃ error, Bus.readSpan (s.cpu.regs.pc + i.opcodeLength.toUInt16) i.phases.length s.bus =
        .error error s.bus ∧ e = .bus error ∧ t = s.fetched i i.opcodeLength) ∨
      ∃ w, Bus.readSpan (s.cpu.regs.pc + i.opcodeLength.toUInt16) i.phases.length s.bus =
        .ok w s.bus ∧
        (let load := i.phases.load (s.fetched i i.length).cpu.regs w
        (∃ error, Bus.readSpan load.address load.length s.bus = .error error s.bus ∧
          e = .bus error ∧ t = s.fetched i i.length) ∨
        ∃ v, Bus.readSpan load.address load.length s.bus = .ok v s.bus ∧
          (i.phases.store (s.fetched i i.length).cpu.regs w v).perform (s.fetched i i.length) =
            .error e t) := by
  have hpc : (s.entered i s.bus).cpu.regs.pc = s.cpu.regs.pc + i.opcodeLength.toUInt16 := by
    rw [← fetched_opcode, regs_fetched]
  rw [Phases.run_eq_error]
  simp only [hpc, skip_entered hproper]
  constructor
  · rintro (⟨error, b, hfetch, rfl, rfl⟩ | ⟨w, b, hfetch, hrest⟩)
    · obtain rfl := Bus.readSpan_error hfetch
      exact .inl ⟨error, hfetch, rfl, rfl⟩
    · obtain rfl := Bus.readSpan_ok hfetch
      refine .inr ⟨w, hfetch, ?_⟩
      rcases hrest with ⟨error, b, hload, rfl, rfl⟩ | ⟨v, b, hload, hstore⟩
      · obtain rfl := Bus.readSpan_error hload
        exact .inl ⟨error, hload, rfl, rfl⟩
      · obtain rfl := Bus.readSpan_ok hload
        exact .inr ⟨v, hload, hstore⟩
  · rintro (⟨error, hfetch, rfl, rfl⟩ | ⟨w, hfetch, hrest⟩)
    · exact .inl ⟨error, s.bus, hfetch, rfl, rfl⟩
    · refine .inr ⟨w, s.bus, hfetch, ?_⟩
      rcases hrest with ⟨error, hload, rfl, rfl⟩ | ⟨v, hload, hstore⟩
      · exact .inl ⟨error, s.bus, hload, rfl, rfl⟩
      · exact .inr ⟨v, s.bus, hload, hstore⟩

end

section

variable [Bus β] {s t : Machine β} {i : Instruction} {w : UInt16} {e : Fault}

theorem IsDue.attempt (h : s.IsDue) : Exec.attempt s = Exec.executeNext s.woken := by
  rw [attempt_calm h.going h.calm, h.awake]
  rfl

theorem IsDue.attempt_of_decode (h : s.IsDue) (hdecode : Exec.decode s.woken = .error e t) :
    Exec.attempt s = .error e t := by
  rw [h.attempt]
  exact Exec.bind_eq_error.2 (.inr ⟨_, _, rfl, Exec.bind_eq_error.2 (.inl hdecode)⟩)

theorem IsDue.attempt_of_execute (h : s.IsDue)
    (hdecoded : Bus.instructionAt s.cpu.regs.pc s.bus = .ok i s.bus)
    (hfailed : i.execute (s.entered i s.bus) = .error e t) : Exec.attempt s = .error e t := by
  rw [h.attempt]
  rw [← s.regs_woken] at hdecoded
  refine Exec.bind_eq_error.2 (.inr ⟨_, _, rfl, ?_⟩)
  refine Exec.bind_eq_error.2 (.inr ⟨i, _, Exec.decode_of_instructionAt hdecoded, ?_⟩)
  exact Exec.bind_eq_error.2 (.inr ⟨_, _, rfl, Exec.bind_eq_error.2 (.inl hfailed)⟩)

theorem execute_of_run (hproper : i.action.isProper) (h : i.phases.run s = .error e t) :
    i.execute s = .error e t := by
  rw [Instruction.execute_eq hproper]
  exact Exec.bind_eq_error.2 (.inr ⟨_, _, rfl, Exec.bind_eq_error.2 (.inl h)⟩)

theorem Fetches.isProper (h : s.Fetches i w) : i.action.isProper :=
  (Instruction.isProper (Exec.instructionAt_ok h.decoded)).resolve_right h.legal

/-- An instruction that has been fetched fails in what it does then. -/
theorem Fetches.attempt_of_phases [Bus.PureReads β] (h : s.Fetches i w)
    (hrest : let load := i.phases.load (s.fetched i i.length).cpu.regs w
      (∃ error, Bus.readSpan load.address load.length s.bus = .error error s.bus ∧
        e = .bus error ∧ t = s.fetched i i.length) ∨
      ∃ v, Bus.readSpan load.address load.length s.bus = .ok v s.bus ∧
        (i.phases.store (s.fetched i i.length).cpu.regs w v).perform (s.fetched i i.length) =
          .error e t) : Exec.attempt s = .error e t := by
  refine h.attempt_of_execute h.decoded (execute_of_run h.isProper ?_)
  exact (run_entered h.isProper).2 (.inr ⟨w, h.immediate, hrest⟩)

/-- An instruction that loads nothing fails in what it stores. -/
theorem Fetches.attempt_of_store [Bus.PureReads β] {store : Store} (h : s.Fetches i w)
    (hload : i.phases.load (s.fetched i i.length).cpu.regs w = .none)
    (hstore : i.phases.store (s.fetched i i.length).cpu.regs w 0 = store)
    (hfailed : store.perform (s.fetched i i.length) = .error e t) :
    Exec.attempt s = .error e t := by
  refine h.attempt_of_phases (.inr ⟨0, ?_, ?_⟩)
  · rw [hload]
    rfl
  · rw [hstore]
    exact hfailed

end

section

variable [Bus β] [Bus.Storage β] {s t : Machine β} {i : Instruction} {w : UInt16} {e : Fault}

/-- In each of these ways a step does fail. -/
theorem Failed.attempt (h : s.Failed e t) : Exec.attempt s = .error e t := by
  cases h with
  | limit n limit reached =>
    have hexhausted : s.cpu.exhausted = true := by simpa [Cpu.exhausted, limit] using reached
    rw [attempt_exhausted hexhausted, limit]
    rfl
  | served i error _ going pending enabled failed =>
    rw [attempt_served going pending enabled, Exec.push_eq_error_iff.2 ⟨error, rfl, failed⟩]
  | opcode error due failed =>
    rw [← s.regs_woken] at failed
    refine due.attempt_of_decode (Exec.bind_eq_error.2 (.inl ?_))
    exact Exec.fetchOpcode_eq_error.2 ⟨error, s.bus, failed, rfl, rfl⟩
  | extended error due opcode failed =>
    rw [← s.regs_woken] at opcode failed
    refine due.attempt_of_decode (Exec.bind_eq_error.2
      (.inr ⟨_, _, Exec.fetchOpcode_eq_ok.2 ⟨s.bus, opcode, rfl⟩, ?_⟩))
    rw [if_pos rfl]
    refine Exec.bind_eq_error.2 (.inl ?_)
    exact Exec.fetchOpcode_eq_error.2 ⟨error, s.bus, failed, rfl, rfl⟩
  | illegal i due decoded illegal =>
    refine due.attempt_of_execute decoded ?_
    rw [Instruction.execute_illegal illegal, ← fetched_opcode, regs_fetched,
      Instruction.opcodeLength_illegal illegal]
    simp
  | immediate i error due decoded legal failed =>
    have hproper := (Instruction.isProper (Exec.instructionAt_ok decoded)).resolve_right legal
    refine due.attempt_of_execute decoded (execute_of_run hproper ?_)
    exact (run_entered hproper).2 (.inl ⟨error, failed, rfl, rfl⟩)
  | loaded i w error fetches failed =>
    exact fetches.attempt_of_phases (.inl ⟨error, failed, rfl, rfl⟩)
  | stored i w v address value error fetches loaded store failed =>
    refine fetches.attempt_of_phases (.inr ⟨v, loaded, ?_⟩)
    rw [store]
    exact Store.byte_eq_error.2 ⟨error, failed, rfl, rfl⟩
  | storedLow i address error fetches action failed =>
    obtain ⟨hload, hstore⟩ := Instruction.phases_storeSP action
    rw [← s.sp_fetched i i.length] at failed
    exact fetches.attempt_of_store hload hstore
      (Store.word_eq_error.2 (.inl ⟨error, failed, rfl, rfl⟩))
  | storedHigh i address notice b error fetches action stored failed =>
    obtain ⟨hload, hstore⟩ := Instruction.phases_storeSP action
    rw [← s.sp_fetched i i.length] at stored failed
    exact fetches.attempt_of_store hload hstore
      (Store.word_eq_error.2 (.inr ⟨notice, b, error, stored, failed, rfl, rfl⟩))
  | pushed i w v error _ fetches pushes failed =>
    rw [← Instruction.pushes_pc, ← regs_fetched] at pushes
    have hpc : s.cpu.regs.pc + i.length.toUInt16 = (s.fetched i i.length).cpu.regs.pc := by
      rw [regs_fetched]
    rw [hpc] at pushes
    obtain ⟨hload, hstore⟩ := pushes.phases
    exact fetches.attempt_of_store hload hstore (Exec.push_eq_error_iff.2 ⟨error, rfl, failed⟩)

/-- What a store can fail in depends on what is stored. -/
theorem Fetches.failed_of_store {v : UInt16} (h : s.Fetches i w)
    (hload : let load := i.phases.load (s.fetched i i.length).cpu.regs w
      Bus.readSpan load.address load.length s.bus = .ok v s.bus)
    (hfailed : (i.phases.store (s.fetched i i.length).cpu.regs w v).perform
      (s.fetched i i.length) = .error e t) : s.Failed e t := by
  rcases i.store_cases (s.fetched i i.length).cpu.regs w v with
    hsmall | ⟨haction, hstore⟩ | ⟨x, hpushes, hstore⟩
  · cases hstore : i.phases.store (s.fetched i i.length).cpu.regs w v with
    | none =>
      rw [hstore] at hfailed
      cases hfailed
    | byte address value =>
      rw [hstore] at hfailed
      obtain ⟨error, hwrite, rfl, rfl⟩ := Store.byte_eq_error.1 hfailed
      exact .stored i w v address value error h hload hstore hwrite
    | word | push =>
      rw [hstore] at hsmall
      cases hsmall
  · rw [hstore, sp_fetched] at hfailed
    rcases Store.word_eq_error.1 hfailed with
      ⟨error, hlow, rfl, rfl⟩ | ⟨notice, b, error, hlow, hhigh, rfl, rfl⟩
    · exact .storedLow i w error h haction hlow
    · exact .storedHigh i w notice b error h haction hlow hhigh
  · rw [hstore] at hfailed
    obtain ⟨error, rfl, hpushed⟩ := Exec.push_eq_error_iff.1 hfailed
    rw [regs_fetched, Instruction.pushes_pc] at hpushes
    exact .pushed i w x error t h hpushes hpushed

/-- An instruction that fails has no meaning, or fails in one of its phases. -/
theorem IsDue.failed_of_execute (h : s.IsDue)
    (hdecoded : Bus.instructionAt s.cpu.regs.pc s.bus = .ok i s.bus)
    (hfailed : i.execute (s.entered i s.bus) = .error e t) : s.Failed e t := by
  rcases Instruction.execute_error (Exec.instructionAt_ok hdecoded) hfailed with
    ⟨hillegal, rfl, rfl⟩ | ⟨hproper, hrun⟩
  · have hfailed := Failed.illegal i h hdecoded hillegal
    have hone := Instruction.opcodeLength_illegal hillegal
    rw [← fetched_opcode, regs_fetched, hone]
    simpa using hfailed
  have hlegal : i.action ≠ .illegal := by
    intro hillegal
    rw [hillegal] at hproper
    cases hproper
  rcases (run_entered hproper).1 hrun with ⟨error, hfetch, rfl, rfl⟩ | ⟨w, hfetch, hrest⟩
  · exact .immediate i error h hdecoded hlegal hfetch
  have hfetches : s.Fetches i w := ⟨h, hdecoded, hlegal, hfetch⟩
  rcases hrest with ⟨error, hload, rfl, rfl⟩ | ⟨v, hload, hstore⟩
  · exact .loaded i w error hfetches hload
  · exact hfetches.failed_of_store hload hstore

/-- There are no other ways in which a step fails. -/
theorem failed_of_attempt (h : Exec.attempt s = .error e t) : s.Failed e t := by
  cases hlimit : s.cpu.exhausted with
  | true =>
    obtain ⟨n, hn, hreached⟩ := (Option.any_eq_true _ _).1 hlimit
    rw [attempt_exhausted hlimit, hn] at h
    obtain ⟨rfl, rfl⟩ := EStateM.Result.error.inj h
    exact .limit n hn (of_decide_eq_true hreached)
  | false =>
    -- A wait does not fail.
    have hdue (hcalm : s.cpu.interrupted (Bus.pending s.bus) = false) : s.IsDue := by
      refine ⟨hlimit, hcalm, ?_⟩
      rw [attempt_calm hlimit hcalm] at h
      cases hhalted : s.woken.cpu.halted with
      | false => rfl
      | true =>
        rw [hhalted] at h
        cases h
    cases attempt_error h with
    | limit n limit reached => exact .limit n limit reached
    | served i _ _ pending enabled failed =>
      obtain ⟨error, rfl, hpushed⟩ := Exec.push_eq_error_iff.1 failed
      exact .served i error t hlimit pending enabled hpushed
    | opcode error b calm failed =>
      obtain rfl := Bus.PureReads.read_error failed
      exact .opcode error (hdue calm) failed
    | extended b error b' calm opcode failed =>
      obtain rfl := Bus.PureReads.read_ok opcode
      obtain rfl := Bus.PureReads.read_error failed
      exact .extended error (hdue calm) opcode failed
    | executed i b _ _ calm decoded failed =>
      obtain ⟨rfl, -⟩ := Bus.instructionAt_bytes decoded
      exact (hdue calm).failed_of_execute decoded failed

end

/-! ## What all failures have in common -/

section

variable [Bus β] {s t : Machine β} {i : Instruction} {w : UInt16}

/-- The processor of `s`, but that the program counter has moved over bytes that could be read, and
that the stack pointer, the interrupt enable, the wait for an interrupt and the instruction decoded
last may be others. -/
def Frame (s : Machine β) (cpu : Cpu) : Prop :=
  ∃ (n : Nat) (bytes : List UInt8) (sp : UInt16) (ime halted : Bool) (current : Option Instruction),
    Bus.readAt s.cpu.regs.pc (List.range n) s.bus = .ok bytes s.bus ∧
    cpu = { s.cpu with
      regs := { s.cpu.regs with pc := s.cpu.regs.pc + n.toUInt16, sp }, ime, halted, current }

theorem Frame.still (s : Machine β) (ime halted : Bool) :
    s.Frame { s.cpu with ime, halted } := by
  have hstay : s.cpu.regs.pc + (0 : Nat).toUInt16 = s.cpu.regs.pc := by simp
  exact ⟨0, [], s.cpu.regs.sp, ime, halted, s.cpu.current, rfl, by rw [hstay]⟩

theorem Frame.fetched {n : Nat} {bytes : List UInt8} (i : Instruction)
    (hbytes : Bus.readAt s.cpu.regs.pc (List.range n) s.bus = .ok bytes s.bus) :
    s.Frame (s.fetched i n).cpu := by
  obtain ⟨halted, hcpu⟩ := s.cpu_fetched i n
  exact ⟨n, bytes, s.cpu.regs.sp, s.cpu.ime, halted, some i, hbytes, hcpu⟩

theorem Fetches.frame [Bus.PureReads β] (h : s.Fetches i w) :
    s.Frame (s.fetched i i.length).cpu :=
  .fetched i (Bus.readAt_instruction h.isProper h.decoded h.immediate)

end

section

variable [Bus β] [Bus.Storage β] {s t u : Machine β} {w : UInt16} {e : Fault}

/-- A push that fails moves nothing but the stack pointer. -/
theorem Frame.halfPushed {error : BusError} (h : s.Frame u.cpu)
    (hpushed : u.HalfPushed w error t) : s.Frame t.cpu := by
  obtain ⟨n, bytes, _, ime, halted, current, hbytes, hcpu⟩ := h
  cases hpushed with
  | high =>
    exact ⟨n, bytes, u.cpu.regs.sp - 1, ime, halted, current, hbytes, by simp [Cpu.drop, hcpu]⟩
  | low =>
    exact ⟨n, bytes, u.cpu.regs.sp - 2, ime, halted, current, hbytes, by simp [Cpu.drop, hcpu]⟩

theorem Failed.frame (h : s.Failed e t) : s.Frame t.cpu := by
  obtain ⟨halted, hwake⟩ := s.cpu.wake_frame (Bus.pending s.bus)
  cases h with
  | limit => exact .still s s.cpu.ime s.cpu.halted
  | served i error _ _ _ _ failed =>
    have haccepted : s.Frame (s.accepted i).cpu := .still s false false
    exact haccepted.halfPushed failed
  | opcode =>
    rw [woken, hwake]
    exact .still s s.cpu.ime halted
  | extended error _ opcode =>
    refine ⟨1, _, s.cpu.regs.sp, s.cpu.ime, halted, s.cpu.current, Bus.readAt_one opcode, ?_⟩
    rw [woken, hwake]
    rfl
  | illegal i _ decoded illegal =>
    obtain ⟨-, hbytes⟩ := Bus.instructionAt_bytes decoded
    rw [Instruction.opcodeLength_illegal illegal] at hbytes
    exact .fetched i hbytes
  | immediate i _ _ decoded =>
    obtain ⟨-, hbytes⟩ := Bus.instructionAt_bytes decoded
    exact .fetched i hbytes
  | loaded _ _ _ fetches | stored _ _ _ _ _ _ fetches | storedLow _ _ _ fetches
  | storedHigh _ _ _ _ _ fetches => exact fetches.frame
  | pushed _ _ _ _ _ fetches _ failed => exact fetches.frame.halfPushed failed

/-- The exact footprint of a failing step, on a storage in which any cell may be unreadable or
unwritable. A machine that had not stopped fails just in the ways that `Failed` lists, one for each
access that can fail, and is left as is said there, but for the fault, which is stored and reported.
In all of them the byte registers, the flags and the counters are as they were, the program counter
has moved over bytes that could be read and not otherwise, and the bus was not told that a step has
ended. -/
theorem step_failure (hfault : s.cpu.fault = none) :
    (step s = .error e t ↔ ∃ u, s.Failed e u ∧ t = u.stopWith e) ∧
    ∀ u, s.Failed e u →
      (u.stopWith e).cpu = { u.cpu with fault := some e } ∧ s.Frame u.cpu ∧
      ∀ traffic, ∃ seen : Array Traffic, (∀ event ∈ seen, event.isEnd = false) ∧
        step (s.watch traffic) = .error e ((u.stopWith e).watch (traffic ++ seen)) := by
  have hstep {u : Machine β} (h : s.Failed e u) : step s = .error e (u.stopWith e) := by
    simp only [step, hfault, h.attempt]
  refine ⟨⟨?fails, ?failed⟩, fun u hu => ⟨u.cpu_stopWith e, hu.frame, fun traffic => ?watched⟩⟩
  case fails =>
    intro h
    simp only [step, hfault] at h
    cases hattempt : Exec.attempt s with
    | ok p u => simp [hattempt] at h
    | error e' u =>
      rw [hattempt] at h
      obtain ⟨rfl, rfl⟩ := EStateM.Result.error.inj h
      exact ⟨u, failed_of_attempt hattempt, rfl⟩
  case failed =>
    rintro ⟨u, hu, rfl⟩
    exact hstep hu
  case watched =>
    obtain ⟨seen, hseen, hwatched⟩ := s.step_watch traffic
    rw [hstep hu] at hwatched
    exact ⟨seen, hseen, hwatched⟩

end

/-- A push across address zero of a bare program. The high byte lands on the first byte of the
program, and there is no place for the low byte: the stack pointer has moved by two. -/
theorem step_failure_push : ∃ s t : Machine ProgramBus,
    s.cpu.fault = none ∧ s.bus.bytes = #[0x31, 0x01, 0x00, 0xC5] ∧ s.cpu.regs.sp = 1 ∧
    step s = .error (.bus (.unmapped 0xFFFF)) t ∧
    t.bus.bytes = #[0x00, 0x01, 0x00, 0xC5] ∧ t.cpu.regs.sp = 0xFFFF ∧ t.cpu.regs.pc = 4 ∧
    ∃ u, s.Failed (.bus (.unmapped 0xFFFF)) u ∧
      t = u.stopWith (.bus (.unmapped 0xFFFF)) ∧ s.Frame u.cpu := by
  obtain ⟨s, t, hfault, hbytes, hsp, hstep, hleft⟩ : ∃ s t : Machine ProgramBus,
      s.cpu.fault = none ∧ s.bus.bytes = #[0x31, 0x01, 0x00, 0xC5] ∧ s.cpu.regs.sp = 1 ∧
      step s = .error (.bus (.unmapped 0xFFFF)) t ∧
      t.bus.bytes = #[0x00, 0x01, 0x00, 0xC5] ∧ t.cpu.regs.sp = 0xFFFF ∧ t.cpu.regs.pc = 4 :=
    ⟨(start .powerOn ⟨#[0x31, 0x01, 0x00, 0xC5]⟩ : Machine ProgramBus).next, _, rfl, rfl, rfl, rfl,
      rfl, rfl, rfl⟩
  obtain ⟨hfails, hframes⟩ := step_failure (t := t) (e := .bus (.unmapped 0xFFFF)) hfault
  obtain ⟨u, hfailed, hstopped⟩ := hfails.1 hstep
  obtain ⟨-, hframe, -⟩ := hframes u hfailed
  obtain ⟨hstored, hstack, hpc⟩ := hleft
  exact ⟨s, t, hfault, hbytes, hsp, hstep, hstored, hstack, hpc, u, hfailed, hstopped, hframe⟩

end Machine

end GameBoy
