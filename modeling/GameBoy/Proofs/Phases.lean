import GameBoy.Proofs.Execution

/-!
# The phases of an operation

An operation is defined by the order in which it reads, writes and updates. Every operation that an
opcode can name does so in four phases, in this order:

1. *fetch* the bytes after the opcode,
2. *load* at most one byte or word from memory,
3. *store* at most one byte or word in memory, or push one word,
4. *commit* the result to the processor.

Only the commit touches what the first three phases do not move themselves, namely the program
counter in a fetch and the stack pointer in a push. Main statements: `Phases.run_ok` and
`Phases.run_eq_error`, which say how far a run through the phases gets and what it leaves behind.
-/

namespace GameBoy

open Arithmetic

variable {β : Type} [Bus β]

/-! ## Loads and stores -/

/-- Read the given number of bytes, at most two, as a word. -/
def Bus.readSpan (address : UInt16) : Nat → EStateM BusError β UInt16
  | 0 => return 0
  | 1 => return (← read address).toUInt16
  | _ => readWord address

/-- What an operation reads from memory. -/
structure Load where
  address : UInt16
  /-- How many bytes it reads. -/
  length : Nat

namespace Load

def none : Load := ⟨0, 0⟩

def byte (address : UInt16) : Load := ⟨address, 1⟩

def word (address : UInt16) : Load := ⟨address, 2⟩

def perform (l : Load) : Exec β UInt16 := Exec.access (Bus.readSpan l.address l.length) .bus

end Load

/-- What an operation writes to memory. -/
inductive Store where
  | none
  | byte (address : UInt16) (value : UInt8)
  /-- A word, low byte first. -/
  | word (address : UInt16) (value : UInt16)
  /-- A word on the stack, high byte first. -/
  | push (value : UInt16)

namespace Store

def perform : Store → Exec β Unit
  | none => return ()
  | byte address value => Exec.write address value
  | word address value => do
    Exec.write address (Word.low value)
    Exec.write (address + 1) (Word.high value)
  | push value => Exec.push value

/-- How many bytes go on the stack. -/
def pushed : Store → UInt16
  | push _ => 2
  | _ => 0

end Store

/-- Fetch the given number of bytes after the opcode, at most two, as a word. -/
def Exec.fetchImmediate (n : Nat) : Exec β UInt16 := do
  let value ← Exec.access (Bus.readSpan (← Exec.getRegs).pc n) .bus
  Exec.skip n.toUInt16
  return value

/-! ## Phases -/

/-- The phases of an operation. Later phases depend on the registers, on what was fetched, and on
what was loaded. -/
structure Phases where
  /-- How many bytes after the opcode are fetched. -/
  length : Nat
  /-- What is loaded. -/
  load (regs : Registers) (fetched : UInt16) : Load
  /-- What is stored. -/
  store (regs : Registers) (fetched loaded : UInt16) : Store
  /-- What becomes of the processor. -/
  commit (fetched loaded : UInt16) (cpu : Cpu) : Cpu

def Phases.run (p : Phases) : Exec β Unit := do
  let fetched ← Exec.fetchImmediate p.length
  let regs ← Exec.getRegs
  let loaded ← (p.load regs fetched).perform
  (p.store regs fetched loaded).perform
  Exec.modifyCpu (p.commit fetched loaded)

/-! ## Places by phases -/

def Address.locate (regs : Registers) (fetched : UInt16) : Address → UInt16
  | bc => regs.bc
  | de => regs.de
  | hl | hlInc | hlDec => regs.hl
  | absolute => fetched
  | page => 0xFF00 ||| fetched
  | pageC => 0xFF00 ||| regs.c.toUInt16

/-- The registers after a transfer through this address. -/
def Address.step (regs : Registers) : Address → Registers
  | hlInc => regs.setHL (regs.hl + 1)
  | hlDec => regs.setHL (regs.hl - 1)
  | _ => regs

namespace Place

/-- What must be loaded to take the byte from a place. -/
def load (regs : Registers) (fetched : UInt16) : Place → Load
  | reg _ => .none
  | mem address => .byte (address.locate regs fetched)

/-- The byte in a place, given what was loaded. -/
def value (regs : Registers) (loaded : UInt16) : Place → UInt8
  | reg r => regs.byte r
  | mem _ => loaded.toUInt8

/-- What must be stored to put a byte into a place. -/
def store (regs : Registers) (fetched : UInt16) (value : UInt8) : Place → Store
  | reg _ => .none
  | mem address => .byte (address.locate regs fetched) value

/-- The registers after a byte was put into a place. -/
def keep (value : UInt8) (regs : Registers) : Place → Registers
  | reg r => regs.setByte r value
  | mem address => address.step regs

/-- The registers after a byte was taken from a place. -/
def step (regs : Registers) : Place → Registers
  | reg _ => regs
  | mem address => address.step regs

end Place

namespace Source

def load (regs : Registers) (fetched : UInt16) : Source → Load
  | place p => p.load regs fetched
  | immediate => .none

def value (regs : Registers) (fetched loaded : UInt16) : Source → UInt8
  | place p => p.value regs loaded
  | immediate => fetched.toUInt8

def step (regs : Registers) : Source → Registers
  | place p => p.step regs
  | immediate => regs

end Source

/-! ## Operations by phases -/

namespace Operation

/-- Whether an operation branches under the given flags. -/
def branches (flags : Flags) : Operation → Bool
  | jr condition | jp condition | call condition | ret condition => condition.all (·.holds flags)
  | jpHL | reti | rst _ => true
  | _ => false

/-- What an operation loads. -/
def load? (regs : Registers) (fetched : UInt16) : Operation → Load
  | load _ source | alu _ source => source.load regs fetched
  | inc target | dec target => target.load regs 0
  | pop _ | reti => .word regs.sp
  | ret condition => if condition.all (·.holds regs.flags) then .word regs.sp else .none
  | _ => .none

/-- What an operation stores. -/
def store? (regs : Registers) (fetched loaded : UInt16) : Operation → Store
  | load target source => target.store regs fetched (source.value regs fetched loaded)
  | inc target => target.store regs 0 (inc8 (target.value regs loaded) regs.flags).1
  | dec target => target.store regs 0 (dec8 (target.value regs loaded) regs.flags).1
  | storeSP => .word fetched regs.sp
  | push r => .push (regs.word r)
  | call condition => if condition.all (·.holds regs.flags) then .push regs.pc else .none
  | rst _ => .push regs.pc
  | _ => .none

/-- The registers after an operation, given those after its last access. -/
def settle (fetched loaded : UInt16) (r : Registers) : Operation → Registers
  | load target source => target.keep (source.value r fetched loaded) (source.step r)
  | loadWord reg => r.setWord reg fetched
  | loadSP => { r with sp := r.hl }
  | loadHL =>
    let (value, flags) := addOffset r.sp (Word.signExtend fetched.toUInt8)
    (r.setFlags flags).setHL value
  | pop reg => { r with sp := r.sp + 2 }.setWord reg loaded
  | alu op source =>
    let stepped := source.step r
    let (result, flags) := op.apply stepped.a (source.value r fetched loaded) stepped.flags
    ({ stepped with a := result }).setFlags flags
  | inc target =>
    let (result, flags) := inc8 (target.value r loaded) r.flags
    (target.keep result r).setFlags flags
  | dec target =>
    let (result, flags) := dec8 (target.value r loaded) r.flags
    (target.keep result r).setFlags flags
  | incWord reg => r.setWord reg (r.word reg + 1)
  | decWord reg => r.setWord reg (r.word reg - 1)
  | addHL reg =>
    let (result, flags) := add16 r.hl (r.word reg)
    (r.setHL result).setFlags { flags with z := r.flags.z }
  | addSP =>
    let (result, flags) := addOffset r.sp (Word.signExtend fetched.toUInt8)
    ({ r with sp := result }).setFlags flags
  | rotate direction circular =>
    let (result, flags) := Arithmetic.rotate r.a direction r.flags circular
    ({ r with a := result }).setFlags { flags with z := false }
  | daa =>
    let (result, flags) := Arithmetic.daa r.a r.flags
    ({ r with a := result }).setFlags flags
  | cpl => ({ r with a := ~~~r.a }).setFlags { r.flags with n := true, h := true }
  | scf => r.setFlags { r.flags with n := false, h := false, c := true }
  | ccf => r.setFlags { r.flags with n := false, h := false, c := !r.flags.c }
  | jr condition =>
    if condition.all (·.holds r.flags) then
      { r with pc := r.pc + Word.signExtend fetched.toUInt8 }
    else r
  | jp condition | call condition =>
    if condition.all (·.holds r.flags) then { r with pc := fetched } else r
  | jpHL => { r with pc := r.hl }
  | ret condition =>
    if condition.all (·.holds r.flags) then { r with sp := r.sp + 2, pc := loaded } else r
  | reti => { r with sp := r.sp + 2, pc := loaded }
  | rst n => { r with pc := (restartAddress n).toUInt16 }
  | nop | stop | halt | di | ei | storeSP | push _ => r

/-- What an operation does to the interrupt enable and to the wait for an interrupt. -/
def control (cpu : Cpu) : Operation → Cpu
  | halt => { cpu with halted := true }
  | di => { cpu with ime := false, enablePending := false, enableArmed := false }
  | ei => if cpu.ime then cpu else { cpu with enablePending := true }
  | reti => { cpu with ime := true }
  | _ => cpu

/-- How many bytes after the opcode belong to an operation. -/
def immediateLength (op : Operation) : Nat := Operand.totalLength op.operands

/-- The phases of an operation. -/
def phases (op : Operation) : Phases where
  length := op.immediateLength
  load regs fetched := op.load? regs fetched
  store regs fetched loaded := op.store? regs fetched loaded
  commit fetched loaded cpu := op.control { cpu with regs := op.settle fetched loaded cpu.regs }

end Operation

namespace BitOperation

def target : BitOperation → Place
  | shift _ target | bit _ target | res _ target | set _ target => target

def store? (regs : Registers) (loaded : UInt16) : BitOperation → Store
  | shift op target => target.store regs 0 (op.apply (target.value regs loaded) regs.flags).1
  | bit .. => .none
  | res n target => target.store regs 0 (Byte.clearBit (target.value regs loaded) n)
  | set n target => target.store regs 0 (Byte.setBit (target.value regs loaded) n)

def settle (loaded : UInt16) (r : Registers) : BitOperation → Registers
  | shift op target =>
    let (result, flags) := op.apply (target.value r loaded) r.flags
    (target.keep result r).setFlags flags
  | bit n target => r.setFlags (bitTest (target.value r loaded) n r.flags)
  | res n target => target.keep (Byte.clearBit (target.value r loaded) n) r
  | set n target => target.keep (Byte.setBit (target.value r loaded) n) r

def phases (op : BitOperation) : Phases where
  length := 0
  load regs _ := op.target.load regs 0
  store regs _ loaded := op.store? regs loaded
  commit _ loaded cpu := { cpu with regs := op.settle loaded cpu.regs }

end BitOperation

namespace Action

def branches (flags : Flags) : Action → Bool
  | operation op => op.branches flags
  | _ => false

def phases : Action → Phases
  | operation op => op.phases
  | bits op => op.phases
  | extend | illegal => ⟨0, fun _ _ => .none, fun _ _ _ => .none, fun _ _ cpu => cpu⟩

end Action

namespace Instruction

def branches (i : Instruction) (flags : Flags) : Bool := i.action.branches flags

/-- The phases of an instruction, its opcode apart. -/
def phases (i : Instruction) : Phases := i.action.phases

end Instruction

/-- A commit touches only the registers, the interrupt enable and the wait for an interrupt. -/
theorem Action.commit_frame (action : Action) (fetched loaded : UInt16) (cpu : Cpu) :
    ∃ regs ime halted enablePending enableArmed, action.phases.commit fetched loaded cpu =
      { cpu with regs, ime, halted, enablePending, enableArmed } := by
  cases action with
  | operation op =>
    let next := op.control { cpu with regs := op.settle fetched loaded cpu.regs }
    refine ⟨next.regs, next.ime, next.halted, next.enablePending, next.enableArmed, ?_⟩
    change op.control _ = _
    simp only [next]
    unfold Operation.control
    split
    case h_3 => split <;> rfl
    all_goals rfl
  | bits op => exact ⟨_, _, _, _, _, rfl⟩
  | extend | illegal => exact ⟨_, _, _, _, _, rfl⟩

/-! ## Outcomes of the phases -/

namespace Exec

variable {s t : Machine β} {e : Fault} {n : Nat}

theorem fetchImmediate_eq_ok {w : UInt16} :
    fetchImmediate n s = .ok w t ↔ ∃ b, Bus.readSpan s.cpu.regs.pc n s.bus = .ok w b ∧
      t = { s with cpu := s.cpu.skip n.toUInt16, bus := b } := by
  simp only [fetchImmediate, bind_apply, getRegs_apply, access_apply]
  cases Bus.readSpan s.cpu.regs.pc n s.bus <;> simp [and_assoc, eq_comm]

theorem fetchImmediate_eq_error :
    fetchImmediate n s = .error e t ↔ ∃ error b,
      Bus.readSpan s.cpu.regs.pc n s.bus = .error error b ∧ e = .bus error ∧
        t = { s with bus := b } := by
  simp only [fetchImmediate, bind_apply, getRegs_apply, access_apply]
  cases Bus.readSpan s.cpu.regs.pc n s.bus <;> simp [and_assoc, eq_comm]

theorem fetchImmediate_zero : (fetchImmediate 0 : Exec β UInt16) = pure 0 := by
  funext s
  have hzero : (0 : Nat).toUInt16 = 0 := rfl
  simp [fetchImmediate, bind_apply, access_apply, Bus.readSpan, hzero]

theorem fetchImmediate_one :
    (fetchImmediate 1 : Exec β UInt16) = do return (← fetchByte).toUInt16 := by
  funext s
  simp only [fetchImmediate, fetchByte, bind_apply, read, access_apply, Bus.readSpan,
    getRegs_apply]
  cases Bus.read s.cpu.regs.pc s.bus <;> rfl

theorem fetchImmediate_two : (fetchImmediate 2 : Exec β UInt16) = fetchWord := rfl

end Exec

namespace Load

variable {l : Load} {s t : Machine β} {e : Fault}

theorem perform_eq_ok {w : UInt16} :
    l.perform s = .ok w t ↔ ∃ b, Bus.readSpan l.address l.length s.bus = .ok w b ∧
      t = { s with bus := b } :=
  Exec.access_eq_ok

theorem perform_eq_error :
    l.perform s = .error e t ↔ ∃ error b,
      Bus.readSpan l.address l.length s.bus = .error error b ∧ e = .bus error ∧
        t = { s with bus := b } :=
  Exec.access_eq_error

theorem perform_none : (none.perform : Exec β UInt16) = pure 0 := rfl

theorem perform_byte (address : UInt16) :
    ((byte address).perform : Exec β UInt16) = do return (← Exec.read address).toUInt16 := by
  funext s
  simp only [perform, byte, Bus.readSpan, Exec.read, Exec.access_apply, Exec.bind_apply]
  cases Bus.read address s.bus <;> rfl

theorem perform_word (address : UInt16) :
    ((word address).perform : Exec β UInt16) = Exec.readWord address := rfl

end Load

namespace Store

/-- A store leaves the processor as it was, apart from the bytes that went on the stack. -/
theorem perform_ok {store : Store} {s t : Machine β} (h : store.perform s = .ok () t) :
    t.cpu = s.cpu.drop store.pushed ∧ t.records = s.records := by
  have hzero := s.cpu.drop_zero
  cases store with
  | none =>
    obtain ⟨-, rfl⟩ := EStateM.Result.ok.inj h
    exact ⟨hzero.symm, rfl⟩
  | byte a v =>
    obtain ⟨_, _, -, rfl⟩ := Exec.write_eq_ok.1 h
    exact ⟨hzero.symm, rfl⟩
  | word a w =>
    obtain ⟨_, _, hlow, hhigh⟩ := Exec.bind_eq_ok.1 h
    obtain ⟨_, _, -, rfl⟩ := Exec.write_eq_ok.1 hlow
    obtain ⟨_, _, -, rfl⟩ := Exec.write_eq_ok.1 hhigh
    exact ⟨hzero.symm, rfl⟩
  | push w =>
    obtain ⟨_, _, _, _, -, -, rfl⟩ := Exec.push_eq_ok.1 h
    exact ⟨rfl, rfl⟩

/-- A store that fails has at most moved the stack pointer. -/
theorem perform_error {store : Store} {s t : Machine β} {e : Fault}
    (h : store.perform s = .error e t) :
    ∃ sp, t.cpu = { s.cpu with regs := { s.cpu.regs with sp } } := by
  cases store with
  | none => cases h
  | byte a v =>
    obtain ⟨_, _, -, -, rfl⟩ := Exec.write_eq_error.1 h
    exact ⟨_, rfl⟩
  | word a w =>
    rcases Exec.bind_eq_error.1 h with hlow | ⟨_, _, hlow, hhigh⟩
    · obtain ⟨_, _, -, -, rfl⟩ := Exec.write_eq_error.1 hlow
      exact ⟨_, rfl⟩
    · obtain ⟨_, _, -, rfl⟩ := Exec.write_eq_ok.1 hlow
      obtain ⟨_, _, -, -, rfl⟩ := Exec.write_eq_error.1 hhigh
      exact ⟨_, rfl⟩
  | push w =>
    rcases Exec.push_eq_error.1 h with ⟨_, _, -, -, rfl⟩ | ⟨_, _, _, _, -, -, -, rfl⟩
    · exact ⟨_, rfl⟩
    · exact ⟨_, rfl⟩

end Store

namespace Phases

variable {p : Phases} {s t : Machine β} {e : Fault}

/-- What it takes to go through all phases, and what becomes of the machine then. -/
theorem run_ok (h : p.run s = .ok () t) :
    ∃ fetched loaded b b',
      Bus.readSpan s.cpu.regs.pc p.length s.bus = .ok fetched b ∧
      (let cpu := s.cpu.skip p.length.toUInt16
      let load := p.load cpu.regs fetched
      let store := p.store cpu.regs fetched loaded
      Bus.readSpan load.address load.length b = .ok loaded b' ∧
      t.cpu = p.commit fetched loaded (cpu.drop store.pushed) ∧
      store.perform { s with cpu, bus := b' } =
        .ok () { t with cpu := cpu.drop store.pushed }) := by
  obtain ⟨fetched, _, hfetched, h⟩ := Exec.bind_eq_ok.1 h
  obtain ⟨b, hfetch, rfl⟩ := Exec.fetchImmediate_eq_ok.1 hfetched
  obtain ⟨_, _, ⟨⟩, h⟩ := Exec.bind_eq_ok.1 h
  obtain ⟨loaded, _, hloaded, h⟩ := Exec.bind_eq_ok.1 h
  obtain ⟨b', hload, rfl⟩ := Load.perform_eq_ok.1 hloaded
  obtain ⟨⟨⟩, u, hstore, h⟩ := Exec.bind_eq_ok.1 h
  obtain ⟨-, rfl⟩ := EStateM.Result.ok.inj h
  obtain ⟨hcpu, -⟩ := Store.perform_ok hstore
  refine ⟨fetched, loaded, b, b', hfetch, hload, by rw [← hcpu], ?_⟩
  rw [hstore, ← hcpu]

/-- The phase in which a run through the phases fails, and how far it got. -/
theorem run_eq_error :
    p.run s = .error e t ↔
    (∃ error b, Bus.readSpan s.cpu.regs.pc p.length s.bus = .error error b ∧
      e = .bus error ∧ t = { s with bus := b }) ∨
    ∃ fetched b, Bus.readSpan s.cpu.regs.pc p.length s.bus = .ok fetched b ∧
      (let cpu := s.cpu.skip p.length.toUInt16
      let load := p.load cpu.regs fetched
      (∃ error b', Bus.readSpan load.address load.length b = .error error b' ∧
        e = .bus error ∧ t = { s with cpu, bus := b' }) ∨
      ∃ loaded b', Bus.readSpan load.address load.length b = .ok loaded b' ∧
        (p.store cpu.regs fetched loaded).perform { s with cpu, bus := b' } = .error e t) := by
  constructor
  · intro h
    rcases Exec.bind_eq_error.1 h with hfetch | ⟨fetched, _, hfetched, h⟩
    · exact .inl (Exec.fetchImmediate_eq_error.1 hfetch)
    obtain ⟨b, hfetch, rfl⟩ := Exec.fetchImmediate_eq_ok.1 hfetched
    refine .inr ⟨fetched, b, hfetch, ?_⟩
    rcases Exec.bind_eq_error.1 h with ⟨⟨⟩⟩ | ⟨_, _, ⟨⟩, h⟩
    rcases Exec.bind_eq_error.1 h with hload | ⟨loaded, _, hloaded, h⟩
    · exact .inl (Load.perform_eq_error.1 hload)
    obtain ⟨b', hload, rfl⟩ := Load.perform_eq_ok.1 hloaded
    refine .inr ⟨loaded, b', hload, ?_⟩
    rcases Exec.bind_eq_error.1 h with hstore | ⟨_, _, _, ⟨⟩⟩
    exact hstore
  · rintro (hfetch | ⟨fetched, b, hfetch, h⟩)
    · exact Exec.bind_eq_error.2 (.inl (Exec.fetchImmediate_eq_error.2 hfetch))
    refine Exec.bind_eq_error.2
      (.inr ⟨fetched, _, Exec.fetchImmediate_eq_ok.2 ⟨b, hfetch, rfl⟩, ?_⟩)
    refine Exec.bind_eq_error.2 (.inr ⟨_, _, rfl, ?_⟩)
    rcases h with hload | ⟨loaded, b', hload, hstore⟩
    · exact Exec.bind_eq_error.2 (.inl (Load.perform_eq_error.2 hload))
    refine Exec.bind_eq_error.2 (.inr ⟨loaded, _, Load.perform_eq_ok.2 ⟨b', hload, rfl⟩, ?_⟩)
    exact Exec.bind_eq_error.2 (.inl hstore)

/-- A run through the phases that fails has at most moved the program counter and the stack
pointer. -/
theorem run_error_frame (h : p.run s = .error e t) :
    ∃ pc sp, t.cpu = { s.cpu with regs := { s.cpu.regs with pc, sp } } := by
  rcases run_eq_error.1 h with
    ⟨_, _, -, -, rfl⟩ | ⟨_, _, -, ⟨_, _, -, -, rfl⟩ | ⟨_, _, -, hstore⟩⟩
  · exact ⟨_, _, rfl⟩
  · exact ⟨_, _, rfl⟩
  · obtain ⟨_, hcpu⟩ := Store.perform_error hstore
    exact ⟨_, _, hcpu⟩

end Phases

end GameBoy
