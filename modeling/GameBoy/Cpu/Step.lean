import GameBoy.Cpu.Execute
import GameBoy.Cpu.Interrupt

/-!
# Steps and runs

A step serves an interrupt, or waits once if the processor is halted, or executes one instruction;
`Progress` says which. A step that fails stores its fault in the processor, and from then on every
step gives that fault again and changes nothing.

A run repeats the step until a condition holds. Since it need not end, it is given the number of
steps that it may make at most.
-/

namespace GameBoy

/-- What a successful step did. -/
inductive Progress where
  /-- It served an interrupt. -/
  | served (i : Interrupt)
  /-- It waited. -/
  | idle
  /-- It executed an instruction, at a cost of so many cycles. -/
  | executed (i : Instruction) (cost : Nat)
  deriving DecidableEq, Repr

namespace Progress

/-- The cycles that a halted processor waits in one step. -/
def idleCycles : Nat := 4

/-- The cycles that a step took. -/
def cycles : Progress → Nat
  | served _ => Interrupt.serviceCycles
  | idle => idleCycles
  | executed _ cost => cost

end Progress

namespace Exec

variable {β : Type} [Bus β]

/-- Refuse to go on once the allowed number of steps has been made. -/
def checkLimit : Exec β Unit := do
  let cpu ← getCpu
  match cpu.limit with
  | none => return ()
  | some limit => if cpu.countedSteps ≥ limit then throw (.stepLimit limit)

/-- Fetch and decode the next instruction. -/
def decode : Exec β Instruction := do
  let opcode ← fetchOpcode
  if opcode = Opcode.extend then
    return ⟨← fetchOpcode, true⟩
  else
    return ⟨opcode, false⟩

/-- Count the cycles of a step and tell the bus that it has ended. -/
def finish (cycles : Nat) : Exec β Unit := fun ⟨cpu, bus, journal, records⟩ =>
  let total := cpu.cycles + cycles
  let (notice, bus) := Bus.endStep bus total
  .ok () ⟨{ cpu with cycles := total }, bus, journal.note notice, records⟩

/-- What a hook does with an executed instruction. -/
def callHook (hook : Hook) (pc : UInt16) (i : Instruction) : Exec β Unit :=
  fun ⟨cpu, bus, journal, records⟩ =>
    match hook with
    | .trace => .ok () ⟨cpu, bus, journal.push (cpu.traceNotice pc i), records⟩
    | .record => .ok () ⟨cpu, bus, journal, records.push ⟨pc, i, cpu⟩⟩

/-- Show an executed instruction to the hook. The hook is taken out of the processor for the call,
so it sees a processor without one, and is put back. -/
def fireHook (pc : UInt16) (i : Instruction) : Exec β Unit := do
  match (← getCpu).hook with
  | none => return ()
  | some hook =>
    modifyCpu ({ · with hook := none })
    callHook hook pc i
    modifyCpu ({ · with hook := some hook })

/-- Wait for one step. -/
def wait : Exec β Progress := do
  modifyCpu fun cpu => { cpu with idleSteps := cpu.idleSteps + 1 }
  finish Progress.idleCycles
  return .idle

/-- Execute the next instruction. -/
def executeNext : Exec β Progress := do
  let pc := (← getRegs).pc
  let i ← decode
  modifyCpu ({ · with current := some i })
  let cost ← i.execute
  modifyCpu fun cpu => { cpu with instructions := cpu.instructions + 1 }
  finish cost
  modifyCpu (·.advanceEnable)
  fireHook pc i
  return .executed i cost

/-- What a step does while there is no fault. -/
def attempt : Exec β Progress := do
  checkLimit
  match ← serveInterrupt with
  | some i =>
    finish Interrupt.serviceCycles
    return .served i
  | none =>
    if (← getCpu).halted then wait else executeNext

end Exec

namespace Machine

variable {β : Type} [Bus β]

/-- A machine that has done nothing yet. -/
def start (cpu : Cpu) (bus : β) : Machine β := ⟨cpu, bus, .empty, .empty⟩

/-- Stop the processor: the fault is stored and reported. -/
def stopWith (fault : Fault) : Machine β → Machine β
  | ⟨cpu, bus, journal, records⟩ =>
    let notice := cpu.faultNotice fault
    ⟨{ cpu with fault := some fault }, bus, journal.push notice, records⟩

/-- Make one step. -/
def step : Exec β Progress := fun s =>
  match s.cpu.fault with
  | some fault => .error fault s
  | none =>
    match Exec.attempt s with
    | .ok progress s => .ok progress s
    | .error fault s => .error fault (s.stopWith fault)

/-- The machine after one step, successful or not. -/
def next (s : Machine β) : Machine β :=
  match step s with
  | .ok _ s => s
  | .error _ s => s

/-- Whether a fault has stopped the processor. -/
@[inline] def hasStopped (s : Machine β) : Bool := s.cpu.fault.isSome

/-- Step until `done` holds, but at most `fuel` times. -/
def stepUntil (done : Machine β → Bool) : (fuel : Nat) → Machine β → Machine β
  | 0, s => s
  | fuel + 1, s => if done s then s else stepUntil done fuel s.next

/-- How a run ended: the end of the program is a normal end. -/
def verdict (s : Machine β) : Except Fault Unit :=
  match s.cpu.fault with
  | none | some .endOfProgram => .ok ()
  | some fault => .error fault

/-- Step until `done` holds or the processor stops, but at most `fuel` times. The result is absent
if neither has happened by then. -/
def runUntil (done : Machine β → Bool) (fuel : Nat) (s : Machine β) :
    Option (Except Fault Unit) × Machine β :=
  let s := stepUntil (fun s => done s || s.hasStopped) fuel s
  (if done s || s.hasStopped then some s.verdict else none, s)

/-- Run until the processor stops, for at most `fuel` steps. -/
def run (fuel : Nat) (s : Machine β) : Option (Except Fault Unit) × Machine β :=
  runUntil (fun _ => false) fuel s

end Machine

end GameBoy
