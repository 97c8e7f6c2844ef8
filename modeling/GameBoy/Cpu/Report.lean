import GameBoy.Cpu.Machine

/-!
# Reports

The texts in which the processor describes itself: a summary on one line, a dump on several, a
listing field by field, and the notices that a step may leave in the journal.
-/

namespace GameBoy

namespace Cpu

/-- The registers and the interrupt enable on one line. -/
def summary (cpu : Cpu) : String :=
  let r := cpu.regs
  " ".intercalate
    [s!"A={Text.hexByte r.a}", s!"F={cpu.flags.letters}", s!"BC={Text.hexWord r.bc}",
      s!"DE={Text.hexWord r.de}", s!"HL={Text.hexWord r.hl}", s!"SP={Text.hexWord r.sp}",
      s!"PC={Text.hexWord r.pc}", s!"IME={Text.digit cpu.ime}"]

/-- The text of the instruction that was decoded last, or a dash. -/
def currentText (cpu : Cpu) : String := (cpu.current.map Instruction.text).getD "-"

/-- One line of a dump: a pair of byte registers, and the pair as a word. -/
def pairLine (high low : String) (highByte lowByte : UInt8) (pair : UInt16) : String :=
  s!"{high}:  {Text.hexByte highByte}   {low}:  {Text.hexByte lowByte}   " ++
    s!"{high}{low}: {Text.hexWord pair}"

/-- The lines of a dump. -/
def dumpLines (cpu : Cpu) : List String :=
  let r := cpu.regs
  [s!"A:  {Text.hexByte r.a}   F:  {Text.hexByte r.f} [{cpu.flags.letters}]",
    pairLine "B" "C" r.b r.c r.bc,
    pairLine "D" "E" r.d r.e r.de,
    pairLine "H" "L" r.h r.l r.hl,
    s!"SP: {Text.hexWord r.sp} PC: {Text.hexWord r.pc}",
    s!"IME: {Text.digit cpu.ime}  HALT: {Text.digit cpu.halted}",
    s!"cycles: {cpu.cycles}  instructions: {cpu.instructions}",
    s!"last: {cpu.currentText}"] ++
  (cpu.fault.map fun fault => s!"error: {fault.message}").toList

/-- The state on several lines. -/
def dump (cpu : Cpu) : String := String.join (cpu.dumpLines.map (· ++ "\n"))

/-- The state field by field. -/
def inspect (cpu : Cpu) : String :=
  Text.record "Cpu"
    [("regs", cpu.regs.inspect), ("ime", toString cpu.ime), ("halted", toString cpu.halted),
      ("cycles", toString cpu.cycles), ("instructions", toString cpu.instructions),
      ("limit", Text.optional (cpu.limit.map toString)),
      ("error", Text.optional (cpu.fault.map Fault.inspect)),
      ("current", Text.optional (cpu.current.map fun i => Text.quoted i.text)),
      ("hook", toString cpu.hook.isSome)]

/-- The notice that a fault leaves when it stops the processor. -/
def faultNotice (cpu : Cpu) (fault : Fault) : Notice :=
  match fault with
  | .endOfProgram =>
    ⟨.info, s!"end of program at pc=0x{Text.hexWord cpu.regs.pc} " ++
      s!"after {cpu.instructions} instructions"⟩
  | .stepLimit steps => ⟨.info, s!"step limit of {steps} steps reached"⟩
  | _ =>
    ⟨.error, s!"CPU halted: {fault.message}; last instruction {cpu.currentText}; {cpu.summary}"⟩

/-- The line of trace for an instruction that was fetched from `pc`, with the processor as it is
after the step. -/
def traceNotice (cpu : Cpu) (pc : UInt16) (i : Instruction) : Notice :=
  ⟨.trace, s!"{Text.hexWord pc}  {Text.padRight 14 i.text} {cpu.summary}"⟩

end Cpu

end GameBoy
