import GameBoy.Proofs.Bits
import GameBoy.Proofs.Ready
import GameBoy.Proofs.Stack

/-!
# Branches

A branch is told by its opcode: the condition, where the target comes from, and what becomes of the
stack. Everything a branch needs is read before anything is written, so it does not matter whether
the stack lies over the bytes of the branch itself.

Main statement: `Machine.IsReady.branch`.
-/

namespace GameBoy

/-! ## Signed distances -/

namespace Word

/-- The address at a signed distance from another one. Addresses wrap around. -/
def displaced (a : UInt16) (e : UInt8) : UInt16 := UInt16.ofInt (a.toNat + e.toInt8.toInt)

theorem ofInt_toNat (a : UInt16) : UInt16.ofInt a.toNat = a := by
  have ha := a.toNat_lt
  apply UInt16.toNat_inj.1
  rw [UInt16.ofInt, UInt16.toNat_ofNat']
  omega

/-- A sign extension keeps the signed number. -/
theorem signExtend_eq (e : UInt8) : signExtend e = UInt16.ofInt e.toInt8.toInt := by
  have hall : ∀ n < 256, signExtend n.toUInt8 = UInt16.ofInt n.toUInt8.toInt8.toInt := by
    decide +kernel
  have hbyte : e.toNat.toUInt8 = e := UInt8.ofNat_toNat
  have he := hall e.toNat e.toNat_lt
  rwa [hbyte] at he

theorem displaced_eq (a : UInt16) (e : UInt8) : displaced a e = a + signExtend e := by
  rw [displaced, UInt16.ofInt_add, ofInt_toNat, signExtend_eq]

end Word

/-! ## Conditions -/

/-- Whether the condition with the given number holds: NZ, Z, NC and C read bits 7 and 4 of F. -/
def Registers.meets (r : Registers) : Fin 4 → Bool
  | 0 => !Byte.bits r.f 7
  | 1 => Byte.bits r.f 7
  | 2 => !Byte.bits r.f 4
  | 3 => Byte.bits r.f 4

theorem Registers.holds_ofField (r : Registers) (c : Fin 4) :
    (Cond.ofField c).holds r.flags = r.meets c := by
  have hz : r.flags.z = Byte.bits r.f 7 := Byte.testBit_eq_bits r.f 7
  have hc : r.flags.c = Byte.bits r.f 4 := Byte.testBit_eq_bits r.f 4
  match c with
  | 0 => exact congrArg (!·) hz
  | 1 => exact hz
  | 2 => exact congrArg (!·) hc
  | 3 => exact hc

theorem Registers.all_holds (r : Registers) (condition : Option (Fin 4)) :
    (condition.map Cond.ofField).all (·.holds r.flags) = condition.all r.meets := by
  cases condition with
  | none => rfl
  | some c => exact r.holds_ofField c

/-! ## Instructions -/

namespace Instruction

/-- Jump by a signed distance, if the condition with the given number holds. -/
def jr : Option (Fin 4) → Instruction
  | none => ⟨0x18, false⟩
  | some c => ⟨0x20 + 8 * c.val.toUInt8, false⟩

/-- Jump to an address, if the condition with the given number holds. -/
def jp : Option (Fin 4) → Instruction
  | none => ⟨0xC3, false⟩
  | some c => ⟨0xC2 + 8 * c.val.toUInt8, false⟩

/-- Jump to the address in HL. -/
def jpHL : Instruction := ⟨0xE9, false⟩

theorem action_jr (condition : Option (Fin 4)) :
    (jr condition).action = .operation (.jr (condition.map .ofField)) := by
  match condition with
  | none | some 0 | some 1 | some 2 | some 3 => rfl

theorem action_jp (condition : Option (Fin 4)) :
    (jp condition).action = .operation (.jp (condition.map .ofField)) := by
  match condition with
  | none | some 0 | some 1 | some 2 | some 3 => rfl

end Instruction

/-! ## Jumps and returns on flat memory -/

namespace Operation

variable (condition : Option Cond) (fetched loaded : UInt16) (r : Registers)

theorem settle_jr : (jr condition).settle fetched loaded r = { r with
    pc := if condition.all (·.holds r.flags) then r.pc + Word.signExtend fetched.toUInt8
      else r.pc } := by
  rw [settle]
  split <;> rfl

theorem settle_jp : (jp condition).settle fetched loaded r = { r with
    pc := if condition.all (·.holds r.flags) then fetched else r.pc } := by
  rw [settle]
  split <;> rfl

variable (flags : Flags)

theorem cost_jr : (jr condition).cost ((jr condition).branches flags) =
    if condition.all (·.holds flags) then 12 else 8 := by
  cases condition <;> rfl

theorem cost_jp : (jp condition).cost ((jp condition).branches flags) =
    if condition.all (·.holds flags) then 16 else 12 := by
  cases condition <;> rfl

theorem cost_call : (call condition).cost ((call condition).branches flags) =
    if condition.all (·.holds flags) then 24 else 12 := by
  cases condition <;> rfl

theorem cost_ret : (ret condition).cost ((ret condition).branches flags) =
    if condition.all (·.holds flags) then if condition.isSome then 20 else 16 else 8 := by
  cases condition <;> rfl

end Operation

namespace Machine

theorem result_jr (condition : Option Cond) (s : Machine FlatBus) :
    (Operation.jr condition).phases.result s =
      if condition.all (·.holds s.cpu.flags) then
        s.jumping (Word.displaced (s.cpu.regs.pc + 1) (s.bus.byte s.cpu.regs.pc))
      else s.jumping (s.cpu.regs.pc + 1) := by
  let op := Operation.jr condition
  have hlength : op.phases.length = 1 := by
    cases condition <;> rfl
  have harrived : op.phases.arrived s = s.cpu.skip 1 := by
    rw [Phases.arrived, hlength]
    rfl
  have hfetched : op.phases.fetched s = (s.bus.byte s.cpu.regs.pc).toUInt16 := by
    rw [Phases.fetched, hlength]
    rfl
  have hsettled := Operation.settle_jr condition (s.bus.byte s.cpu.regs.pc).toUInt16
    (op.phases.loaded s) (s.cpu.skip 1).regs
  rw [UInt8.toUInt8_toUInt16] at hsettled
  rw [Phases.result_unstored _ rfl, harrived, hfetched, Word.displaced_eq, ← apply_ite s.jumping]
  exact congrArg (fun regs : Registers => { s with cpu := { s.cpu with regs } }) hsettled

theorem result_jp (condition : Option Cond) (s : Machine FlatBus) :
    (Operation.jp condition).phases.result s =
      if condition.all (·.holds s.cpu.flags) then s.jumping (s.bus.word s.cpu.regs.pc)
      else s.jumping (s.cpu.regs.pc + 2) := by
  let op := Operation.jp condition
  have hlength : op.phases.length = 2 := by
    cases condition <;> rfl
  have harrived : op.phases.arrived s = s.cpu.skip 2 := by
    rw [Phases.arrived, hlength]
    rfl
  have hfetched : op.phases.fetched s = s.bus.word s.cpu.regs.pc := by
    rw [Phases.fetched, hlength]
    rfl
  have hsettled := Operation.settle_jp condition (s.bus.word s.cpu.regs.pc) (op.phases.loaded s)
    (s.cpu.skip 2).regs
  rw [Phases.result_unstored _ rfl, harrived, hfetched, ← apply_ite s.jumping]
  exact congrArg (fun regs : Registers => { s with cpu := { s.cpu with regs } }) hsettled

theorem result_jpHL (s : Machine FlatBus) :
    Operation.jpHL.phases.result s = s.jumping s.cpu.regs.hl := by
  have harrived : Operation.jpHL.phases.arrived s = s.cpu := s.cpu.skip_zero
  rw [Phases.result_unstored _ rfl, harrived]
  rfl

theorem result_reti (s : Machine FlatBus) : Operation.reti.phases.result s =
    { s.returning with cpu := { s.returning.cpu with ime := true } } := by
  have harrived : Operation.reti.phases.arrived s = s.cpu := s.cpu.skip_zero
  have hloading : Operation.reti.phases.loading s = .word s.cpu.regs.sp := by
    rw [Phases.loading, harrived]
    rfl
  rw [Phases.result_unstored _ rfl, harrived, Phases.loaded, hloading]
  rfl

end Machine

/-! ## Branches -/

/-- What a branch that is taken does with the stack. -/
inductive StackUse where
  | none
  /-- The address of the following instruction goes there. -/
  | push
  /-- The target comes from there. -/
  | pop
  deriving DecidableEq, Repr

/-- The stack pointer after a branch that is taken. -/
def StackUse.move (sp : UInt16) : StackUse → UInt16
  | none => sp
  | push => sp - 2
  | pop => sp + 2

/-- A branch. -/
structure Branch where
  /-- The number of its condition. -/
  condition : Option (Fin 4)
  /-- Where it leads. -/
  target : UInt16
  stack : StackUse
  /-- Whether it enables interrupts. -/
  enables : Bool
  /-- The bytes of the instruction. -/
  length : UInt16
  /-- The cycles when it is taken. -/
  cost : Nat
  /-- The cycles when it is not. -/
  missed : Nat

namespace Machine

/-- What the branches stand for. Bytes after the opcode are found from the program counter on. -/
inductive Branches (s : Machine FlatBus) : Instruction → Branch → Prop where
  | jr (condition : Option (Fin 4)) : Branches s (.jr condition)
    { condition
      target := Word.displaced (s.cpu.regs.pc + 2) (s.bus.byte (s.cpu.regs.pc + 1))
      stack := .none
      enables := false
      length := 2
      cost := 12
      missed := 8 }
  | jp (condition : Option (Fin 4)) : Branches s (.jp condition)
    { condition
      target := s.bus.word (s.cpu.regs.pc + 1)
      stack := .none
      enables := false
      length := 3
      cost := 16
      missed := 12 }
  | call (condition : Option (Fin 4)) : Branches s (.call condition)
    { condition
      target := s.bus.word (s.cpu.regs.pc + 1)
      stack := .push
      enables := false
      length := 3
      cost := 24
      missed := 12 }
  | ret (condition : Option (Fin 4)) : Branches s (.ret condition)
    { condition
      target := s.bus.word s.cpu.regs.sp
      stack := .pop
      enables := false
      length := 1
      cost := if condition.isSome then 20 else 16
      missed := 8 }
  | jpHL : Branches s .jpHL
    { condition := none
      target := s.cpu.regs.hl
      stack := .none
      enables := false
      length := 1
      cost := 4
      missed := 4 }
  | reti : Branches s .reti
    { condition := none
      target := s.bus.word s.cpu.regs.sp
      stack := .pop
      enables := true
      length := 1
      cost := 16
      missed := 16 }
  | rst (n : Fin 8) : Branches s (.rst n)
    { condition := none
      target := 8 * n.val.toUInt16
      stack := .push
      enables := false
      length := 1
      cost := 16
      missed := 16 }

/-- Whether a branch is taken. -/
def takes (s : Machine FlatBus) (x : Branch) : Bool := x.condition.all s.cpu.regs.meets

/-- The cycles of a branch. -/
def branchCost (s : Machine FlatBus) (x : Branch) : Nat := if s.takes x then x.cost else x.missed

/-- The registers after a branch. -/
def branchRegs (s : Machine FlatBus) (x : Branch) : Registers :=
  { s.cpu.regs with
    sp := if s.takes x then x.stack.move s.cpu.regs.sp else s.cpu.regs.sp
    pc := if s.takes x then x.target else s.cpu.regs.pc + x.length }

/-- The memory after a branch. -/
def branchBus (s : Machine FlatBus) (x : Branch) : FlatBus :=
  if s.takes x ∧ x.stack = .push then
    s.bus.pushed s.cpu.regs.sp (s.cpu.regs.pc + x.length)
  else s.bus

/-- In one step the machine executes a branch and becomes `t`. The rest of the processor stays, but
for its counters; what belongs to the observer is left to the hook. -/
structure Branched (s : Machine FlatBus) (i : Instruction) (x : Branch) (t : Machine FlatBus) :
    Prop where
  step : Machine.step s = .ok (.executed i (s.branchCost x)) t
  cpu : t.cpu = { s.cpu with
    regs := s.branchRegs x
    ime := s.cpu.ime || x.enables
    cycles := s.cpu.cycles + s.branchCost x
    instructions := s.cpu.instructions + 1
    current := some i }
  bus : t.bus = s.branchBus x
  observed : s.cpu.hook = none → t.journal = s.journal ∧ t.records = s.records

variable {s : Machine FlatBus} {i : Instruction} {op : Operation} {x : Branch}

theorem takes_eq (s : Machine FlatBus) (x : Branch) : s.takes x = s.taken x.condition :=
  (s.cpu.regs.all_holds x.condition).symm

/-- A step that executes a branch, told by what its operation makes of the machine once the opcode
has been fetched: `u` if the branch is taken. -/
theorem IsReady.branched {u : Machine FlatBus} (h : s.IsReady)
    (hi : s.bus.instruction s.cpu.regs.pc = i) (hop : i.action = .operation op)
    (hproper : op.isProper)
    (hcontrol : ∀ cpu, op.control cpu = { cpu with ime := cpu.ime || x.enables })
    (hcost : op.cost (op.branches s.cpu.flags) =
      if s.taken x.condition then x.cost else x.missed)
    (hresult : op.phases.result (s.decoded i) =
      if s.taken x.condition then u
      else (s.decoded i).jumping (s.cpu.regs.pc + x.length))
    (hregs : u.cpu.regs =
      { s.cpu.regs with sp := x.stack.move s.cpu.regs.sp, pc := x.target })
    (hbus : u.bus = if x.stack = .push then
        s.bus.pushed s.cpu.regs.sp (s.cpu.regs.pc + x.length)
      else s.bus) :
    ∃ t, s.Branched i x t := by
  have hphases : i.phases = op.phases := by
    rw [Instruction.phases, hop]
    rfl
  have hspent : i.cost (i.branches s.cpu.flags) = s.branchCost x := by
    rw [branchCost, takes_eq]
    refine Eq.trans ?_ hcost
    rw [Instruction.cost, Instruction.branches, hop]
    rfl
  have hregs' : (op.phases.result (s.decoded i)).cpu.regs = s.branchRegs x := by
    rw [hresult, branchRegs, takes_eq]
    split
    · exact hregs
    · rfl
  have hbus' : (op.phases.result (s.decoded i)).bus = s.branchBus x := by
    rw [hresult, branchBus, takes_eq, ite_and]
    split
    · exact hbus
    · rfl
  have hcommit : (op.phases.result (s.decoded i)).cpu = { s.cpu with
      regs := (op.phases.result (s.decoded i)).cpu.regs
      ime := s.cpu.ime || x.enables
      current := some i } := by
    have hcontrolled : (op.phases.result (s.decoded i)).cpu = { s.cpu with
      regs := op.settle (op.phases.fetched (s.decoded i)) (op.phases.loaded (s.decoded i))
        ((op.phases.arrived (s.decoded i)).drop (op.phases.storing (s.decoded i)).pushed).regs
      ime := s.cpu.ime || x.enables
      current := some i } := hcontrol _
    rw [hcontrolled]
  have hstep := step_of_watched (h.step_watched hi (by rw [hop]; exact hproper) #[])
  rw [hspent] at hstep
  refine ⟨s.executed i, hstep, ?_, ?_, observed_executed⟩
  · rw [executed, cpu_shown, cpu_counted, Cpu.advanceEnable_eq, hphases, hcommit, hregs', hspent]
    simp only [h.notArmed, h.notRequested, Bool.or_false, Bool.and_false]
  · rw [bus_executed, hphases, hbus']

/-- Every branch goes where it is meant to, keeps the other registers, and leaves on the stack what
it has to. -/
theorem IsReady.branch (h : s.IsReady) (hi : s.bus.instruction s.cpu.regs.pc = i)
    (hx : s.Branches i x) : ∃ t, s.Branched i x t := by
  have hkept : ∀ op : Operation, (∀ cpu, op.control cpu = cpu) → ∀ cpu,
      op.control cpu = { cpu with ime := cpu.ime || false } := by
    intro op hop cpu
    rw [hop, Bool.or_false]
  have hsecond : s.cpu.regs.pc + 1 + 1 = s.cpu.regs.pc + 2 := by grind
  have hthird : s.cpu.regs.pc + 1 + 2 = s.cpu.regs.pc + 3 := by grind
  cases hx with
  | jr condition =>
    have hresult := result_jr (condition.map .ofField) (s.decoded (.jr condition))
    rw [pc_decoded (Instruction.action_jr condition), hsecond] at hresult
    exact h.branched hi (Instruction.action_jr condition) rfl (hkept _ fun _ => rfl)
      (Operation.cost_jr _ _) hresult rfl rfl
  | jp condition =>
    have hresult := result_jp (condition.map .ofField) (s.decoded (.jp condition))
    rw [pc_decoded (Instruction.action_jp condition), hthird] at hresult
    exact h.branched hi (Instruction.action_jp condition) rfl (hkept _ fun _ => rfl)
      (Operation.cost_jp _ _) hresult rfl rfl
  | call condition =>
    have hresult := result_call (condition.map .ofField) (s.decoded (.call condition))
    rw [pc_decoded (Instruction.action_call condition), hthird] at hresult
    exact h.branched hi (Instruction.action_call condition) rfl (hkept _ fun _ => rfl)
      (Operation.cost_call _ _) hresult rfl rfl
  | ret condition =>
    have hcost := Operation.cost_ret (condition.map .ofField) s.cpu.flags
    rw [Option.isSome_map] at hcost
    have hresult := result_ret (condition.map .ofField) (s.decoded (.ret condition))
    rw [pc_decoded (Instruction.action_ret condition)] at hresult
    exact h.branched hi (Instruction.action_ret condition) rfl (hkept _ fun _ => rfl) hcost hresult
      rfl rfl
  | jpHL => exact h.branched hi rfl rfl (hkept _ fun _ => rfl) rfl (result_jpHL _) rfl rfl
  | reti =>
    refine h.branched hi rfl rfl (fun cpu => ?_) rfl (result_reti _) rfl rfl
    rw [Bool.or_true]
    rfl
  | rst n =>
    exact h.branched hi (Instruction.action_rst n) rfl (hkept _ fun _ => rfl) rfl
      (result_rst n _) rfl rfl

/-- CALL Z,1234h still finds its address when the stack comes down over it. -/
theorem branch_over_itself : ∃ s t : Machine FlatBus, s.IsReady ∧ s.cpu.regs.pc = 0x0100 ∧
    s.cpu.regs.sp = 0x0103 ∧ s.bus.byte 0x0101 = 0x34 ∧ s.bus.byte 0x0102 = 0x12 ∧
    step s = .ok (.executed ⟨0xCC, false⟩ 24) t ∧ t.cpu.regs.pc = 0x1234 ∧
    t.cpu.regs.sp = 0x0101 ∧ t.bus.byte 0x0101 = 0x03 ∧ t.bus.byte 0x0102 = 0x01 := by
  let bytes : UInt16 → UInt8 := fun a =>
    if a = 0x0100 then 0xCC else if a = 0x0101 then 0x34 else 0x12
  let s := ofContents { Registers.powerOn with f := 0x80, sp := 0x0103, pc := 0x0100 } bytes
  have hbyte (a : UInt16) : s.bus.byte a = bytes a := byte_ofContents _ _ _
  have hready : s.IsReady := isReady_ofContents _ _
  have hcall : s.bus.byte s.cpu.regs.pc = (Instruction.call (some 1)).opcode := hbyte 0x0100
  have hi : s.bus.instruction s.cpu.regs.pc = .call (some 1) := by
    rw [instruction_operation (by rw [hcall]; exact Instruction.action_call (some 1)), hcall]
    rfl
  obtain ⟨t, hstep, hcpu, hbus, -⟩ := hready.branch hi (.call (some 1))
  have hmeets : s.cpu.regs.meets 1 = true := (by decide : Byte.bits 0x80 7 = true)
  simp only [branchCost, branchRegs, branchBus, takes, Option.all_some, hmeets, if_true,
    true_and] at hstep hcpu hbus
  have htarget : s.bus.word (s.cpu.regs.pc + 1) = 0x1234 := by
    rw [FlatBus.word, hbyte, hbyte]
    decide
  have hpushed : t.bus = s.bus.pushed 0x0103 0x0103 := hbus
  have hsp : (0x0103 : UInt16) - 2 = 0x0101 := by decide
  refine ⟨s, t, hready, rfl, rfl, hbyte _, hbyte _, hstep, ?_, ?_, ?_, ?_⟩
  · rw [hcpu]
    exact htarget
  · rw [hcpu]
    exact hsp
  · rw [hpushed, FlatBus.byte_pushed]
    decide
  · rw [hpushed, FlatBus.byte_pushed]
    decide

end Machine

end GameBoy
