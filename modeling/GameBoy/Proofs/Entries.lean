import GameBoy.Proofs.Operations

/-!
# Entries of a catalogue

An operation is typed: a load has two places, a restart has a number below eight. The entry of an
opcode in a catalogue says the same in a looser form. All entries have one shape, with at most two
operands of any kind and a routine to run, and a routine takes it for granted that the operands of
its entry suit it: that there are two, that one of them has an address, that the number of a bit is
below eight.

Here entries are run with each of these assumptions checked, so that one that does not hold is an
outcome of its own. The entry that is made from an operation runs as the operation is performed, so
that all of them hold. Main statements: `Entry.runWith_operation` and `Entry.runWith_bits`.
-/

namespace GameBoy

open Arithmetic

/-! ## Checked executions -/

/-- How the operands of an entry fail to suit its routine. -/
inductive Misuse where
  /-- There is no operand. -/
  | noOperand
  /-- There are not two operands. -/
  | noPair
  /-- An operand that stands for a value is used as a place in memory. -/
  | notMemory
  /-- A place in memory is named by something that has no address. -/
  | noAddress (kind : OperandKind)
  /-- A byte cannot be taken from the operand. -/
  | noByte (kind : OperandKind)
  /-- A byte cannot be put into the operand. -/
  | noBytePlace (kind : OperandKind)
  /-- A word cannot be taken from the operand. -/
  | noWord (kind : OperandKind)
  /-- A word cannot be put into the operand. -/
  | noWordPlace (kind : OperandKind)
  /-- The operand is not the number of a bit. -/
  | noBit (kind : OperandKind)
  /-- The operand is not an address in the first page. -/
  | noVector (kind : OperandKind)
  /-- A byte is shifted by more bits than it can be. -/
  | wideShift (n : UInt8)
  /-- Another opcode than the one that leads to the extended page has its routine. -/
  | notExtend (opcode : UInt8)
  /-- An opcode of the extended page leads to the extended page. -/
  | nested
  deriving DecidableEq, Repr

/-- Why a checked execution ends early. -/
inductive Checked.Error where
  /-- The processor stops. -/
  | fault (fault : Fault)
  /-- A routine has been given operands that do not suit it. -/
  | misuse (misuse : Misuse)
  deriving DecidableEq, Repr

/-- An execution that can also end in a misuse. -/
abbrev Checked (β α : Type) := EStateM Checked.Error (Machine β) α

namespace Checked

variable {β α γ : Type}

/-- An execution in which there is nothing to check. -/
def lift (x : Exec β α) : Checked β α := fun s =>
  match x s with
  | .ok a t => .ok a t
  | .error e t => .error (.fault e) t

theorem lift_apply (x : Exec β α) (s : Machine β) :
    lift x s = match x s with
      | .ok a t => .ok a t
      | .error e t => .error (.fault e) t := rfl

theorem lift_eq_error {x : Exec β α} {s t : Machine β} {e : Error} :
    lift x s = .error e t ↔ ∃ fault, e = .fault fault ∧ x s = .error fault t := by
  rw [lift_apply]
  cases x s with
  | ok => simp
  | error fault u =>
    constructor
    · rintro ⟨⟩
      exact ⟨fault, rfl, rfl⟩
    · rintro ⟨_, rfl, ⟨⟩⟩
      rfl

theorem lift_pure (a : α) : (lift (pure a) : Checked β α) = pure a := rfl

theorem lift_bind (x : Exec β α) (f : α → Exec β γ) :
    lift (x >>= f) = lift x >>= fun a => lift (f a) := by
  funext s
  rw [lift_apply, Exec.bind_apply, Exec.bind_apply, lift_apply]
  cases x s <;> rfl

/-- End in a misuse. -/
def refuse (misuse : Misuse) : Checked β α := throw (.misuse misuse)

end Checked

/-! ## Operands -/

namespace Operand

open Checked (lift refuse)

variable {β : Type} [Bus β]

/-- The address of a place in memory, fetching the bytes after the opcode that it needs. -/
def address (op : Operand) : Checked β UInt16 :=
  if op.immediate then refuse .notMemory
  else match op.kind with
    | .reg16 r => return (← lift Exec.getRegs).word r
    | .reg8 r => return 0xFF00 ||| ((← lift Exec.getRegs).byte r).toUInt16
    | .a16 | .n16 => lift Exec.fetchWord
    | .a8 => return 0xFF00 ||| (← lift Exec.fetchByte).toUInt16
    | kind => refuse (.noAddress kind)

/-- Step HL after a transfer through the operand. -/
def stepHL (op : Operand) : Checked β Unit :=
  match op.step with
  | .none => return ()
  | .inc => lift (Exec.modifyRegs fun r => r.setHL (r.hl + 1))
  | .dec => lift (Exec.modifyRegs fun r => r.setHL (r.hl - 1))

/-- Take a byte from an operand: a register, the byte after the opcode, or memory. -/
def readByte (op : Operand) : Checked β UInt8 :=
  if op.immediate then
    match op.kind with
    | .reg8 r => return (← lift Exec.getRegs).byte r
    | .n8 => lift Exec.fetchByte
    | kind => refuse (.noByte kind)
  else do
    let value ← lift (Exec.read (← op.address))
    op.stepHL
    return value

/-- Put a byte into an operand: a register or memory. -/
def writeByte (op : Operand) (value : UInt8) : Checked β Unit :=
  if op.immediate then
    match op.kind with
    | .reg8 r => lift (Exec.modifyRegs (·.setByte r value))
    | kind => refuse (.noBytePlace kind)
  else do
    lift (Exec.write (← op.address) value)
    op.stepHL

/-- Take a word from an operand: a register pair, the word after the opcode, or the stack pointer
plus the byte after the opcode. The last also stores flags. -/
def readWord (op : Operand) : Checked β UInt16 :=
  match op.kind, op.immediate with
  | .reg16 r, true => return (← lift Exec.getRegs).word r
  | .n16, true | .a16, true => lift Exec.fetchWord
  | .spPlusE8, _ => do
    let offset ← lift Exec.fetchOffset
    let (value, flags) := addOffset (← lift Exec.getRegs).sp offset
    lift (Exec.setFlags flags)
    return value
  | kind, _ => refuse (.noWord kind)

/-- Put a word into an operand: a register pair or memory, low byte first. -/
def writeWord (op : Operand) (value : UInt16) : Checked β Unit :=
  if op.immediate then
    match op.kind with
    | .reg16 r => lift (Exec.modifyRegs (·.setWord r value))
    | kind => refuse (.noWordPlace kind)
  else do
    let address ← op.address
    lift (Exec.write address (Word.low value))
    lift (Exec.write (address + 1) (Word.high value))

/-- The byte in which only the bit that the operand numbers is set. -/
def bitMask (op : Operand) : Checked β UInt8 :=
  match op.kind with
  | .bit n => if n < 8 then return 1 <<< n else refuse (.wideShift n)
  | kind => refuse (.noBit kind)

/-- The fixed address that the operand is. -/
def vector (op : Operand) : Checked β UInt8 :=
  match op.kind with
  | .vector address => return address
  | kind => refuse (.noVector kind)

end Operand

/-! ## Entries -/

/-- What the opcode of an entry does, given the operands of the entry. -/
inductive Routine where
  | nop
  | stop
  | halt
  | di
  | ei
  | ld
  | ld16
  | push
  | pop
  | inc8
  | dec8
  | inc16
  | dec16
  | alu (op : AluOp)
  | addHL
  | addSP
  | rotate (direction : Direction) (circular : Bool)
  | daa
  | cpl
  | scf
  | ccf
  | jr
  | jp
  | jpHL
  | call
  | ret
  | reti
  | rst
  | shift (op : ShiftOp)
  | bit
  | res
  | set
  /-- Run the entry of the extended page that the byte after the opcode selects. -/
  | extend
  | illegal
  /-- There is nothing to run. -/
  | unimplemented
  deriving DecidableEq, Repr

/-- The entry of an opcode. -/
structure Entry where
  /-- The opcode. -/
  opcode : UInt8
  /-- Whether it belongs to the extended page. -/
  prefixed : Bool
  /-- The name in assembler text. -/
  mnemonic : String
  /-- The operands. -/
  operands : Option Operand × Option Operand
  /-- The length of the instruction in bytes. -/
  length : Nat
  /-- The cycles that the instruction takes; for a conditional branch, those of a branch not
  taken. -/
  cycles : Nat
  /-- The cycles of a conditional branch that is taken. -/
  takenCycles : Option Nat
  /-- What it does. -/
  routine : Routine
  deriving DecidableEq, Repr

namespace Entry

open Checked (lift refuse)

/-- An entry with some operands, of which it keeps at most two. -/
def make (opcode : UInt8) (prefixed : Bool) (mnemonic : String) (operands : List Operand)
    (cycles : Nat) (takenCycles : Option Nat) (routine : Routine) : Entry where
  opcode
  prefixed
  mnemonic
  operands := (operands[0]?, operands[1]?)
  length := 1 + (if prefixed then 1 else 0) + Operand.totalLength operands
  cycles
  takenCycles
  routine

/-- The cycles of one execution, given whether it branches. -/
def cost (e : Entry) (taken : Bool) : Nat := if taken then e.takenCycles.getD e.cycles else e.cycles

/-- The condition of a conditional branch. -/
def condition (e : Entry) : Option Cond :=
  match e.operands.1 with
  | some ⟨.cond condition, _, _⟩ => some condition
  | _ => none

variable {β : Type} [Bus β]

/-- The only operand, or the last of two. -/
def target (e : Entry) : Checked β Operand :=
  match e.operands with
  | (some _, some op) | (some op, none) => return op
  | _ => refuse .noOperand

/-- The two operands. -/
def pair (e : Entry) : Checked β (Operand × Operand) :=
  match e.operands with
  | (some target, some source) => return (target, source)
  | _ => refuse .noPair

/-- Perform an operation whose operands, if any, are not those of the entry. -/
def perform (e : Entry) (op : Operation) : Checked β Nat := do
  let taken ← lift op.perform
  return e.cost taken

/-- Replace the byte in the target and then store the flags. -/
def modify (e : Entry) (f : UInt8 → Flags → UInt8 × Flags) : Checked β Nat := do
  let target ← e.target
  let value ← target.readByte
  let (result, flags) := f value (← lift Exec.getFlags)
  target.writeByte result
  lift (Exec.setFlags flags)
  return e.cycles

/-- Replace the word in the target. -/
def count (e : Entry) (f : UInt16 → UInt16) : Checked β Nat := do
  let target ← e.target
  let value ← target.readWord
  target.writeWord (f value)
  return e.cycles

/-- Run the routine of an entry, given what the opcodes of the extended page do. -/
def runWith (extended : UInt8 → Checked β Nat) (e : Entry) : Checked β Nat :=
  match e.routine with
  | .nop => e.perform .nop
  | .stop => e.perform .stop
  | .halt => e.perform .halt
  | .di => e.perform .di
  | .ei => e.perform .ei
  | .ld => do
    let (target, source) ← e.pair
    let value ← source.readByte
    target.writeByte value
    return e.cycles
  | .ld16 => do
    let (target, source) ← e.pair
    let value ← source.readWord
    target.writeWord value
    return e.cycles
  | .push => do
    let target ← e.target
    let value ← target.readWord
    lift (Exec.push value)
    return e.cycles
  | .pop => do
    let value ← lift Exec.pop
    let target ← e.target
    target.writeWord value
    return e.cycles
  | .inc8 => e.modify Arithmetic.inc8
  | .dec8 => e.modify Arithmetic.dec8
  | .inc16 => e.count (· + 1)
  | .dec16 => e.count (· - 1)
  | .alu op => do
    let (_, source) ← e.pair
    let value ← source.readByte
    lift (Exec.modifyRegs fun r =>
      let (result, flags) := op.apply r.a value r.flags
      ({ r with a := result }).setFlags flags)
    return e.cycles
  | .addHL => do
    let (_, source) ← e.pair
    let value ← source.readWord
    lift (Exec.modifyRegs fun r =>
      let (result, flags) := add16 r.hl value
      (r.setHL result).setFlags { flags with z := r.flags.z })
    return e.cycles
  | .addSP => e.perform .addSP
  | .rotate direction circular => e.perform (.rotate direction circular)
  | .daa => e.perform .daa
  | .cpl => e.perform .cpl
  | .scf => e.perform .scf
  | .ccf => e.perform .ccf
  | .jr => e.perform (.jr e.condition)
  | .jp => e.perform (.jp e.condition)
  | .jpHL => e.perform .jpHL
  | .call => e.perform (.call e.condition)
  | .ret => e.perform (.ret e.condition)
  | .reti => e.perform .reti
  | .rst => do
    let target ← e.target
    let address ← target.vector
    lift (Exec.push (← lift Exec.getRegs).pc)
    lift (jump address.toUInt16)
    return e.cycles
  | .shift op => e.modify op.apply
  | .bit => do
    let (bit, target) ← e.pair
    let value ← target.readByte
    let mask ← bit.bitMask
    let flags ← lift Exec.getFlags
    lift (Exec.setFlags { z := value &&& mask == 0, n := false, h := true, c := flags.c })
    return e.cycles
  | .res => do
    let (bit, target) ← e.pair
    let value ← target.readByte
    let mask ← bit.bitMask
    target.writeByte (value &&& ~~~mask)
    return e.cycles
  | .set => do
    let (bit, target) ← e.pair
    let value ← target.readByte
    let mask ← bit.bitMask
    target.writeByte (value ||| mask)
    return e.cycles
  | .extend =>
    if e.opcode = Opcode.extend then do
      let opcode ← lift Exec.fetchByte
      extended opcode
    else refuse (.notExtend e.opcode)
  | .illegal => do
    let pc := (← lift Exec.getRegs).pc
    throw (.fault (.illegalOpcode e.opcode (pc - 1)))
  | .unimplemented => throw (.fault (.unimplemented e.opcode e.prefixed))

end Entry

/-! ## Operands of operations -/

namespace Operand

open Checked (lift lift_bind lift_pure)

variable {β : Type} [Bus β]

theorem address_operand (a : Address) :
    (a.operand.address : Checked β UInt16) = lift a.resolve := by
  cases a with
  | page =>
    simp only [Address.resolve, lift_bind, lift_pure]
    rfl
  | _ => rfl

omit [Bus β] in
theorem stepHL_operand (a : Address) : (a.operand.stepHL : Checked β Unit) = lift a.stepHL := by
  cases a <;> rfl

theorem immediate_operand (a : Address) : a.operand.immediate = false := by
  cases a <;> rfl

theorem readByte_place (p : Place) : (p.operand.readByte : Checked β UInt8) = lift p.read := by
  cases p with
  | reg r => rfl
  | mem a =>
    simp only [readByte, Place.operand, Place.read, immediate_operand, address_operand,
      stepHL_operand, lift_bind, lift_pure, Bool.false_eq_true, if_false]

theorem readByte_source (p : Source) : (p.operand.readByte : Checked β UInt8) = lift p.read := by
  cases p with
  | place p => exact readByte_place p
  | immediate => rfl

theorem writeByte_place (p : Place) (value : UInt8) :
    (p.operand.writeByte value : Checked β Unit) = lift (p.write value) := by
  cases p with
  | reg r => rfl
  | mem a =>
    simp only [writeByte, Place.operand, Place.write, immediate_operand, address_operand,
      stepHL_operand, lift_bind, Bool.false_eq_true, if_false]

theorem readWord_spPlusE8 :
    ((value .spPlusE8).readWord : Checked β UInt16) = (do
      let offset ← lift Exec.fetchOffset
      let registers ← lift Exec.getRegs
      lift (Exec.setFlags (addOffset registers.sp offset).2)
      return (addOffset registers.sp offset).1) := rfl

theorem writeWord_a16 (w : UInt16) :
    ((deref .a16).writeWord w : Checked β Unit) = (do
      let address ← lift Exec.fetchWord
      lift (Exec.write address (Word.low w))
      lift (Exec.write (address + 1) (Word.high w))) := rfl

omit [Bus β] in
theorem bitMask_bitOperand (n : Fin 8) :
    ((BitOperation.bitOperand n).bitMask : Checked β UInt8) = pure (1 <<< n.val.toUInt8) := by
  have hn : n.val.toUInt8 < 8 := by revert n; decide
  exact if_pos hn

end Operand

namespace Operation

/-- The routine of an operation. -/
def routine : Operation → Routine
  | nop => .nop
  | stop => .stop
  | halt => .halt
  | di => .di
  | ei => .ei
  | load .. => .ld
  | loadWord _ | storeSP | loadSP | loadHL => .ld16
  | push _ => .push
  | pop _ => .pop
  | alu op _ => .alu op
  | inc _ => .inc8
  | dec _ => .dec8
  | incWord _ => .inc16
  | decWord _ => .dec16
  | addHL _ => .addHL
  | addSP => .addSP
  | rotate direction circular => .rotate direction circular
  | daa => .daa
  | cpl => .cpl
  | scf => .scf
  | ccf => .ccf
  | jr _ => .jr
  | jp _ => .jp
  | jpHL => .jpHL
  | call _ => .call
  | ret _ => .ret
  | reti => .reti
  | rst _ => .rst

end Operation

/-- The routine of an operation of the extended page. -/
def BitOperation.routine : BitOperation → Routine
  | shift op _ => .shift op
  | bit .. => .bit
  | res .. => .res
  | set .. => .set

/-- The routine of an action. -/
def Action.routine : Action → Routine
  | operation op => op.routine
  | bits op => op.routine
  | extend => .extend
  | illegal => .illegal

namespace Entry

open Checked (lift lift_apply lift_bind lift_pure)
open Operand (readByte_place readByte_source writeByte_place readWord_spPlusE8 writeWord_a16
  bitMask_bitOperand)

variable {β : Type} [Bus β]

/-- The entry of an opcode that does a given action. -/
def ofAction (action : Action) (opcode : UInt8) (prefixed : Bool) : Entry :=
  make opcode prefixed action.mnemonic action.operands action.cycles action.takenCycles
    action.routine

/-- The entry of an instruction. -/
def ofInstruction (i : Instruction) : Entry := ofAction i.action i.opcode i.prefixed

theorem length_ofInstruction (i : Instruction) : (ofInstruction i).length = i.length := by
  have hlength : (ofInstruction i).length =
      1 + (if i.prefixed then 1 else 0) + Operand.totalLength i.operands := rfl
  rw [hlength, Instruction.length, Instruction.opcodeLength]
  cases i.prefixed <;> rfl

theorem cost_ofAction (action : Action) (opcode : UInt8) (prefixed taken : Bool) :
    (ofAction action opcode prefixed).cost taken = action.cost taken := by
  cases taken <;> cases action <;> rfl

variable (extended : UInt8 → Checked β Nat) (opcode : UInt8) (prefixed : Bool)

theorem perform_ofAction (op : Operation) :
    ((ofAction (.operation op) opcode prefixed).perform op : Checked β Nat) =
      lift ((Action.operation op).execute opcode) := by
  simp only [perform, cost_ofAction, Action.execute, lift_bind, lift_pure]
  rfl

theorem modify_place {e : Entry} {p : Place}
    (h : (e.target : Checked β Operand) = pure p.operand) (f : UInt8 → Flags → UInt8 × Flags) :
    (e.modify f : Checked β Nat) = lift (do p.modify f; return e.cycles) := by
  simp only [modify, h, Place.modify, readByte_place, writeByte_place, lift_bind, lift_pure,
    bind_assoc, pure_bind]

/-- The entry of an operation runs as the operation is performed. -/
theorem runWith_operation (op : Operation) :
    (ofAction (.operation op) opcode prefixed).runWith extended =
      lift ((Action.operation op).execute opcode) := by
  -- With `lift` moved inwards, both sides make the same accesses in the same order.
  cases op with
  | load target source =>
    simp only [Action.execute, Operation.perform, ← readByte_source, ← writeByte_place, lift_bind,
      lift_pure, bind_assoc, pure_bind]
    rfl
  | inc target =>
    change (ofAction (.operation (.inc target)) opcode prefixed).modify inc8 = _
    rw [modify_place (p := target) rfl]
    simp only [Action.execute, Operation.perform, lift_bind, lift_pure, bind_assoc, pure_bind]
    rfl
  | dec target =>
    change (ofAction (.operation (.dec target)) opcode prefixed).modify dec8 = _
    rw [modify_place (p := target) rfl]
    simp only [Action.execute, Operation.perform, lift_bind, lift_pure, bind_assoc, pure_bind]
    rfl
  -- Of the loads of words, these two transfer in more than one step.
  | storeSP =>
    change (do
      let registers ← lift Exec.getRegs
      (Operand.deref .a16).writeWord registers.sp
      return _) = _
    simp only [Action.execute, Operation.perform, writeWord_a16, lift_bind, lift_pure, bind_assoc,
      pure_bind]
    rfl
  | loadHL =>
    change (do
      let value ← (Operand.value .spPlusE8).readWord
      lift (Exec.modifyRegs (·.setHL value))
      return _) = _
    simp only [Action.execute, Operation.perform, readWord_spPlusE8, lift_bind, lift_pure,
      bind_assoc, pure_bind]
    rfl
  | loadWord | loadSP | push | pop | alu | incWord | decWord | addHL | rst =>
    simp only [Action.execute, Operation.perform, ← readByte_source, lift_bind, lift_pure,
      bind_assoc, pure_bind]
    rfl
  | jr condition | jp condition | call condition | ret condition =>
    cases condition <;> exact perform_ofAction opcode prefixed _
  | _ => exact perform_ofAction opcode prefixed _

/-- The entry of an operation of the extended page runs as the operation is performed. -/
theorem runWith_bits (op : BitOperation) :
    (ofAction (.bits op) opcode prefixed).runWith extended =
      lift ((Action.bits op).execute opcode) := by
  cases op with
  | shift op target =>
    change (ofAction (.bits (.shift op target)) opcode prefixed).modify op.apply = _
    rw [modify_place (p := target) rfl]
    simp only [Action.execute, BitOperation.execute, BitOperation.perform, lift_bind, lift_pure]
    rfl
  | bit n target =>
    change (do
      let value ← target.operand.readByte
      let mask ← (BitOperation.bitOperand n).bitMask
      let flags ← lift Exec.getFlags
      lift (Exec.setFlags { z := value &&& mask == 0, n := false, h := true, c := flags.c })
      return _) = _
    simp only [Action.execute, BitOperation.execute, BitOperation.perform, readByte_place,
      bitMask_bitOperand, bitTest, Byte.testBit, lift_bind, lift_pure, bind_assoc, pure_bind,
      bne, Bool.not_not]
    rfl
  | res n target =>
    change (do
      let value ← target.operand.readByte
      let mask ← (BitOperation.bitOperand n).bitMask
      target.operand.writeByte (value &&& ~~~mask)
      return _) = _
    simp only [Action.execute, BitOperation.execute, BitOperation.perform, readByte_place,
      writeByte_place, bitMask_bitOperand, lift_bind, lift_pure, bind_assoc, pure_bind]
    rfl
  | set n target =>
    change (do
      let value ← target.operand.readByte
      let mask ← (BitOperation.bitOperand n).bitMask
      target.operand.writeByte (value ||| mask)
      return _) = _
    simp only [Action.execute, BitOperation.execute, BitOperation.perform, readByte_place,
      writeByte_place, bitMask_bitOperand, lift_bind, lift_pure, bind_assoc, pure_bind]
    rfl

end Entry

end GameBoy
