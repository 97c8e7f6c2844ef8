import GameBoy.Proofs.Phases

/-!
# Performing is going through phases

The operations that an opcode names, from the ones on places up to whole instructions. An operation
that no opcode names need not have phases: a byte moved from memory to memory would be loaded
before the second address is fetched. `Action.isProper` excludes those, and
`Action.isProper_ofOpcode` says that decoding never produces them.

Main statement: `Instruction.execute_eq`, by which executing an instruction is going through its
phases, at the cost that the flags at the start decide.
-/

namespace GameBoy

open Arithmetic

variable {β : Type} [Bus β]

/-! ## Places -/

/-- Whether a place is one that a three-bit field of an opcode can name. -/
def Place.isField : Place → Bool
  | reg _ | mem .hl => true
  | mem _ => false

theorem Address.resolve_eq (address : Address) :
    (address.resolve : Exec β UInt16) = do
      let fetched ← Exec.fetchImmediate address.operand.length
      return address.locate (← Exec.getRegs) fetched := by
  funext s
  cases address with
  | absolute =>
    rw [show absolute.operand.length = 2 from rfl, Exec.fetchImmediate_two]
    simp only [resolve, locate, Exec.bind_apply]
    cases Exec.fetchWord s <;> rfl
  | page =>
    rw [show page.operand.length = 1 from rfl, Exec.fetchImmediate_one]
    simp only [resolve, locate, Exec.bind_apply, Exec.pure_apply]
    cases Exec.fetchByte s <;> rfl
  | _ =>
    rw [show (Address.operand _).length = 0 from rfl, Exec.fetchImmediate_zero]
    rfl

omit [Bus β] in
theorem Address.stepHL_eq (address : Address) :
    (address.stepHL : Exec β Unit) = Exec.modifyRegs fun r => address.step r := by
  cases address <;> rfl

theorem Source.read_eq (source : Source) :
    (source.read : Exec β UInt8) = do
      let fetched ← Exec.fetchImmediate source.operand.length
      let regs ← Exec.getRegs
      let loaded ← (source.load regs fetched).perform
      Exec.modifyRegs fun r => source.step r
      return source.value regs fetched loaded := by
  funext s
  rcases source with (r | address) | _
  · rw [show (place (.reg r)).operand.length = 0 from rfl, Exec.fetchImmediate_zero]
    rfl
  · simp only [read, Place.read, operand, Place.operand, load, Place.load, step, Place.step, value,
      Place.value, Address.resolve_eq, Address.stepHL_eq, Load.perform_byte, Exec.bind_apply]
    cases Exec.fetchImmediate address.operand.length s with
    | error => rfl
    | ok fetched t =>
      simp only [Exec.getRegs_apply, Exec.pure_apply]
      cases Exec.read (address.locate t.cpu.regs fetched) t <;> simp
  · rw [show immediate.operand.length = 1 from rfl, Exec.fetchImmediate_one]
    simp only [read, load, Load.perform_none, step, value, Exec.bind_apply]
    cases Exec.fetchByte s <;> simp

theorem Place.write_eq (place : Place) (v : UInt8) :
    (place.write v : Exec β Unit) = (do
      let fetched ← Exec.fetchImmediate place.operand.length
      (place.store (← Exec.getRegs) fetched v).perform
      Exec.modifyRegs fun r => place.keep v r) := by
  funext s
  rcases place with r | address
  · rw [show (reg r).operand.length = 0 from rfl, Exec.fetchImmediate_zero]
    rfl
  · simp only [write, operand, store, keep, Address.resolve_eq, Address.stepHL_eq, Store.perform,
      Exec.bind_apply]
    cases Exec.fetchImmediate address.operand.length s with
    | error => rfl
    | ok fetched t => rfl

theorem Place.read_eq {place : Place} (h : place.isField) :
    (place.read : Exec β UInt8) = do
      let regs ← Exec.getRegs
      let loaded ← (place.load regs 0).perform
      return place.value regs loaded := by
  funext s
  rcases place with r | address
  · rfl
  · cases address with
    | hl =>
      simp only [read, load, value, Load.perform_byte, Address.resolve, Address.locate,
        Address.stepHL, Exec.bind_apply, Exec.getRegs_apply, Exec.pure_apply]
      cases Exec.read s.cpu.regs.hl s <;> simp
    | _ => cases h

/-- The phases of replacing the byte in a place and storing the flags. -/
def Place.modifyPhases (place : Place) (f : UInt8 → Flags → UInt8 × Flags) : Phases where
  length := 0
  load regs _ := place.load regs 0
  store regs _ loaded := place.store regs 0 (f (place.value regs loaded) regs.flags).1
  commit _ loaded cpu :=
    let (result, flags) := f (place.value cpu.regs loaded) cpu.regs.flags
    { cpu with regs := (place.keep result cpu.regs).setFlags flags }

theorem Place.modify_eq {place : Place} (h : place.isField) (f : UInt8 → Flags → UInt8 × Flags) :
    (place.modify f : Exec β Unit) = (place.modifyPhases f).run := by
  funext s
  simp only [modify, Phases.run, modifyPhases, Place.read_eq h, Exec.fetchImmediate_zero,
    Exec.bind_apply, Exec.getRegs_apply, Exec.pure_apply]
  cases hload : (place.load s.cpu.regs 0).perform s with
  | error => rfl
  | ok loaded t =>
    obtain ⟨b, -, rfl⟩ := Load.perform_eq_ok.1 hload
    rcases place with r | address
    · rfl
    · cases address with
      | hl =>
        simp only [Exec.pure_apply, Exec.getFlags_apply, write, store, Store.perform, keep, value,
          Address.resolve, Address.stepHL, Address.locate, Address.step, Exec.bind_apply,
          Exec.getRegs_apply, Exec.setFlags, Exec.modifyRegs_apply, Cpu.flags]
        cases hwrite : Exec.write s.cpu.regs.hl _ ({ s with bus := b } : Machine β) with
        | error => rfl
        | ok _ u =>
          obtain ⟨_, _, -, rfl⟩ := Exec.write_eq_ok.1 hwrite
          rfl
      | _ => cases h

/-- The phases of replacing the byte in a place. -/
def Place.updatePhases (place : Place) (f : UInt8 → UInt8) : Phases where
  length := 0
  load regs _ := place.load regs 0
  store regs _ loaded := place.store regs 0 (f (place.value regs loaded))
  commit _ loaded cpu := { cpu with regs := place.keep (f (place.value cpu.regs loaded)) cpu.regs }

theorem Place.length_field {place : Place} (h : place.isField) : place.operand.length = 0 := by
  rcases place with r | address
  · rfl
  · cases address <;> first | rfl | cases h

theorem Place.update_eq {place : Place} (h : place.isField) (f : UInt8 → UInt8) :
    (do place.write (f (← place.read)) : Exec β Unit) = (place.updatePhases f).run := by
  funext s
  simp only [Phases.run, updatePhases, Place.read_eq h, Place.write_eq, length_field h,
    Exec.fetchImmediate_zero, Exec.bind_apply, Exec.getRegs_apply, Exec.pure_apply]
  cases hload : (place.load s.cpu.regs 0).perform s with
  | error => rfl
  | ok loaded t =>
    obtain ⟨b, -, rfl⟩ := Load.perform_eq_ok.1 hload
    rcases place with r | address
    · rfl
    · cases (store s.cpu.regs 0 (f (value s.cpu.regs loaded (mem address))) (mem address)).perform
        ({ s with bus := b } : Machine β) <;> rfl

/-! ## The first page -/

omit [Bus β] in
theorem branchTaken_apply (condition : Option Cond) (s : Machine β) :
    branchTaken condition s = .ok (condition.all (·.holds s.cpu.regs.flags)) s := by
  cases condition <;> rfl

namespace Operation

/-- An operation whose operands an opcode can name: at most one of them is in memory, and what is
counted up or down is a place that a field can name. -/
def isProper : Operation → Bool
  | load (.reg _) _ | load (.mem _) (.place (.reg _)) | load (.mem .hl) .immediate => true
  | load .. => false
  | inc target | dec target => target.isField
  | _ => true

/-- Going through the phases of an operation, given how the bytes after its opcode are fetched. -/
theorem run_apply (op : Operation) {fetch : Exec β UInt16}
    (h : Exec.fetchImmediate op.immediateLength = fetch) (s : Machine β) :
    op.phases.run s = (do
      let fetched ← fetch
      let regs ← Exec.getRegs
      let loaded ← (op.load? regs fetched).perform
      (op.store? regs fetched loaded).perform
      Exec.modifyCpu fun cpu =>
        op.control { cpu with regs := op.settle fetched loaded cpu.regs }) s := by
  rw [← h]
  rfl

theorem fetch_jr (condition : Option Cond) :
    (Exec.fetchImmediate (jr condition).immediateLength : Exec β UInt16) = do
      return (← Exec.fetchByte).toUInt16 := by
  cases condition with
  | none | some => exact Exec.fetchImmediate_one

theorem fetch_jp (condition : Option Cond) :
    (Exec.fetchImmediate (jp condition).immediateLength : Exec β UInt16) = Exec.fetchWord := by
  cases condition with
  | none | some => exact Exec.fetchImmediate_two

theorem fetch_ret (condition : Option Cond) :
    (Exec.fetchImmediate (ret condition).immediateLength : Exec β UInt16) = pure 0 := by
  cases condition with
  | none | some => exact Exec.fetchImmediate_zero

theorem perform_load {target : Place} {source : Source} (h : (load target source).isProper) :
    ((load target source).perform : Exec β Bool) = do
      (load target source).phases.run
      return false := by
  funext s
  have hlength : (load target source).immediateLength =
      target.operand.length + source.operand.length := rfl
  simp only [perform, Phases.run, phases, load?, store?, settle, control, hlength, Source.read_eq,
    Place.write_eq, Exec.bind_apply]
  rcases target with r | address
  · rw [show (Place.reg r).operand.length = 0 from rfl, Exec.fetchImmediate_zero, Nat.zero_add]
    cases Exec.fetchImmediate source.operand.length s with
    | error => rfl
    | ok fetched t =>
      simp only [Exec.getRegs_apply]
      cases hload : (source.load t.cpu.regs fetched).perform t with
      | error => rfl
      | ok loaded u =>
        obtain ⟨b, -, rfl⟩ := Load.perform_eq_ok.1 hload
        rfl
  · rcases source with (r | address') | _
    · -- The register is read before the address is fetched, which does not touch it.
      rw [show (Source.place (.reg r)).operand.length = 0 from rfl, Exec.fetchImmediate_zero,
        Nat.add_zero]
      simp only [Exec.pure_apply, Exec.getRegs_apply, Source.load, Place.load, Load.perform_none,
        Source.step, Source.value, Place.value, Place.step, Exec.modifyRegs_apply]
      cases hfetch : Exec.fetchImmediate (Place.mem address).operand.length s with
      | error => rfl
      | ok fetched t =>
        obtain ⟨b, -, rfl⟩ := Exec.fetchImmediate_eq_ok.1 hfetch
        simp only [Cpu.byte_skip]
        rfl
    · cases h
    · cases address with
      | hl =>
        rw [show (Place.mem .hl).operand.length = 0 from rfl, Exec.fetchImmediate_zero,
          Nat.zero_add]
        cases hfetch : Exec.fetchImmediate Source.immediate.operand.length s <;> rfl
      | _ => cases h

theorem perform_alu (op : AluOp) (source : Source) :
    ((alu op source).perform : Exec β Bool) = do
      (alu op source).phases.run
      return false := by
  funext s
  have hlength : (alu op source).immediateLength = source.operand.length := by
    simp [immediateLength, operands, Operand.totalLength, Operand.r8, Operand.value, Operand.length,
      OperandKind.length]
  simp only [perform, Phases.run, phases, load?, store?, settle, control, hlength, Source.read_eq,
    Exec.bind_apply]
  cases Exec.fetchImmediate source.operand.length s with
  | error => rfl
  | ok fetched t =>
    simp only [Exec.getRegs_apply]
    cases hload : (source.load t.cpu.regs fetched).perform t with
    | error => rfl
    | ok loaded u =>
      obtain ⟨b, -, rfl⟩ := Load.perform_eq_ok.1 hload
      rfl

theorem perform_count {target : Place} (h : target.isField) :
    ((inc target).perform : Exec β Bool) = (do
      (inc target).phases.run
      return false) ∧
    ((dec target).perform : Exec β Bool) = (do
      (dec target).phases.run
      return false) := by
  have hlength : (inc target).immediateLength = 0 := Place.length_field h
  have hinc : (inc target).phases = target.modifyPhases inc8 := by
    simp only [phases, hlength]
    rfl
  have hdec : (dec target).phases = target.modifyPhases dec8 := by
    simp only [phases, show (dec target).immediateLength = 0 from hlength]
    rfl
  rw [hinc, hdec, ← Place.modify_eq h, ← Place.modify_eq h]
  exact ⟨rfl, rfl⟩

theorem perform_jr (condition : Option Cond) :
    ((jr condition).perform : Exec β Bool) = do
      let flags ← Exec.getFlags
      (jr condition).phases.run
      return (jr condition).branches flags := by
  funext s
  simp only [perform, Exec.fetchOffset, branchTaken_apply, run_apply _ (fetch_jr condition), load?,
    store?, settle, control, branches, Exec.bind_apply, Exec.getFlags_apply]
  cases hfetch : Exec.fetchByte s with
  | error => rfl
  | ok v t =>
    obtain ⟨b, -, rfl⟩ := Exec.fetchByte_eq_ok.1 hfetch
    by_cases htaken : condition.all (·.holds s.cpu.regs.flags)
    · simp [Load.perform_none, Store.perform, Cpu.flags, htaken]
      rfl
    · simp [Load.perform_none, Store.perform, Cpu.flags, htaken]

theorem perform_jp (condition : Option Cond) :
    ((jp condition).perform : Exec β Bool) = do
      let flags ← Exec.getFlags
      (jp condition).phases.run
      return (jp condition).branches flags := by
  funext s
  simp only [perform, branchTaken_apply, run_apply _ (fetch_jp condition), load?, store?, settle,
    control, branches, Exec.bind_apply, Exec.getFlags_apply]
  cases hfetch : Exec.fetchWord s with
  | error => rfl
  | ok w t =>
    obtain ⟨b, -, rfl⟩ := Exec.fetchWord_eq_ok.1 hfetch
    by_cases htaken : condition.all (·.holds s.cpu.regs.flags)
    · simp [Load.perform_none, Store.perform, Cpu.flags, htaken, jump]
    · simp [Load.perform_none, Store.perform, Cpu.flags, htaken]

theorem perform_call (condition : Option Cond) :
    ((call condition).perform : Exec β Bool) = do
      let flags ← Exec.getFlags
      (call condition).phases.run
      return (call condition).branches flags := by
  funext s
  -- A call fetches what a jump to an address fetches.
  simp only [perform, branchTaken_apply, run_apply (call condition) (fetch_jp condition),
    load?, store?, settle, control, branches, Exec.bind_apply, Exec.getFlags_apply]
  cases hfetch : Exec.fetchWord s with
  | error => rfl
  | ok w t =>
    obtain ⟨b, -, rfl⟩ := Exec.fetchWord_eq_ok.1 hfetch
    by_cases htaken : condition.all (·.holds s.cpu.regs.flags)
    · simp only [Load.perform_none, Store.perform, Cpu.flags, htaken, jump, Exec.bind_apply,
        Exec.getRegs_apply, Exec.pure_apply, Cpu.flags_skip, if_true]
      cases hpush : Exec.push (s.cpu.skip 2).regs.pc { s with cpu := s.cpu.skip 2, bus := b } with
      | error => rfl
      | ok _ u =>
        obtain ⟨_, _, _, _, -, -, rfl⟩ := Exec.push_eq_ok.1 hpush
        simp [htaken]
    · simp [Load.perform_none, Store.perform, Cpu.flags, htaken]

theorem perform_ret (condition : Option Cond) :
    ((ret condition).perform : Exec β Bool) = do
      let flags ← Exec.getFlags
      (ret condition).phases.run
      return (ret condition).branches flags := by
  funext s
  simp only [perform, branchTaken_apply, run_apply _ (fetch_ret condition), load?, store?, settle,
    control, branches, Exec.bind_apply, Exec.getFlags_apply, Exec.getRegs_apply, Exec.pure_apply]
  by_cases htaken : condition.all (·.holds s.cpu.regs.flags)
  · simp only [Load.perform_word, Store.perform, Cpu.flags, htaken, jump, Exec.pop,
      Exec.bind_apply, Exec.getRegs_apply, Exec.pure_apply, if_true]
    cases hread : Exec.readWord s.cpu.regs.sp s with
    | error => rfl
    | ok w t =>
      obtain ⟨b, -, rfl⟩ := Exec.readWord_eq_ok.1 hread
      simp [htaken]
  · simp [Load.perform_none, Store.perform, Cpu.flags, htaken]

theorem perform_storeSP :
    (storeSP.perform : Exec β Bool) = do
      storeSP.phases.run
      return false := by
  funext s
  simp only [perform, run_apply storeSP Exec.fetchImmediate_two, load?, store?, settle,
    control, Load.perform_none, Store.perform, Exec.bind_apply, Exec.pure_apply,
    Exec.getRegs_apply]
  cases hfetch : Exec.fetchWord s with
  | error => rfl
  | ok address t =>
    obtain ⟨b, -, rfl⟩ := Exec.fetchWord_eq_ok.1 hfetch
    simp only [Cpu.sp_skip]
    cases Exec.write address _ ({ s with cpu := s.cpu.skip 2, bus := b } : Machine β) with
    | error => rfl
    | ok _ u => cases hhigh : Exec.write (address + 1) (Word.high s.cpu.regs.sp) u <;> simp [hhigh]

theorem perform_eq {op : Operation} (h : op.isProper) :
    (op.perform : Exec β Bool) = do
      let flags ← Exec.getFlags
      op.phases.run
      return op.branches flags := by
  cases op with
  | load target source => exact perform_load h
  | alu op source => exact perform_alu op source
  | inc target => exact (perform_count h).1
  | dec target => exact (perform_count h).2
  | jr condition => exact perform_jr condition
  | jp condition => exact perform_jp condition
  | call condition => exact perform_call condition
  | ret condition => exact perform_ret condition
  | storeSP => exact perform_storeSP
  | loadWord r =>
    funext s
    simp only [perform, run_apply (loadWord r) Exec.fetchImmediate_two, Exec.bind_apply,
      Exec.getFlags_apply]
    cases Exec.fetchWord s <;> rfl
  | stop =>
    funext s
    simp only [perform, run_apply stop Exec.fetchImmediate_one, Exec.bind_apply,
      Exec.getFlags_apply]
    cases Exec.fetchByte s <;> rfl
  | loadHL | addSP =>
    funext s
    simp only [perform, Exec.fetchOffset, Exec.bind_apply, Exec.getFlags_apply]
    rw [run_apply _ ?fetch]
    case fetch => exact Exec.fetchImmediate_one
    simp only [Exec.bind_apply]
    cases Exec.fetchByte s with
    | error => rfl
    | ok v t => simp [load?, store?, settle, control, Load.perform_none, Store.perform, branches]
  | push r =>
    funext s
    simp only [perform, run_apply (push r) Exec.fetchImmediate_zero, load?, store?, settle,
      control, branches, Load.perform_none, Store.perform, Exec.bind_apply, Exec.pure_apply,
      Exec.getFlags_apply, Exec.getRegs_apply]
    cases Exec.push (s.cpu.regs.word r) s <;> rfl
  | pop r =>
    funext s
    simp only [perform, run_apply (pop r) Exec.fetchImmediate_zero, load?, store?, settle,
      control, branches, Load.perform_word, Store.perform, Exec.pop_apply, Exec.readWord,
      Exec.access_apply, Exec.bind_apply, Exec.pure_apply, Exec.getFlags_apply, Exec.getRegs_apply]
    cases Bus.readWord s.cpu.regs.sp s.bus <;> rfl
  | reti =>
    funext s
    simp only [perform, run_apply reti Exec.fetchImmediate_zero, load?, store?, settle,
      control, branches, Load.perform_word, Store.perform, Exec.pop_apply, jump, Exec.readWord,
      Exec.access_apply, Exec.bind_apply, Exec.pure_apply, Exec.getFlags_apply, Exec.getRegs_apply]
    cases Bus.readWord s.cpu.regs.sp s.bus <;> rfl
  | rst n =>
    funext s
    simp only [perform, run_apply (rst n) Exec.fetchImmediate_zero, load?, store?, settle,
      control, branches, Load.perform_none, Store.perform, jump, Exec.bind_apply, Exec.pure_apply,
      Exec.getFlags_apply, Exec.getRegs_apply]
    cases Exec.push s.cpu.regs.pc s <;> rfl
  | _ =>
    funext s
    simp only [Exec.bind_apply, Exec.getFlags_apply]
    rw [run_apply _ ?fetch]
    case fetch => exact Exec.fetchImmediate_zero
    rfl

end Operation

/-! ## The extended page -/

theorem BitOperation.perform_eq {op : BitOperation} (h : op.target.isField) :
    (op.perform : Exec β Unit) = op.phases.run := by
  cases op with
  | shift op target => exact Place.modify_eq h op.apply
  | bit n target =>
    replace h : target.isField := h
    funext s
    simp only [perform, Phases.run, phases, store?, settle, BitOperation.target, Place.read_eq h,
      Exec.fetchImmediate_zero, Exec.bind_apply, Exec.getRegs_apply, Exec.pure_apply]
    cases hload : (target.load s.cpu.regs 0).perform s with
    | error => rfl
    | ok loaded t =>
      obtain ⟨b, -, rfl⟩ := Load.perform_eq_ok.1 hload
      simp only [Exec.getFlags_apply, Exec.setFlags, Exec.modifyRegs_apply, Exec.modifyCpu_apply,
        Store.perform, Exec.pure_apply, Cpu.flags]
  | res n target => exact Place.update_eq h fun v => Byte.clearBit v n
  | set n target => exact Place.update_eq h fun v => Byte.setBit v n

/-! ## Instructions -/

theorem Place.isField_ofField (n : Fin 8) : (ofField n).isField := by
  revert n
  decide

theorem BitOperation.isField_target (opcode : UInt8) : (ofOpcode opcode).target.isField := by
  have h := Place.isField_ofField (Opcode.lower opcode)
  unfold ofOpcode
  split <;> exact h

namespace Action

/-- Whether the phases say what an action does. -/
def isProper : Action → Bool
  | operation op => op.isProper
  | bits op => op.target.isField
  | extend | illegal => false

/-- What holds of every action of the four groups holds of what an opcode names. -/
theorem forall_ofOpcode {P : Action → Prop} (h₀ : ∀ upper lower, P (ofGroup0 upper lower))
    (h₁ : ∀ upper lower, P (ofGroup1 upper lower))
    (h₂ : ∀ upper lower, P (operation (.alu (.ofField upper) (.place (.ofField lower)))))
    (h₃ : ∀ upper lower, P (ofGroup3 upper lower)) (opcode : UInt8) : P (ofOpcode opcode) := by
  unfold ofOpcode
  split
  · exact h₀ _ _
  · exact h₁ _ _
  · exact h₂ _ _
  · exact h₃ _ _

theorem eq_extend {opcode : UInt8} (h : ofOpcode opcode = extend) : opcode = Opcode.extend := by
  have hgroup0 : ∀ upper lower, ofGroup0 upper lower ≠ extend := by decide
  have hgroup1 : ∀ upper lower, ofGroup1 upper lower ≠ extend := by decide
  have hgroup3 : ∀ upper lower, ofGroup3 upper lower = extend → upper = 1 ∧ lower = 3 := by decide
  unfold ofOpcode at h
  split at h
  · exact absurd h (hgroup0 _ _)
  · exact absurd h (hgroup1 _ _)
  · cases h
  · rename_i hgroup
    obtain ⟨hupper, hlower⟩ := hgroup3 _ _ h
    -- The group and the two fields are all of the opcode.
    refine UInt8.toNat_inj.1 ?_
    simp only [Opcode.group, Opcode.upper, Opcode.lower, Fin.ext_iff] at hgroup hupper hlower
    simp only [Opcode.extend, UInt8.reduceToNat]
    grind

/-- What an opcode names is proper, unless it has no meaning or names the extended page. -/
theorem isProper_ofOpcode {opcode : UInt8} (h : opcode ≠ Opcode.extend) :
    (ofOpcode opcode).isProper ∨ ofOpcode opcode = illegal := by
  have hall : (ofOpcode opcode).isProper ∨ ofOpcode opcode = illegal ∨ ofOpcode opcode = extend :=
    forall_ofOpcode (P := fun action => action.isProper ∨ action = illegal ∨ action = extend)
      (by decide) (by decide) (by decide) (by decide) opcode
  rcases hall with hproper | hillegal | hextend
  · exact .inl hproper
  · exact .inr hillegal
  · exact absurd (eq_extend hextend) h

/-- Performing a proper action is going through its phases. -/
theorem execute_eq {action : Action} (h : action.isProper) (opcode : UInt8) :
    (action.execute opcode : Exec β Nat) = do
      let flags ← Exec.getFlags
      action.phases.run
      return action.cost (action.branches flags) := by
  funext s
  cases action with
  | operation op =>
    simp only [execute, Operation.perform_eq h, phases, branches, cost, Exec.bind_apply,
      Exec.getFlags_apply]
    cases op.phases.run s <;> rfl
  | bits op =>
    simp only [execute, BitOperation.execute, BitOperation.perform_eq h, phases, cost, cycles,
      Exec.bind_apply, Exec.getFlags_apply]
  | extend | illegal => cases h

end Action

namespace Instruction

theorem isProper {i : Instruction} (h : i.prefixed ∨ i.opcode ≠ Opcode.extend) :
    i.action.isProper ∨ i.action = .illegal := by
  unfold action
  split
  · exact .inl (BitOperation.isField_target i.opcode)
  · exact Action.isProper_ofOpcode (by simp_all)

theorem execute_eq {i : Instruction} (h : i.action.isProper) :
    (i.execute : Exec β Nat) = do
      let flags ← Exec.getFlags
      i.phases.run
      return i.cost (i.branches flags) :=
  Action.execute_eq h i.opcode

theorem execute_illegal {i : Instruction} (h : i.action = .illegal) (s : Machine β) :
    i.execute s = .error (.illegalOpcode i.opcode (s.cpu.regs.pc - 1)) s := by
  rw [execute, h]
  rfl

/-- What it takes to execute an instruction. -/
theorem execute_ok {i : Instruction} {s t : Machine β} {cost : Nat}
    (hi : i.prefixed ∨ i.opcode ≠ Opcode.extend) (h : i.execute s = .ok cost t) :
    i.action.isProper ∧ cost = i.cost (i.branches s.cpu.flags) ∧ i.phases.run s = .ok () t := by
  rcases isProper hi with hproper | hillegal
  · refine ⟨hproper, ?_⟩
    rw [execute_eq hproper] at h
    obtain ⟨_, _, ⟨⟩, h⟩ := Exec.bind_eq_ok.1 h
    obtain ⟨⟨⟩, u, hrun, h⟩ := Exec.bind_eq_ok.1 h
    obtain ⟨rfl, rfl⟩ := EStateM.Result.ok.inj h
    exact ⟨rfl, hrun⟩
  · rw [execute_illegal hillegal] at h
    cases h

/-- Executing an instruction ends in its commit, before which only the program counter and the stack
pointer have moved. -/
theorem execute_commit {i : Instruction} {s t : Machine β} {cost : Nat}
    (hi : i.prefixed ∨ i.opcode ≠ Opcode.extend) (h : i.execute s = .ok cost t) :
    ∃ fetched loaded pc sp, t.cpu =
      i.phases.commit fetched loaded { s.cpu with regs := { s.cpu.regs with pc, sp } } := by
  obtain ⟨-, -, hrun⟩ := execute_ok hi h
  obtain ⟨fetched, loaded, _, _, -, -, hcpu, -⟩ := Phases.run_ok hrun
  exact ⟨fetched, loaded, _, _, hcpu⟩

/-- Executing an instruction leaves alone what no commit touches. -/
theorem execute_frame {i : Instruction} {s t : Machine β} {cost : Nat}
    (hi : i.prefixed ∨ i.opcode ≠ Opcode.extend) (h : i.execute s = .ok cost t) :
    ∃ regs ime halted enablePending enableArmed,
      t.cpu = { s.cpu with regs, ime, halted, enablePending, enableArmed } := by
  obtain ⟨fetched, loaded, _, _, hcpu⟩ := execute_commit hi h
  obtain ⟨_, _, _, _, _, hframe⟩ := Action.commit_frame i.action fetched loaded _
  exact ⟨_, _, _, _, _, hcpu.trans hframe⟩

/-- How executing an instruction fails. -/
theorem execute_error {i : Instruction} {s t : Machine β} {e : Fault}
    (hi : i.prefixed ∨ i.opcode ≠ Opcode.extend) (h : i.execute s = .error e t) :
    (i.action = .illegal ∧ e = .illegalOpcode i.opcode (s.cpu.regs.pc - 1) ∧ t = s) ∨
      i.action.isProper ∧ i.phases.run s = .error e t := by
  rcases isProper hi with hproper | hillegal
  · refine .inr ⟨hproper, ?_⟩
    rw [execute_eq hproper] at h
    rcases Exec.bind_eq_error.1 h with ⟨⟨⟩⟩ | ⟨_, _, ⟨⟩, h⟩
    rcases Exec.bind_eq_error.1 h with hrun | ⟨_, _, _, ⟨⟩⟩
    exact hrun
  · rw [execute_illegal hillegal] at h
    obtain ⟨rfl, rfl⟩ := EStateM.Result.error.inj h
    exact .inl ⟨hillegal, rfl, rfl⟩

/-- Executing an instruction that fails has at most moved the program counter and the stack
pointer. -/
theorem execute_error_frame {i : Instruction} {s t : Machine β} {e : Fault}
    (hi : i.prefixed ∨ i.opcode ≠ Opcode.extend) (h : i.execute s = .error e t) :
    ∃ pc sp, t.cpu = { s.cpu with regs := { s.cpu.regs with pc, sp } } := by
  rcases execute_error hi h with ⟨-, -, rfl⟩ | ⟨-, hrun⟩
  · exact ⟨_, _, rfl⟩
  · exact Phases.run_error_frame hrun

theorem opcodeLength_operation {i : Instruction} {op : Operation} (h : i.action = .operation op) :
    i.opcodeLength = 1 := by
  unfold action at h
  split at h
  · cases h
  · rename_i hprefixed
    exact if_neg hprefixed

end Instruction

end GameBoy
