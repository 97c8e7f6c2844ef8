import GameBoy.Proofs.BareHandler

/-!
# The stack

PUSH, CALL, RST and the service of an interrupt put a word under the stack pointer in one way, the
high byte first, and POP, RET and RETI take a word from there, the low byte first. Each is one
equation that says what executing it gives on memory that is mapped everywhere; `Pushes` and `Pops`
say what they have in common.

Main statements: `Machine.stackLayout` and `Machine.Pushes.pops`.
-/

namespace GameBoy

/-! ## Pairs -/

/-- A word after it went through a pair. The pair with number 3 is AF, which does not keep the low
nibble. -/
def Word.through (p : Fin 4) (w : UInt16) : UInt16 :=
  match p with
  | 3 => ofBytes (high w) (low w &&& 0xF0)
  | _ => w

namespace Registers

/-- The two bytes of a pair. For AF that is all of F, whatever its low nibble holds. -/
def pair (r : Registers) : Fin 4 → UInt16
  | 0 => Word.ofBytes r.b r.c
  | 1 => Word.ofBytes r.d r.e
  | 2 => Word.ofBytes r.h r.l
  | 3 => Word.ofBytes r.a r.f

/-- The registers with the eight bytes of others. -/
def withBytes (r bytes : Registers) : Registers := { bytes with sp := r.sp, pc := r.pc }

variable (r : Registers) (p q : Fin 4) (w : UInt16)

theorem word_ofStackField : r.word (.ofStackField p) = Word.through p (r.pair p) := by
  match p with
  | 0 | 1 | 2 => rfl
  | 3 =>
    change Word.ofBytes r.a (r.f &&& 0xF0) = Word.ofBytes (Word.high (Word.ofBytes r.a r.f))
      (Word.low (Word.ofBytes r.a r.f) &&& 0xF0)
    rw [Word.high_ofBytes, Word.low_ofBytes]

theorem pair_setWord : (r.setWord (.ofStackField p) w).pair q =
    if q = p then Word.through p w else r.pair q := by
  match p, q with
  | 0, 0 | 1, 1 | 2, 2 => exact Word.ofBytes_high_low w
  | 3, 3 => rfl
  | 0, 1 | 0, 2 | 0, 3 | 1, 0 | 1, 2 | 1, 3 | 2, 0 | 2, 1 | 2, 3 | 3, 0 | 3, 1 | 3, 2 => rfl

theorem sp_setWord : (r.setWord (.ofStackField p) w).sp = r.sp := by
  match p with
  | 0 | 1 | 2 | 3 => rfl

theorem pc_setStackWord : (r.setWord (.ofStackField p) w).pc = r.pc := by
  match p with
  | 0 | 1 | 2 | 3 => rfl

end Registers

/-! ## Instructions -/

namespace Instruction

/-- Push the pair with the given number. -/
def push (p : Fin 4) : Instruction := ⟨0xC5 + 16 * p.val.toUInt8, false⟩

/-- Pop into the pair with the given number. -/
def pop (p : Fin 4) : Instruction := ⟨0xC1 + 16 * p.val.toUInt8, false⟩

/-- Call a routine, if the condition with the given number holds. -/
def call : Option (Fin 4) → Instruction
  | none => ⟨0xCD, false⟩
  | some c => ⟨0xC4 + 8 * c.val.toUInt8, false⟩

/-- Return from a routine, if the condition with the given number holds. -/
def ret : Option (Fin 4) → Instruction
  | none => ⟨0xC9, false⟩
  | some c => ⟨0xC0 + 8 * c.val.toUInt8, false⟩

/-- Call the fixed address eight times `n`. -/
def rst (n : Fin 8) : Instruction := ⟨0xC7 + 8 * n.val.toUInt8, false⟩

theorem action_push (p : Fin 4) : (push p).action = .operation (.push (.ofStackField p)) := by
  match p with
  | 0 | 1 | 2 | 3 => rfl

theorem action_pop (p : Fin 4) : (pop p).action = .operation (.pop (.ofStackField p)) := by
  match p with
  | 0 | 1 | 2 | 3 => rfl

theorem action_call (condition : Option (Fin 4)) :
    (call condition).action = .operation (.call (condition.map .ofField)) := by
  match condition with
  | none | some 0 | some 1 | some 2 | some 3 => rfl

theorem action_ret (condition : Option (Fin 4)) :
    (ret condition).action = .operation (.ret (condition.map .ofField)) := by
  match condition with
  | none | some 0 | some 1 | some 2 | some 3 => rfl

theorem action_rst (n : Fin 8) : (rst n).action = .operation (.rst n) := by
  match n with
  | 0 | 1 | 2 | 3 | 4 | 5 | 6 | 7 => rfl

variable {s : Machine FlatBus} {i : Instruction} {op : Operation}

/-- On memory that is mapped everywhere, executing a proper operation of the first page. -/
theorem execute_operation (h : s.bus.IsMapped) (hi : i.action = .operation op)
    (hproper : op.isProper) (traffic : Array Traffic) :
    i.execute (s.watch traffic) = .ok (op.cost (op.branches s.cpu.flags))
      ((op.phases.result s).watch (traffic ++ op.phases.traffic s)) := by
  have hproper' : i.action.isProper := by
    rw [hi]
    exact hproper
  have hexecute := execute_watched h hproper' traffic
  rw [cost, branches, phases, hi] at hexecute
  exact hexecute

theorem execute_plain (h : s.bus.IsMapped) (hi : i.action = .operation op) (hproper : op.isProper) :
    i.execute s = .ok (op.cost (op.branches s.cpu.flags)) (op.phases.result s) :=
  (Exec.quiet_execute i).ok (execute_operation h hi hproper #[])

end Instruction

/-! ## One word -/

namespace Machine

/-- A word has been put under the stack pointer, high byte first, and no other byte has changed. -/
structure Pushes (s : Machine FlatBus) (w : UInt16) (t : Machine FlatBus) : Prop where
  sp : t.cpu.regs.sp = s.cpu.regs.sp - 2
  high : t.bus.byte (s.cpu.regs.sp - 1) = Word.high w
  low : t.bus.byte (s.cpu.regs.sp - 2) = Word.low w
  others : ∀ a, a ≠ s.cpu.regs.sp - 1 → a ≠ s.cpu.regs.sp - 2 → t.bus.byte a = s.bus.byte a

/-- The word at the stack pointer has been taken, low byte first, and no byte has changed. -/
structure Pops (s : Machine FlatBus) (w : UInt16) (t : Machine FlatBus) : Prop where
  sp : t.cpu.regs.sp = s.cpu.regs.sp + 2
  low : Word.low w = s.bus.byte s.cpu.regs.sp
  high : Word.high w = s.bus.byte (s.cpu.regs.sp + 1)
  bytes : ∀ a, t.bus.byte a = s.bus.byte a

variable {s t u : Machine FlatBus} {w w' : UInt16}

theorem Pushes.of_pushed (hsp : t.cpu.regs.sp = s.cpu.regs.sp - 2)
    (hbus : ∀ a, t.bus.byte a = (s.bus.pushed s.cpu.regs.sp w).byte a) : s.Pushes w t := by
  have hne : s.cpu.regs.sp - 2 ≠ s.cpu.regs.sp - 1 := by grind
  refine ⟨hsp, ?_, ?_, fun a hhigh hlow => ?_⟩
  · rw [hbus, FlatBus.byte_pushed, if_pos rfl]
  · rw [hbus, FlatBus.byte_pushed, if_neg hne, if_pos rfl]
  · rw [hbus, FlatBus.byte_pushed, if_neg hhigh, if_neg hlow]

theorem Pops.of_word (hsp : t.cpu.regs.sp = s.cpu.regs.sp + 2)
    (hword : w = s.bus.word s.cpu.regs.sp) (hbus : t.bus = s.bus) : s.Pops w t := by
  refine ⟨hsp, ?_, ?_, fun a => by rw [hbus]⟩
  · rw [hword]
    exact Word.low_ofBytes _ _
  · rw [hword]
    exact Word.high_ofBytes _ _

/-- What was pushed last is popped first. -/
theorem Pushes.pops (hpush : s.Pushes w t) (hpop : t.Pops w' u) :
    w' = w ∧ u.cpu.regs.sp = s.cpu.regs.sp := by
  have hnext : s.cpu.regs.sp - 2 + 1 = s.cpu.regs.sp - 1 := by grind
  have hback : s.cpu.regs.sp - 2 + 2 = s.cpu.regs.sp := by grind
  constructor
  · rw [← Word.ofBytes_high_low w', ← Word.ofBytes_high_low w, hpop.high, hpop.low, hpush.sp, hnext,
      hpush.high, hpush.low]
  · rw [hpop.sp, hpush.sp, hback]

/-! ## The instructions of the stack -/

/-- The machine after a pair was pushed. -/
def pushing (s : Machine FlatBus) (p : Fin 4) : Machine FlatBus :=
  { s with
    cpu := s.cpu.drop 2
    bus := s.bus.pushed s.cpu.regs.sp (Word.through p (s.cpu.regs.pair p)) }

/-- The machine after the word at the stack pointer was popped into a pair. -/
def popping (s : Machine FlatBus) (p : Fin 4) : Machine FlatBus :=
  { s with cpu := { s.cpu with
    regs := { s.cpu.regs with sp := s.cpu.regs.sp + 2 }.setWord (.ofStackField p)
      (s.bus.word s.cpu.regs.sp) } }

theorem execute_push (h : s.bus.IsMapped) (p : Fin 4) (traffic : Array Traffic) :
    (Instruction.push p).execute (s.watch traffic) = .ok 16 ((s.pushing p).watch (traffic ++
      Store.traffic s.cpu.regs.sp (.push (Word.through p (s.cpu.regs.pair p))))) := by
  have hexecute := Instruction.execute_operation h (Instruction.action_push p) rfl traffic
  have harrived : (Operation.push (.ofStackField p)).phases.arrived s = s.cpu := s.cpu.skip_zero
  have hstoring : (Operation.push (.ofStackField p)).phases.storing s =
      .push (Word.through p (s.cpu.regs.pair p)) := by
    rw [← Registers.word_ofStackField, Phases.storing, harrived]
    rfl
  have hresult : (Operation.push (.ofStackField p)).phases.result s = s.pushing p := by
    rw [Phases.result, hstoring, harrived]
    rfl
  have htraffic : (Operation.push (.ofStackField p)).phases.traffic s =
      Store.traffic s.cpu.regs.sp (.push (Word.through p (s.cpu.regs.pair p))) := by
    rw [Phases.traffic, hstoring]
    rfl
  rw [hresult, htraffic] at hexecute
  exact hexecute

theorem execute_pop (h : s.bus.IsMapped) (p : Fin 4) (traffic : Array Traffic) :
    (Instruction.pop p).execute (s.watch traffic) =
      .ok 12 ((s.popping p).watch (traffic ++ s.bus.spanTraffic s.cpu.regs.sp 2)) := by
  have hexecute := Instruction.execute_operation h (Instruction.action_pop p) rfl traffic
  have harrived : (Operation.pop (.ofStackField p)).phases.arrived s = s.cpu := s.cpu.skip_zero
  have hloading : (Operation.pop (.ofStackField p)).phases.loading s = .word s.cpu.regs.sp := by
    rw [Phases.loading, harrived]
    rfl
  have hresult : (Operation.pop (.ofStackField p)).phases.result s = s.popping p := by
    rw [Phases.result_unstored _ rfl, harrived, Phases.loaded, hloading]
    rfl
  have htraffic : (Operation.pop (.ofStackField p)).phases.traffic s =
      s.bus.spanTraffic s.cpu.regs.sp 2 := by
    rw [Phases.traffic, hloading]
    exact (Array.append_empty).trans (Array.empty_append)
  rw [hresult, htraffic] at hexecute
  exact hexecute

/-! ## Routines -/

/-- The machine that goes on at an address. -/
def jumping (s : Machine FlatBus) (target : UInt16) : Machine FlatBus :=
  { s with cpu := { s.cpu with regs := { s.cpu.regs with pc := target } } }

/-- The machine at the start of a routine that returns to `next`. -/
def calling (s : Machine FlatBus) (next target : UInt16) : Machine FlatBus :=
  { s with
    cpu := { s.cpu with regs := { s.cpu.regs with sp := s.cpu.regs.sp - 2, pc := target } }
    bus := s.bus.pushed s.cpu.regs.sp next }

/-- The machine after it has returned from a routine. -/
def returning (s : Machine FlatBus) : Machine FlatBus :=
  { s with cpu := { s.cpu with
    regs := { s.cpu.regs with sp := s.cpu.regs.sp + 2, pc := s.bus.word s.cpu.regs.sp } } }

theorem result_call (condition : Option Cond) (s : Machine FlatBus) :
    (Operation.call condition).phases.result s =
      if condition.all (·.holds s.cpu.flags) then
        s.calling (s.cpu.regs.pc + 2) (s.bus.word s.cpu.regs.pc)
      else s.jumping (s.cpu.regs.pc + 2) := by
  let op := Operation.call condition
  have hlength : op.phases.length = 2 := by
    cases condition <;> rfl
  have harrived : op.phases.arrived s = s.cpu.skip 2 := by
    rw [Phases.arrived, hlength]
    rfl
  have hfetched : op.phases.fetched s = s.bus.word s.cpu.regs.pc := by
    rw [Phases.fetched, hlength]
    rfl
  have hstoring : op.phases.storing s =
      if condition.all (·.holds s.cpu.flags) then .push (s.cpu.regs.pc + 2) else .none := by
    rw [Phases.storing, harrived]
    rfl
  rw [Phases.result, hstoring, harrived, hfetched]
  by_cases htaken : condition.all (·.holds s.cpu.flags)
  · simp only [if_pos htaken]
    exact congrArg (fun regs : Registers => { s with
      cpu := { s.cpu with regs }
      bus := s.bus.pushed s.cpu.regs.sp (s.cpu.regs.pc + 2) }) (if_pos htaken)
  · simp only [if_neg htaken, Store.pushed, Cpu.drop_zero]
    exact congrArg (fun regs : Registers => { s with cpu := { s.cpu with regs } }) (if_neg htaken)

theorem result_rst (n : Fin 8) (s : Machine FlatBus) : (Operation.rst n).phases.result s =
    s.calling s.cpu.regs.pc (8 * n.val.toUInt16) := by
  have haddress : ∀ n : Fin 8, (Operation.restartAddress n).toUInt16 = 8 * n.val.toUInt16 := by
    decide
  have harrived : (Operation.rst n).phases.arrived s = s.cpu := s.cpu.skip_zero
  have hstoring : (Operation.rst n).phases.storing s = .push s.cpu.regs.pc := by
    rw [Phases.storing, harrived]
    rfl
  rw [Phases.result, hstoring, harrived, ← haddress]
  rfl

theorem result_ret (condition : Option Cond) (s : Machine FlatBus) :
    (Operation.ret condition).phases.result s =
      if condition.all (·.holds s.cpu.flags) then s.returning
      else s.jumping s.cpu.regs.pc := by
  let op := Operation.ret condition
  have hlength : op.phases.length = 0 := by
    cases condition <;> rfl
  have harrived : op.phases.arrived s = s.cpu := by
    rw [Phases.arrived, hlength]
    exact s.cpu.skip_zero
  have hloading : op.phases.loading s =
      if condition.all (·.holds s.cpu.flags) then .word s.cpu.regs.sp else .none := by
    rw [Phases.loading, harrived]
    rfl
  rw [Phases.result_unstored _ rfl, harrived, Phases.loaded, hloading]
  by_cases htaken : condition.all (·.holds s.cpu.flags)
  · simp only [if_pos htaken]
    exact congrArg (fun regs : Registers => { s with cpu := { s.cpu with regs } }) (if_pos htaken)
  · simp only [if_neg htaken]
    exact congrArg (fun regs : Registers => { s with cpu := { s.cpu with regs } }) (if_neg htaken)

/-! ## The layout of the stack -/

/-- Whether the condition with the given number, if there is one, holds. -/
def taken (s : Machine FlatBus) (condition : Option (Fin 4)) : Bool :=
  (condition.map Cond.ofField).all (·.holds s.cpu.flags)

/-- How words go to the stack and come from there. A call returns to the instruction after the two
bytes of its address. -/
structure StackLayout (s : Machine FlatBus) : Prop where
  push : ∀ p, ∃ t, (Instruction.push p).execute s = .ok 16 t ∧
    s.Pushes (Word.through p (s.cpu.regs.pair p)) t
  call : ∀ condition, s.taken condition → ∃ t, (Instruction.call condition).execute s = .ok 24 t ∧
    s.Pushes (s.cpu.regs.pc + 2) t ∧ t.cpu.regs.pc = s.bus.word s.cpu.regs.pc
  rst : ∀ n, ∃ t, (Instruction.rst n).execute s = .ok 16 t ∧
    s.Pushes s.cpu.regs.pc t ∧ t.cpu.regs.pc = 8 * n.val.toUInt16
  dispatch : ∀ i, s.Serves i → ∃ t, step s = .ok (.served i) t ∧
    s.Pushes s.cpu.regs.pc t ∧ t.cpu.regs.pc = i.vector
  pop : ∀ p, ∃ w t, (Instruction.pop p).execute s = .ok 12 t ∧
    s.Pops w t ∧ t.cpu.regs.pair p = Word.through p w
  ret : ∀ condition, s.taken condition → ∃ t,
    (Instruction.ret condition).execute s = .ok (if condition.isSome then 20 else 16) t ∧
    s.Pops t.cpu.regs.pc t
  reti : ∃ t, Instruction.reti.execute s = .ok 16 t ∧ s.Pops t.cpu.regs.pc t

theorem pushes_pushing (s : Machine FlatBus) (p : Fin 4) :
    s.Pushes (Word.through p (s.cpu.regs.pair p)) (s.pushing p) := .of_pushed rfl fun _ => rfl

theorem pops_popping (s : Machine FlatBus) (p : Fin 4) :
    s.Pops (s.bus.word s.cpu.regs.sp) (s.popping p) := .of_word (Registers.sp_setWord _ _ _) rfl rfl

theorem execute_call (h : s.bus.IsMapped) {condition : Option (Fin 4)}
    (htaken : s.taken condition) : ∃ t, (Instruction.call condition).execute s = .ok 24 t ∧
      s.Pushes (s.cpu.regs.pc + 2) t ∧ t.cpu.regs.pc = s.bus.word s.cpu.regs.pc := by
  let op := Operation.call (condition.map .ofField)
  have hexecute := Instruction.execute_plain h (Instruction.action_call condition) rfl
  have hholds : (condition.map Cond.ofField).all (·.holds s.cpu.flags) = true := htaken
  have hbranches : op.branches s.cpu.flags = true := hholds
  have hcost : op.cost true = 24 := by
    cases condition <;> rfl
  rw [hbranches, hcost, result_call, if_pos hholds] at hexecute
  exact ⟨_, hexecute, .of_pushed rfl fun _ => rfl, rfl⟩

theorem execute_rst (h : s.bus.IsMapped) (n : Fin 8) :
    ∃ t, (Instruction.rst n).execute s = .ok 16 t ∧
      s.Pushes s.cpu.regs.pc t ∧ t.cpu.regs.pc = 8 * n.val.toUInt16 := by
  have hexecute := Instruction.execute_plain h (Instruction.action_rst n) rfl
  rw [result_rst] at hexecute
  exact ⟨_, hexecute, .of_pushed rfl fun _ => rfl, rfl⟩

theorem execute_ret (h : s.bus.IsMapped) {condition : Option (Fin 4)} (htaken : s.taken condition) :
    ∃ t, (Instruction.ret condition).execute s = .ok (if condition.isSome then 20 else 16) t ∧
      s.Pops t.cpu.regs.pc t := by
  let op := Operation.ret (condition.map .ofField)
  have hexecute := Instruction.execute_plain h (Instruction.action_ret condition) rfl
  have hholds : (condition.map Cond.ofField).all (·.holds s.cpu.flags) = true := htaken
  have hbranches : op.branches s.cpu.flags = true := hholds
  have hcost : op.cost true = if condition.isSome then 20 else 16 := by
    cases condition <;> rfl
  rw [hbranches, hcost, result_ret, if_pos hholds] at hexecute
  exact ⟨_, hexecute, .of_word rfl rfl rfl⟩

theorem execute_reti (h : s.bus.IsMapped) :
    ∃ t, Instruction.reti.execute s = .ok 16 t ∧ s.Pops t.cpu.regs.pc t :=
  ⟨_, Instruction.execute_reti (h.readWord s.cpu.regs.sp), .of_word rfl rfl rfl⟩

theorem stackLayout (h : s.bus.IsMapped) : s.StackLayout where
  push p := ⟨_, (Exec.quiet_execute _).ok (execute_push h p #[]), s.pushes_pushing p⟩
  call _ htaken := execute_call h htaken
  rst n := execute_rst h n
  dispatch i hserves := ⟨_, step_served hserves h, .of_pushed rfl fun _ => rfl, rfl⟩
  pop p := by
    refine ⟨_, _, (Exec.quiet_execute _).ok (execute_pop h p #[]), s.pops_popping p, ?_⟩
    exact (Registers.pair_setWord _ p p _).trans (if_pos rfl)
  ret _ htaken := execute_ret h htaken
  reti := execute_reti h

end Machine

end GameBoy
