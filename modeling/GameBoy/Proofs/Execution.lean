import GameBoy.Cpu.Step

/-!
# Laws of executions

An execution is a computation that may fail and keeps its state either way. This module says what
each basic action does to a machine, so that no later proof opens the actions themselves, and how
the outcome of a sequence splits into the outcomes of its parts.
-/

namespace GameBoy

variable {β α γ : Type}

namespace Exec

/-! ## Sequences -/

section

variable {ε σ : Type} {x : EStateM ε σ α} {f : α → EStateM ε σ γ} {s t : σ} {e : ε} {c : γ}

theorem bind_apply (x : EStateM ε σ α) (f : α → EStateM ε σ γ) (s : σ) :
    (x >>= f) s = match x s with
      | .ok a t => f a t
      | .error e t => .error e t := by
  cases h : x s <;> simp only [bind, EStateM.bind, h]

@[simp] theorem map_apply (f : α → γ) (x : EStateM ε σ α) (s : σ) :
    (f <$> x) s = match x s with
      | .ok a t => .ok (f a) t
      | .error e t => .error e t := by
  cases h : x s <;> simp only [Functor.map, EStateM.map, h]

@[simp] theorem pure_apply (a : α) (s : σ) : (pure a : EStateM ε σ α) s = .ok a s := rfl

theorem bind_eq_ok : (x >>= f) s = .ok c t ↔ ∃ a u, x s = .ok a u ∧ f a u = .ok c t := by
  rw [bind_apply]
  cases x s <;> simp [and_assoc]

theorem bind_eq_error :
    (x >>= f) s = .error e t ↔
      x s = .error e t ∨ ∃ a u, x s = .ok a u ∧ f a u = .error e t := by
  rw [bind_apply]
  cases x s <;> simp [and_assoc]

end

/-! ## The processor -/

@[simp] theorem getCpu_apply (s : Machine β) : getCpu s = .ok s.cpu s := rfl

@[simp] theorem modifyCpu_apply (f : Cpu → Cpu) (s : Machine β) :
    modifyCpu f s = .ok () { s with cpu := f s.cpu } := rfl

@[simp] theorem getRegs_apply (s : Machine β) : getRegs s = .ok s.cpu.regs s := rfl

@[simp] theorem modifyRegs_apply (f : Registers → Registers) (s : Machine β) :
    modifyRegs f s = .ok () { s with cpu := { s.cpu with regs := f s.cpu.regs } } := rfl

@[simp] theorem getFlags_apply (s : Machine β) : getFlags s = .ok s.cpu.flags s := rfl

/-! ## The bus -/

theorem access_apply (x : EStateM BusError β α) (fault : BusError → Fault) (s : Machine β) :
    access x fault s = match x s.bus with
      | .ok a b => .ok a { s with bus := b }
      | .error e b => .error (fault e) { s with bus := b } := rfl

theorem access_eq_ok {x : EStateM BusError β α} {fault : BusError → Fault} {s t : Machine β}
    {a : α} : access x fault s = .ok a t ↔ ∃ b, x s.bus = .ok a b ∧ t = { s with bus := b } := by
  rw [access_apply]
  cases x s.bus <;> simp [and_assoc, eq_comm]

theorem access_eq_error {x : EStateM BusError β α} {fault : BusError → Fault} {s t : Machine β}
    {e : Fault} : access x fault s = .error e t ↔
      ∃ error b, x s.bus = .error error b ∧ e = fault error ∧ t = { s with bus := b } := by
  rw [access_apply]
  cases x s.bus <;> simp [and_assoc, eq_comm]

theorem access_pure (a : α) (fault : BusError → Fault) :
    (access (pure a) fault : Exec β α) = pure a := rfl

theorem access_bind (x : EStateM BusError β α) (f : α → EStateM BusError β γ)
    (fault : BusError → Fault) :
    access (x >>= f) fault = access x fault >>= fun a => access (f a) fault := by
  funext s
  simp only [access_apply, bind_apply]
  cases x s.bus <;> rfl

section

variable [Bus β] {s t : Machine β} {e : Fault}

theorem readWord_eq_ok {a w : UInt16} :
    readWord a s = .ok w t ↔ ∃ b, Bus.readWord a s.bus = .ok w b ∧ t = { s with bus := b } :=
  access_eq_ok

theorem write_apply (a : UInt16) (v : UInt8) (s : Machine β) :
    write a v s = match Bus.write a v s.bus with
      | .ok notice b => .ok () { s with bus := b, journal := s.journal.note notice }
      | .error e b => .error (.bus e) { s with bus := b } := rfl

theorem write_eq_ok {a : UInt16} {v : UInt8} {u : Unit} :
    write a v s = .ok u t ↔ ∃ notice b, Bus.write a v s.bus = .ok notice b ∧
      t = { s with bus := b, journal := s.journal.note notice } := by
  rw [write_apply]
  cases Bus.write a v s.bus <;> simp [and_assoc, eq_comm]

theorem write_eq_error {a : UInt16} {v : UInt8} :
    write a v s = .error e t ↔ ∃ error b, Bus.write a v s.bus = .error error b ∧
      e = .bus error ∧ t = { s with bus := b } := by
  rw [write_apply]
  cases Bus.write a v s.bus <;> simp [and_assoc, eq_comm]

end

end Exec

/-! ## Fetching -/

/-- The processor with the program counter moved over `n` bytes. -/
def Cpu.skip (cpu : Cpu) (n : UInt16) : Cpu :=
  { cpu with regs := { cpu.regs with pc := cpu.regs.pc + n } }

/-- The processor with the stack pointer moved down over `n` bytes. -/
def Cpu.drop (cpu : Cpu) (n : UInt16) : Cpu :=
  { cpu with regs := { cpu.regs with sp := cpu.regs.sp - n } }

namespace Cpu

variable (cpu : Cpu) (n : UInt16)

@[simp] theorem pc_skip : (cpu.skip n).regs.pc = cpu.regs.pc + n := rfl

@[simp] theorem sp_skip : (cpu.skip n).regs.sp = cpu.regs.sp := rfl

@[simp] theorem hl_skip : (cpu.skip n).regs.hl = cpu.regs.hl := rfl

@[simp] theorem flags_skip : (cpu.skip n).regs.flags = cpu.regs.flags := rfl

@[simp] theorem byte_skip (r : Reg8) : (cpu.skip n).regs.byte r = cpu.regs.byte r := by
  cases r <;> rfl

@[simp] theorem skip_zero : cpu.skip 0 = cpu := by simp [skip]

theorem skip_skip (m : UInt16) : (cpu.skip n).skip m = cpu.skip (n + m) := by
  simp [skip, UInt16.add_assoc]

@[simp] theorem flags_drop : (cpu.drop n).regs.flags = cpu.regs.flags := rfl

@[simp] theorem drop_zero : cpu.drop 0 = cpu := by simp [drop]

end Cpu

namespace Exec

@[simp] theorem skip_apply (n : UInt16) (s : Machine β) :
    skip n s = .ok () { s with cpu := s.cpu.skip n } := rfl

variable [Bus β] {s t : Machine β} {e : Fault}

theorem fetchOpcode_eq_ok {v : UInt8} :
    fetchOpcode s = .ok v t ↔ ∃ b, Bus.read s.cpu.regs.pc s.bus = .ok v b ∧
      t = { s with cpu := s.cpu.skip 1, bus := b } := by
  simp only [fetchOpcode, bind_apply, getRegs_apply, access_apply]
  cases Bus.read s.cpu.regs.pc s.bus <;> simp [and_assoc, eq_comm]

theorem fetchOpcode_eq_error :
    fetchOpcode s = .error e t ↔ ∃ error b, Bus.read s.cpu.regs.pc s.bus = .error error b ∧
      e = .endOfProgram ∧ t = { s with bus := b } := by
  simp only [fetchOpcode, bind_apply, getRegs_apply, access_apply]
  cases Bus.read s.cpu.regs.pc s.bus <;> simp [and_assoc, eq_comm]

theorem fetchByte_eq_ok {v : UInt8} :
    fetchByte s = .ok v t ↔ ∃ b, Bus.read s.cpu.regs.pc s.bus = .ok v b ∧
      t = { s with cpu := s.cpu.skip 1, bus := b } := by
  simp only [fetchByte, read, bind_apply, getRegs_apply, access_apply]
  cases Bus.read s.cpu.regs.pc s.bus <;> simp [and_assoc, eq_comm]

theorem fetchWord_eq_ok {w : UInt16} :
    fetchWord s = .ok w t ↔ ∃ b, Bus.readWord s.cpu.regs.pc s.bus = .ok w b ∧
      t = { s with cpu := s.cpu.skip 2, bus := b } := by
  simp only [fetchWord, readWord, bind_apply, getRegs_apply, access_apply]
  cases Bus.readWord s.cpu.regs.pc s.bus <;> simp [and_assoc, eq_comm]

/-! ## The stack -/

theorem pushByte_eq_ok {v : UInt8} {u : Unit} :
    pushByte v s = .ok u t ↔ ∃ notice b, Bus.write (s.cpu.regs.sp - 1) v s.bus = .ok notice b ∧
      t = { s with cpu := s.cpu.drop 1, bus := b, journal := s.journal.note notice } := by
  simp only [pushByte, bind_apply, modifyRegs_apply, getRegs_apply, write_apply]
  cases Bus.write (s.cpu.regs.sp - 1) v s.bus <;> simp [and_assoc, eq_comm, Cpu.drop]

theorem pushByte_eq_error {v : UInt8} :
    pushByte v s = .error e t ↔ ∃ error b, Bus.write (s.cpu.regs.sp - 1) v s.bus = .error error b ∧
      e = .bus error ∧ t = { s with cpu := s.cpu.drop 1, bus := b } := by
  simp only [pushByte, bind_apply, modifyRegs_apply, getRegs_apply, write_apply]
  cases Bus.write (s.cpu.regs.sp - 1) v s.bus <;> simp [and_assoc, eq_comm, Cpu.drop]

theorem push_eq_ok {w : UInt16} {u : Unit} :
    push w s = .ok u t ↔ ∃ notice b notice' b',
      Bus.write (s.cpu.regs.sp - 1) (Word.high w) s.bus = .ok notice b ∧
      Bus.write (s.cpu.regs.sp - 2) (Word.low w) b = .ok notice' b' ∧
      t = { s with
        cpu := s.cpu.drop 2
        bus := b'
        journal := (s.journal.note notice).note notice' } := by
  have hsp : s.cpu.regs.sp - 1 - 1 = s.cpu.regs.sp - 2 := by grind
  simp only [push, bind_eq_ok, pushByte_eq_ok]
  constructor
  · rintro ⟨⟨⟩, _, ⟨notice, b, hhigh, rfl⟩, notice', b', hlow, rfl⟩
    exact ⟨notice, b, notice', b', hhigh, hsp ▸ hlow, by simp [Cpu.drop, hsp]⟩
  · rintro ⟨notice, b, notice', b', hhigh, hlow, rfl⟩
    exact ⟨(), _, ⟨notice, b, hhigh, rfl⟩, notice', b', by simpa [Cpu.drop, hsp] using hlow,
      by simp [Cpu.drop, hsp]⟩

theorem push_eq_error {w : UInt16} :
    push w s = .error e t ↔
      (∃ error b, Bus.write (s.cpu.regs.sp - 1) (Word.high w) s.bus = .error error b ∧
        e = .bus error ∧ t = { s with cpu := s.cpu.drop 1, bus := b }) ∨
      ∃ notice b error b',
        Bus.write (s.cpu.regs.sp - 1) (Word.high w) s.bus = .ok notice b ∧
        Bus.write (s.cpu.regs.sp - 2) (Word.low w) b = .error error b' ∧
        e = .bus error ∧
        t = { s with cpu := s.cpu.drop 2, bus := b', journal := s.journal.note notice } := by
  have hsp : s.cpu.regs.sp - 1 - 1 = s.cpu.regs.sp - 2 := by grind
  simp only [push, bind_eq_error, pushByte_eq_error, pushByte_eq_ok]
  constructor
  · rintro (hhigh | ⟨⟨⟩, _, ⟨notice, b, hhigh, rfl⟩, error, b', hlow, rfl, rfl⟩)
    · exact .inl hhigh
    · exact .inr ⟨notice, b, error, b', hhigh, hsp ▸ hlow, rfl, by simp [Cpu.drop, hsp]⟩
  · rintro (hhigh | ⟨notice, b, error, b', hhigh, hlow, rfl, rfl⟩)
    · exact .inl hhigh
    · exact .inr ⟨(), _, ⟨notice, b, hhigh, rfl⟩, error, b',
        by simpa [Cpu.drop, hsp] using hlow, rfl, by simp [Cpu.drop, hsp]⟩

theorem pop_apply (s : Machine β) :
    pop s = match Bus.readWord s.cpu.regs.sp s.bus with
      | .ok w b => .ok w { s with
          cpu := { s.cpu with regs := { s.cpu.regs with sp := s.cpu.regs.sp + 2 } }
          bus := b }
      | .error e b => .error (.bus e) { s with bus := b } := by
  simp only [pop, readWord, bind_apply, getRegs_apply, access_apply]
  cases Bus.readWord s.cpu.regs.sp s.bus <;> rfl

end Exec

end GameBoy
