import GameBoy.Bus.Flat
import GameBoy.Proofs.Watch

/-!
# Flat memory that is mapped everywhere

On flat memory without holes no access fails, so going through the phases of an instruction is a
function: what is fetched and loaded are bytes of the memory, and what is stored changes one or two
of them. The same function says what passes over the bus meanwhile.

Main statements: `Phases.run_watched` and `Instruction.execute_mapped`.
-/

namespace GameBoy

namespace FlatBus

/-- Every address can be read and written. -/
structure IsMapped (bus : FlatBus) : Prop where
  readable : ∀ a, bus.readable a = true
  writable : ∀ a, bus.writable a = true

/-- The bus after a word was pushed under the stack pointer `sp`. -/
def pushed (bus : FlatBus) (sp w : UInt16) : FlatBus :=
  (bus.store (sp - 1) (Word.high w)).store (sp - 2) (Word.low w)

/-- The word at an address, low byte first. -/
def word (bus : FlatBus) (a : UInt16) : UInt16 := Word.ofBytes (bus.byte (a + 1)) (bus.byte a)

/-- The given number of bytes at an address, at most two, as a word. -/
def span (bus : FlatBus) (a : UInt16) : Nat → UInt16
  | 0 => 0
  | 1 => (bus.byte a).toUInt16
  | _ => bus.word a

/-- The bus after a store, with the stack pointer at `sp`. -/
def put (bus : FlatBus) (sp : UInt16) : Store → FlatBus
  | .none => bus
  | .byte a v => bus.store a v
  | .word a w => (bus.store a (Word.low w)).store (a + 1) (Word.high w)
  | .push w => bus.pushed sp w

variable {bus : FlatBus} (a sp w : UInt16) (v : UInt8)

/-! ## Single accesses -/

theorem IsMapped.read (h : bus.IsMapped) : Bus.read a bus = .ok (bus.byte a) bus :=
  if_pos (h.readable a)

theorem IsMapped.write (h : bus.IsMapped) : Bus.write a v bus = .ok none (bus.store a v) :=
  if_pos (h.writable a)

theorem IsMapped.store (h : bus.IsMapped) : (bus.store a v).IsMapped := ⟨h.readable, h.writable⟩

theorem IsMapped.acknowledge (h : bus.IsMapped) (line : Fin 8) :
    (Bus.acknowledge bus line).IsMapped := ⟨h.readable, h.writable⟩

theorem IsMapped.pushed (h : bus.IsMapped) : (bus.pushed sp w).IsMapped :=
  (h.store _ _).store _ _

/-- A store changes the memory and nothing else of the bus. -/
theorem put_frame (sp : UInt16) (store : Store) :
    bus.put sp store = { bus with memory := (bus.put sp store).memory } := by
  cases store <;> rfl

/-! ## The stack -/

theorem byte_pushed : (bus.pushed sp w).byte a =
    if a = sp - 1 then Word.high w else if a = sp - 2 then Word.low w else bus.byte a := by
  have hne : sp - 1 ≠ sp - 2 := by grind
  rw [FlatBus.pushed, byte_store, byte_store]
  by_cases hlow : a = sp - 2
  · rw [if_pos hlow, if_neg (hlow ▸ hne.symm), if_pos hlow]
  · rw [if_neg hlow, if_neg hlow]

/-- A word that was pushed lies on the stack. -/
theorem word_pushed : (bus.pushed sp w).word (sp - 2) = w := by
  have hnext : sp - 2 + 1 = sp - 1 := by grind
  have hne : sp - 2 ≠ sp - 1 := by grind
  rw [word, byte_pushed, byte_pushed, if_pos hnext, if_neg hne, if_pos rfl, Word.ofBytes_high_low]

theorem IsMapped.readWord (h : bus.IsMapped) : Bus.readWord a bus = .ok (bus.word a) bus := by
  simp only [Bus.readWord, Exec.bind_apply, h.read, Exec.pure_apply]
  rfl

/-- A word that was pushed can be popped. -/
theorem readWord_pushed (h : bus.IsMapped) :
    Bus.readWord (sp - 2) (bus.pushed sp w) = .ok w (bus.pushed sp w) := by
  rw [(h.pushed sp w).readWord, word_pushed]

theorem push_apply {s : Machine FlatBus} (h : s.bus.IsMapped) :
    Exec.push w s = .ok () { s with
      cpu := s.cpu.drop 2
      bus := s.bus.pushed s.cpu.regs.sp w } :=
  Exec.push_eq_ok.2 ⟨none, _, none, _, h.write _ _, (h.store _ _).write _ _, rfl⟩

/-! ## What a monitor sees -/

/-- The events of reading the given number of bytes. -/
def spanTraffic (bus : FlatBus) (a : UInt16) : Nat → Array Traffic
  | 0 => #[]
  | 1 => #[.read a (bus.byte a)]
  | _ => #[.read a (bus.byte a), .read (a + 1) (bus.byte (a + 1))]

variable (traffic : Array Traffic)

theorem IsMapped.read_watched (h : bus.IsMapped) :
    Bus.read a (⟨bus, traffic⟩ : Monitored FlatBus) =
      .ok (bus.byte a) ⟨bus, traffic.push (.read a (bus.byte a))⟩ := by
  rw [Monitored.read_apply, h.read]

theorem IsMapped.readSpan_watched (h : bus.IsMapped) (n : Nat) :
    Bus.readSpan a n (⟨bus, traffic⟩ : Monitored FlatBus) =
      .ok (bus.span a n) ⟨bus, traffic ++ bus.spanTraffic a n⟩ := by
  match n with
  | 0 =>
    simp only [spanTraffic, Array.append_empty]
    rfl
  | 1 =>
    simp only [Bus.readSpan, Exec.bind_apply, h.read_watched, Exec.pure_apply]
    rfl
  | _ + 2 =>
    simp only [Bus.readSpan, Bus.readWord, Exec.bind_apply, h.read_watched, Exec.pure_apply]
    rfl

end FlatBus

/-- The events of a store, with the stack pointer at `sp`. -/
def Store.traffic (sp : UInt16) : Store → Array Traffic
  | none => #[]
  | byte a v => #[.wrote a v]
  | word a w => #[.wrote a (Word.low w), .wrote (a + 1) (Word.high w)]
  | push w => #[.wrote (sp - 1) (Word.high w), .wrote (sp - 2) (Word.low w)]

namespace FlatBus.IsMapped

variable {s : Machine FlatBus} (h : s.bus.IsMapped) (traffic : Array Traffic)

include h

theorem write_watched (a : UInt16) (v : UInt8) :
    Exec.write a v (s.watch traffic) = .ok ()
      (({ s with bus := s.bus.store a v } : Machine FlatBus).watch
        (traffic.push (.wrote a v))) := by
  have hwrite : Bus.write a v (⟨s.bus, traffic⟩ : Monitored FlatBus) = _ :=
    Monitored.write_ok (h.write a v)
  rw [Exec.write_apply]
  simp only [Machine.watch, hwrite]
  rfl

/-- On memory that is mapped everywhere a store succeeds. -/
theorem perform_watched (store : Store) :
    store.perform (s.watch traffic) = .ok ()
      (({ s with cpu := s.cpu.drop store.pushed, bus := s.bus.put s.cpu.regs.sp store } :
        Machine FlatBus).watch (traffic ++ store.traffic s.cpu.regs.sp)) := by
  cases store with
  | none => simp [Store.perform, Store.pushed, Store.traffic, put]
  | byte a v =>
    simp only [Store.perform, h.write_watched, Store.pushed, Cpu.drop_zero]
    rfl
  | word a w =>
    have hlow : (s.bus.store a (Word.low w)).IsMapped := h.store a _
    have hhigh := write_watched (s := { s with bus := s.bus.store a (Word.low w) }) hlow
    simp only [Store.perform, Exec.bind_apply, h.write_watched, hhigh, Store.pushed, Cpu.drop_zero]
    rfl
  | push w =>
    have hfirst : Bus.write (s.cpu.regs.sp - 1) (Word.high w) (⟨s.bus, traffic⟩ :
        Monitored FlatBus) = _ := Monitored.write_ok (h.write _ _)
    have hsecond (seen : Array Traffic) : Bus.write (s.cpu.regs.sp - 2) (Word.low w)
        (⟨s.bus.store (s.cpu.regs.sp - 1) (Word.high w), seen⟩ : Monitored FlatBus) = _ :=
      Monitored.write_ok ((h.store _ _).write _ _)
    exact Exec.push_eq_ok.2 ⟨none, _, none, _, hfirst, hsecond _, rfl⟩

end FlatBus.IsMapped

/-! ## Phases as a function -/

namespace Phases

variable (p : Phases) (s : Machine FlatBus)

/-- What is fetched after the opcode. -/
def fetched : UInt16 := s.bus.span s.cpu.regs.pc p.length

/-- The processor once that has been fetched. -/
def arrived : Cpu := s.cpu.skip p.length.toUInt16

/-- What is read from memory. -/
def loading : Load := p.load (p.arrived s).regs (p.fetched s)

def loaded : UInt16 := s.bus.span (p.loading s).address (p.loading s).length

/-- What is written to memory. -/
def storing : Store := p.store (p.arrived s).regs (p.fetched s) (p.loaded s)

/-- The machine after all phases. -/
def result : Machine FlatBus :=
  { s with
    cpu := p.commit (p.fetched s) (p.loaded s) ((p.arrived s).drop (p.storing s).pushed)
    bus := s.bus.put s.cpu.regs.sp (p.storing s) }

/-- The events of all phases. -/
def traffic : Array Traffic :=
  s.bus.spanTraffic s.cpu.regs.pc p.length ++
    s.bus.spanTraffic (p.loading s).address (p.loading s).length ++
    (p.storing s).traffic s.cpu.regs.sp

variable {s}

/-- Phases that store nothing leave the memory alone. -/
theorem result_unstored (h : p.storing s = .none) : p.result s =
    { s with cpu := p.commit (p.fetched s) (p.loaded s) (p.arrived s) } := by
  simp only [result, h, Store.pushed, Cpu.drop_zero]
  rfl

theorem run_watched (h : s.bus.IsMapped) (seen : Array Traffic) :
    p.run (s.watch seen) = .ok () ((p.result s).watch (seen ++ p.traffic s)) := by
  have hfetch : Exec.fetchImmediate p.length (s.watch seen) = .ok (p.fetched s)
      (({ s with cpu := p.arrived s } : Machine FlatBus).watch
        (seen ++ s.bus.spanTraffic s.cpu.regs.pc p.length)) :=
    Exec.fetchImmediate_eq_ok.2 ⟨_, h.readSpan_watched s.cpu.regs.pc seen p.length, rfl⟩
  have hload (seen : Array Traffic) : (p.loading s).perform
      (({ s with cpu := p.arrived s } : Machine FlatBus).watch seen) = .ok (p.loaded s)
        (({ s with cpu := p.arrived s } : Machine FlatBus).watch
          (seen ++ s.bus.spanTraffic (p.loading s).address (p.loading s).length)) :=
    Load.perform_eq_ok.2 ⟨_, h.readSpan_watched (p.loading s).address seen _, rfl⟩
  have hstore (seen : Array Traffic) :=
    FlatBus.IsMapped.perform_watched (s := { s with cpu := p.arrived s }) h seen (p.storing s)
  refine Exec.bind_eq_ok.2 ⟨_, _, hfetch, Exec.bind_eq_ok.2 ⟨_, _, rfl, ?_⟩⟩
  refine Exec.bind_eq_ok.2 ⟨_, _, hload _, Exec.bind_eq_ok.2 ⟨_, _, hstore _, ?_⟩⟩
  rw [Exec.modifyCpu_apply, traffic, ← Array.append_assoc, ← Array.append_assoc]
  rfl

end Phases

/-! ## Instructions -/

/-- What an execution does under a monitor it does without. -/
theorem Exec.Watched.ok {α β : Type} {last : Cpu → Array Traffic} {x : Exec β α}
    {y : Exec (Monitored β) α} (h : Watched last x y) {s t : Machine β} {a : α}
    {before after : Array Traffic} (hy : y (s.watch before) = .ok a (t.watch after)) :
    x s = .ok a t := by
  obtain ⟨seen, -, hwatched⟩ := h s before
  rw [hwatched] at hy
  cases hx : x s with
  | error e u =>
    rw [hx] at hy
    cases hy
  | ok b u =>
    rw [hx] at hy
    obtain ⟨rfl, hmachine⟩ := EStateM.Result.ok.inj hy
    obtain ⟨_, _, _, _⟩ := t
    obtain ⟨rfl, hbus, rfl, rfl⟩ := Machine.mk.inj hmachine
    obtain ⟨rfl, -⟩ := Monitored.mk.inj hbus
    rfl

namespace Instruction

variable {s : Machine FlatBus} {i : Instruction}

theorem execute_watched (h : s.bus.IsMapped) (hi : i.action.isProper) (traffic : Array Traffic) :
    i.execute (s.watch traffic) = .ok (i.cost (i.branches s.cpu.flags))
      ((i.phases.result s).watch (traffic ++ i.phases.traffic s)) := by
  rw [execute_eq hi]
  refine Exec.bind_eq_ok.2 ⟨_, _, rfl, ?_⟩
  exact Exec.bind_eq_ok.2 ⟨(), _, i.phases.run_watched h traffic, rfl⟩

/-- On memory that is mapped everywhere, executing an instruction comes down to a function. -/
theorem execute_mapped (h : s.bus.IsMapped) (hi : i.action.isProper) :
    i.execute s = .ok (i.cost (i.branches s.cpu.flags)) (i.phases.result s) :=
  (Exec.quiet_execute i).ok (execute_watched h hi #[])

end Instruction

end GameBoy
