import GameBoy.Proofs.Memory
import GameBoy.Proofs.Runs
import GameBoy.Proofs.Setup

/-!
# A console with a cartridge

With a cartridge every address is mapped, and no step and no write takes the cartridge out. So
nothing but an opcode without a meaning or the limit stops the processor, whatever the program does:
a run never ends well, and the boot program only by taking itself away.

Main statement: `Console.always_mapped`.
-/

namespace GameBoy

/-! ## Moves -/

/-- What is done to a machine from outside: a step is made, or a byte is written on its bus. -/
inductive Move where
  | step
  | write (address : UInt16) (value : UInt8)

namespace Machine

variable {β : Type} [Bus β]

/-- The machine after a move, successful or not. -/
def move (s : Machine β) : Move → Machine β
  | .step => s.next
  | .write address value =>
    match Exec.write address value s with
    | .ok _ t | .error _ t => t

def moves (s : Machine β) (ms : List Move) : Machine β := ms.foldl move s

end Machine

namespace Console

variable {config : Config} {s t : Console}

/-! ## What moves keep -/

/-- The faults that stop a console with a cartridge. -/
inductive Expected (config : Config) : Fault → Prop where
  | illegalOpcode (opcode : UInt8) (pc : UInt16) (meaningless : Action.ofOpcode opcode = .illegal) :
      Expected config (.illegalOpcode opcode pc)
  | stepLimit (n : Nat) (limit : config.stepLimit = some n) : Expected config (.stepLimit n)

/-- What holds of a console with a cartridge at any time. -/
structure Sound (config : Config) (s : Console) : Prop where
  inserted : s.bus.cartridge.isSome
  limited : s.cpu.fault = none → s.cpu.limit = config.stepLimit
  expected : ∀ e, s.cpu.fault = some e → Expected config e

theorem Expected.of_action {i : Instruction} (h : i.action = .illegal) (pc : UInt16) :
    Expected config (.illegalOpcode i.opcode pc) := by
  unfold Instruction.action at h
  split at h
  · cases h
  · exact .illegalOpcode _ _ h

theorem Sound.step_ok {p : Progress} (h : Sound config s) (hstep : Machine.step s = .ok p t) :
    Sound config t := by
  obtain ⟨hfault, -, hstepped⟩ := Machine.step_ok hstep
  obtain ⟨hnone, hlimit, -⟩ := Machine.step_frame hstep
  obtain ⟨m, haccessed, hbus⟩ := hstepped.bus
  refine ⟨?_, fun _ => hlimit.trans (h.limited hfault), ?_⟩
  · have hm := (Memory.alike_of_accessed haccessed).inserted
    have hend := Memory.cartridge_endStep m t.cpu.cycles
    rw [hbus]
    exact (congrArg Option.isSome hend).trans (hm.trans h.inserted)
  · intro e he
    rw [hnone] at he
    cases he

theorem Sound.step_error {e : Fault} (h : Sound config s) (hstep : Machine.step s = .error e t) :
    Sound config t := by
  cases hfault : s.cpu.fault with
  | some fault =>
    rw [Machine.step_stopped hfault] at hstep
    obtain ⟨-, rfl⟩ := EStateM.Result.error.inj hstep
    exact h
  | none =>
    obtain ⟨u, hstuck, rfl⟩ := Machine.step_error hfault hstep
    have hsound (hinserted : u.bus.cartridge.isSome) (he : Expected config e) :
        Sound config (u.stopWith e) := by
      constructor
      · exact hinserted
      · intro hnone
        cases hnone
      · intro e' he'
        obtain rfl := Option.some.inj he'
        exact he
    rcases hstuck.bus with
      ⟨n, rfl, hlimit, -, rfl⟩ | ⟨i, pc, hillegal, rfl, haccessed⟩ | ⟨error, -, hfailed⟩
    · exact hsound h.inserted (.stepLimit n ((h.limited hfault).symm.trans hlimit))
    · exact hsound ((Memory.alike_of_accessed haccessed).inserted.trans h.inserted)
        (.of_action hillegal pc)
    · exact absurd hfailed (Memory.not_failed h.inserted)

theorem Sound.next (h : Sound config s) : Sound config s.next := by
  cases hstep : Machine.step s with
  | ok p t =>
    rw [Machine.next_of_ok hstep]
    exact h.step_ok hstep
  | error e t =>
    rw [Machine.next_of_error hstep]
    exact h.step_error hstep

theorem Sound.move (h : Sound config s) (m : Move) : Sound config (s.move m) := by
  cases m with
  | step => exact h.next
  | write address v =>
    obtain ⟨notice, m, hwrite⟩ := Memory.write_isOk h.inserted address v
    have hresult : Exec.write address v s =
        .ok () { s with bus := m, journal := s.journal.note notice } :=
      Exec.write_eq_ok.2 ⟨notice, m, hwrite, rfl⟩
    rw [Machine.move, hresult]
    exact ⟨(Memory.write_alike hwrite).inserted.trans h.inserted, h.limited, h.expected⟩

theorem Sound.moves (h : Sound config s) (ms : List Move) : Sound config (s.moves ms) := by
  induction ms generalizing s with
  | nil => exact h
  | cons m ms ih => exact ih (h.move m)

/-- A console with a cartridge does not run off its map. -/
theorem Sound.fault_ne (h : Sound config s) : s.cpu.fault ≠ some .endOfProgram := by
  intro hfault
  cases h.expected _ hfault

/-! ## Consoles that are set up -/

theorem sound_build {cartridge : Cartridge} (h : build (some cartridge) config = .ok s) :
    Sound config s := by
  obtain ⟨boot, -, rfl⟩ := build_eq_ok.1 h
  obtain ⟨_, _, hmemory⟩ := Memory.start_eq (some cartridge) boot
  constructor
  · rw [Machine.start, hmemory]
    rfl
  · exact fun _ => rfl
  · intro e he
    cases boot <;> cases he

/-- A console is set up from any image that is accepted and any boot program of the right size, and
whatever is then done to it, every address can be read and written; the processor is stopped only by
an opcode without a meaning or the limit that was set; a run from there never ends well, and running
the boot program ends well only when it has taken itself away. -/
theorem always_mapped {rom : ByteArray} {cartridge : Cartridge}
    (hload : Cartridge.load rom = .ok cartridge)
    (hboot : ∀ image ∈ config.bootRom, image.size = bootRomSize) (journal : Journal) :
    ∃ console loaded, ofRom rom config journal = .ok console loaded ∧ ∀ ms : List Move,
      let s := console.moves ms
      (∀ address, ∃ v, Bus.read address s.bus = .ok v s.bus) ∧
      (∀ address v, ∃ notice m, Bus.write address v s.bus = .ok notice m) ∧
      (∀ e, s.cpu.fault = some e → Expected config e) ∧
      (∀ fuel, (s.run fuel).1 ≠ some (.ok ())) ∧
      ∀ fuel, (runBoot fuel s).1 = some (.ok ()) → (runBoot fuel s).2.bus.bootActive = false := by
  obtain ⟨console, hbuild⟩ := build_isOk (some cartridge) hboot
  refine ⟨console, _, ofRom_eq_ok hload hbuild, ?_⟩
  intro ms s
  have hsound : Sound config s := (sound_build hbuild).moves ms
  have hend (done : Console → Bool) (fuel : Nat)
      (h : (Machine.runUntil done fuel s).1 = some (.ok ())) :
      done (Machine.runUntil done fuel s).2 = true := by
    have hlast : Sound config (Machine.runUntil done fuel s).2 :=
      Machine.stepUntil_keeps (fun _ h => h.next) _ fuel hsound
    rcases Machine.runUntil_eq_ok h with hoff | ⟨-, hdone⟩
    · exact absurd hoff hlast.fault_ne
    · exact hdone
  refine ⟨?_, Memory.write_isOk hsound.inserted, hsound.expected, ?_, ?_⟩
  · intro address
    obtain ⟨v, hv⟩ := Memory.peek_isOk hsound.inserted address
    exact ⟨v, Memory.read_of_peek hv⟩
  · intro fuel hrun
    cases hend _ fuel hrun
  · intro fuel hrun
    simpa only [runBoot, Bool.not_eq_true'] using hend _ fuel hrun

/-- A console with two banks and no boot program: after a write and a step its run has not ended
well. -/
theorem always_mapped_two_banks : ∃ (rom : ByteArray) (c : Cartridge) (console : Console)
    (loaded : Journal), Cartridge.load rom = .ok c ∧
    ofRom rom ⟨none, some 3, false⟩ #[] = .ok console loaded ∧
    ∀ fuel, ((console.moves [.write 0x2000 1, .step]).run fuel).1 ≠ some (.ok ()) := by
  have hcode : Controller.ofCode 0x00 = .ok .mbc0 := rfl
  have hboot : ∀ image ∈ (⟨none, some 3, false⟩ : Config).bootRom, image.size = bootRomSize := by
    simp
  obtain ⟨c, hload, -, -⟩ := Cartridge.load_numbered (Nat.le_refl 2) hcode
  obtain ⟨console, loaded, hconsole, hmapped⟩ := always_mapped hload hboot #[]
  exact ⟨_, c, console, loaded, hload, hconsole, (hmapped [.write 0x2000 1, .step]).2.2.2.1⟩

end Console

end GameBoy
