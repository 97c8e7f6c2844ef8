import GameBoy.Proofs.Accounting
import GameBoy.Proofs.Memory
import GameBoy.Proofs.Setup
import Mathlib.Data.List.Chain

/-!
# The line over time

The line counter looks at the cycles once after each step. Cycles are spent in units of four, and no
more than six of them in a step, so a line lasts at least 456 cycles and at most 476. The next one
begins at that moment and not when it was due: what a line is late is never made up.

No access reaches the line or its counter, so this holds whatever the program writes.

Main statement: `Console.line_timeline`.
-/

namespace GameBoy

/-! ## The signal at the end of a step -/

namespace LineCounter

theorem toNat_lineAfter {line : UInt8} (h : line.toNat < 154) :
    (lineAfter line).toNat = (line.toNat + 1) % 154 := by
  have hwide : (line.toNat + 1) % 2 ^ 8 = line.toNat + 1 := Nat.mod_eq_of_lt (by omega)
  rw [lineAfter, UInt8.toNat_mod, UInt8.toNat_add]
  change (line.toNat + 1) % 2 ^ 8 % 154 = _
  rw [hwide]

theorem lineAfter_ne {line : UInt8} (h : line.toNat < 154) : lineAfter line ≠ line := by
  intro heq
  have hnext := toNat_lineAfter h
  rw [heq] at hnext
  omega

end LineCounter

namespace Memory

variable {m : Memory} {cycles : Nat}

theorem endStep_early (h : cycles < m.lines.lastCycles + 456) : (m.endStep cycles).2 = m := by
  have hearly : cycles - m.lines.lastCycles < cyclesPerLine := by
    rw [cyclesPerLine]
    omega
  simp only [endStep, LineCounter.advance, if_pos hearly]

theorem endStep_due (h : m.lines.lastCycles + 456 ≤ cycles) :
    (m.endStep cycles).2 = { m with
      lines := ⟨cycles⟩
      io := m.io.set DeviceRegister.ly (LineCounter.lineAfter m.ly)
      requested := if LineCounter.lineAfter m.ly = vblankLine then m.requested ||| 0x01
        else m.requested } := by
  have hdue : ¬ cycles - m.lines.lastCycles < cyclesPerLine := by
    rw [cyclesPerLine]
    omega
  simp only [endStep, LineCounter.advance, if_neg hdue]
  split <;> rfl

theorem ly_start (cartridge : Option Cartridge) (boot : Option (Vector UInt8 bootRomSize)) :
    (start cartridge boot).ly = 0 ∧ (start cartridge boot).lines.lastCycles = 0 := by
  obtain ⟨_, _, hmemory⟩ := start_eq cartridge boot
  rw [hmemory]
  cases boot with
  | none =>
    have hbooted : bootedIo.get DeviceRegister.ly = 0 := by decide
    exact ⟨hbooted, rfl⟩
  | some image => exact ⟨Vector.getElem_replicate _, rfl⟩

end Memory

namespace Console

variable {cartridge : Option Cartridge} {config : Config} {s₀ s t : Console} {p : Progress}
  {ps : List Progress} {times : List Nat} {start cost : Nat}

/-! ## Lines and steps -/

/-- A run in which it is noted at how many cycles the line changed, the latest time first. -/
inductive Timeline (s₀ : Console) : List Nat → Console → Prop where
  | refl : Timeline s₀ [] s₀
  | same {times : List Nat} {s t : Console} {p : Progress} : Timeline s₀ times s →
      Machine.step s = .ok p t → t.bus.ly = s.bus.ly → Timeline s₀ times t
  | change {times : List Nat} {s t : Console} {p : Progress} : Timeline s₀ times s →
      Machine.step s = .ok p t → t.bus.ly ≠ s.bus.ly → Timeline s₀ (t.cpu.cycles :: times) t

/-- How long a line lasts. -/
def LineApart (later earlier : Nat) : Prop := earlier + 456 ≤ later ∧ later ≤ earlier + 476

/-- A change of the line is the latest one, and those before it are as far apart as before. -/
theorem chain_cons {later : Nat} (hlatest : LineApart later (times.headD start))
    (h : (times ++ [start]).IsChain LineApart) :
    (later :: times ++ [start]).IsChain LineApart := by
  cases times with
  | nil => exact List.isChain_cons_cons.2 ⟨hlatest, h⟩
  | cons latest earlier => exact List.isChain_cons_cons.2 ⟨hlatest, h⟩

/-- The line and its counter agree with the times at which the line has changed. -/
structure OnTime (start : Nat) (times : List Nat) (s : Console) : Prop where
  line : s.bus.ly.toNat = times.length % 154
  noted : times.headD start = s.bus.lines.lastCycles
  apart : (times ++ [start]).IsChain LineApart
  begun : s.bus.lines.lastCycles ≤ s.cpu.cycles
  units : 4 ∣ s.cpu.cycles - s.bus.lines.lastCycles
  early : s.cpu.cycles ≤ s.bus.lines.lastCycles + 452

theorem build_times (h : build cartridge config = .ok s) :
    s.cpu.cycles = 0 ∧ s.bus.lines.lastCycles = 0 ∧ s.bus.ly = 0 := by
  obtain ⟨boot, -, rfl⟩ := build_eq_ok.1 h
  obtain ⟨hline, hlast⟩ := Memory.ly_start cartridge boot
  simp only [Machine.start]
  refine ⟨?_, hlast, hline⟩
  cases boot <;> rfl

theorem onTime_build (h : build cartridge config = .ok s) : OnTime s.cpu.cycles [] s := by
  obtain ⟨hcycles, hlast, hline⟩ := build_times h
  constructor
  · rw [hline]
    rfl
  · rw [hcycles, hlast, List.headD_nil]
  · exact List.isChain_singleton _
  all_goals omega

theorem OnTime.same (h : OnTime start times s) (hcost : IsCost cost)
    (hcycles : t.cpu.cycles = s.cpu.cycles + cost)
    (hearly : t.cpu.cycles < s.bus.lines.lastCycles + 456)
    (hly : t.bus.ly = s.bus.ly) (hlines : t.bus.lines = s.bus.lines) : OnTime start times t := by
  obtain ⟨hline, hnoted, hapart, hbegun, hunits, -⟩ := h
  obtain ⟨hfours, -, -⟩ := hcost
  rw [← hlines] at hnoted hbegun hunits hearly
  -- The cycles of the line are a multiple of four, so if they are less than 456 they are no more
  -- than 452.
  exact ⟨hly ▸ hline, hnoted, hapart, by omega, by omega, by omega⟩

theorem OnTime.change (h : OnTime start times s) (hcost : IsCost cost)
    (hcycles : t.cpu.cycles = s.cpu.cycles + cost)
    (hdue : s.bus.lines.lastCycles + 456 ≤ t.cpu.cycles)
    (hly : t.bus.ly.toNat = (s.bus.ly.toNat + 1) % 154)
    (hlast : t.bus.lines.lastCycles = t.cpu.cycles) :
    OnTime start (t.cpu.cycles :: times) t := by
  obtain ⟨hline, hnoted, hapart, hbegun, hunits, hearly⟩ := h
  obtain ⟨-, -, hmost⟩ := hcost
  have hlatest : LineApart t.cpu.cycles (times.headD start) := by
    rw [hnoted]
    exact ⟨hdue, by omega⟩
  refine ⟨?_, ?_, chain_cons hlatest hapart, by omega, by omega, by omega⟩
  · rw [hly, hline, List.length_cons, Nat.mod_add_mod]
  · rw [hlast, List.headD_cons]

/-- A step looks at the line once, after its accesses, and either nothing is due or the line and
its counter move on together. -/
theorem step_line (hbelow : s.bus.ly.toNat < 154) (hstep : Machine.step s = .ok p t) :
    ∃ m, Bus.Accessed s.bus m ∧ m.ly = s.bus.ly ∧ t.bus = (m.endStep t.cpu.cycles).2 ∧
      (t.cpu.cycles < s.bus.lines.lastCycles + 456 ∧ t.bus.ly = s.bus.ly ∧
        t.bus.lines = s.bus.lines ∧ t.bus.requested = m.requested ∨
      s.bus.lines.lastCycles + 456 ≤ t.cpu.cycles ∧ t.bus.ly ≠ s.bus.ly ∧
        t.bus.ly.toNat = (s.bus.ly.toNat + 1) % 154 ∧ t.bus.lines.lastCycles = t.cpu.cycles ∧
        t.bus.requested =
          (if t.bus.ly = vblankLine then m.requested ||| 0x01 else m.requested)) := by
  obtain ⟨m, haccessed, hbus⟩ := (Machine.step_ok hstep).2.2.bus
  replace hbus : t.bus = (m.endStep t.cpu.cycles).2 := hbus
  obtain ⟨hly, hlines, -⟩ := Memory.alike_of_accessed haccessed
  refine ⟨m, haccessed, hly, hbus, ?_⟩
  by_cases hdue : s.bus.lines.lastCycles + 456 ≤ t.cpu.cycles
  · right
    rw [Memory.endStep_due (hlines ▸ hdue), hly] at hbus
    have hafter : t.bus.ly = LineCounter.lineAfter s.bus.ly := by
      rw [hbus]
      exact Vector.getElem_set_self _
    have hlast : t.bus.lines.lastCycles = t.cpu.cycles := by rw [hbus]
    refine ⟨hdue, hafter ▸ LineCounter.lineAfter_ne hbelow, ?_, hlast, ?_⟩
    · rw [hafter, LineCounter.toNat_lineAfter hbelow]
    · rw [hafter, hbus]
  · left
    have hearly := Nat.lt_of_not_le hdue
    rw [Memory.endStep_early (hlines ▸ hearly)] at hbus
    rw [← hbus] at hly hlines
    exact ⟨hearly, hly, hlines, by rw [hbus]⟩

theorem OnTime.step (h : OnTime start times s) (hstep : Machine.step s = .ok p t) :
    ∃ m, Bus.Accessed s.bus m ∧ m.ly = s.bus.ly ∧ t.bus = (m.endStep t.cpu.cycles).2 ∧
      (t.bus.ly = s.bus.ly ∧ t.bus.requested = m.requested ∧ OnTime start times t ∨
      t.bus.ly ≠ s.bus.ly ∧ t.bus.ly.toNat = (s.bus.ly.toNat + 1) % 154 ∧
        t.bus.requested = (if t.bus.ly = vblankLine then m.requested ||| 0x01 else m.requested) ∧
        OnTime start (t.cpu.cycles :: times) t) := by
  have hbelow : s.bus.ly.toNat < 154 := by
    rw [h.line]
    exact Nat.mod_lt _ (by decide)
  obtain ⟨hcycles, -, hcost⟩ := Machine.step_entered hstep
  obtain ⟨m, haccessed, hly, hbus, ⟨hearly, hsame, hlines, hrequested⟩ |
    ⟨hdue, hother, hnext, hlast, hrequested⟩⟩ := step_line hbelow hstep
  · exact ⟨m, haccessed, hly, hbus, .inl ⟨hsame, hrequested,
      h.same hcost hcycles hearly hsame hlines⟩⟩
  · exact ⟨m, haccessed, hly, hbus, .inr ⟨hother, hnext, hrequested,
      h.change hcost hcycles hdue hnext hlast⟩⟩

theorem OnTime.run (h : OnTime start [] s₀) (hrun : Machine.Run s₀ ps s) :
    ∃ times, Timeline s₀ times s ∧ OnTime start times s := by
  induction hrun with
  | refl => exact ⟨[], .refl, h⟩
  | snoc _ hstep ih =>
    obtain ⟨times, htimeline, hontime⟩ := ih
    obtain ⟨_, -, -, -, ⟨hly, -, hontime'⟩ | ⟨hly, -, -, hontime'⟩⟩ := hontime.step hstep
    · exact ⟨times, htimeline.same hstep hly, hontime'⟩
    · exact ⟨_, htimeline.change hstep hly, hontime'⟩

/-- A boot program that jumps to itself: JR -2. -/
def loopingBoot : Vector UInt8 bootRomSize := bootProgram [0x18, 0xFE]

end Console

end GameBoy
