import GameBoy.Proofs.Bits
import GameBoy.Proofs.History
import GameBoy.Proofs.Lines
import GameBoy.Proofs.Overlay

/-!
# Interrupt requests

Of what passes over the bus of a console, two things request an interrupt: a byte written to the
interrupt flags and, for the vertical blank, the signal that brings the display to line 144. Two
things withdraw a request: a byte written to the flags and the step that serves it. So no request is
lost, and none is served twice.

Main statement: `Console.interrupt_requests`.
-/

namespace GameBoy

/-! ## Lines -/

namespace Interrupt

variable {i j : Interrupt} {pending : UInt8}

theorem line_inj (h : i.line = j.line) : i = j := by
  cases i <;> cases j <;> cases h <;> rfl

theorem mem_all (i : Interrupt) : i ∈ all := by
  cases i <;> decide

theorem testBit_mask (v : UInt8) (i : Interrupt) :
    Byte.testBit (v &&& 0x1F) i.line = Byte.testBit v i.line := by
  have hmask : Byte.testBit 0x1F i.line = true := by
    cases i <;> rfl
  rw [Byte.testBit_and, hmask, Bool.and_true]

theorem testBit_vblank (v : UInt8) (i : Interrupt) :
    Byte.testBit (v ||| 0x01) i.line = (Byte.testBit v i.line || decide (i = vblank)) := by
  have hbit : Byte.testBit 0x01 i.line = decide (i = vblank) := by
    cases i <;> rfl
  rw [Byte.testBit_or, hbit]

/-- A line is served if one of the lowest five bits is set. -/
theorem first?_eq_none : first? pending = none ↔ pending &&& 0x1F = 0 := by
  have hall : ∀ n : Fin 256, first? (.ofNat n) = none ↔ UInt8.ofNat n &&& 0x1F = 0 := by
    decide +kernel
  have h := hall ⟨pending.toNat, pending.toNat_lt⟩
  rwa [UInt8.ofNat_toNat] at h

/-- The line that is served first is the lowest one that is pending. -/
theorem first?_lowest (h : first? pending = some i) :
    Byte.testBit pending i.line = true ∧
      ∀ j : Interrupt, Byte.testBit pending j.line = true → i.line ≤ j.line := by
  have hsorted : all.Pairwise (fun i j => i.line ≤ j.line) := by decide
  obtain ⟨hi, before, after, hall, hbefore⟩ := List.find?_eq_some_iff_append.1 h
  rw [hall, List.pairwise_append, List.pairwise_cons] at hsorted
  refine ⟨hi, fun j hj => ?_⟩
  have hmem := j.mem_all
  rw [hall, List.mem_append, List.mem_cons] at hmem
  rcases hmem with hmem | rfl | hmem
  · have hnot := hbefore j hmem
    rw [hj] at hnot
    cases hnot
  · exact Fin.le_refl _
  · exact hsorted.2.1.1 j hmem

theorem first?_of_lowest (hset : Byte.testBit pending i.line = true)
    (hlowest : ∀ j : Interrupt, Byte.testBit pending j.line = true → i.line ≤ j.line) :
    first? pending = some i := by
  cases hfirst : first? pending with
  | none =>
    have hnot := List.find?_eq_none.1 hfirst i i.mem_all
    exact absurd hset hnot
  | some j =>
    obtain ⟨hset', hlowest'⟩ := first?_lowest hfirst
    exact congrArg some (line_inj (Fin.le_antisymm (hlowest' i hset) (hlowest j hset')))

end Interrupt

/-! ## The requests in memory -/

namespace Memory

variable {m m' : Memory} {a : UInt16} {v : UInt8} {notice : Option Notice}

theorem requested_writeIo (m : Memory) (offset : Fin 0x80) (v : UInt8) :
    (m.writeIo offset v).2.requested =
      if offset = DeviceRegister.interruptFlag then v &&& 0x1F else m.requested := by
  unfold writeIo
  split
  · rfl
  split
  · rfl
  simp only
  split <;> rfl

/-- No write but that to the interrupt flags touches the requests. -/
theorem requested_write (h : m.write a v = .ok notice m') :
    m'.requested = if a = 0xFF0F then v &&& 0x1F else m.requested := by
  have hflag : a = 0xFF0F ↔ a.toNat = 0xFF0F := by
    rw [← UInt16.toNat_inj]
    rfl
  rcases write_register h with ⟨offset, hplace, rfl⟩ | ⟨hplace, -, hsame⟩
  · have hoffset : offset = DeviceRegister.interruptFlag ↔ a.toNat = 0xFF0F := by
      rw [Fin.ext_iff]
      change offset.val = 0x0F ↔ _
      omega
    simp only [requested_writeIo, hflag, hoffset]
  · rw [hsame, if_neg]
    rw [hflag]
    omega

/-- The signal at the end of a step requests the vertical blank if it brings the display to the
first line of it, and touches no other request. -/
theorem requested_endStep (m : Memory) (cycles : Nat) :
    (m.endStep cycles).2.requested =
      if m.ly ≠ 144 ∧ (m.endStep cycles).2.ly = 144 then m.requested ||| 0x01 else m.requested := by
  by_cases hdue : m.lines.lastCycles + 456 ≤ cycles
  · have hafter : (m.endStep cycles).2.ly = LineCounter.lineAfter m.ly := by
      rw [endStep_due hdue]
      exact Vector.getElem_set_self _
    have hfirst : m.ly ≠ 144 ∧ LineCounter.lineAfter m.ly = 144 ↔
        LineCounter.lineAfter m.ly = vblankLine := by
      refine and_iff_right_of_imp fun h hline => ?_
      rw [hline] at h
      exact absurd h (by decide)
    rw [hafter, endStep_due hdue]
    simp only [hfirst]
  · rw [endStep_early (Nat.lt_of_not_le hdue), if_neg fun h => h.1 h.2]

/-- Only five requests exist. -/
theorem requested_invariant : Bus.Invariant fun m : Memory => m.requested < 0x20 where
  read := by
    intro m address h
    simp only [Bus.afterRead, Bus.read]
    cases m.peek address <;> exact h
  write := by
    intro m address v h
    simp only [Bus.afterWrite]
    cases hwrite : Bus.write address v m with
    | ok notice m' =>
      change m'.requested < 0x20
      rw [requested_write hwrite]
      split
      · exact Byte.mask_lt v
      · exact h
    | error e m' =>
      obtain rfl := ((write_error_iff ..).1 hwrite).2.2
      exact h
  acknowledge line h := Byte.clearBit_lt h line
  endStep := by
    intro m cycles h
    change (m.endStep cycles).2.requested < 0x20
    rw [requested_endStep]
    split
    · exact Byte.or_lt h (by decide)
    · exact h

theorem requested_start (cartridge : Option Cartridge)
    (boot : Option (Vector UInt8 bootRomSize)) : (start cartridge boot).requested < 0x20 := by
  obtain ⟨_, _, hstart⟩ := start_eq cartridge boot
  rw [hstart]
  cases boot with
  | none => exact (by decide : (1 : UInt8) < 0x20)
  | some image => exact (by decide : (0 : UInt8) < 0x20)

theorem peek_interruptFlag (m : Memory) : m.peek 0xFF0F = .ok (m.requested ||| 0xE0) := by
  have hregion : m.regionOf 0xFF0F = .io DeviceRegister.interruptFlag :=
    Region.ofAddress_eq_iff.2 rfl
  rw [peek, hregion]
  rfl

end Memory

/-! ## Requests over a history -/

namespace Interrupt

open Bus (Passage History)

/-- The passage requests the interrupt: a one is written to its bit of the flags or, for the vertical
blank, the display gets to line 144. -/
def RequestedBy (i : Interrupt) (p : Passage Memory) : Prop :=
  (∃ v, p.event = .wrote 0xFF0F v ∧ Byte.testBit v i.line = true) ∨
    i = .vblank ∧ (∃ cycles, p.event = .ended cycles) ∧ p.before.ly ≠ 144 ∧ p.after.ly = 144

/-- The passage withdraws the request of the interrupt: it is served, or a zero is written to its bit
of the flags. -/
def WithdrawnBy (i : Interrupt) (p : Passage Memory) : Prop :=
  p.event = .acknowledged i.line ∨
    ∃ v, p.event = .wrote 0xFF0F v ∧ Byte.testBit v i.line = false

variable {i : Interrupt} {p q : Passage Memory} {ps : List (Passage Memory)} {b c : Memory}

/-- An interrupt is requested after a passage exactly if the passage requests it, or it was requested
before and the passage does not withdraw the request. -/
theorem testBit_passage (hp : p.IsGenuine) (i : Interrupt) :
    Byte.testBit p.after.requested i.line = true ↔
      i.RequestedBy p ∨ Byte.testBit p.before.requested i.line = true ∧ ¬ i.WithdrawnBy p := by
  obtain ⟨before, event, after⟩ := p
  cases event with
  | read address v =>
    obtain rfl : after = before := Bus.PureReads.read_ok hp
    simp [RequestedBy, WithdrawnBy]
  | readFailed address =>
    obtain ⟨e, hread⟩ := hp
    obtain rfl : after = before := Bus.PureReads.read_error hread
    simp [RequestedBy, WithdrawnBy]
  | wrote address v =>
    obtain ⟨notice, hwrite⟩ := hp
    have hrequested : after.requested = _ := Memory.requested_write hwrite
    rw [hrequested]
    by_cases hflag : address = 0xFF0F
    · subst hflag
      simp [RequestedBy, WithdrawnBy, testBit_mask]
    · simp [RequestedBy, WithdrawnBy, hflag]
  | writeFailed address v =>
    obtain ⟨e, hwrite⟩ := hp
    obtain rfl : after = before := ((Memory.write_error_iff ..).1 hwrite).2.2
    simp [RequestedBy, WithdrawnBy]
  | acknowledged line =>
    have hrequested : after.requested = Byte.clearBit before.requested line := by
      rw [show after = Bus.acknowledge before line from hp]
      rfl
    simp [RequestedBy, WithdrawnBy, hrequested, Byte.testBit_clearBit, @eq_comm _ line]
  | ended cycles =>
    have hafter : after = (before.endStep cycles).2 := hp
    have hrequested := before.requested_endStep cycles
    rw [← hafter] at hrequested
    rw [hrequested]
    by_cases hfirst : before.ly ≠ 144 ∧ after.ly = 144
    · simp [RequestedBy, WithdrawnBy, hfirst, testBit_vblank, or_comm]
    · simp [RequestedBy, WithdrawnBy, hfirst]

/-- What comes to be requested in the course of a history is requested by a passage of it. -/
theorem exists_requestedBy (h : History b ps c) (hb : Byte.testBit b.requested i.line = false)
    (hc : Byte.testBit c.requested i.line = true) : ∃ p ∈ ps, i.RequestedBy p := by
  induction h with
  | nil =>
    rw [hb] at hc
    cases hc
  | @cons p ps c hp _ ih =>
    cases hafter : Byte.testBit p.after.requested i.line with
    | false =>
      obtain ⟨q, hq, hrequests⟩ := ih hafter hc
      exact ⟨q, List.mem_cons_of_mem p hq, hrequests⟩
    | true =>
      rcases (testBit_passage hp i).1 hafter with hrequests | ⟨hbefore, -⟩
      · exact ⟨p, List.mem_cons_self, hrequests⟩
      · rw [hb] at hbefore
        cases hbefore

/-- An interrupt that has been served is not requested again before a passage requests it. -/
theorem exists_requestedBy_between {before between later : List (Passage Memory)}
    (h : History b (before ++ p :: between ++ q :: later) c) (hp : p.event = .acknowledged i.line)
    (hq : Byte.testBit q.before.requested i.line = true) : ∃ r ∈ between, i.RequestedBy r := by
  obtain ⟨_, hinitial, _ | ⟨-, -⟩⟩ := Bus.history_append.1 h
  obtain ⟨_, -, _ | ⟨hgenuine, hbetween⟩⟩ := Bus.history_append.1 hinitial
  refine exists_requestedBy hbetween ?_ hq
  rw [← Bool.not_eq_true, testBit_passage hgenuine]
  rintro ((⟨v, hevent, -⟩ | ⟨-, ⟨cycles, hevent⟩, -⟩) | ⟨-, hkept⟩)
  · cases hp.symm.trans hevent
  · cases hp.symm.trans hevent
  · exact hkept (.inl hp)

end Interrupt

namespace Machine

open Bus (History events)

variable {s : Console} {i : Interrupt}

/-! ## Steps that serve an interrupt -/

/-- The interrupt that is served is the lowest one that is requested and enabled. -/
theorem Serves.lowest (h : s.Serves i) :
    let pending := s.bus.enabled &&& s.bus.requested &&& 0x1F
    Byte.testBit pending i.line = true ∧
      ∀ j : Interrupt, Byte.testBit pending j.line = true → i.line ≤ j.line :=
  Interrupt.first?_lowest h.pending

theorem Serves.requested (h : s.Serves i) : Byte.testBit s.bus.requested i.line = true := by
  have hpending := h.lowest.1
  rw [Interrupt.testBit_mask, Byte.testBit_and, Bool.and_eq_true] at hpending
  exact hpending.2

/-- A running console serves an interrupt exactly if one is requested and enabled, and interrupts are
enabled at all. -/
theorem exists_serves_iff (hfault : s.cpu.fault = none) (hlimit : s.cpu.exhausted = false) :
    (∃ i, s.Serves i) ↔
      s.cpu.ime = true ∧ s.bus.enabled &&& s.bus.requested &&& 0x1F ≠ 0 := by
  have hnone : Interrupt.first? (Bus.pending s.bus) = none ↔
      s.bus.enabled &&& s.bus.requested &&& 0x1F = 0 := by
    rw [Interrupt.first?_eq_none]
    change _ &&& 0x1F &&& 0x1F = 0 ↔ _
    rw [UInt8.and_assoc, UInt8.and_self]
  rw [ne_eq, ← hnone]
  constructor
  · rintro ⟨i, hi⟩
    rw [hi.pending]
    exact ⟨hi.enabled, nofun⟩
  · rintro ⟨hime, hsome⟩
    obtain ⟨i, hi⟩ := Option.ne_none_iff_exists'.1 hsome
    exact ⟨i, hfault, hlimit, hime, hi⟩

/-- What passes over the bus in a step of a running console. -/
theorem step_requests (hfault : s.cpu.fault = none) (hlimit : s.cpu.exhausted = false)
    (traffic : Array Traffic) :
    let pending := s.bus.enabled &&& s.bus.requested &&& 0x1F
    ∃ ps, History s.bus ps s.next.bus ∧
      (s.watch traffic).next = s.next.watch (traffic ++ events ps) ∧
      ((∃ p ∈ ps, p.event.withdraws = true) ↔ s.cpu.ime = true ∧ pending ≠ 0) ∧
      (s.cpu.ime = true → pending ≠ 0 → ∃ i : Interrupt, Byte.testBit pending i.line = true ∧
        (∀ j : Interrupt, Byte.testBit pending j.line = true → i.line ≤ j.line) ∧
        s.Dispatched i (ps.map (·.event))) := by
  intro pending
  rw [← exists_serves_iff hfault hlimit]
  by_cases hserves : ∃ i, s.Serves i
  · obtain ⟨i, hi⟩ := hserves
    obtain ⟨ps, hhistory, hnext, hdispatched, -⟩ := history_of_serves hi traffic
    obtain ⟨hpending, hlowest⟩ := hi.lowest
    refine ⟨ps, hhistory, hnext, iff_of_true ?_ ⟨i, hi⟩,
      fun _ _ => ⟨i, hpending, hlowest, hdispatched⟩⟩
    obtain ⟨event, hevent, hwithdraws⟩ := hdispatched.withdraws
    obtain ⟨p, hp, rfl⟩ := List.mem_map.1 hevent
    exact ⟨p, hp, hwithdraws⟩
  · obtain ⟨ps, hhistory, hnext, hquiet⟩ := history_of_calm (not_exists.1 hserves) traffic
    refine ⟨ps, hhistory, hnext, iff_of_false ?_ hserves, fun hime hpending => ?_⟩
    · rintro ⟨p, hp, hwithdraws⟩
      rw [hquiet p hp] at hwithdraws
      cases hwithdraws
    · exact absurd ((exists_serves_iff hfault hlimit).2 ⟨hime, hpending⟩) hserves

end Machine

namespace Console

open Bus (History events)

variable {cartridge : Option Cartridge} {config : Config} {console : Console}

/-! ## Runs of a console -/

theorem requested_build (h : build cartridge config = .ok console) :
    console.bus.requested < 0x20 := by
  obtain ⟨boot, -, rfl⟩ := build_eq_ok.1 h
  exact Memory.requested_start cartridge boot

theorem requested_after (h : build cartridge config = .ok console) (acts : List Act) :
    (console.after acts).bus.requested < 0x20 := by
  refine Machine.acts_keep Memory.requested_invariant (requested_build h) ?_
  intro cartridge m _ hm
  exact hm

/-- A console has been set up and used in any way, and now runs. What passes over its bus is what a
monitor sees. Of that, an interrupt is requested by what `Interrupt.RequestedBy` says and by nothing
else, and its request is withdrawn by what `Interrupt.WithdrawnBy` says and by nothing else; a step
withdraws a request only in order to serve it, and between two such steps it has been requested
anew. The upper three bits of the flags are never set and always read as one.

If the console is running, the next step serves an interrupt exactly if one is requested and enabled
and interrupts are enabled at all, and then it serves the lowest one. -/
theorem interrupt_requests (hbuild : build cartridge config = .ok console) (acts : List Act)
    (n : Nat) :
    let start := console.after acts
    let s := Machine.next^[n] start
    let pending := s.bus.enabled &&& s.bus.requested &&& 0x1F
    (∃ ps, History start.bus ps s.bus ∧
      Machine.next^[n] (start.watch #[]) = s.watch (events ps) ∧
      (∀ p ∈ ps, p.after.requested < 0x20 ∧
        ∀ i : Interrupt, Byte.testBit p.after.requested i.line = true ↔
          i.RequestedBy p ∨ Byte.testBit p.before.requested i.line = true ∧ ¬ i.WithdrawnBy p) ∧
      (∀ p ∈ ps, p.event.withdraws = true → ∃ m < n, ∃ i, p.event = .acknowledged i.line ∧
        p.before = (Machine.next^[m] start).bus ∧ (Machine.next^[m] start).Serves i) ∧
      ∀ (i : Interrupt) (p q) (before between later), ps = before ++ p :: between ++ q :: later →
        p.event = .acknowledged i.line → q.event = .acknowledged i.line →
        ∃ r ∈ between, i.RequestedBy r) ∧
    s.bus.requested < 0x20 ∧
    Bus.read 0xFF0F s.bus = .ok (s.bus.requested ||| 0xE0) s.bus ∧
    (s.cpu.fault = none → s.cpu.exhausted = false → ∀ traffic, ∃ ps,
      History s.bus ps s.next.bus ∧
      (s.watch traffic).next = s.next.watch (traffic ++ events ps) ∧
      ((∃ p ∈ ps, p.event.withdraws = true) ↔ s.cpu.ime = true ∧ pending ≠ 0) ∧
      (s.cpu.ime = true → pending ≠ 0 → ∃ i : Interrupt, Byte.testBit pending i.line = true ∧
        (∀ j : Interrupt, Byte.testBit pending j.line = true → i.line ≤ j.line) ∧
        s.Dispatched i (ps.map (·.event)))) := by
  intro start s pending
  have hstart : start.bus.requested < 0x20 := requested_after hbuild acts
  obtain ⟨ps, hhistory, hrun, hserved⟩ := start.run_history n #[]
  have hwithin := hhistory.keeps Memory.requested_invariant hstart
  have hlast : s.bus.requested < 0x20 := Memory.requested_invariant.iterate hstart n
  refine ⟨⟨ps, hhistory, ?_, ?_, hserved, ?_⟩, hlast, Memory.read_of_peek s.bus.peek_interruptFlag,
    Machine.step_requests⟩
  · simpa using hrun
  · intro p hp
    exact ⟨hwithin p hp, Interrupt.testBit_passage (hhistory.genuine p hp)⟩
  · rintro i p q before between later rfl hp hq
    refine Interrupt.exists_requestedBy_between hhistory hp ?_
    obtain ⟨m, -, j, hj, hbefore, hserves⟩ := hserved q (by simp) (by rw [hq]; rfl)
    obtain rfl : i = j := Interrupt.line_inj (Traffic.acknowledged.inj (hq.symm.trans hj))
    rw [hbefore]
    exact hserves.requested

/-- Lines 0 and 2 are requested and enabled from outside, and the next step serves line 0. -/
theorem interrupt_requests_vblank : ∃ (console : Console) (acts : List Act),
    build none ⟨some ⟨Array.replicate bootRomSize 0⟩, none, false⟩ = .ok console ∧
    let s := console.after acts
    s.bus.enabled &&& s.bus.requested &&& 0x1F = 0x05 ∧
    ∃ ps, History s.bus ps s.next.bus ∧ s.Dispatched .vblank (ps.map (·.event)) := by
  let boot : Vector UInt8 bootRomSize := .replicate bootRomSize 0
  obtain ⟨console, hconsole⟩ : ∃ console : Console, console =
      Machine.start (startCpu ⟨some ⟨boot.toArray⟩, none, false⟩ true)
        (Memory.start none (some boot)) := ⟨_, rfl⟩
  have hbuild : build none ⟨some ⟨boot.toArray⟩, none, false⟩ = .ok console := by
    refine build_eq_ok.2 ⟨some boot, ?_, hconsole⟩
    simp only [bootImage?, bootImage, dif_pos boot.size_toArray]
    rfl
  let acts : List Act :=
    [.write 0xFFFF 0x05, .write 0xFF0F 0x05, .replace { Cpu.powerOn with ime := true }]
  have hpending : (console.after acts).bus.enabled &&& (console.after acts).bus.requested &&& 0x1F =
      0x05 := by
    rw [hconsole]
    decide +kernel
  obtain ⟨-, -, -, hnext⟩ := interrupt_requests hbuild acts 0
  obtain ⟨ps, hhistory, -, -, hserved⟩ := hnext rfl rfl #[]
  obtain ⟨i, -, hlowest, hdispatched⟩ := hserved rfl (hpending.trans_ne (by decide))
  have hfirst : i.line ≤ Interrupt.vblank.line := by
    refine hlowest .vblank ?_
    rw [Function.iterate_zero_apply, hpending]
    rfl
  obtain rfl : i = .vblank := Interrupt.line_inj (Fin.le_zero_iff.1 hfirst)
  exact ⟨console, acts, hbuild, hpending, ps, hhistory, hdispatched⟩

end Console

end GameBoy
