import GameBoy.Proofs.Accesses
import GameBoy.Proofs.Buses

/-!
# Laws of the console's memory

Every address is mapped as long as there is a cartridge. No access takes the cartridge out or moves
the display to another line; the line is moved by the signal at the end of a step alone.
-/

namespace GameBoy

/-- The first page belongs to the boot program only where that covers it. -/
theorem Region.overlay_of_bootRom {address : UInt16} {overlay : Bool} {offset : Fin 0x100}
    (h : ofAddress address overlay = bootRom offset) : overlay = true := by
  unfold ofAddress at h
  by_cases hcovered : overlay ∧ address.toNat < 0x100
  · exact hcovered.1
  · rw [dif_neg hcovered] at h
    grind

namespace Memory

variable {m m' : Memory} {address : UInt16} {v : UInt8} {notice : Option Notice}

/-! ## Every address is mapped -/

theorem peek_isOk (h : m.cartridge.isSome) (address : UInt16) : ∃ v, m.peek address = .ok v := by
  obtain ⟨c, hc⟩ := Option.isSome_iff_exists.1 h
  have hcartridge (a : UInt16) (f : Cartridge → UInt8) : m.fromCartridge a f = .ok (f c) := by
    rw [fromCartridge, hc]
  unfold peek
  split
  case h_1 offset hregion =>
    -- The boot program is there, since the region is its own.
    obtain ⟨image, himage⟩ := Option.isSome_iff_exists.1 (Region.overlay_of_bootRom hregion)
    rw [himage]
    exact ⟨_, rfl⟩
  case h_2 | h_4 => exact ⟨_, hcartridge _ _⟩
  case h_9 => split <;> exact ⟨_, rfl⟩
  all_goals exact ⟨_, rfl⟩

theorem read_of_peek (h : m.peek address = .ok v) : Bus.read address m = .ok v m := by
  simp only [Bus.read, h]

theorem write_isOk (h : m.cartridge.isSome) (address : UInt16) (v : UInt8) :
    ∃ notice m', m.write address v = .ok notice m' := by
  obtain ⟨overlay, cartridge, vram, wram, oam, io, hram, requested, enabled, lines⟩ := m
  obtain ⟨c, rfl⟩ := Option.isSome_iff_exists.1 h
  unfold write
  split
  all_goals exact ⟨_, _, rfl⟩

/-! ## What accesses leave alone -/

/-- Two states of the memory agree in what no access touches. -/
structure Alike (m m' : Memory) : Prop where
  ly : m'.ly = m.ly
  lines : m'.lines = m.lines
  inserted : m'.cartridge.isSome = m.cartridge.isSome

theorem Alike.refl (m : Memory) : Alike m m := ⟨rfl, rfl, rfl⟩

theorem Alike.trans {m₁ m₂ m₃ : Memory} (h : Alike m₁ m₂) (h' : Alike m₂ m₃) : Alike m₁ m₃ :=
  ⟨h'.ly.trans h.ly, h'.lines.trans h.lines, h'.inserted.trans h.inserted⟩

theorem writeIo_alike (m : Memory) (offset : Fin 0x80) (v : UInt8) :
    Alike m (m.writeIo offset v).2 := by
  unfold writeIo
  split
  · exact ⟨rfl, rfl, rfl⟩
  split
  · exact .refl m
  rename_i hly
  have hstore : (DeviceRegister.store m.io offset v).get DeviceRegister.ly =
      m.io.get DeviceRegister.ly := by
    have hne : offset.val ≠ DeviceRegister.ly.val := fun heq => hly (Fin.ext heq)
    exact Vector.getElem_set_ne offset.isLt DeviceRegister.ly.isLt hne
  simp only
  split
  all_goals exact ⟨hstore, rfl, rfl⟩

/-- A write to the controller that succeeds found a cartridge, and changes nothing else. -/
theorem writeCartRom_eq_ok (h : m.writeCartRom address v = .ok notice m') :
    ∃ c, m.cartridge = some c ∧ m' = { m with cartridge := some (c.writeRom address v).2 } := by
  obtain ⟨_, cartridge, _, _, _, _, _, _, _, _⟩ := m
  cases cartridge with
  | none => cases h
  | some c =>
    obtain ⟨-, rfl⟩ := EStateM.Result.ok.inj h
    exact ⟨c, rfl, rfl⟩

theorem writeCartRam_eq_ok (h : m.writeCartRam address v = .ok notice m') :
    ∃ c, m.cartridge = some c ∧ m' = { m with cartridge := some (c.writeRam address v) } := by
  obtain ⟨_, cartridge, _, _, _, _, _, _, _, _⟩ := m
  cases cartridge with
  | none => cases h
  | some c =>
    obtain ⟨-, rfl⟩ := EStateM.Result.ok.inj h
    exact ⟨c, rfl, rfl⟩

theorem write_alike (h : m.write address v = .ok notice m') : Alike m m' := by
  unfold write at h
  split at h
  case h_1 | h_2 =>
    obtain ⟨c, hcartridge, rfl⟩ := writeCartRom_eq_ok h
    exact ⟨rfl, rfl, by rw [hcartridge]; rfl⟩
  case h_4 =>
    obtain ⟨c, hcartridge, rfl⟩ := writeCartRam_eq_ok h
    exact ⟨rfl, rfl, by rw [hcartridge]; rfl⟩
  case h_9 offset _ =>
    obtain ⟨-, rfl⟩ := EStateM.Result.ok.inj h
    exact writeIo_alike m offset v
  all_goals
    obtain ⟨-, rfl⟩ := EStateM.Result.ok.inj h
    exact ⟨rfl, rfl, rfl⟩

theorem alike_of_accessed (h : Bus.Accessed m m') : Alike m m' := by
  induction h with
  | refl => exact .refl m
  | read _ hread ih =>
    obtain rfl := Bus.PureReads.read_ok hread
    exact ih
  | write _ hwrite ih => exact ih.trans (write_alike hwrite)
  | acknowledge line _ ih => exact ih.trans ⟨rfl, rfl, rfl⟩

theorem alike_of_failed {e : BusError} (h : Bus.Failed m e m') : Alike m m' := by
  cases h with
  | read haccessed hread =>
    obtain rfl := Bus.PureReads.read_error hread
    exact alike_of_accessed haccessed
  | write haccessed hwrite =>
    obtain rfl := Bus.MemoryLike.write_error hwrite
    exact alike_of_accessed haccessed

/-- The signal at the end of a step moves the display, and may request an interrupt. -/
theorem endStep_frame (m : Memory) (cycles : Nat) :
    ∃ io requested lines, (m.endStep cycles).2 = { m with io, requested, lines } := by
  unfold endStep
  simp only
  split
  · exact ⟨_, _, _, rfl⟩
  · split <;> exact ⟨_, _, _, rfl⟩

theorem cartridge_endStep (m : Memory) (cycles : Nat) :
    (m.endStep cycles).2.cartridge = m.cartridge := by
  obtain ⟨_, _, _, hframe⟩ := m.endStep_frame cycles
  rw [hframe]

/-- With a cartridge no access fails. -/
theorem not_failed (h : m.cartridge.isSome) {e : BusError} : ¬ Bus.Failed m e m' := by
  intro hfailed
  cases hfailed with
  | @read u _ address haccessed hread =>
    have hinserted : u.cartridge.isSome := by rw [(alike_of_accessed haccessed).inserted]; exact h
    obtain ⟨v, hv⟩ := peek_isOk hinserted address
    rw [read_of_peek hv] at hread
    cases hread
  | @write u _ address v haccessed hwrite =>
    have hinserted : u.cartridge.isSome := by rw [(alike_of_accessed haccessed).inserted]; exact h
    obtain ⟨_, _, hv⟩ := write_isOk hinserted address v
    change u.write address v = _ at hwrite
    rw [hv] at hwrite
    cases hwrite

end Memory

end GameBoy
