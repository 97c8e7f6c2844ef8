import GameBoy.Proofs.Banking

/-!
# What a history selects

The registers of every controller are functions of the history of writes: each holds what it keeps
of the last value that counts for it. With them the whole cartridge after a history is known, and
the RAM bank that the controller selects.

Main statement: `Cartridge.written_eq`.
-/

namespace GameBoy

open RomHistory

/-! ## The registers of MBC3 -/

namespace Mbc3

/-- The ROM bank: the low bits of the last value written for it, or one if they are all zero. -/
def bankAfter (history : RomHistory) : UInt8 :=
  history.register (within 0x2000 0x3FFF) (fun value => max 1 (value &&& 0x7F)) 1

/-- The RAM bank or the register of the clock: the last value written for it. -/
def selectAfter (history : RomHistory) : UInt8 := history.register (within 0x4000 0x5FFF) id 0

/-- The registers after a history. The RAM is enabled as with MBC1. -/
def after (history : RomHistory) : Mbc3 where
  bank := bankAfter history
  select := selectAfter history
  ramEnabled := Mbc1.ramEnabledAfter history

theorem bankAfter_cons (address : UInt16) (value : UInt8) (history : RomHistory) :
    bankAfter ((address, value) :: history) =
      if address.toNat / 0x2000 = 1 then max 1 (value &&& 0x7F) else bankAfter history := by
  rw [bankAfter, register_cons, within_eq 0x2000 1 (by decide) rfl rfl]
  simp only [beq_iff_eq, bankAfter]

theorem selectAfter_cons (address : UInt16) (value : UInt8) (history : RomHistory) :
    selectAfter ((address, value) :: history) =
      if address.toNat / 0x2000 = 2 then value else selectAfter history := by
  rw [selectAfter, register_cons, within_eq 0x2000 2 (by decide) rfl rfl]
  simp only [beq_iff_eq, selectAfter, id_eq]

/-- A write takes the registers to those of the longer history. -/
theorem write_after (address : UInt16) (value : UInt8) (history : RomHistory) :
    ((after history).write address value).2 = after ((address, value) :: history) := by
  unfold write
  simp only [after, Mbc1.ramEnabledAfter_cons, bankAfter_cons, selectAfter_cons]
  split
  case h_1 hwindow => simp [hwindow]
  case h_2 hwindow => simp [hwindow]
  case h_3 hwindow => simp [hwindow]
  case h_4 h0 h1 h2 => simp only [eq_false h0, eq_false h1, eq_false h2, if_false]

end Mbc3

/-! ## The registers of MBC5 -/

namespace Mbc5

/-- The eight low bits of the ROM bank: the last value written for them. -/
def lowAfter (history : RomHistory) : UInt8 := history.register (within 0x2000 0x2FFF) id 1

/-- The ninth bit of the ROM bank: the lowest bit of the last value written for it. -/
def highAfter (history : RomHistory) : UInt8 :=
  history.register (within 0x3000 0x3FFF) (· &&& 0x01) 0

/-- The RAM bank: the four low bits of the last value written for it. -/
def ramBankAfter (history : RomHistory) : UInt8 :=
  history.register (within 0x4000 0x5FFF) (· &&& 0x0F) 0

/-- The registers after a history. The RAM is enabled as with MBC1. -/
def after (history : RomHistory) : Mbc5 where
  low := lowAfter history
  high := highAfter history
  ramBank := ramBankAfter history
  ramEnabled := Mbc1.ramEnabledAfter history

theorem lowAfter_cons (address : UInt16) (value : UInt8) (history : RomHistory) :
    lowAfter ((address, value) :: history) =
      if address.toNat / 0x1000 = 2 then value else lowAfter history := by
  rw [lowAfter, register_cons, within_eq 0x1000 2 (by decide) rfl rfl]
  simp only [beq_iff_eq, lowAfter, id_eq]

theorem highAfter_cons (address : UInt16) (value : UInt8) (history : RomHistory) :
    highAfter ((address, value) :: history) =
      if address.toNat / 0x1000 = 3 then value &&& 0x01 else highAfter history := by
  rw [highAfter, register_cons, within_eq 0x1000 3 (by decide) rfl rfl]
  simp only [beq_iff_eq, highAfter]

theorem ramBankAfter_cons (address : UInt16) (value : UInt8) (history : RomHistory) :
    ramBankAfter ((address, value) :: history) =
      if address.toNat / 0x2000 = 2 then value &&& 0x0F else ramBankAfter history := by
  rw [ramBankAfter, register_cons, within_eq 0x2000 2 (by decide) rfl rfl]
  simp only [beq_iff_eq, ramBankAfter]

/-- A write takes the registers to those of the longer history. -/
theorem write_after (banks : Nat) (address : UInt16) (value : UInt8) (history : RomHistory) :
    ((after history).write banks address value).2 = after ((address, value) :: history) := by
  -- Some registers have a window of two blocks, so the window follows from the block.
  have hwindow : address.toNat / 0x2000 = address.toNat / 0x1000 / 2 := by omega
  unfold write
  simp only [after, Mbc1.ramEnabledAfter_cons, lowAfter_cons, highAfter_cons, ramBankAfter_cons,
    hwindow]
  split
  case h_1 hblock => simp [hblock]
  case h_2 hblock => simp [hblock]
  case h_3 hblock => simp [hblock]
  case h_4 hblock => simp [hblock]
  case h_5 hblock => simp [hblock]
  case h_6 hblock => simp [hblock]
  case h_7 h0 h1 h2 h3 h4 h5 =>
    have henable : ¬ address.toNat / 0x1000 / 2 = 0 := fun h =>
      (show address.toNat / 0x1000 = 0 ∨ address.toNat / 0x1000 = 1 by omega).elim h0 h1
    have hbank : ¬ address.toNat / 0x1000 / 2 = 2 := fun h =>
      (show address.toNat / 0x1000 = 4 ∨ address.toNat / 0x1000 = 5 by omega).elim h4 h5
    simp only [eq_false h2, eq_false h3, eq_false henable, eq_false hbank, if_false]

end Mbc5

/-! ## The controllers -/

/-- The controller of a family after a history. -/
def Mapper.after (switchable : Bool) (history : RomHistory) : Controller → Mapper
  | .mbc0 => .unbanked
  | .mbc1 => .mbc1 (.after switchable history)
  | .mbc3 => .mbc3 (.after history)
  | .mbc5 => .mbc5 (.after history)

theorem Mapper.after_nil (switchable : Bool) (controller : Controller) :
    after switchable [] controller = initial controller := by
  cases controller with
  | mbc1 => exact congrArg mbc1 (Mbc1.after_nil switchable)
  | mbc0 | mbc3 | mbc5 => rfl

namespace Cartridge

/-- The cartridge with the registers that a history leaves. -/
def banked (c : Cartridge) (history : RomHistory) : Cartridge :=
  { c with mapper :=
      .after (Mbc1.isSwitchable c.rom.size c.ram.size) history c.header.controller }

theorem banked_nil {c : Cartridge} (h : c.mapper = .initial c.header.controller) :
    c.banked [] = c := by
  rw [banked, Mapper.after_nil, ← h]

/-- A write takes the registers to those of the longer history. -/
theorem writeRom_banked (c : Cartridge) (address : UInt16) (value : UInt8) (history : RomHistory) :
    ((c.banked history).writeRom address value).2 = c.banked ((address, value) :: history) := by
  obtain ⟨header, rom, ram, mapper⟩ := c
  simp only [banked, writeRom]
  cases header.controller with
  | mbc0 => rfl
  | mbc1 => simp only [Mapper.after, Mbc1.write_after]
  | mbc3 => simp only [Mapper.after, Mbc3.write_after]
  | mbc5 => simp only [Mapper.after, Mbc5.write_after]

/-- The registers of a new cartridge are functions of the history, and nothing else changes. -/
theorem written_eq {c : Cartridge} (h : c.mapper = .initial c.header.controller)
    (history : RomHistory) : c.written history = c.banked history := by
  induction history with
  | nil => rw [written, banked_nil h]
  | cons write before ih => rw [written, ih, writeRom_banked]

end Cartridge

/-! ## The bank of the RAM -/

/-- The bank of the RAM that a controller selects, unless it does not let the RAM be used or selects
a register of the clock. -/
def Mapper.ramBank? (banks : Nat) : Mapper → Option Nat
  | .unbanked => some 0
  | .mbc1 m => if m.ramEnabled then some (m.ramBank.toNat % banks) else none
  | .mbc3 m => if m.ramEnabled ∧ m.select ≤ 3 then some (m.select.toNat % banks) else none
  | .mbc5 m => if m.ramEnabled then some (m.ramBank.toNat % banks) else none

end GameBoy
