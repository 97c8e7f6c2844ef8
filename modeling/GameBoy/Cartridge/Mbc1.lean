import GameBoy.Notice
import GameBoy.Text

/-!
# The first bank controller

Registers of the controller MBC1. The ROM bank number has five low bits, which are never all zero,
and two high bits. A two-bit register serves, according to the mode at the time it is written,
either as the RAM bank or as the high bits. Only in the advanced mode do the high bits also apply
to the lower window. On a cartridge with little memory the mode cannot be changed.
-/

namespace GameBoy

/-- What the two-bit register selects. -/
inductive BankingMode where
  /-- The RAM bank; the lower window shows bank zero. -/
  | simple
  /-- The high bits of the ROM bank, also in the lower window. -/
  | advanced
  deriving DecidableEq, Repr

/-- The name of a mode. -/
def BankingMode.name : BankingMode → String
  | simple => "Simple"
  | advanced => "Advanced"

/-- The registers of the controller. -/
structure Mbc1 where
  /-- The five low bits of the ROM bank. -/
  low : UInt8
  /-- The two high bits of the ROM bank. -/
  high : UInt8
  /-- The RAM bank. -/
  ramBank : UInt8
  /-- The banking mode. -/
  mode : BankingMode
  /-- Whether the RAM can be used. -/
  ramEnabled : Bool
  deriving DecidableEq, Repr

namespace Mbc1

/-- The registers of a cartridge that has just been inserted. -/
def initial : Mbc1 := ⟨1, 0, 0, .simple, false⟩

/-- Whether a cartridge has enough memory to change the mode. -/
def isSwitchable (romSize ramSize : Nat) : Bool := romSize > 512 * 1024 || ramSize > 8 * 1024

/-- A bank number on the address lines that a ROM of so many banks has. -/
@[inline] def onLines (bank romBanks : Nat) : Nat := bank % romBanks.nextPowerOfTwo

/-- The bank number that the registers select in the upper window. -/
@[inline] def selected (m : Mbc1) : Nat := m.high.toNat * 32 + max 1 m.low.toNat

/-- The ROM bank that is seen at an address. -/
def romBank (m : Mbc1) (romBanks : Nat) (address : UInt16) : Nat :=
  if address < 0x4000 then
    match m.mode with
    | .simple => 0
    | .advanced => onLines (m.high.toNat * 32) romBanks
  else onLines m.selected romBanks

/-- The RAM bank in use; a RAM of a single bank has no other. -/
def ramBankOf (m : Mbc1) (ramSize ramBanks : Nat) : Nat :=
  if ramSize ≤ 8 * 1024 then 0 else m.ramBank.toNat % max 1 ramBanks

/-- Write a control register. -/
def write (m : Mbc1) (switchable : Bool) (romBanks : Nat) (address : UInt16) (value : UInt8) :
    Option Notice × Mbc1 :=
  match address.toNat / 0x2000 with
  | 0 => (none, { m with ramEnabled := value &&& 0x0F == 0x0A })
  | 1 =>
    let m := { m with low := max 1 (value &&& 0x1F) }
    let bank := m.romBank romBanks 0x4000
    (some ⟨.debug, s!"MBC1: ROM bank low=0x{Text.hexByte m.low} -> bank 0x{Text.hex 2 bank}"⟩, m)
  | 2 =>
    let bits := value &&& 0x03
    let notice : Notice :=
      ⟨.debug, s!"MBC1: 2-bit register=0x{Text.hexByte bits} ({m.mode.name} mode)"⟩
    match m.mode with
    | .simple => (some notice, { m with ramBank := bits })
    | .advanced => (some notice, { m with high := bits })
  | 3 =>
    if switchable then
      let mode := if value &&& 0x01 == 0 then BankingMode.simple else .advanced
      (some ⟨.debug, s!"MBC1: banking mode {mode.name}"⟩, { m with mode })
    else (none, m)
  | _ => (none, m)

end Mbc1

end GameBoy
