import GameBoy.Notice
import GameBoy.Text

/-!
# The fifth bank controller

Registers of the controller MBC5: a nine-bit ROM bank in two parts, which may be zero, and a
four-bit RAM bank.
-/

namespace GameBoy

/-- The registers of the controller. -/
structure Mbc5 where
  /-- The eight low bits of the ROM bank. -/
  low : UInt8
  /-- The ninth bit of the ROM bank. -/
  high : UInt8
  /-- The RAM bank. -/
  ramBank : UInt8
  /-- Whether the RAM can be used. -/
  ramEnabled : Bool
  deriving DecidableEq, Repr

namespace Mbc5

/-- The registers of a cartridge that has just been inserted. -/
def initial : Mbc5 := ⟨1, 0, 0, false⟩

/-- The ROM bank that is seen at an address. -/
def romBank (m : Mbc5) (romBanks : Nat) (address : UInt16) : Nat :=
  if address < 0x4000 then 0 else (m.high.toNat * 256 + m.low.toNat) % romBanks

/-- The RAM bank in use. -/
def ramBankOf (m : Mbc5) (ramBanks : Nat) : Nat := m.ramBank.toNat % max 1 ramBanks

/-- The notice of a change of the ROM bank. -/
def bankNotice (m : Mbc5) (romBanks : Nat) : Notice :=
  let bank := m.romBank romBanks 0x4000
  ⟨.debug, s!"MBC5: ROM bank 0x{Text.hex 3 bank}"⟩

/-- Write a control register. -/
def write (m : Mbc5) (romBanks : Nat) (address : UInt16) (value : UInt8) : Option Notice × Mbc5 :=
  match address.toNat / 0x1000 with
  | 0 | 1 => (none, { m with ramEnabled := value &&& 0x0F == 0x0A })
  | 2 =>
    let m := { m with low := value }
    (some (m.bankNotice romBanks), m)
  | 3 =>
    let m := { m with high := value &&& 0x01 }
    (some (m.bankNotice romBanks), m)
  | 4 | 5 => (none, { m with ramBank := value &&& 0x0F })
  | _ => (none, m)

end Mbc5

end GameBoy
