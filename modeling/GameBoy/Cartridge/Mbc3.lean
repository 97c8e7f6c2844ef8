import GameBoy.Notice
import GameBoy.Text

/-!
# The third bank controller

Registers of the controller MBC3: a seven-bit ROM bank that is never zero, and a register that
selects a RAM bank or, with numbers above three, a register of the clock. There is no clock, so
such a selection leaves nothing to read or write.
-/

namespace GameBoy

/-- The registers of the controller. -/
structure Mbc3 where
  /-- The ROM bank. -/
  bank : UInt8
  /-- The RAM bank or the register of the clock. -/
  select : UInt8
  /-- Whether the RAM can be used. -/
  ramEnabled : Bool
  deriving DecidableEq, Repr

namespace Mbc3

/-- The registers of a cartridge that has just been inserted. -/
def initial : Mbc3 := ⟨1, 0, false⟩

/-- The ROM bank that is seen at an address. A selection past the end of the ROM wraps on its
address lines. -/
def romBank (m : Mbc3) (romBanks : Nat) (address : UInt16) : Nat :=
  if address < 0x4000 then 0 else m.bank.toNat % romBanks.nextPowerOfTwo

/-- The RAM bank in use, if one is selected and there is RAM. -/
def ramBank? (m : Mbc3) (ramBanks : Nat) : Option Nat :=
  if m.select ≤ 3 ∧ 0 < ramBanks then some (m.select.toNat % ramBanks) else none

/-- Write a control register. -/
def write (m : Mbc3) (address : UInt16) (value : UInt8) : Option Notice × Mbc3 :=
  match address.toNat / 0x2000 with
  | 0 => (none, { m with ramEnabled := value &&& 0x0F == 0x0A })
  | 1 =>
    let bank := max 1 (value &&& 0x7F)
    (some ⟨.debug, s!"MBC3: ROM bank 0x{Text.hexByte bank}"⟩, { m with bank })
  | 2 =>
    (some ⟨.debug, s!"MBC3: RAM/RTC select 0x{Text.hexByte value}"⟩, { m with select := value })
  | _ => (none, m)

end Mbc3

end GameBoy
