import GameBoy.Cartridge.Header
import GameBoy.Cartridge.Mbc1
import GameBoy.Cartridge.Mbc3
import GameBoy.Cartridge.Mbc5

/-!
# Cartridges

A cartridge has a ROM, perhaps a RAM, and perhaps a bank controller, which chooses the banks that
the processor sees. Writing where the ROM is seen writes the controller's registers and never the
ROM. Where there is no byte to be seen, a read gives `FF` and a write does nothing.
-/

namespace GameBoy

/-- The bank controller of a cartridge. -/
inductive Mapper where
  /-- There is none. -/
  | unbanked
  | mbc1 (m : Mbc1)
  | mbc3 (m : Mbc3)
  | mbc5 (m : Mbc5)
  deriving DecidableEq, Repr

/-- The controller of a family in its initial state. -/
def Mapper.initial : Controller → Mapper
  | .mbc0 => unbanked
  | .mbc1 => mbc1 .initial
  | .mbc3 => mbc3 .initial
  | .mbc5 => mbc5 .initial

/-- A cartridge. -/
structure Cartridge where
  /-- What the header says. -/
  header : Header
  /-- The ROM. -/
  rom : RomImage
  /-- The RAM. -/
  ram : Array UInt8
  /-- The bank controller. -/
  mapper : Mapper

namespace Cartridge

/-! ## Loading -/

/-- The size of the RAM that a cartridge really has: without a controller only one bank of it can
be reached. -/
def ramSizeOf (header : Header) : Nat :=
  match header.controller with
  | .mbc0 => min header.ramSize ramBankSize
  | _ => header.ramSize

/-- The cartridge with an image, new from the factory: its RAM is filled with `FF`. -/
def ofImage (rom : RomImage) : Except CartridgeError Cartridge := do
  let header ← Header.ofImage rom
  return {
    header, rom
    ram := Array.replicate (ramSizeOf header) 0xFF
    mapper := .initial header.controller }

/-- The cartridge with the given bytes as its image. -/
def load (bytes : ByteArray) : Except CartridgeError Cartridge := do
  ofImage (← RomImage.ofBytes bytes)

/-- The notice of an image whose size is not the declared one. -/
def sizeNotice (c : Cartridge) : Option Notice :=
  if c.rom.size = c.header.romSize then none
  else some ⟨.warn, s!"cartridge {Text.quoted c.header.title}: file is {c.rom.size} bytes " ++
    s!"but the header declares {c.header.romSize}"⟩

/-- The notice of a wrong checksum. -/
def checksumNotice (c : Cartridge) : Option Notice :=
  let header := c.header
  if header.checksumOk then none
  else some ⟨.warn, s!"cartridge {Text.quoted header.title}: header checksum " ++
    s!"0x{Text.hexByte header.checksum} does not match computed 0x{Text.hexByte header.computed}"⟩

/-- The notice that a cartridge has been loaded. -/
def loadedNotice (c : Cartridge) : Notice :=
  let header := c.header
  ⟨.info, s!"loaded cartridge {Text.quoted header.title}: type 0x{Text.hexByte header.typeCode} " ++
    s!"({header.controller.name}), ROM {header.romSize / 1024} KiB, " ++
    s!"RAM {header.ramSize / 1024} KiB"⟩

/-- The notices that loading a cartridge leaves, in order. -/
def loadNotices (c : Cartridge) : List Notice :=
  c.sizeNotice.toList ++ c.checksumNotice.toList ++ [c.loadedNotice]

/-! ## ROM -/

/-- The ROM bank that is seen at an address. -/
def romBank (c : Cartridge) (address : UInt16) : Nat :=
  match c.mapper with
  | .unbanked => address.toNat / romBankSize
  | .mbc1 m => m.romBank c.rom.banks address
  | .mbc3 m => m.romBank c.rom.banks address
  | .mbc5 m => m.romBank c.rom.banks address

/-- Read the ROM. -/
def readRom (c : Cartridge) (address : UInt16) : UInt8 :=
  c.rom.bankByte (c.romBank address) address

/-- Write where the ROM is seen: to a register of the controller. -/
def writeRom (c : Cartridge) (address : UInt16) (value : UInt8) : Option Notice × Cartridge :=
  match c with
  | ⟨header, rom, ram, mapper⟩ =>
    match mapper with
    | .unbanked =>
      (some ⟨.trace, s!"MBC0: ignored write 0x{Text.hexByte value} to ROM at " ++
        s!"0x{Text.hexWord address}"⟩, ⟨header, rom, ram, mapper⟩)
    | .mbc1 m =>
      let (notice, m) := m.write (Mbc1.isSwitchable rom.size ram.size) rom.banks address value
      (notice, ⟨header, rom, ram, .mbc1 m⟩)
    | .mbc3 m =>
      let (notice, m) := m.write address value
      (notice, ⟨header, rom, ram, .mbc3 m⟩)
    | .mbc5 m =>
      let (notice, m) := m.write rom.banks address value
      (notice, ⟨header, rom, ram, .mbc5 m⟩)

/-! ## RAM -/

/-- The number of whole RAM banks. -/
def ramBanks (c : Cartridge) : Nat := c.ram.size / ramBankSize

/-- The place in the RAM of an address in the given bank. -/
@[inline] def bankOffset (bank : Nat) (address : UInt16) : Nat :=
  bank * ramBankSize + address.toNat % ramBankSize

/-- The place in the RAM that the controller selects for an address, if it selects any. There need
not be a byte at that place. -/
def ramOffset? (c : Cartridge) (address : UInt16) : Option Nat :=
  match c.mapper with
  | .unbanked => some (address - 0xA000).toNat
  | .mbc1 m =>
    if m.ramEnabled then some (bankOffset (m.ramBankOf c.ram.size c.ramBanks) address) else none
  | .mbc3 m =>
    if m.ramEnabled then (m.ramBank? c.ramBanks).map (bankOffset · address) else none
  | .mbc5 m =>
    if m.ramEnabled then some (bankOffset (m.ramBankOf c.ramBanks) address) else none

/-- The byte of the RAM that is seen at an address, if there is one. -/
def ramIndex? (c : Cartridge) (address : UInt16) : Option (Fin c.ram.size) :=
  match c.ramOffset? address with
  | some i => if h : i < c.ram.size then some ⟨i, h⟩ else none
  | none => none

/-- Read the RAM. -/
def readRam (c : Cartridge) (address : UInt16) : UInt8 :=
  match c.ramIndex? address with
  | some i => c.ram[i]
  | none => 0xFF

/-- Write the RAM. -/
def writeRam (c : Cartridge) (address : UInt16) (value : UInt8) : Cartridge :=
  match c.ramIndex? address with
  | some i => { c with ram := c.ram.set i value }
  | none => c

/-- What is shown of a cartridge: its header. -/
def inspect (c : Cartridge) : String :=
  Text.partialRecord "Cartridge" [("header", c.header.inspect)]

end Cartridge

end GameBoy
