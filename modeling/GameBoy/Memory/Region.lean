/-!
# The address map

Every address of the console belongs to one region, and the region knows which of its bytes is
meant. While the boot program covers the first page, the addresses of that page belong to it.
-/

namespace GameBoy

/-- The region of an address, and the place inside it. -/
inductive Region where
  /-- The boot program, over the first page of the cartridge. -/
  | bootRom (offset : Fin 0x100)
  /-- The ROM of the cartridge, which finds the byte itself. -/
  | cartRom (address : UInt16)
  /-- Video memory. -/
  | vram (offset : Fin 0x2000)
  /-- The RAM of the cartridge, which finds the byte itself. -/
  | cartRam (address : UInt16)
  /-- Work memory. -/
  | wram (offset : Fin 0x2000)
  /-- Work memory, seen a second time. -/
  | echo (offset : Fin 0x2000)
  /-- Object attributes. -/
  | oam (offset : Fin 0xA0)
  /-- Addresses without any memory. -/
  | unusable
  /-- The registers of the devices. -/
  | io (offset : Fin 0x80)
  /-- High memory. -/
  | hram (offset : Fin 0x7F)
  /-- The interrupt enable register. -/
  | interruptEnable
  deriving DecidableEq, Repr

namespace Region

/-- The region of an address. `overlay` tells whether the boot program covers the first page. -/
def ofAddress (address : UInt16) (overlay : Bool) : Region :=
  let a := address.toNat
  have ha : a < 0x10000 := address.toNat_lt
  if h₀ : overlay ∧ a < 0x100 then bootRom ⟨a, h₀.2⟩
  else if h₁ : a < 0x8000 then cartRom address
  else if h₂ : a < 0xA000 then vram ⟨a - 0x8000, by omega⟩
  else if h₃ : a < 0xC000 then cartRam address
  else if h₄ : a < 0xE000 then wram ⟨a - 0xC000, by omega⟩
  else if h₅ : a < 0xFE00 then echo ⟨a - 0xE000, by omega⟩
  else if h₆ : a < 0xFEA0 then oam ⟨a - 0xFE00, by omega⟩
  else if h₇ : a < 0xFF00 then unusable
  else if h₈ : a < 0xFF80 then io ⟨a - 0xFF00, by omega⟩
  else if h₉ : a < 0xFFFF then hram ⟨a - 0xFF80, by omega⟩
  else interruptEnable

end Region

/-! ## Device registers -/

namespace DeviceRegister

/-- The interrupts that are requested. -/
def interruptFlag : Fin 0x80 := ⟨0x0F, by decide⟩

/-- The control register of the display. -/
def lcdc : Fin 0x80 := ⟨0x40, by decide⟩

/-- The vertical scroll position. -/
def scy : Fin 0x80 := ⟨0x42, by decide⟩

/-- The horizontal scroll position. -/
def scx : Fin 0x80 := ⟨0x43, by decide⟩

/-- The line being displayed. -/
def ly : Fin 0x80 := ⟨0x44, by decide⟩

/-- The register that takes the boot program away. -/
def boot : Fin 0x80 := ⟨0x50, by decide⟩

/-- Store a byte in a register. -/
def store (registers : Vector UInt8 0x80) (register : Fin 0x80) (value : UInt8) :
    Vector UInt8 0x80 :=
  registers.set register value

end DeviceRegister

end GameBoy
