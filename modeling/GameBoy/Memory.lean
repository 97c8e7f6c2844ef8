import GameBoy.Bus
import GameBoy.Cartridge
import GameBoy.Memory.Initial
import GameBoy.Memory.Region
import GameBoy.Video.LineCounter

/-!
# The memory of the console

The bus of the console: the memories inside it, the device registers, the cartridge if there is
one, and the boot program as long as it covers the first page. The line register is driven by the
line counter alone; a program that writes it changes nothing. Reading has no side effects.
-/

namespace GameBoy

/-- The size of the boot program. -/
abbrev bootRomSize : Nat := 0x100

/-- The memory of the console. -/
structure Memory where
  /-- The boot program while it covers the first page. -/
  overlay : Option (Vector UInt8 bootRomSize)
  /-- The cartridge. -/
  cartridge : Option Cartridge
  /-- Video memory. -/
  vram : Vector UInt8 0x2000
  /-- Work memory. -/
  wram : Vector UInt8 0x2000
  /-- Object attributes. -/
  oam : Vector UInt8 0xA0
  /-- The device registers, apart from the interrupt requests. -/
  io : Vector UInt8 0x80
  /-- High memory. -/
  hram : Vector UInt8 0x7F
  /-- The interrupts that are requested, on the lowest five bits. -/
  requested : UInt8
  /-- The interrupts that are enabled. -/
  enabled : UInt8
  /-- When the line last changed. -/
  lines : LineCounter

namespace Memory

/-! ## Starting -/

/-- The memory when the console starts. With a boot program the device registers are zero; without
one they hold what it would have left, and the vertical blank is already requested. -/
def start (cartridge : Option Cartridge) (bootRom : Option (Vector UInt8 bootRomSize)) : Memory :=
  let (wram, x) := Noise.vector 0x2000 Noise.seed
  let (hram, _) := Noise.vector 0x7F x
  { overlay := bootRom
    cartridge, wram, hram
    vram := Vector.replicate 0x2000 0
    oam := Vector.replicate 0xA0 0
    io := if bootRom.isSome then Vector.replicate 0x80 0 else bootedIo
    requested := if bootRom.isSome then 0 else 1
    enabled := 0
    lines := .initial }

/-- Put a cartridge in, in place of the one that is there. -/
def insert (m : Memory) (cartridge : Cartridge) : Memory := { m with cartridge := some cartridge }

/-- Whether the boot program covers the first page. -/
@[inline] def bootActive (m : Memory) : Bool := m.overlay.isSome

/-- The line being displayed. -/
def ly (m : Memory) : UInt8 := m.io.get DeviceRegister.ly

/-- The region of an address. -/
@[inline] def regionOf (m : Memory) (address : UInt16) : Region :=
  Region.ofAddress address m.bootActive

/-! ## Reading -/

/-- The byte that the cartridge shows, if there is one. -/
@[inline] def fromCartridge (m : Memory) (address : UInt16) (f : Cartridge → UInt8) :
    Except BusError UInt8 :=
  match m.cartridge with
  | some c => .ok (f c)
  | none => .error (.unmapped address)

/-- The byte at an address. -/
def peek (m : Memory) (address : UInt16) : Except BusError UInt8 :=
  match m.regionOf address with
  | .bootRom offset =>
    match m.overlay with
    | some image => .ok (image.get offset)
    | none => .error (.unmapped address)
  | .cartRom address => m.fromCartridge address (·.readRom address)
  | .vram offset => .ok (m.vram.get offset)
  | .cartRam address => m.fromCartridge address (·.readRam address)
  | .wram offset | .echo offset => .ok (m.wram.get offset)
  | .oam offset => .ok (m.oam.get offset)
  | .unusable => .ok 0xFF
  | .io offset =>
    if offset = DeviceRegister.interruptFlag then .ok (m.requested ||| 0xE0)
    else .ok (m.io.get offset)
  | .hram offset => .ok (m.hram.get offset)
  | .interruptEnable => .ok m.enabled

/-! ## Writing -/

/-- What a write does: the memory afterwards, and perhaps a notice. -/
abbrev Written := EStateM.Result BusError Memory (Option Notice)

/-- Write a register of the cartridge's controller. -/
def writeCartRom (m : Memory) (address : UInt16) (value : UInt8) : Written :=
  match m with
  | ⟨overlay, cartridge, vram, wram, oam, io, hram, requested, enabled, lines⟩ =>
    match cartridge with
    | some c =>
      let (notice, c) := c.writeRom address value
      .ok notice ⟨overlay, some c, vram, wram, oam, io, hram, requested, enabled, lines⟩
    | none =>
      .error (.unmapped address)
        ⟨overlay, none, vram, wram, oam, io, hram, requested, enabled, lines⟩

/-- Write the RAM of the cartridge. -/
def writeCartRam (m : Memory) (address : UInt16) (value : UInt8) : Written :=
  match m with
  | ⟨overlay, cartridge, vram, wram, oam, io, hram, requested, enabled, lines⟩ =>
    match cartridge with
    | some c =>
      let c := c.writeRam address value
      .ok none ⟨overlay, some c, vram, wram, oam, io, hram, requested, enabled, lines⟩
    | none =>
      .error (.unmapped address)
        ⟨overlay, none, vram, wram, oam, io, hram, requested, enabled, lines⟩

/-- The notice that the boot program has been taken away. -/
def overlayNotice : Notice := ⟨.info, "boot ROM overlay disabled"⟩

/-- Write a device register. Of the interrupt requests only five exist, the line cannot be written,
and an odd value in the boot register takes the boot program away for good. -/
def writeIo (m : Memory) (offset : Fin 0x80) (value : UInt8) : Option Notice × Memory :=
  if offset = DeviceRegister.interruptFlag then (none, { m with requested := value &&& 0x1F })
  else if offset = DeviceRegister.ly then (none, m)
  else
    let m := { m with io := DeviceRegister.store m.io offset value }
    if offset = DeviceRegister.boot ∧ value &&& 0x01 ≠ 0 ∧ m.bootActive then
      (some overlayNotice, { m with overlay := none })
    else (none, m)

/-- Write a byte. Under the boot program the cartridge's controller is written all the same. -/
def write (m : Memory) (address : UInt16) (value : UInt8) : Written :=
  match m.regionOf address with
  | .bootRom _ | .cartRom _ => m.writeCartRom address value
  | .vram offset => .ok none { m with vram := m.vram.set offset value }
  | .cartRam address => m.writeCartRam address value
  | .wram offset | .echo offset => .ok none { m with wram := m.wram.set offset value }
  | .oam offset => .ok none { m with oam := m.oam.set offset value }
  | .unusable => .ok none m
  | .io offset =>
    let (notice, m) := m.writeIo offset value
    .ok notice m
  | .hram offset => .ok none { m with hram := m.hram.set offset value }
  | .interruptEnable => .ok none { m with enabled := value }

/-! ## The line counter -/

/-- The notice that the vertical blank has begun. -/
def vblankNotice (before : UInt8) (cycles : Nat) (requested : UInt8) : Notice :=
  ⟨.debug, s!"VBlank edge (LY {before}->{vblankLine}) at cycle {cycles}, " ++
    s!"IF=0x{Text.hexByte requested}"⟩

/-- Bring the line up to the processor's cycles. The first line of the vertical blank requests its
interrupt. -/
def endStep (m : Memory) (cycles : Nat) : Option Notice × Memory :=
  let before := m.ly
  match m.lines.advance cycles before with
  | (none, _) => (none, m)
  | (some line, lines) =>
    let m := { m with lines, io := m.io.set DeviceRegister.ly line }
    if line = vblankLine then
      let requested := m.requested ||| 0x01
      (some (vblankNotice before cycles requested), { m with requested })
    else (none, m)

instance : Bus Memory where
  read address m :=
    match m.peek address with
    | .ok value => .ok value m
    | .error e => .error e m
  write address value m := m.write address value
  pending m := m.enabled &&& m.requested &&& 0x1F
  acknowledge m line := { m with requested := Byte.clearBit m.requested line }
  endStep m cycles := m.endStep cycles

end Memory

end GameBoy
