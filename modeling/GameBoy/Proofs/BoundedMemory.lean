import GameBoy.Proofs.BoundedCartridge
import GameBoy.Proofs.Overlay
import GameBoy.Video.Background

/-!
# Places in the memory of the console

The account of places goes on with the memory of the console. An address is decoded to a number,
which then is a place in one of the memories; so is the number of a byte of a tile, which depends on
three registers. For a memory whose cartridge has been loaded, the account agrees with the model.

What is done to a console never spoils that: a cartridge stays loaded under all writes.

Main statement: `Console.in_bounds`.
-/

namespace GameBoy

/-! ## Areas -/

/-- A region where the place inside it is only a number. -/
inductive Area where
  | bootRom (offset : Nat)
  | cartRom (address : UInt16)
  | vram (offset : Nat)
  | cartRam (address : UInt16)
  | wram (offset : Nat)
  | echo (offset : Nat)
  | oam (offset : Nat)
  | unusable
  | io (offset : Nat)
  | hram (offset : Nat)
  | interruptEnable
  deriving DecidableEq, Repr

/-- Forget that the place is inside. -/
def Region.area : Region → Area
  | bootRom offset => .bootRom offset
  | cartRom address => .cartRom address
  | vram offset => .vram offset
  | cartRam address => .cartRam address
  | wram offset => .wram offset
  | echo offset => .echo offset
  | oam offset => .oam offset
  | unusable => .unusable
  | io offset => .io offset
  | hram offset => .hram offset
  | interruptEnable => .interruptEnable

/-- The cartridge, if there is one, has been loaded. -/
def Memory.HasLoaded (m : Memory) : Prop := ∀ c, m.cartridge = some c → c.IsLoaded

namespace Bounded

/-- Decode an address. The boot program covers the first page if the latch is set. -/
def decode (address : UInt16) (latch : Bool) : Bounded Area := do
  let a := address.toNat
  if address ≤ 0x00FF ∧ latch then return .bootRom a
  else if address ≤ 0x7FFF then return .cartRom address
  else if address ≤ 0x9FFF then return .vram (← difference a 0x8000)
  else if address ≤ 0xBFFF then return .cartRam address
  else if address ≤ 0xDFFF then return .wram (← difference a 0xC000)
  else if address ≤ 0xFDFF then return .echo (← difference a 0xE000)
  else if address ≤ 0xFE9F then return .oam (← difference a 0xFE00)
  else if address ≤ 0xFEFF then return .unusable
  else if address ≤ 0xFF7F then return .io (← difference a 0xFF00)
  else if address ≤ 0xFFFE then return .hram (← difference a 0xFF80)
  else return .interruptEnable

theorem area_dite {p q : Prop} [Decidable p] [Decidable q] {x y : Bounded Area} {yes : q → Region}
    {no : ¬ q → Region} (hpq : p ↔ q) (hyes : ∀ h, x = .ok (yes h).area)
    (hno : ∀ h, y = .ok (no h).area) : ite p x y = .ok (dite q yes no).area := by
  by_cases h : q
  · rw [if_pos (hpq.2 h), dif_pos h]
    exact hyes h
  · rw [if_neg (mt hpq.1 h), dif_neg h]
    exact hno h

theorem decode_eq (address : UInt16) (latch : Bool) :
    decode address latch = .ok (Region.ofAddress address latch).area := by
  have hle (high : UInt16) : address ≤ high ↔ address.toNat < high.toNat + 1 := by
    rw [UInt16.le_iff_toNat_le, Nat.lt_succ_iff]
  unfold decode Region.ofAddress
  refine area_dite (by rw [hle, and_comm]; rfl) (fun _ => rfl) fun _ => ?_
  repeat' refine area_dite (hle _) (fun _ => ?_) fun _ => ?_
  all_goals
    first
    | rfl
    | rw [difference_ok (by omega)]; rfl

/-! ## Reading and writing -/

section

variable {n : Nat}

/-- The byte at a place of a memory. -/
def get (bytes : Vector UInt8 n) (i : Nat) : Bounded UInt8 := do
  return bytes.get (← place n i)

/-- Store a byte at a place of a memory. -/
def set (bytes : Vector UInt8 n) (i : Nat) (value : UInt8) : Bounded (Vector UInt8 n) := do
  let i ← place n i
  return bytes.set i.val value i.isLt

theorem get_ok (bytes : Vector UInt8 n) {i : Nat} (h : i < n) :
    get bytes i = .ok (bytes.get ⟨i, h⟩) := by
  rw [get, place_ok h]
  rfl

@[simp] theorem get_val (bytes : Vector UInt8 n) (i : Fin n) : get bytes i = .ok (bytes.get i) :=
  get_ok bytes i.isLt

@[simp] theorem set_val (bytes : Vector UInt8 n) (i : Fin n) (value : UInt8) :
    set bytes i value = .ok (bytes.set i value i.isLt) := by
  rw [set, place_val]
  rfl

end

/-- The byte that the cartridge shows, if there is one. -/
def fromCartridge (m : Memory) (address : UInt16) (f : Cartridge → Bounded UInt8) :
    Bounded (Except BusError UInt8) := do
  match m.cartridge with
  | some c => return .ok (← f c)
  | none => return .error (.unmapped address)

/-- The byte at an address that belongs to an area. -/
def byteIn (m : Memory) (address : UInt16) : Area → Bounded (Except BusError UInt8)
  | .bootRom offset => do
    match m.overlay with
    | some image => return .ok (← get image offset)
    | none => return .error (.unmapped address)
  | .cartRom inside => fromCartridge m inside fun c => readRom c inside
  | .vram offset => do return .ok (← get m.vram offset)
  | .cartRam inside => fromCartridge m inside fun c => readRam c inside
  | .wram offset | .echo offset => do return .ok (← get m.wram offset)
  | .oam offset => do return .ok (← get m.oam offset)
  | .unusable => return .ok 0xFF
  | .io offset => do
    if offset = 0x0F then return .ok (m.requested ||| 0xE0)
    else return .ok (← get m.io offset)
  | .hram offset => do return .ok (← get m.hram offset)
  | .interruptEnable => return .ok m.enabled

/-- The byte at an address. -/
def peek (m : Memory) (address : UInt16) : Bounded (Except BusError UInt8) := do
  byteIn m address (← decode address m.bootActive)

/-- Write a device register. -/
def writeIo (m : Memory) (offset : Nat) (value : UInt8) : Bounded (Option Notice × Memory) := do
  if offset = 0x0F then return (none, { m with requested := value &&& 0x1F })
  else if offset = 0x44 then return (none, m)
  else
    let io ← set m.io offset value
    if offset = 0x50 ∧ value &&& 0x01 ≠ 0 ∧ m.bootActive then
      return (some Memory.overlayNotice, { m with io, overlay := none })
    else return (none, { m with io })

/-- Write a register of the cartridge's controller. -/
def writeCartRom (m : Memory) (address : UInt16) (value : UInt8) : Bounded Memory.Written := do
  match m.cartridge with
  | some c =>
    let (notice, c) ← writeRom c address value
    return .ok notice { m with cartridge := some c }
  | none => return .error (.unmapped address) m

/-- Write the RAM of the cartridge. -/
def writeCartRam (m : Memory) (address : UInt16) (value : UInt8) : Bounded Memory.Written := do
  match m.cartridge with
  | some c => return .ok none { m with cartridge := some (← writeRam c address value) }
  | none => return .error (.unmapped address) m

/-- Write a byte to an address that belongs to an area. -/
def writeIn (m : Memory) (address : UInt16) (value : UInt8) : Area → Bounded Memory.Written
  | .bootRom _ | .cartRom _ => writeCartRom m address value
  | .vram offset => do return .ok none { m with vram := ← set m.vram offset value }
  | .cartRam inside => writeCartRam m inside value
  | .wram offset | .echo offset => do return .ok none { m with wram := ← set m.wram offset value }
  | .oam offset => do return .ok none { m with oam := ← set m.oam offset value }
  | .unusable => return .ok none m
  | .io offset => do
    let (notice, m) ← writeIo m offset value
    return .ok notice m
  | .hram offset => do return .ok none { m with hram := ← set m.hram offset value }
  | .interruptEnable => return .ok none { m with enabled := value }

/-- Write a byte. -/
def write (m : Memory) (address : UInt16) (value : UInt8) : Bounded Memory.Written := do
  writeIn m address value (← decode address m.bootActive)

section

variable {m : Memory} (h : m.HasLoaded) (address : UInt16) (value : UInt8)

theorem writeIo_eq (m : Memory) (offset : Fin 0x80) (value : UInt8) :
    writeIo m offset value = .ok (m.writeIo offset value) := by
  have hflag : offset = DeviceRegister.interruptFlag ↔ offset.val = 0x0F := Fin.ext_iff
  have hly : offset = DeviceRegister.ly ↔ offset.val = 0x44 := Fin.ext_iff
  have hboot : offset = DeviceRegister.boot ↔ offset.val = 0x50 := Fin.ext_iff
  simp only [writeIo, Memory.writeIo, hflag, hly, hboot, set_val, ok_bind, pure_eq_ok]
  split
  · rfl
  split
  · rfl
  by_cases hrelease : offset.val = 0x50 ∧ value &&& 0x01 ≠ 0 ∧ m.bootActive = true
  · rw [if_pos hrelease]
    exact congrArg Except.ok (if_pos hrelease).symm
  · rw [if_neg hrelease]
    exact congrArg Except.ok (if_neg hrelease).symm

include h

theorem fromCartridge_eq {f : Cartridge → Bounded UInt8} {g : Cartridge → UInt8}
    (hf : ∀ c : Cartridge, c.IsLoaded → f c = .ok (g c)) :
    fromCartridge m address f = .ok (m.fromCartridge address g) := by
  rw [fromCartridge, Memory.fromCartridge]
  cases hcartridge : m.cartridge with
  | none => rfl
  | some c =>
    simp only [hf c (h c hcartridge), ok_bind, pure_eq_ok]

theorem byteIn_eq (region : Region) :
    byteIn m address region.area = .ok (m.byteIn address region) := by
  cases region with
  | bootRom offset =>
    simp only [byteIn, Region.area, Memory.byteIn, get_val, ok_bind, pure_eq_ok]
    cases m.overlay <;> rfl
  | cartRom inside => exact fromCartridge_eq h inside fun c hc => readRom_eq hc inside
  | cartRam inside => exact fromCartridge_eq h inside fun c hc => readRam_eq hc inside
  | io offset =>
    have hflag : offset = DeviceRegister.interruptFlag ↔ offset.val = 0x0F := Fin.ext_iff
    simp only [byteIn, Region.area, Memory.byteIn, get_val, ok_bind, pure_eq_ok, hflag]
    split <;> rfl
  | unusable | interruptEnable => rfl
  | vram offset | wram offset | echo offset | oam offset | hram offset =>
    simp only [byteIn, Region.area, Memory.byteIn, get_val, ok_bind, pure_eq_ok]

theorem peek_eq : peek m address = .ok (m.peek address) := by
  rw [peek, decode_eq, ok_bind, Memory.peek_eq_byteIn]
  exact byteIn_eq h address (m.regionOf address)

theorem writeCartRom_eq : writeCartRom m address value = .ok (m.writeCartRom address value) := by
  rw [writeCartRom]
  cases hcartridge : m.cartridge with
  | none =>
    rw [Memory.writeCartRom_none hcartridge]
    rfl
  | some c =>
    rw [Memory.writeCartRom_some hcartridge]
    simp only [writeRom_eq (h c hcartridge), ok_bind, pure_eq_ok]

theorem writeCartRam_eq : writeCartRam m address value = .ok (m.writeCartRam address value) := by
  rw [writeCartRam]
  cases hcartridge : m.cartridge with
  | none =>
    rw [Memory.writeCartRam_none hcartridge]
    rfl
  | some c =>
    rw [Memory.writeCartRam_some hcartridge]
    simp only [writeRam_eq (h c hcartridge), ok_bind, pure_eq_ok]

theorem write_eq : write m address value = .ok (m.write address value) := by
  rw [write, decode_eq, ok_bind, Memory.write]
  change writeIn m address value (m.regionOf address).area = _
  cases m.regionOf address with
  | bootRom | cartRom => exact writeCartRom_eq h address value
  | cartRam inside => exact writeCartRam_eq h inside value
  | io offset =>
    simp only [writeIn, Region.area, writeIo_eq, ok_bind, pure_eq_ok]
  | unusable | interruptEnable => rfl
  | vram offset | wram offset | echo offset | oam offset | hram offset =>
    simp only [writeIn, Region.area, set_val, ok_bind, pure_eq_ok]

end

/-! ## Tiles -/

/-- A number as an index of the machine's size: below zero it wraps around. -/
def toSize (i : Int) : Nat := (i % 0x10000000000000000).toNat

/-- The row of a tile on a line of the screen, in a tile column of the screen. -/
def tileRow (m : Memory) (line tileX : UInt8) : Bounded TileRow := do
  let lcdc ← get m.io 0x40
  let scx ← get m.io 0x43
  let scy ← get m.io 0x42
  let map := if lcdc &&& 0x08 ≠ 0 then 0x1C00 else 0x1800
  let y := (line + scy).toNat
  let column := (tileX.toNat + scx.toNat / 8) % 32
  let index ← get m.vram (map + y / 8 * 32 + column)
  let base := if lcdc &&& 0x10 ≠ 0 then index.toNat * 16
    else toSize (0x1000 + index.toInt8.toInt * 16)
  let row := base + y % 8 * 2
  return { lo := ← get m.vram row, hi := ← get m.vram (row + 1) }

/-- The row of a tile on the line being displayed. -/
def currentTileRow (m : Memory) (tileX : UInt8) : Bounded TileRow := do
  tileRow m (← get m.io 0x44) tileX

theorem mapBase_eq (lcdc : UInt8) :
    (if lcdc &&& 0x08 ≠ 0 then 0x1C00 else 0x1800) = (Memory.mapBase lcdc).val := by
  rw [Memory.mapBase]
  split <;> rfl

/-- The least signed number gives the place `0x800`, so that the index never wraps around. -/
theorem tileBase_eq (lcdc index : UInt8) :
    (if lcdc &&& 0x10 ≠ 0 then index.toNat * 16
      else toSize (0x1000 + index.toInt8.toInt * 16)) = (Memory.tileBase lcdc index).val := by
  have hindex := index.toNat_lt
  have hsigned : index.toInt8.toInt =
      if 2 * index.toNat < 2 ^ 8 then (index.toNat : Int)
      else (index.toNat : Int) - (2 ^ 8 : Nat) := BitVec.toInt_eq_toNat_cond index.toBitVec
  rw [Memory.tileBase]
  by_cases hunsigned : lcdc &&& 0x10 ≠ 0
  · rw [if_pos hunsigned, dif_pos (.inl hunsigned)]
  · rw [if_neg hunsigned, hsigned, toSize]
    by_cases hhigh : 0x80 ≤ index.toNat
    · rw [dif_pos (.inr hhigh), if_neg (by omega)]
      show _ = index.toNat * 16
      omega
    · rw [dif_neg (not_or.2 ⟨hunsigned, hhigh⟩), if_pos (by omega)]
      show _ = 0x1000 + index.toNat * 16
      omega

theorem tileRow_eq (m : Memory) (line tileX : UInt8) :
    tileRow m line tileX = .ok (m.tileRow line tileX) := by
  have hlcdc : get m.io 0x40 = .ok (m.io.get DeviceRegister.lcdc) :=
    get_val m.io DeviceRegister.lcdc
  have hscx : get m.io 0x43 = .ok (m.io.get DeviceRegister.scx) := get_val m.io DeviceRegister.scx
  have hscy : get m.io 0x42 = .ok (m.io.get DeviceRegister.scy) := get_val m.io DeviceRegister.scy
  have hcolumn : (tileX.toNat + (m.io.get DeviceRegister.scx).toNat / 8) % 32 =
      (m.planeColumn tileX).val := rfl
  have hindex (row : UInt8) (column : Fin 32) :
      get m.vram ((Memory.mapBase (m.io.get DeviceRegister.lcdc)).val + row.toNat / 8 * 32 +
        column.val) = .ok (m.tileIndex row column) :=
    get_ok m.vram (by have := row.toNat_lt; omega)
  have hlo (base : Fin 0x17F1) (row : UInt8) : get m.vram (base.val + row.toNat % 8 * 2) =
      .ok (m.vram.get ⟨base.val + row.toNat % 8 * 2, by omega⟩) := get_ok m.vram _
  have hhi (base : Fin 0x17F1) (row : UInt8) : get m.vram (base.val + row.toNat % 8 * 2 + 1) =
      .ok (m.vram.get ⟨base.val + row.toNat % 8 * 2 + 1, by omega⟩) := get_ok m.vram _
  simp only [tileRow, hlcdc, hscx, hscy, hcolumn, mapBase_eq, hindex, tileBase_eq, hlo, hhi,
    ok_bind, pure_eq_ok]
  rfl

theorem currentTileRow_eq (m : Memory) (tileX : UInt8) :
    currentTileRow m tileX = .ok (m.currentTileRow tileX) := by
  have hline : get m.io 0x44 = .ok m.ly := get_val m.io DeviceRegister.ly
  rw [currentTileRow, hline, ok_bind, tileRow_eq]
  rfl

end Bounded

/-! ## Consoles -/

/-- A cartridge stays loaded, whatever is done to the memory. -/
theorem Memory.hasLoaded_invariant : Bus.Invariant HasLoaded :=
  cartridge_invariant (fun _ address v h => h.writeRom address v)
    fun _ address v h => h.writeRam address v

/-- A controller of three banks has two address lines for them, and can select a fourth bank, where
there is nothing. -/
theorem Cartridge.readRom_fourth_of_three {bytes : ByteArray} {c : Cartridge}
    (hload : Cartridge.load bytes = .ok c) (hmbc1 : c.header.controller = .mbc1)
    (hsize : bytes.size = 3 * romBankSize) : (c.writeRom 0x2000 0x03).2.readRom 0x4000 = 0xFF := by
  obtain ⟨hbytes, hmapper, -⟩ := Cartridge.load_mbc1 hload hmbc1
  obtain ⟨header, rom, ram, mapper⟩ := c
  obtain rfl : mapper = .mbc1 .initial := hmapper
  obtain rfl : rom.bytes = bytes := hbytes
  have hbanks : rom.banks = 3 := Nat.div_eq_of_eq_mul_left (by decide) hsize
  have hlines : Nat.clog 2 3 = 2 := by decide
  have hbank : Mbc1.romBank { Mbc1.initial with low := 3 } rom.banks 0x4000 = 3 := by
    rw [hbanks, Mbc1.romBank_upper _ _ (by decide), hlines]
    rfl
  have hpast : ¬ 3 * romBankSize + (0x4000 : UInt16).toNat % romBankSize < rom.bytes.size := by
    rw [hsize]
    decide
  change rom.bankByte (Mbc1.romBank { Mbc1.initial with low := 3 } rom.banks 0x4000) 0x4000 = 0xFF
  rw [hbank, RomImage.bankByte, getElem?_neg rom.bytes _ hpast]
  rfl

namespace Console

variable {cartridge : Option Cartridge} {config : Config} {console : Console}

/-- As long as only cartridges are inserted that have been loaded, there is no other. -/
theorem hasLoaded_after (hcartridge : ∀ c, cartridge = some c → c.IsLoaded)
    (hbuild : build cartridge config = .ok console) {acts : List Act}
    (hacts : ∀ c, .insert c ∈ acts → c.IsLoaded) : (console.after acts).bus.HasLoaded := by
  have hstart : console.bus.HasLoaded := by
    rw [Memory.HasLoaded, cartridge_build hbuild]
    exact hcartridge
  refine Machine.acts_keep Memory.hasLoaded_invariant hstart ?_
  intro inserted m hmem _ c hc
  obtain rfl := Option.some.inj hc
  exact hacts _ hmem

/-- **No access strays.** Reading a header stays inside the image, and looks at no byte of an image
that has less than two banks. After any accesses to a cartridge that has been loaded, and after
anything that is done to a console with such cartridges, all places are inside: those of the ROM and
the RAM, with any controller, those that an address is decoded to, and those of the background. No
remainder by zero is taken on the way. The result is in each case that of the model. -/
theorem in_bounds (hcartridge : ∀ c, cartridge = some c → c.IsLoaded)
    (hbuild : build cartridge config = .ok console) {acts : List Act}
    (hacts : ∀ c, .insert c ∈ acts → c.IsLoaded) :
    let m := (console.after acts).bus
    (∀ bytes, Bounded.parse bytes.size (Bounded.byteAt bytes) = .ok (Header.parse bytes)) ∧
    (∀ size < 0x8000, ∀ index, Bounded.parse size index = .ok (.error (.tooSmall size))) ∧
    (∀ c : Cartridge, c.IsLoaded → ∀ address value,
      Bounded.readRom c address = .ok (c.readRom address) ∧
      Bounded.writeRom c address value = .ok (c.writeRom address value) ∧
      Bounded.readRam c address = .ok (c.readRam address) ∧
      Bounded.writeRam c address value = .ok (c.writeRam address value)) ∧
    (∀ address latch,
      Bounded.decode address latch = .ok (Region.ofAddress address latch).area) ∧
    (∀ address value,
      Bounded.peek m address = .ok (m.peek address) ∧
      Bounded.write m address value = .ok (m.write address value)) ∧
    ∀ line tileX,
      Bounded.tileRow m line tileX = .ok (m.tileRow line tileX) ∧
      Bounded.currentTileRow m tileX = .ok (m.currentTileRow tileX) := by
  intro m
  have hloaded : m.HasLoaded := hasLoaded_after hcartridge hbuild hacts
  refine ⟨Bounded.parse_eq, fun size h => Bounded.parse_small h, ?_, Bounded.decode_eq, ?_, ?_⟩
  · intro c hc address value
    exact ⟨Bounded.readRom_eq hc address, Bounded.writeRom_eq hc address value,
      Bounded.readRam_eq hc address, Bounded.writeRam_eq hc address value⟩
  · intro address value
    exact ⟨Bounded.peek_eq hloaded address, Bounded.write_eq hloaded address value⟩
  · intro line tileX
    exact ⟨Bounded.tileRow_eq m line tileX, Bounded.currentTileRow_eq m tileX⟩

/-- A cartridge with three banks, whose header declares two, in a console: the fourth bank is
selected and read. -/
theorem in_bounds_three_banks : ∃ (bytes : ByteArray) (c : Cartridge) (console : Console),
    bytes.size = 3 * romBankSize ∧ Cartridge.load bytes = .ok c ∧
    build (some c) ⟨none, none, false⟩ = .ok console ∧
    Bounded.peek (console.after [.write 0x2000 0x03]).bus 0x4000 = .ok (.ok 0xFF) := by
  have hbanks : 2 ≤ 3 := by decide
  have hcode : Controller.ofCode 0x01 = .ok .mbc1 := rfl
  have hsize := RomImage.size_numbered hbanks 0x01
  obtain ⟨c, hload, hmbc1, -⟩ := Cartridge.load_numbered hbanks hcode
  have hboot : ∀ image ∈ (⟨none, none, false⟩ : Config).bootRom, image.size = bootRomSize := by
    simp
  obtain ⟨console, hbuild⟩ := build_isOk (some c) hboot
  have hcartridge : ∀ c', some c = some c' → c'.IsLoaded := by
    intro c' hc
    exact ⟨_, c, [], hload, (Option.some.inj hc).symm⟩
  have hacts : ∀ c', .insert c' ∈ [Act.write 0x2000 0x03] → c'.IsLoaded := by
    simp
  obtain ⟨-, -, -, -, hpeek, -⟩ := in_bounds hcartridge hbuild hacts
  refine ⟨_, c, console, hsize, hload, hbuild, ?_⟩
  have hwritten : (console.after [.write 0x2000 0x03]).bus =
      { console.bus with cartridge := some (c.writeRom 0x2000 0x03).2 } := by
    have hwrite : Bus.write 0x2000 0x03 console.bus = _ :=
      (Memory.write_eq_writeCartRom (by decide) _ _).trans
        (Memory.writeCartRom_some (cartridge_build hbuild) 0x2000 0x03)
    change Bus.afterWrite 0x2000 0x03 console.bus = _
    rw [Bus.afterWrite, hwrite]
  have hshown : console.bus.ShowsCartridge 0x4000 :=
    ⟨.inl (by decide), fun h => absurd h.2 (by decide)⟩
  rw [(hpeek 0x4000 0).1, hwritten, Memory.peek_set_cartridge, if_pos hshown, Cartridge.seen,
    if_pos (by decide), Cartridge.readRom_fourth_of_three hload hmbc1 hsize]

end Console

end GameBoy
