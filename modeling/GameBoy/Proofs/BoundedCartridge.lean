import GameBoy.Proofs.RamBanking

/-!
# Places in a cartridge

A second account of the header and of the bank controllers. Here memories are arrays, a place in one
of them is a number that has been computed, and each access is checked: it fails if the place is
outside the array, and so do a remainder by zero and a difference below zero. For a cartridge that
has been loaded, whatever has been done to it since, the account agrees with the model, in which an
access cannot fail. So no access strays.

Main statements: `Bounded.parse_eq`, `Bounded.readRom_eq` and `Bounded.readRam_eq`.
-/

namespace GameBoy

/-! ## Checked computations -/

/-- How a computation with places strays. -/
inductive Stray where
  /-- It accesses a place outside an array of the given size. -/
  | outside (place size : Nat)
  /-- It takes a remainder by zero. -/
  | byZero
  /-- It takes a difference below zero. -/
  | below
  deriving DecidableEq, Repr

/-- The result of a computation in which each access is checked. -/
abbrev Bounded (α : Type) := Except Stray α

namespace Bounded

/-- A place in an array of the given size. -/
def place (size i : Nat) : Bounded (Fin size) :=
  if h : i < size then .ok ⟨i, h⟩ else .error (.outside i size)

/-- The byte at a place of an array. -/
def load (bytes : Array UInt8) (i : Nat) : Bounded UInt8 := do
  return bytes[← place bytes.size i]

/-- Store a byte at a place of an array. -/
def store (bytes : Array UInt8) (i : Nat) (value : UInt8) : Bounded (Array UInt8) := do
  let i ← place bytes.size i
  return bytes.set i.val value i.isLt

def remainder (a b : Nat) : Bounded Nat := if b = 0 then .error .byZero else .ok (a % b)

def difference (a b : Nat) : Bounded Nat := if b ≤ a then .ok (a - b) else .error .below

section

variable {α γ : Type} {a b size : Nat}

@[simp] theorem ok_bind (x : α) (f : α → Bounded γ) : ((.ok x : Bounded α) >>= f) = f x := rfl

@[simp] theorem pure_eq_ok (x : α) : (pure x : Bounded α) = .ok x := rfl

theorem place_ok {i : Nat} (h : i < size) : place size i = .ok ⟨i, h⟩ := dif_pos h

@[simp] theorem place_val (i : Fin size) : place size i = .ok i := place_ok i.isLt

@[simp] theorem load_val (bytes : Array UInt8) (i : Fin bytes.size) : load bytes i = .ok bytes[i] := by
  rw [load, place_val]
  rfl

@[simp] theorem store_val (bytes : Array UInt8) (i : Fin bytes.size) (value : UInt8) :
    store bytes i value = .ok (bytes.set i value) := by
  rw [store, place_val]
  rfl

theorem remainder_ok (h : 0 < b) : remainder a b = .ok (a % b) := if_neg (Nat.ne_of_gt h)

theorem difference_ok (h : b ≤ a) : difference a b = .ok (a - b) := if_pos h

end

/-! ## The header -/

/-- Read the header of an image of the given size, whose bytes are found by `index`. -/
def parse (size : Nat) (index : Nat → Bounded UInt8) :
    Bounded (Except CartridgeError Header) := do
  if size < 0x8000 then
    return .error (.tooSmall size)
  else
    let typeCode ← index 0x147
    match Controller.ofCode typeCode with
    | .error e => return .error e
    | .ok controller =>
      match Header.romSizeOfCode (← index 0x148) with
      | .error e => return .error e
      | .ok romSize =>
        match Header.ramSizeOfCode (← index 0x149) with
        | .error e => return .error e
        | .ok ramSize =>
          let titleBytes ← (List.finRange 15).mapM fun i => index (0x134 + i.val)
          let checksum ← index 0x14D
          let checkedBytes ← (List.finRange 25).mapM fun i => index (0x134 + i.val)
          return .ok {
            title := Header.titleText titleBytes
            typeCode, controller, romSize, ramSize, checksum
            computed := Header.checksumOf checkedBytes }

/-- The byte at a place of an image. -/
def byteAt (bytes : ByteArray) (i : Nat) : Bounded UInt8 := do
  return bytes[← place bytes.size i]

theorem byteAt_ok {bytes : ByteArray} {i : Nat} (h : i < bytes.size) :
    byteAt bytes i = .ok bytes[i] := by
  rw [byteAt, place_ok h]
  rfl

theorem byteAt_image (rom : RomImage) (i : Fin 0x8000) :
    byteAt rom.bytes i = .ok (rom.byte i) :=
  byteAt_ok (Nat.lt_of_lt_of_le i.isLt rom.two_banks)

theorem mapM_byteAt (rom : RomImage) (first n : Nat) (h : first + n ≤ 0x8000) :
    (List.finRange n).mapM (fun i => byteAt rom.bytes (first + i.val)) =
      .ok ((List.finRange n).map fun i => rom.byte ⟨first + i.val, by omega⟩) := by
  have hpure : (fun i : Fin n => byteAt rom.bytes (first + i.val)) =
      fun i => pure (rom.byte ⟨first + i.val, by omega⟩) :=
    funext fun i => byteAt_image rom ⟨first + i.val, by omega⟩
  rw [hpure, List.mapM_pure]
  rfl

/-- An image with less than two banks is rejected before any of its bytes is looked at: whatever
looking at a byte would give, the answer is the same. -/
theorem parse_small {size : Nat} (h : size < 0x8000) (index : Nat → Bounded UInt8) :
    parse size index = .ok (.error (.tooSmall size)) := if_pos h

/-- Reading the header stays inside the image, however short it is. -/
theorem parse_eq (bytes : ByteArray) :
    parse bytes.size (byteAt bytes) = .ok (Header.parse bytes) := by
  by_cases hsmall : bytes.size < 0x8000
  · rw [parse_small hsmall, Header.parse, RomImage.ofBytes, dif_pos hsmall]
    rfl
  · obtain ⟨rom, rfl⟩ : ∃ rom : RomImage, rom.bytes = bytes :=
      ⟨⟨bytes, Nat.le_of_not_lt hsmall⟩, rfl⟩
    have hparse : Header.parse rom.bytes = Header.ofImage rom := by
      rw [Header.parse, RomImage.ofBytes_eq_ok.2 rfl]
      rfl
    have htype : byteAt rom.bytes 0x147 = .ok (rom.byte 0x147) := byteAt_image rom 0x147
    have hrom : byteAt rom.bytes 0x148 = .ok (rom.byte 0x148) := byteAt_image rom 0x148
    have hram : byteAt rom.bytes 0x149 = .ok (rom.byte 0x149) := byteAt_image rom 0x149
    have hchecksum : byteAt rom.bytes 0x14D = .ok (rom.byte 0x14D) := byteAt_image rom 0x14D
    have htitle := mapM_byteAt rom 0x134 15 (by decide)
    have hchecked := mapM_byteAt rom 0x134 25 (by decide)
    rw [hparse, parse, if_neg hsmall]
    simp only [htype, hrom, hram, hchecksum, htitle, hchecked, ok_bind, pure_eq_ok]
    simp only [Header.ofImage, bind, Except.bind, pure, Except.pure]
    cases Controller.ofCode (rom.byte 0x147) with
    | error e => rfl
    | ok controller =>
      cases Header.romSizeOfCode (rom.byte 0x148) with
      | error e => rfl
      | ok romSize => cases Header.ramSizeOfCode (rom.byte 0x149) <;> rfl

end Bounded

/-! ## Cartridges that have been loaded -/

namespace Cartridge

/-- A cartridge was loaded from an image, and has been accessed in some way since. -/
def IsLoaded (c : Cartridge) : Prop :=
  ∃ bytes c₀ accesses, load bytes = .ok c₀ ∧ c = c₀.after accesses

variable {c : Cartridge}

theorem IsLoaded.writeRom (h : c.IsLoaded) (address : UInt16) (value : UInt8) :
    (c.writeRom address value).2.IsLoaded := by
  obtain ⟨bytes, c₀, accesses, hload, rfl⟩ := h
  exact ⟨bytes, c₀, .writeRom address value :: accesses, hload, rfl⟩

theorem IsLoaded.writeRam (h : c.IsLoaded) (address : UInt16) (value : UInt8) :
    (c.writeRam address value).IsLoaded := by
  obtain ⟨bytes, c₀, accesses, hload, rfl⟩ := h
  exact ⟨bytes, c₀, .writeRam address value :: accesses, hload, rfl⟩

/-- The controller is of the family that the header names, with the registers of some history, and
the RAM has the size that the header declares for that family. -/
theorem IsLoaded.state (h : c.IsLoaded) : (∃ switchable history,
    c.mapper = .after switchable history c.header.controller) ∧
      c.ram.size = ramSizeOf c.header := by
  obtain ⟨bytes, c₀, accesses, hload, rfl⟩ := h
  obtain ⟨ram, hsize, hafter⟩ := (isNew_of_load hload).after_eq accesses
  rw [hafter]
  exact ⟨⟨_, _, rfl⟩, hsize.trans (load_ram_size hload)⟩

/-- With a controller the whole RAM that the header declares is there. -/
theorem IsLoaded.ram_size (h : c.IsLoaded) (hmapper : c.mapper ≠ .unbanked) :
    c.ram.size = c.header.ramSize := by
  obtain ⟨⟨switchable, history, hafter⟩, hsize⟩ := h.state
  rw [hsize, ramSizeOf]
  cases hcontroller : c.header.controller with
  | mbc0 =>
    rw [hcontroller] at hafter
    exact absurd hafter hmapper
  | mbc1 | mbc3 | mbc5 => rfl

theorem IsLoaded.low_bounds (h : c.IsLoaded) {m : Mbc1} (hmapper : c.mapper = .mbc1 m) :
    1 ≤ m.low.toNat ∧ m.low.toNat < 2 ^ 5 := by
  obtain ⟨⟨switchable, history, hafter⟩, -⟩ := h.state
  rw [hmapper] at hafter
  cases hcontroller : c.header.controller with
  | mbc1 =>
    rw [hcontroller] at hafter
    obtain rfl := Mapper.mbc1.inj hafter
    exact Mbc1.lowAfter_bounds history
  | mbc0 | mbc3 | mbc5 =>
    rw [hcontroller] at hafter
    cases hafter

end Cartridge

namespace Bounded

variable {c : Cartridge}

/-! ## ROM -/

/-- The number of whole ROM banks, at least one. -/
def romBanks (c : Cartridge) : Nat := max (c.rom.size / romBankSize) 1

/-- A bank number on the address lines that a ROM of so many banks has. -/
def onLines (bank banks : Nat) : Bounded Nat := do
  return bank &&& (← difference banks.nextPowerOfTwo 1)

/-- The ROM bank that is seen at an address. -/
def romBank (c : Cartridge) (address : UInt16) : Bounded Nat := do
  match c.mapper with
  | .unbanked => return address.toNat >>> 14
  | .mbc1 m =>
    let high := m.high.toNat <<< 5
    if address < 0x4000 then
      match m.mode with
      | .simple => return 0
      | .advanced => onLines high (romBanks c)
    else
      let bank := high ||| m.low.toNat
      if bank &&& 0x1F = 0 then onLines (bank + 1) (romBanks c)
      else onLines bank (romBanks c)
  | .mbc3 m =>
    if address < 0x4000 then return 0
    else onLines m.bank.toNat (romBanks c)
  | .mbc5 m =>
    if address < 0x4000 then return 0
    else remainder (m.high.toNat <<< 8 ||| m.low.toNat) (romBanks c)

/-- Read the ROM. There need not be a byte at the place, which is looked up first. -/
def readRom (c : Cartridge) (address : UInt16) : Bounded UInt8 := do
  let bank ← romBank c address
  let i := bank * romBankSize + (address.toNat &&& 0x3FFF)
  if i < c.rom.size then byteAt c.rom.bytes i
  else return 0xFF

theorem romBanks_eq (c : Cartridge) : romBanks c = c.rom.banks := by
  have hbanks : 0x8000 / romBankSize ≤ c.rom.banks := Nat.div_le_div_right c.rom.two_banks
  exact Nat.max_eq_left (Nat.le_of_succ_le hbanks)

/-- The number of address lines is rounded up, so that it is never zero. -/
theorem onLines_eq (bank banks : Nat) : onLines bank banks = .ok (bank % banks.nextPowerOfTwo) := by
  have hpos : 1 ≤ 2 ^ Nat.clog 2 banks := Nat.one_le_two_pow
  rw [onLines, nextPowerOfTwo_eq, difference_ok hpos, ok_bind, Nat.and_two_pow_sub_one_eq_mod]
  rfl

theorem romBank_eq (h : c.IsLoaded) (address : UInt16) :
    romBank c address = .ok (c.romBank address) := by
  have hbanks := romBanks_eq c
  unfold romBank Cartridge.romBank
  cases hmapper : c.mapper with
  | unbanked =>
    simp only [pure_eq_ok, Nat.shiftRight_eq_div_pow]
    rfl
  | mbc1 m =>
    obtain ⟨hpos, hlow⟩ := h.low_bounds hmapper
    have hselected := Mbc1.selected_eq hpos hlow
    have hnonzero : ¬ m.selected &&& 0x1F = 0 := by
      rw [Nat.and_two_pow_sub_one_eq_mod m.selected 5, Mbc1.selected, Nat.max_eq_right hpos]
      omega
    simp only [← hselected, if_neg hnonzero]
    simp only [hbanks, onLines_eq, pure_eq_ok, Mbc1.romBank, Mbc1.onLines, Nat.shiftLeft_eq]
    cases m.mode <;> split <;> rfl
  | mbc3 m =>
    simp only [hbanks, onLines_eq, pure_eq_ok, Mbc3.romBank]
    split <;> rfl
  | mbc5 m =>
    have hpos : 0 < c.rom.banks := by
      rw [← hbanks]
      exact Nat.lt_of_lt_of_le Nat.zero_lt_one (Nat.le_max_right _ _)
    have hbank : m.high.toNat <<< 8 ||| m.low.toNat = m.high.toNat * 256 + m.low.toNat := by
      rw [← Nat.shiftLeft_add_eq_or_of_lt m.low.toNat_lt, Nat.shiftLeft_eq]
    simp only [hbanks, hbank, remainder_ok hpos, pure_eq_ok, Mbc5.romBank]
    split <;> rfl

theorem readRom_eq (h : c.IsLoaded) (address : UInt16) :
    readRom c address = .ok (c.readRom address) := by
  have hplace : address.toNat &&& 0x3FFF = address.toNat % romBankSize :=
    Nat.and_two_pow_sub_one_eq_mod address.toNat 14
  rw [readRom, romBank_eq h, ok_bind, hplace, Cartridge.readRom, RomImage.bankByte]
  by_cases hi : c.romBank address * romBankSize + address.toNat % romBankSize < c.rom.size
  · rw [if_pos hi, byteAt_ok hi, getElem?_pos c.rom.bytes _ hi]
    rfl
  · rw [if_neg hi, getElem?_neg c.rom.bytes _ hi]
    rfl

/-- Write where the ROM is seen. The registers are written without any access; where the bank that
is now in the upper window is reported, it is computed. -/
def writeRom (c : Cartridge) (address : UInt16) (value : UInt8) :
    Bounded (Option Notice × Cartridge) := do
  let (notice, written) := c.writeRom address value
  match written.mapper with
  | .mbc1 m =>
    if address.toNat / 0x2000 = 1 then
      let bank ← romBank written 0x4000
      let notice : Notice :=
        ⟨.debug, s!"MBC1: ROM bank low=0x{Text.hexByte m.low} -> bank 0x{Text.hex 2 bank}"⟩
      return (some notice, written)
    else return (notice, written)
  | .mbc5 _ =>
    if address.toNat / 0x1000 = 2 ∨ address.toNat / 0x1000 = 3 then
      let bank ← romBank written 0x4000
      let notice : Notice := ⟨.debug, s!"MBC5: ROM bank 0x{Text.hex 3 bank}"⟩
      return (some notice, written)
    else return (notice, written)
  | _ => return (notice, written)

theorem writeRom_eq (h : c.IsLoaded) (address : UInt16) (value : UInt8) :
    writeRom c address value = .ok (c.writeRom address value) := by
  have hbank := romBank_eq (h.writeRom address value) 0x4000
  obtain ⟨header, rom, ram, mapper⟩ := c
  cases mapper with
  | unbanked | mbc3 m => rfl
  | mbc1 m =>
    by_cases hpage : address.toNat / 0x2000 = 1
    · simp only [Cartridge.writeRom, Mbc1.write, hpage] at hbank
      simp only [writeRom, Cartridge.writeRom, Mbc1.write, hpage, if_true, hbank, ok_bind,
        pure_eq_ok]
      rfl
    · simp only [writeRom, if_neg hpage, pure_eq_ok]
      rfl
  | mbc5 m =>
    by_cases hpage : address.toNat / 0x1000 = 2 ∨ address.toNat / 0x1000 = 3
    · rcases hpage with hpage | hpage
      all_goals
        simp only [Cartridge.writeRom, Mbc5.write, hpage] at hbank
        simp only [writeRom, Cartridge.writeRom, Mbc5.write, hpage, hbank, ok_bind, pure_eq_ok]
        rfl
    · simp only [writeRom, if_neg hpage, pure_eq_ok]
      rfl

/-! ## RAM -/

/-- The number of whole banks of the RAM that the header declares. -/
def ramBanks (c : Cartridge) : Nat := c.header.ramSize / ramBankSize

/-- The place of an address in a bank of the RAM, if there is a byte at it. -/
def ramPlace? (c : Cartridge) (bank : Nat) (address : UInt16) : Option Nat :=
  let i := bank * ramBankSize + ((address - 0xA000).toNat &&& 0x1FFF)
  if i < c.ram.size then some i else none

/-- The place in the RAM that is seen at an address, if there is one. -/
def ramPlace (c : Cartridge) (address : UInt16) : Bounded (Option Nat) := do
  match c.mapper with
  | .unbanked =>
    let i := (address - 0xA000).toNat
    return if i < c.ram.size then some i else none
  | .mbc1 m =>
    if m.ramEnabled then
      if c.ram.size ≤ 8 * 1024 then return ramPlace? c 0 address
      else return ramPlace? c (← remainder m.ramBank.toNat (max (ramBanks c) 1)) address
    else return none
  | .mbc3 m =>
    if m.ramEnabled then
      if m.select ≤ 3 ∧ 0 < ramBanks c then
        return ramPlace? c (← remainder m.select.toNat (ramBanks c)) address
      else return none
    else return none
  | .mbc5 m =>
    if m.ramEnabled then
      return ramPlace? c (← remainder m.ramBank.toNat (max (ramBanks c) 1)) address
    else return none

/-- Read the RAM. -/
def readRam (c : Cartridge) (address : UInt16) : Bounded UInt8 := do
  match ← ramPlace c address with
  | some i => load c.ram i
  | none => return 0xFF

/-- Write the RAM. -/
def writeRam (c : Cartridge) (address : UInt16) (value : UInt8) : Bounded Cartridge := do
  match ← ramPlace c address with
  | some i => return { c with ram := ← store c.ram i value }
  | none => return c

theorem ramBanks_eq (h : c.IsLoaded) (hmapper : c.mapper ≠ .unbanked) :
    ramBanks c = c.ramBanks := by
  rw [ramBanks, ← h.ram_size hmapper]
  rfl

theorem ramPlace?_eq (c : Cartridge) (bank : Nat) (address : UInt16) :
    ramPlace? c bank address = if Cartridge.bankOffset bank address < c.ram.size then
      some (Cartridge.bankOffset bank address) else none := by
  have hoffset : (address - 0xA000).toNat &&& 0x1FFF = address.toNat % ramBankSize := by
    have := address.toNat_lt
    rw [Nat.and_two_pow_sub_one_eq_mod _ 13, UInt16.toNat_sub]
    change (2 ^ 16 - 0xA000 + address.toNat) % 2 ^ 16 % 2 ^ 13 = address.toNat % 0x2000
    omega
  rw [ramPlace?, hoffset]
  rfl

theorem ramIndex?_eq (c : Cartridge) (address : UInt16) : (c.ramIndex? address).map Fin.val =
    (c.ramOffset? address).bind fun i => if i < c.ram.size then some i else none := by
  unfold Cartridge.ramIndex?
  cases c.ramOffset? address with
  | none => rfl
  | some i =>
    by_cases hi : i < c.ram.size
    · simp [hi]
    · simp [hi]

/-- Counted at least as one, the banks can always be a divisor. -/
theorem remainder_max_one (bank banks : Nat) :
    remainder bank (max banks 1) = .ok (bank % max 1 banks) := by
  rw [Nat.max_comm, remainder_ok (Nat.lt_of_lt_of_le Nat.zero_lt_one (Nat.le_max_left 1 banks))]

theorem ramPlace_eq (h : c.IsLoaded) (address : UInt16) :
    ramPlace c address = .ok ((c.ramIndex? address).map Fin.val) := by
  rw [ramIndex?_eq]
  unfold ramPlace Cartridge.ramOffset?
  cases hmapper : c.mapper with
  | unbanked => rfl
  | mbc1 m =>
    have hbanks := ramBanks_eq h (by simp [hmapper])
    simp only [hbanks, remainder_max_one, ramPlace?_eq, ok_bind, pure_eq_ok, Mbc1.ramBankOf]
    cases m.ramEnabled with
    | false => rfl
    | true => by_cases hsmall : c.ram.size ≤ 8 * 1024 <;> simp [hsmall]
  | mbc3 m =>
    have hbanks := ramBanks_eq h (by simp [hmapper])
    simp only [hbanks, ramPlace?_eq, pure_eq_ok, Mbc3.ramBank?]
    cases m.ramEnabled with
    | false => rfl
    | true =>
      by_cases hselect : m.select ≤ 3 ∧ 0 < c.ramBanks
      · simp [hselect, remainder_ok hselect.2]
      · simp [hselect]
  | mbc5 m =>
    have hbanks := ramBanks_eq h (by simp [hmapper])
    simp only [hbanks, remainder_max_one, ramPlace?_eq, ok_bind, pure_eq_ok, Mbc5.ramBankOf]
    cases m.ramEnabled <;> rfl

theorem readRam_eq (h : c.IsLoaded) (address : UInt16) :
    readRam c address = .ok (c.readRam address) := by
  rw [readRam, ramPlace_eq h, ok_bind, Cartridge.readRam]
  cases c.ramIndex? address with
  | none => rfl
  | some i => exact load_val c.ram i

theorem writeRam_eq (h : c.IsLoaded) (address : UInt16) (value : UInt8) :
    writeRam c address value = .ok (c.writeRam address value) := by
  rw [writeRam, ramPlace_eq h, ok_bind, Cartridge.writeRam]
  cases c.ramIndex? address with
  | none => rfl
  | some i =>
    simp only [Option.map_some, store_val, ok_bind]
    rfl

end Bounded

end GameBoy
