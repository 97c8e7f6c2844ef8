import GameBoy.Console

/-!
# Setting up

What is accepted as a cartridge and as a boot program, and what a cartridge and a console are like
when they have just been set up. Main statements: `Cartridge.load_eq_ok` and `Console.build_eq_ok`.
-/

namespace GameBoy

/-! ## Cartridges -/

theorem RomImage.ofBytes_eq_ok {bytes : ByteArray} {rom : RomImage} :
    RomImage.ofBytes bytes = .ok rom ↔ rom.bytes = bytes := by
  obtain ⟨bytes', two_banks⟩ := rom
  unfold ofBytes
  split
  · rename_i hsmall
    simp only [reduceCtorEq, false_iff]
    rintro rfl
    omega
  · simp only [Except.ok.injEq, mk.injEq]
    exact eq_comm

/-- A header is that of an image whose three codes have a meaning. -/
theorem Header.ofImage_eq_ok {rom : RomImage} {header : Header} :
    Header.ofImage rom = .ok header ↔ ∃ controller romSize ramSize,
      Controller.ofCode (rom.byte 0x147) = .ok controller ∧
      romSizeOfCode (rom.byte 0x148) = .ok romSize ∧
      ramSizeOfCode (rom.byte 0x149) = .ok ramSize ∧
      header = {
        title := titleText (titleBytes rom)
        typeCode := rom.byte 0x147
        controller, romSize, ramSize
        checksum := rom.byte 0x14D
        computed := checksumOf (checkedBytes rom) } := by
  simp only [ofImage, bind, Except.bind, pure, Except.pure]
  cases Controller.ofCode (rom.byte 0x147) with
  | error e => simp
  | ok controller =>
    cases romSizeOfCode (rom.byte 0x148) with
    | error e => simp
    | ok romSize => cases ramSizeOfCode (rom.byte 0x149) <;> simp [eq_comm]

namespace Cartridge

theorem ofImage_eq_ok {rom : RomImage} {c : Cartridge} :
    ofImage rom = .ok c ↔ ∃ header, Header.ofImage rom = .ok header ∧
      c = ⟨header, rom, Array.replicate (ramSizeOf header) 0xFF, .initial header.controller⟩ := by
  simp only [ofImage, bind, Except.bind, pure, Except.pure]
  cases Header.ofImage rom <;> simp [eq_comm]

/-- A cartridge is loaded from an image of at least two banks, whose header it has, with all its RAM
filled with `FF` and its controller in the initial state. -/
theorem load_eq_ok {bytes : ByteArray} {c : Cartridge} :
    load bytes = .ok c ↔ ∃ rom header, rom.bytes = bytes ∧ Header.ofImage rom = .ok header ∧
      c = ⟨header, rom, Array.replicate (ramSizeOf header) 0xFF, .initial header.controller⟩ := by
  simp only [load, bind, Except.bind]
  cases hrom : RomImage.ofBytes bytes with
  | error e =>
    simp only [reduceCtorEq, false_iff]
    rintro ⟨rom, _, hbytes, -⟩
    rw [RomImage.ofBytes_eq_ok.2 hbytes] at hrom
    cases hrom
  | ok rom =>
    simp only [ofImage_eq_ok]
    constructor
    · rintro ⟨header, hheader, rfl⟩
      exact ⟨rom, header, RomImage.ofBytes_eq_ok.1 hrom, hheader, rfl⟩
    · rintro ⟨rom', header, hbytes, hheader, rfl⟩
      rw [RomImage.ofBytes_eq_ok.2 hbytes] at hrom
      obtain rfl := Except.ok.inj hrom
      exact ⟨header, hheader, rfl⟩

theorem load_ram_size {bytes : ByteArray} {c : Cartridge} (hload : load bytes = .ok c) :
    c.ram.size = ramSizeOf c.header := by
  obtain ⟨rom, header, -, -, rfl⟩ := load_eq_ok.1 hload
  exact Array.size_replicate

end Cartridge

/-! ## Images to load -/

/-- An image in which every byte is the number of its bank, apart from the type code. -/
def RomImage.numbered (banks : Nat) (h : 2 ≤ banks) (code : UInt8) : RomImage where
  bytes := ⟨Array.ofFn fun i : Fin (banks * romBankSize) =>
    if i.val = 0x147 then code else (i.val / romBankSize).toUInt8⟩
  two_banks := by
    simp only [ByteArray.size, Array.size_ofFn, romBankSize]
    omega

theorem RomImage.size_numbered {banks : Nat} (h : 2 ≤ banks) (code : UInt8) :
    (numbered banks h code).bytes.size = banks * romBankSize := by
  simp only [numbered, ByteArray.size, Array.size_ofFn]

theorem RomImage.getElem_numbered {banks : Nat} (h : 2 ≤ banks) (code : UInt8) {i : Nat}
    (hi : i < (numbered banks h code).bytes.size) :
    (numbered banks h code).bytes[i] =
      if i = 0x147 then code else (i / romBankSize).toUInt8 := by
  simp only [numbered, ByteArray.getElem_eq_getElem_data, Array.getElem_ofFn]

theorem RomImage.byte_numbered {banks : Nat} (h : 2 ≤ banks) (code : UInt8) (i : Fin 0x8000) :
    (numbered banks h code).byte i =
      if i.val = 0x147 then code else (i.val / romBankSize).toUInt8 :=
  getElem_numbered h code _

/-- The first byte of each bank is its number. -/
theorem RomImage.first_numbered {banks : Nat} (h : 2 ≤ banks) (code : UInt8) {bank : Nat}
    (hbank : bank < banks) :
    (numbered banks h code).bytes[bank * romBankSize]?.getD 0xFF = bank.toUInt8 := by
  have hplace : bank * romBankSize < (numbered banks h code).bytes.size := by
    rw [size_numbered]
    exact Nat.mul_lt_mul_of_pos_right hbank (by decide)
  have hother : bank * romBankSize ≠ 0x147 := by
    rw [romBankSize]
    omega
  rw [getElem?_pos (numbered banks h code).bytes _ hplace, getElem_numbered, if_neg hother,
    Nat.mul_div_cancel bank (by decide), Option.getD_some]

/-- Past the last bank there is nothing. -/
theorem RomImage.past_numbered {banks : Nat} (h : 2 ≤ banks) (code : UInt8) {bank : Nat}
    (hbank : banks ≤ bank) :
    (numbered banks h code).bytes[bank * romBankSize]?.getD 0xFF = 0xFF := by
  have hend : ¬ bank * romBankSize < (numbered banks h code).bytes.size := by
    rw [size_numbered]
    exact Nat.not_lt.2 (Nat.mul_le_mul_right romBankSize hbank)
  rw [getElem?_neg (numbered banks h code).bytes _ hend, Option.getD_none]

/-- The first bank has the number zero, which is a code of both sizes. -/
theorem Cartridge.load_numbered {banks : Nat} (h : 2 ≤ banks) {code : UInt8}
    {controller : Controller} (hcode : Controller.ofCode code = .ok controller) :
    ∃ c, load (RomImage.numbered banks h code).bytes = .ok c ∧
      c.header.controller = controller ∧ c.header.ramSize = 0 := by
  refine ⟨_, load_eq_ok.2 ⟨.numbered banks h code, _, rfl, Header.ofImage_eq_ok.2
    ⟨controller, 0x8000, 0, ?_, ?_, ?_, rfl⟩, rfl⟩, rfl, rfl⟩
  all_goals rw [RomImage.byte_numbered]
  · exact hcode
  · rfl
  · rfl

/-- The smallest image with the given codes, all of whose other bytes are zero. -/
def RomImage.blank (code ramCode : UInt8) : RomImage where
  bytes := ⟨Array.ofFn fun i : Fin 0x8000 =>
    if i.val = 0x147 then code else if i.val = 0x149 then ramCode else 0⟩
  two_banks := by simp only [ByteArray.size, Array.size_ofFn, Nat.le_refl]

theorem RomImage.byte_blank (code ramCode : UInt8) (i : Fin 0x8000) :
    (blank code ramCode).byte i =
      if i.val = 0x147 then code else if i.val = 0x149 then ramCode else 0 := by
  simp only [byte, blank, ByteArray.getElem_eq_getElem_data, Array.getElem_ofFn]

theorem Cartridge.load_blank (code ramCode : UInt8) {controller : Controller} {ramSize : Nat}
    (hcode : Controller.ofCode code = .ok controller)
    (hram : Header.ramSizeOfCode ramCode = .ok ramSize) :
    ∃ c, load (RomImage.blank code ramCode).bytes = .ok c ∧
      c.header.controller = controller ∧ c.header.ramSize = ramSize := by
  refine ⟨_, load_eq_ok.2 ⟨.blank code ramCode, _, rfl, Header.ofImage_eq_ok.2
    ⟨controller, 0x8000, ramSize, ?_, ?_, ?_, rfl⟩, rfl⟩, rfl, rfl⟩
  all_goals rw [RomImage.byte_blank]
  · exact hcode
  · rfl
  · exact hram

/-! ## Consoles -/

/-- What the memory starts with, apart from the noise. -/
theorem Memory.start_eq (cartridge : Option Cartridge)
    (bootRom : Option (Vector UInt8 bootRomSize)) :
    ∃ wram hram, start cartridge bootRom = {
      overlay := bootRom
      cartridge, wram, hram
      vram := Vector.replicate 0x2000 0
      oam := Vector.replicate 0xA0 0
      io := if bootRom.isSome then Vector.replicate 0x80 0 else bootedIo
      requested := if bootRom.isSome then 0 else 1
      enabled := 0
      lines := .initial } := by
  unfold start
  generalize Noise.vector 0x2000 Noise.seed = work
  obtain ⟨wram, x⟩ := work
  simp only
  generalize Noise.vector 0x7F x = high
  exact ⟨wram, high.1, rfl⟩

namespace Console

variable {cartridge : Option Cartridge} {config : Config} {console : Console}

theorem build_eq_ok :
    build cartridge config = .ok console ↔ ∃ boot, bootImage? config = .ok boot ∧
      console = Machine.start (startCpu config boot.isSome) (Memory.start cartridge boot) := by
  simp only [build, bind, Except.bind, pure, Except.pure]
  cases bootImage? config <;> simp [eq_comm]

theorem cartridge_build (h : build cartridge config = .ok console) :
    console.bus.cartridge = cartridge := by
  obtain ⟨boot, -, rfl⟩ := build_eq_ok.1 h
  obtain ⟨_, _, hmemory⟩ := Memory.start_eq cartridge boot
  rw [Machine.start, hmemory]

/-- A boot program of the right size is accepted. -/
theorem build_isOk (cartridge : Option Cartridge)
    (h : ∀ image ∈ config.bootRom, image.size = bootRomSize) :
    ∃ console, build cartridge config = .ok console := by
  obtain ⟨boot, hboot⟩ : ∃ boot, bootImage? config = .ok boot := by
    simp only [bootImage?]
    cases hboot : config.bootRom with
    | none => exact ⟨none, rfl⟩
    | some image =>
      have hsize : image.data.size = bootRomSize := h image hboot
      simp only [bootImage, dif_pos hsize, Except.map]
      exact ⟨_, rfl⟩
  exact ⟨_, build_eq_ok.2 ⟨boot, hboot, rfl⟩⟩

/-- A boot program of these bytes, with zeros after them. -/
def bootProgram (bytes : List UInt8) : Vector UInt8 bootRomSize := .ofFn fun i => bytes.getD i 0

theorem build_boot (cartridge : Option Cartridge) (image : Vector UInt8 bootRomSize)
    (stepLimit : Option Nat) : build cartridge ⟨some ⟨image.toArray⟩, stepLimit, false⟩ = .ok
      (Machine.start (startCpu ⟨some ⟨image.toArray⟩, stepLimit, false⟩ true)
        (Memory.start cartridge (some image))) := by
  refine build_eq_ok.2 ⟨some image, ?_, rfl⟩
  simp only [bootImage?, bootImage, dif_pos image.size_toArray]
  rfl

/-- A console with the cartridge of an image is set up as one with a cartridge, after the notices of
loading it. -/
theorem ofRom_eq_ok {rom : ByteArray} {cartridge : Cartridge} {journal : Journal}
    (hload : Cartridge.load rom = .ok cartridge)
    (hbuild : build (some cartridge) config = .ok console) :
    ofRom rom config journal = .ok console (journal.appendList cartridge.loadNotices) := by
  simp only [ofRom, hload, bind, EStateM.bind, hbuild]
  rfl

end Console

end GameBoy
