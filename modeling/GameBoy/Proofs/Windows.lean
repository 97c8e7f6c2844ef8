import GameBoy.Proofs.RamBanking

/-!
# What the windows show

A processor sees a cartridge through three windows: bank zero of the ROM, another bank of the ROM,
and a bank of the RAM. Which banks these are depends on the writes to the controller alone, whatever
has been read and whatever is in the RAM. MBC3 and MBC5 divide the same addresses between their
registers in different ways: MBC3 has one number, which is never zero and wraps on the address lines
of the ROM; MBC5 has one in two parts, which may be zero and wraps on the number of banks.

Main statement: `Cartridge.mbc3_mbc5_banking`.
-/

namespace GameBoy

open RomHistory

/-! ## The registers -/

/-- The block of an address beyond the registers of MBC3 and MBC5. -/
theorem block_inert {address : UInt16} (h : 0x6000 ≤ address) : 3 ≤ address.toNat / 0x2000 := by
  have h' : 0x6000 ≤ address.toNat := UInt16.le_iff_toNat_le.1 h
  omega

namespace Mbc3

variable (m : Mbc3) (banks : Nat) {address : UInt16} (value : UInt8)

theorem write_inert (h : 0x6000 ≤ address) : m.write address value = (none, m) := by
  have hblock := block_inert h
  unfold write
  split
  case h_4 => rfl
  all_goals omega

theorem romBank_lower (h : address < 0x4000) : m.romBank banks address = 0 := by
  rw [romBank, if_pos h]

theorem romBank_upper (h : 0x4000 ≤ address) :
    m.romBank banks address = m.bank.toNat % 2 ^ Nat.clog 2 banks := by
  have hupper : ¬ address < 0x4000 := UInt16.not_lt.2 h
  rw [romBank, if_neg hupper, nextPowerOfTwo_eq]

end Mbc3

namespace Mbc5

variable (m : Mbc5) (banks : Nat) {address : UInt16} (value : UInt8)

theorem write_inert (h : 0x6000 ≤ address) : m.write banks address value = (none, m) := by
  have hblock := block_inert h
  unfold write
  split
  case h_7 => rfl
  all_goals omega

theorem romBank_lower (h : address < 0x4000) : m.romBank banks address = 0 := by
  rw [romBank, if_pos h]

theorem romBank_upper (h : 0x4000 ≤ address) :
    m.romBank banks address = (256 * m.high.toNat + m.low.toNat) % banks := by
  have hupper : ¬ address < 0x4000 := UInt16.not_lt.2 h
  rw [romBank, if_neg hupper, Nat.mul_comm]

end Mbc5

namespace Cartridge

variable {bytes : ByteArray} {c : Cartridge} {accesses : List Access}

/-! ## The windows -/

/-- What is seen of a cartridge with the given image: bank zero of the ROM, the ROM bank `bank` with
`FF` past the end of the image, and the RAM bank `ramBank`, where one is selected. A write where the
RAM is seen reaches that bank, at the place of the address in it, and no other byte. -/
structure Shows (c : Cartridge) (bytes : ByteArray) (bank : Nat) (ramBank : Option Nat) : Prop where
  lower (address : UInt16) : address < 0x4000 → bytes[address.toNat]? = some (c.readRom address)
  upper (address : UInt16) : 0x4000 ≤ address → address < 0x8000 →
    c.readRom address = bytes[bank * 0x4000 + (address.toNat - 0x4000)]?.getD 0xFF
  readRam (address : UInt16) :
    c.readRam address = (ramBank.bind (c.ramByte? · (address.toNat % 0x2000))).getD 0xFF
  writeRam (address : UInt16) (value : UInt8) (other offset : Nat) : offset < 0x2000 →
    (c.writeRam address value).ramByte? other offset =
      if ramBank = some other ∧ address.toNat % 0x2000 = offset then
        (c.ramByte? other offset).map fun _ => value
      else c.ramByte? other offset

/-- What a cartridge shows follows from the banks that its controller selects. -/
theorem shows_of_banks {bank : Nat} {ramBank : Option Nat} (hbytes : c.rom.bytes = bytes)
    (hwhole : c.WholeBanks) (hlower : ∀ address, address < 0x4000 → c.romBank address = 0)
    (hupper : ∀ address, 0x4000 ≤ address → c.romBank address = bank)
    (hram : ∀ address, c.bankAt? address = ramBank) : c.Shows bytes bank ramBank := by
  subst hbytes
  constructor
  · intro address haddress
    have hsmall : address.toNat < 0x4000 := UInt16.lt_iff_toNat_lt.1 haddress
    have hplace : address.toNat < c.rom.bytes.size :=
      Nat.lt_of_lt_of_le (Nat.lt_trans hsmall (by decide)) c.rom.two_banks
    have hoffset : 0 * romBankSize + address.toNat % romBankSize = address.toNat := by
      rw [Nat.zero_mul, Nat.zero_add]
      exact Nat.mod_eq_of_lt hsmall
    rw [readRom, hlower address haddress, RomImage.bankByte, hoffset,
      getElem?_pos c.rom.bytes address.toNat hplace, Option.getD_some]
  · intro address hstart hend
    have hoffset : address.toNat % romBankSize = address.toNat - 0x4000 := by
      have hstart' : 0x4000 ≤ address.toNat := UInt16.le_iff_toNat_le.1 hstart
      have hend' : address.toNat < 0x8000 := UInt16.lt_iff_toNat_lt.1 hend
      rw [romBankSize]
      omega
    rw [readRom, hupper address hstart, RomImage.bankByte, hoffset]
    rfl
  · intro address
    rw [hwhole.readRam_eq, hram]
    rfl
  · intro address value other offset hoffset
    rw [hwhole.ramByte?_writeRam address value other hoffset, hram]
    rfl

/-- Where a controller has no register, a write changes nothing. -/
theorem writeRom_inert (hmapper : (∃ m, c.mapper = .mbc3 m) ∨ ∃ m, c.mapper = .mbc5 m)
    {address : UInt16} (h : 0x6000 ≤ address) (value : UInt8) :
    (c.writeRom address value).2 = c := by
  obtain ⟨header, rom, ram, mapper⟩ := c
  rcases hmapper with ⟨m, hm⟩ | ⟨m, hm⟩
  · obtain rfl : mapper = .mbc3 m := hm
    simp only [writeRom, m.write_inert value h]
  · obtain rfl : mapper = .mbc5 m := hm
    simp only [writeRom, m.write_inert rom.banks value h]

/-! ## After any accesses -/

theorem load_bytes (hload : load bytes = .ok c) : c.rom.bytes = bytes := by
  obtain ⟨rom, header, hbytes, -, rfl⟩ := load_eq_ok.1 hload
  exact hbytes

/-- The number of banks of a RAM that a controller divides. -/
theorem load_ramBanks (hload : load bytes = .ok c) (hbanked : c.header.controller ≠ .mbc0) :
    c.ramBanks = c.header.ramSize / 0x2000 := by
  rw [ramBanks, load_ram_size hload, ramSizeOf]
  cases hcontroller : c.header.controller with
  | mbc0 => exact absurd hcontroller hbanked
  | mbc1 | mbc3 | mbc5 => rfl

theorem IsNew.mapper_after (hnew : c.IsNew) (accesses : List Access) : (c.after accesses).mapper =
    .after (Mbc1.isSwitchable c.rom.size c.ram.size) (romWrites accesses)
      c.header.controller := by
  obtain ⟨ram, -, heq⟩ := hnew.after_eq accesses
  rw [heq]
  rfl

theorem IsNew.rom_after (hnew : c.IsNew) (accesses : List Access) :
    (c.after accesses).rom = c.rom := by
  obtain ⟨ram, -, heq⟩ := hnew.after_eq accesses
  rw [heq]
  rfl

/-- What a cartridge with a controller shows after any accesses follows from the state that the
writes have left the controller in. -/
theorem shows_after (hload : load bytes = .ok c) (hbanked : c.header.controller ≠ .mbc0)
    {mapper : Mapper} {bank : Nat} {ramBank : Option Nat}
    (hmapper : .after (Mbc1.isSwitchable c.rom.size c.ram.size) (romWrites accesses)
      c.header.controller = mapper)
    (hlower : ∀ address, address < 0x4000 → { c with mapper }.romBank address = 0)
    (hupper : ∀ address, 0x4000 ≤ address → { c with mapper }.romBank address = bank)
    (hram : mapper.ramBank? (c.header.ramSize / 0x2000) = ramBank) :
    (c.after accesses).Shows bytes bank ramBank := by
  have hnew := isNew_of_load hload
  have hbank (address : UInt16) :
      (c.after accesses).romBank address = { c with mapper }.romBank address := by
    simp only [romBank, hnew.mapper_after, hnew.rom_after, hmapper]
  refine shows_of_banks ?_ (hnew.wholeBanks_after accesses) ?_ ?_ fun address => ?_
  · rw [hnew.rom_after, load_bytes hload]
  · exact fun address haddress => (hbank address).trans (hlower address haddress)
  · exact fun address haddress => (hbank address).trans (hupper address haddress)
  · rw [hnew.bankAt?_after, if_neg fun hout => hbanked hout.1, ramBank?, banked, hmapper,
      load_ramBanks hload hbanked, hram]

theorem shows_mbc3 (hload : load bytes = .ok c) (hmbc3 : c.header.controller = .mbc3) :
    (c.after accesses).Shows bytes
      ((Mbc3.bankAfter (romWrites accesses)).toNat % 2 ^ Nat.clog 2 (bytes.size / 0x4000))
      (if Mbc1.ramEnabledAfter (romWrites accesses) ∧ Mbc3.selectAfter (romWrites accesses) ≤ 3 then
        some ((Mbc3.selectAfter (romWrites accesses)).toNat % (c.header.ramSize / 0x2000))
      else none) := by
  have hmapper := congrArg
    (Mapper.after (Mbc1.isSwitchable c.rom.size c.ram.size) (romWrites accesses)) hmbc3
  refine shows_after hload (by rw [hmbc3]; decide) hmapper ?_ ?_ rfl
  · exact fun address => Mbc3.romBank_lower _ _
  · intro address haddress
    rw [← load_bytes hload]
    exact Mbc3.romBank_upper _ _ haddress

theorem shows_mbc5 (hload : load bytes = .ok c) (hmbc5 : c.header.controller = .mbc5) :
    (c.after accesses).Shows bytes
      ((256 * (Mbc5.highAfter (romWrites accesses)).toNat +
        (Mbc5.lowAfter (romWrites accesses)).toNat) % (bytes.size / 0x4000))
      (if Mbc1.ramEnabledAfter (romWrites accesses) then
        some ((Mbc5.ramBankAfter (romWrites accesses)).toNat % (c.header.ramSize / 0x2000))
      else none) := by
  have hmapper := congrArg
    (Mapper.after (Mbc1.isSwitchable c.rom.size c.ram.size) (romWrites accesses)) hmbc5
  refine shows_after hload (by rw [hmbc5]; decide) hmapper ?_ ?_ rfl
  · exact fun address => Mbc5.romBank_lower _ _
  · intro address haddress
    rw [← load_bytes hload]
    exact Mbc5.romBank_upper _ _ haddress

/-- What a cartridge with MBC3 or MBC5 shows after any accesses is a function of the writes to its
registers. Bank zero is in the lower window. In the upper one MBC3 shows the bank of the seven low
bits that were written last, with one in the place of zero, on as many address lines as the whole
banks need; MBC5 shows the bank of the two parts that were written last, modulo the number of whole
banks. The RAM is enabled by the last value written to enable it, and its bank is the last one
written, modulo the number of banks, where MBC3 selects none with numbers above three and MBC5 keeps
four bits. From 6000 on there are no registers. -/
theorem mbc3_mbc5_banking (hload : load bytes = .ok c) (accesses : List Access) :
    let history := romWrites accesses
    let banks := bytes.size / 0x4000
    let ramBanks := c.header.ramSize / 0x2000
    let enabled := history.register (within 0x0000 0x1FFF) (· &&& 0x0F == 0x0A) false
    (c.header.controller = .mbc3 →
      let number := history.register (within 0x2000 0x3FFF) (fun value => max 1 (value &&& 0x7F)) 1
      let select := history.register (within 0x4000 0x5FFF) id 0
      (c.after accesses).Shows bytes (number.toNat % 2 ^ Nat.clog 2 banks)
        (if enabled ∧ select ≤ 3 then some (select.toNat % ramBanks) else none)) ∧
    (c.header.controller = .mbc5 →
      let low := history.register (within 0x2000 0x2FFF) id 1
      let high := history.register (within 0x3000 0x3FFF) (· &&& 0x01) 0
      let select := history.register (within 0x4000 0x5FFF) (· &&& 0x0F) 0
      (c.after accesses).Shows bytes ((256 * high.toNat + low.toNat) % banks)
        (if enabled then some (select.toNat % ramBanks) else none)) ∧
    (c.header.controller = .mbc3 ∨ c.header.controller = .mbc5 → ∀ address value,
      0x6000 ≤ address → c.after (.writeRom address value :: accesses) = c.after accesses) := by
  refine ⟨fun hmbc3 => shows_mbc3 hload hmbc3, fun hmbc5 => shows_mbc5 hload hmbc5, ?_⟩
  intro hcontroller address value haddress
  refine writeRom_inert ?_ haddress value
  rw [(isNew_of_load hload).mapper_after]
  rcases hcontroller with hmbc3 | hmbc5
  · rw [hmbc3]
    exact .inl ⟨_, rfl⟩
  · rw [hmbc5]
    exact .inr ⟨_, rfl⟩

/-- Two cartridges whose number of banks is no power of two. On five banks, which need three address
lines, MBC3 shows nothing for the number 86, whose seven low bits are six; on three banks, MBC5 shows
bank two for the number 104. -/
theorem mbc3_mbc5_banking_numbered : ∃ (bytes bytes' : ByteArray) (c c' : Cartridge),
    load bytes = .ok c ∧ c.header.controller = .mbc3 ∧
    load bytes' = .ok c' ∧ c'.header.controller = .mbc5 ∧
    (c.after [.writeRom 0x6000 0x01, .writeRom 0x3FFF 0x86]).readRom 0x4000 = 0xFF ∧
    (c.after [.writeRom 0x2000 0x04, .writeRom 0x3FFF 0x86]).readRom 0x4000 = 4 ∧
    (c'.after [.writeRom 0x3000 0xFF, .writeRom 0x2FFF 0x04]).readRom 0x4000 = 2 := by
  have hcode3 : Controller.ofCode 0x11 = .ok .mbc3 := rfl
  have hcode5 : Controller.ofCode 0x19 = .ok .mbc5 := rfl
  have hfive : 2 ≤ 5 := by decide
  have hthree : 2 ≤ 3 := by decide
  obtain ⟨c, hload, hmbc3, -⟩ := load_numbered hfive hcode3
  obtain ⟨c', hload', hmbc5, -⟩ := load_numbered hthree hcode5
  have hbanks : (RomImage.numbered 5 hfive 0x11).bytes.size / 0x4000 = 5 := by
    rw [RomImage.size_numbered]
    rfl
  have hbanks' : (RomImage.numbered 3 hthree 0x19).bytes.size / 0x4000 = 3 := by
    rw [RomImage.size_numbered]
    rfl
  have hlines : Nat.clog 2 5 = 3 := by decide
  have hplace (bank : Nat) : bank * 0x4000 + ((0x4000 : UInt16).toNat - 0x4000) =
      bank * romBankSize := by
    have hfirst : (0x4000 : UInt16).toNat - 0x4000 = 0 := by decide
    rw [hfirst, Nat.add_zero, romBankSize]
  refine ⟨_, _, c, c', hload, hmbc3, hload', hmbc5, ?_, ?_, ?_⟩
  · have hshows : (c.after [.writeRom 0x6000 0x01, .writeRom 0x3FFF 0x86]).Shows
        (RomImage.numbered 5 hfive 0x11).bytes 6 none := by
      have h := (mbc3_mbc5_banking hload [.writeRom 0x6000 0x01, .writeRom 0x3FFF 0x86]).1 hmbc3
      rw [hbanks, hlines] at h
      exact h
    rw [hshows.upper 0x4000 (by decide) (by decide), hplace,
      RomImage.past_numbered hfive 0x11 (show 5 ≤ 6 by decide)]
  · have hshows : (c.after [.writeRom 0x2000 0x04, .writeRom 0x3FFF 0x86]).Shows
        (RomImage.numbered 5 hfive 0x11).bytes 4 none := by
      have h := (mbc3_mbc5_banking hload [.writeRom 0x2000 0x04, .writeRom 0x3FFF 0x86]).1 hmbc3
      rw [hbanks, hlines] at h
      exact h
    rw [hshows.upper 0x4000 (by decide) (by decide), hplace,
      RomImage.first_numbered hfive 0x11 (show 4 < 5 by decide)]
    rfl
  · have hshows : (c'.after [.writeRom 0x3000 0xFF, .writeRom 0x2FFF 0x04]).Shows
        (RomImage.numbered 3 hthree 0x19).bytes 2 none := by
      have h := (mbc3_mbc5_banking hload' [.writeRom 0x3000 0xFF, .writeRom 0x2FFF 0x04]).2.1 hmbc5
      rw [hbanks'] at h
      exact h
    rw [hshows.upper 0x4000 (by decide) (by decide), hplace,
      RomImage.first_numbered hthree 0x19 (show 2 < 3 by decide)]
    rfl

end Cartridge

end GameBoy
