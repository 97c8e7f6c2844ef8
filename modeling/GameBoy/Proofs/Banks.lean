import GameBoy.Proofs.Windows

/-!
# Bringing a bank to the upper window

A program selects a bank by writing its number, in parts, where the registers of the controller are.
That works from every state: MBC1 is brought into the mode in which its high bits can be written,
and if its mode cannot be changed, then the image is so small that the high bits are not needed.

No controller selects a bank beyond the address lines that the whole banks need, so in an image that
fills these lines every read finds a byte.

Main statement: `Cartridge.banks_selectable`.
-/

namespace GameBoy

open RomHistory

/-! ## Selecting a bank -/

namespace Controller

/-- Whether the upper window can show the bank of a number. Without a controller it shows bank one;
MBC1 has no number whose five low bits are all zero, and MBC3 has no zero. -/
def Selects : Controller → Nat → Prop
  | mbc0, bank => bank = 1
  | mbc1, bank => 1 ≤ bank ∧ bank < 128 ∧ bank % 32 ≠ 0
  | mbc3, bank => 1 ≤ bank ∧ bank < 128
  | mbc5, bank => bank < 512

/-- The writes that bring a bank to the upper window, the latest first. -/
def selecting (bank : Nat) : Controller → RomHistory
  | mbc0 => []
  | mbc1 => [(0x2000, (bank % 32).toUInt8), (0x4000, (bank / 32).toUInt8), (0x6000, 0x01)]
  | mbc3 => [(0x2000, bank.toUInt8)]
  | mbc5 => [(0x3000, (bank / 256).toUInt8), (0x2000, (bank % 256).toUInt8)]

end Controller

/-- A number that fits into the low bits of a byte is kept by their mask. -/
theorem toNat_masked {k : Nat} (n : Nat) {mask : UInt8} (hmask : mask.toNat = 2 ^ n - 1)
    (hk : k < 2 ^ n) : (k.toUInt8 &&& mask).toNat = k := by
  have hbyte : k < 2 ^ 8 := by
    have hlt := mask.toNat_lt
    omega
  have hsmall : k.toUInt8.toNat = k := UInt8.toNat_ofNat_of_lt' hbyte
  rw [UInt8.toNat_and, hmask, hsmall, Nat.and_two_pow_sub_one_of_lt_two_pow hk]

/-- Only zero is replaced by one. -/
theorem toNat_max_one {value : UInt8} (h : 1 ≤ value.toNat) : (max 1 value).toNat = value.toNat := by
  have hmax : max 1 value = if 1 ≤ value then value else 1 := rfl
  have hpos : 1 ≤ value := UInt8.le_iff_toNat_le.2 h
  rw [hmax, if_pos hpos]

namespace Mbc1

/-- If the mode cannot be changed, then the high bits stay zero. -/
theorem bitsAfter_fixed (history : RomHistory) : bitsAfter false .advanced history = 0 := by
  induction history with
  | nil => rfl
  | cons write before ih =>
    obtain ⟨address, value⟩ := write
    have hmode : ¬ (address.toNat / 0x2000 = 2 ∧ modeAfter false before = .advanced) := by
      simp [modeAfter]
    rw [bitsAfter_cons, if_neg hmode, ih]

variable {bank : Nat} (history : RomHistory)

theorem low_selecting (switchable : Bool) (hlow : bank % 32 ≠ 0) :
    (after switchable (Controller.mbc1.selecting bank ++ history)).low.toNat = bank % 32 := by
  have hbits : ((bank % 32).toUInt8 &&& 0x1F).toNat = bank % 32 :=
    toNat_masked 5 rfl (Nat.mod_lt _ (by decide))
  have hpos : 1 ≤ ((bank % 32).toUInt8 &&& 0x1F).toNat := by omega
  simp only [after, Controller.selecting, List.cons_append]
  rw [lowAfter_cons, if_pos (by decide), toNat_max_one hpos, hbits]

theorem high_selecting {switchable : Bool} (hbank : bank < 128)
    (hfixed : switchable = false → bank < 32) :
    (after switchable (Controller.mbc1.selecting bank ++ history)).high.toNat = bank / 32 := by
  have hbits : ((bank / 32).toUInt8 &&& 0x03).toNat = bank / 32 := toNat_masked 2 rfl (by omega)
  simp only [after, Controller.selecting, List.cons_append, List.nil_append]
  cases switchable with
  | false =>
    have hsmall := hfixed rfl
    rw [bitsAfter_fixed, UInt8.toNat_zero]
    omega
  | true =>
    have hother : ¬ ((0x2000 : UInt16).toNat / 0x2000 = 2 ∧ modeAfter true
        ((0x4000, (bank / 32).toUInt8) :: (0x6000, 0x01) :: history) = .advanced) :=
      fun h => absurd h.1 (by decide)
    have hmode : modeAfter true ((0x6000, 0x01) :: history) = .advanced := by
      rw [modeAfter_cons, if_pos (by decide), if_neg (by decide)]
    rw [bitsAfter_cons, if_neg hother, bitsAfter_cons, if_pos ⟨by decide, hmode⟩, hbits]

theorem selected_selecting {switchable : Bool} (h : Controller.mbc1.Selects bank)
    (hfixed : switchable = false → bank < 32) :
    (after switchable (Controller.mbc1.selecting bank ++ history)).selected = bank := by
  obtain ⟨-, hbank, hlow⟩ := h
  rw [selected, low_selecting history switchable hlow, high_selecting history hbank hfixed]
  omega

end Mbc1

theorem Mbc3.bank_selecting {bank : Nat} (h : Controller.mbc3.Selects bank) (history : RomHistory) :
    (after (Controller.mbc3.selecting bank ++ history)).bank.toNat = bank := by
  obtain ⟨hpos, hbank⟩ := h
  have hbits : (bank.toUInt8 &&& 0x7F).toNat = bank := toNat_masked 7 rfl hbank
  simp only [after, Controller.selecting, List.cons_append]
  rw [bankAfter_cons, if_pos (by decide), toNat_max_one (by omega), hbits]

theorem Mbc5.bank_selecting {bank : Nat} (h : Controller.mbc5.Selects bank) (history : RomHistory) :
    256 * (after (Controller.mbc5.selecting bank ++ history)).high.toNat +
      (after (Controller.mbc5.selecting bank ++ history)).low.toNat = bank := by
  change bank < 512 at h
  have hhigh : ((bank / 256).toUInt8 &&& 0x01).toNat = bank / 256 := toNat_masked 1 rfl (by omega)
  have hlow : (bank % 256).toUInt8.toNat = bank % 256 :=
    UInt8.toNat_ofNat_of_lt' (Nat.mod_lt _ (by decide))
  simp only [after, Controller.selecting, List.cons_append]
  rw [highAfter_cons, if_pos (by decide), lowAfter_cons, if_neg (by decide), lowAfter_cons,
    if_pos (by decide), hhigh, hlow]
  omega

namespace Cartridge

variable {bytes : ByteArray} {c : Cartridge} {accesses : List Access} {address : UInt16}

/-! ## The bank that is seen -/

/-- The writes of a history, as accesses. -/
def Access.ofWrites (history : RomHistory) : List Access :=
  history.map fun write => .writeRom write.1 write.2

theorem romWrites_ofWrites (history : RomHistory) : romWrites (Access.ofWrites history) = history := by
  induction history with
  | nil => rfl
  | cons write before ih =>
    change write :: romWrites (Access.ofWrites before) = _
    rw [ih]

/-- The number of a bank that is there fits on the address lines. -/
theorem mod_lines {bank banks : Nat} (h : bank < banks) : bank % 2 ^ Nat.clog 2 banks = bank :=
  Nat.mod_eq_of_lt (Nat.lt_of_lt_of_le h (Nat.le_pow_clog (by decide) banks))

/-- The writes that select a bank do so from every state. -/
theorem IsNew.romBank_selecting (hnew : c.IsNew) {bank : Nat}
    (hselects : c.header.controller.Selects bank) (hbank : bank < c.rom.banks)
    (accesses : List Access) (hstart : 0x4000 ≤ address) (hend : address < 0x8000) :
    (c.after (Access.ofWrites (c.header.controller.selecting bank) ++ accesses)).romBank address =
      bank := by
  rw [romBank, hnew.mapper_after, hnew.rom_after, romWrites_append, romWrites_ofWrites]
  cases hcontroller : c.header.controller with
  | mbc0 =>
    rw [hcontroller] at hselects
    obtain rfl : bank = 1 := hselects
    have hstart' : 0x4000 ≤ address.toNat := UInt16.le_iff_toNat_le.1 hstart
    have hend' : address.toNat < 0x8000 := UInt16.lt_iff_toNat_lt.1 hend
    change address.toNat / 0x4000 = 1
    omega
  | mbc1 =>
    rw [hcontroller] at hselects
    have hfixed : Mbc1.isSwitchable c.rom.size c.ram.size = false → bank < 32 := by
      intro hfixed
      have hsmall : c.rom.size ≤ 512 * 1024 := by
        simp only [Mbc1.isSwitchable, Bool.or_eq_false_iff, decide_eq_false_iff_not] at hfixed
        omega
      have hbanks : c.rom.banks ≤ 32 := Nat.div_le_of_le_mul hsmall
      omega
    simp only [Mapper.after, Mbc1.romBank_upper _ _ hstart]
    rw [Mbc1.selected_selecting _ hselects hfixed, mod_lines hbank]
  | mbc3 =>
    rw [hcontroller] at hselects
    simp only [Mapper.after, Mbc3.romBank_upper _ _ hstart]
    rw [Mbc3.bank_selecting hselects, mod_lines hbank]
  | mbc5 =>
    rw [hcontroller] at hselects
    simp only [Mapper.after, Mbc5.romBank_upper _ _ hstart]
    rw [Mbc5.bank_selecting hselects, Nat.mod_eq_of_lt hbank]

/-! ## How far a bank can be -/

theorem two_le_banks (rom : RomImage) : 2 ≤ rom.banks :=
  (Nat.le_div_iff_mul_le (by decide)).2 rom.two_banks

/-- No bank is seen beyond the address lines that the whole banks need. -/
theorem romBank_lt (c : Cartridge) (h : address < 0x8000) :
    c.romBank address < 2 ^ Nat.clog 2 c.rom.banks := by
  have hlines : 0 < 2 ^ Nat.clog 2 c.rom.banks := Nat.two_pow_pos _
  have hbanks := two_le_banks c.rom
  have hcover : c.rom.banks ≤ 2 ^ Nat.clog 2 c.rom.banks := Nat.le_pow_clog (by decide) _
  unfold romBank
  rcases UInt16.lt_or_le address 0x4000 with hlower | hupper
  · cases c.mapper with
    | unbanked =>
      have hsmall : address.toNat < 0x4000 := UInt16.lt_iff_toNat_lt.1 hlower
      change address.toNat / 0x4000 < _
      omega
    | mbc1 m =>
      simp only [m.romBank_lower _ hlower]
      split
      · exact Nat.mod_lt _ hlines
      · exact hlines
    | mbc3 m => simp only [m.romBank_lower _ hlower, hlines]
    | mbc5 m => simp only [m.romBank_lower _ hlower, hlines]
  · cases c.mapper with
    | unbanked =>
      have hsmall : address.toNat < 0x8000 := UInt16.lt_iff_toNat_lt.1 h
      change address.toNat / 0x4000 < _
      omega
    | mbc1 m =>
      simp only [m.romBank_upper _ hupper]
      exact Nat.mod_lt _ hlines
    | mbc3 m =>
      simp only [m.romBank_upper _ hupper]
      exact Nat.mod_lt _ hlines
    | mbc5 m =>
      simp only [m.romBank_upper _ hupper]
      exact Nat.lt_of_lt_of_le (Nat.mod_lt _ (by omega)) hcover

/-- A byte of a whole bank is a byte of the image. -/
theorem readRom_whole (c : Cartridge) (address : UInt16)
    (h : c.romBank address < c.rom.banks) :
    ∃ hplace : c.romBank address * 0x4000 + address.toNat % 0x4000 < c.rom.bytes.size,
      c.readRom address = c.rom.bytes[c.romBank address * 0x4000 + address.toNat % 0x4000] := by
  have hplace : c.romBank address * 0x4000 + address.toNat % 0x4000 < c.rom.bytes.size := by
    have hwhole : c.rom.banks * 0x4000 ≤ c.rom.bytes.size := Nat.div_mul_le_self _ _
    have hoffset : address.toNat % 0x4000 < 0x4000 := Nat.mod_lt _ (by decide)
    omega
  refine ⟨hplace, ?_⟩
  rw [readRom, RomImage.bankByte, romBankSize, getElem?_pos c.rom.bytes _ hplace, Option.getD_some]

/-- Every whole bank of the image whose number its controller has can be brought to the upper window
by the same writes from every state, and then each address there shows the image's byte at its place
in that bank. In an image of 32 KiB times a power of two, every read where the ROM is seen finds a
byte of the image, from every state. -/
theorem banks_selectable (hload : load bytes = .ok c) (accesses : List Access) :
    (∀ bank, c.header.controller.Selects bank → bank < bytes.size / 0x4000 →
      let select := Access.ofWrites (c.header.controller.selecting bank)
      ∀ address, 0x4000 ≤ address → address < 0x8000 →
        ∃ _ : 0x4000 * bank + address.toNat % 0x4000 < bytes.size,
          (c.after (select ++ accesses)).readRom address =
            bytes[0x4000 * bank + address.toNat % 0x4000]) ∧
    (∀ n, bytes.size = 0x8000 * 2 ^ n → ∀ address, address < 0x8000 →
      let bank := (c.after accesses).romBank address
      ∃ _ : 0x4000 * bank + address.toNat % 0x4000 < bytes.size,
        (c.after accesses).readRom address =
          bytes[0x4000 * bank + address.toNat % 0x4000]) := by
  have hnew := isNew_of_load hload
  obtain rfl := load_bytes hload
  refine ⟨?_, ?_⟩
  · intro bank hselects hbank select address hstart hend
    have hshown : (c.after (select ++ accesses)).romBank address = bank :=
      hnew.romBank_selecting hselects hbank accesses hstart hend
    have hwhole := readRom_whole (c.after (select ++ accesses)) address
    rw [hshown, hnew.rom_after, Nat.mul_comm] at hwhole
    exact hwhole hbank
  · intro n hsize address haddress bank
    have hbanks : c.rom.banks = 2 ^ (n + 1) := by
      rw [RomImage.banks, RomImage.size, hsize, romBankSize, Nat.pow_succ]
      omega
    have hbank : bank < c.rom.banks := by
      have hlines := romBank_lt (c.after accesses) haddress
      rwa [hnew.rom_after, hbanks, Nat.clog_pow 2 _ (by decide), ← hbanks] at hlines
    have hwhole := readRom_whole (c.after accesses) address
    rw [hnew.rom_after, Nat.mul_comm] at hwhole
    exact hwhole hbank

/-- Bank 69 of 70 is brought to the upper window although the simple mode and other bits have been
selected before; and in an image of 128 banks the bank that is selected first can be left open. -/
theorem banks_selectable_numbered : ∃ (bytes bytes' : ByteArray) (c c' : Cartridge),
    load bytes = .ok c ∧ c.header.controller = .mbc1 ∧ bytes.size = 70 * 0x4000 ∧
    load bytes' = .ok c' ∧ bytes'.size = 0x8000 * 2 ^ 6 ∧
    (∀ address, 0x4000 ≤ address → address < 0x8000 →
      (c.after [.writeRom 0x2000 0x05, .writeRom 0x4000 0x02, .writeRom 0x6000 0x01,
        .writeRom 0x6000 0x00, .writeRom 0x4000 0x03, .writeRom 0x6000 0x01]).readRom address =
          69) ∧
    ∀ value, ∃ _ : 0x4000 * (c'.after [.writeRom 0x2000 value]).romBank 0x7FFF + 0x3FFF <
      bytes'.size, (c'.after [.writeRom 0x2000 value]).readRom 0x7FFF =
        bytes'[0x4000 * (c'.after [.writeRom 0x2000 value]).romBank 0x7FFF + 0x3FFF] := by
  have hcode : Controller.ofCode 0x01 = .ok .mbc1 := rfl
  have hmany : 2 ≤ 70 := by decide
  have hmore : 2 ≤ 128 := by decide
  obtain ⟨c, hload, hmbc1, -⟩ := load_numbered hmany hcode
  obtain ⟨c', hload', -⟩ := load_numbered hmore hcode
  have hsize := RomImage.size_numbered hmany 0x01
  have hsize' := RomImage.size_numbered hmore 0x01
  refine ⟨_, _, c, c', hload, hmbc1, hsize, hload', hsize', ?_, ?_⟩
  · intro address hstart hend
    have hselects : c.header.controller.Selects 69 := by
      rw [hmbc1]
      simp only [Controller.Selects]
      decide
    have hbank : 69 < (RomImage.numbered 70 hmany 0x01).bytes.size / 0x4000 := by
      rw [hsize]
      decide
    obtain ⟨hplace, hread⟩ := (banks_selectable hload
      [.writeRom 0x6000 0x00, .writeRom 0x4000 0x03, .writeRom 0x6000 0x01]).1 69 hselects hbank
        address hstart hend
    rw [hmbc1] at hread
    have hother : 0x4000 * 69 + address.toNat % 0x4000 ≠ 0x147 := by omega
    have hdiv : (0x4000 * 69 + address.toNat % 0x4000) / romBankSize = 69 := by
      rw [romBankSize]
      omega
    rw [RomImage.getElem_numbered, if_neg hother, hdiv] at hread
    exact hread
  · intro value
    exact (banks_selectable hload' [.writeRom 0x2000 value]).2 6 hsize' 0x7FFF (by decide)

end Cartridge

end GameBoy
