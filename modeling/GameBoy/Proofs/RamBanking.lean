import GameBoy.Proofs.Selection

/-!
# Cartridge RAM

A cartridge is read and written in any order. The registers of its controller depend only on the
writes where the ROM is seen, so they tell which bank of the RAM is selected after any accesses. A
byte of a bank is reached only by a write to the RAM, at the byte's own offset, while that bank is
selected: nothing else changes it, and no two bytes are one.

Main statement: `Cartridge.ram_kept`.
-/

namespace GameBoy

namespace Cartridge

/-! ## The byte at an address -/

/-- A byte of a bank of the RAM, if the RAM has it. -/
def ramByte? (c : Cartridge) (bank offset : Nat) : Option UInt8 :=
  c.ram[bank * ramBankSize + offset]?

/-- The RAM has whole banks, and without a controller at most one. -/
structure WholeBanks (c : Cartridge) : Prop where
  dvd : ramBankSize ∣ c.ram.size
  unbanked : c.mapper = .unbanked → c.ram.size ≤ ramBankSize

/-- The bank that is selected for an address. Without a controller only the window of the RAM is
decoded. -/
def bankAt? (c : Cartridge) (address : UInt16) : Option Nat :=
  if c.mapper = .unbanked ∧ ¬ (0xA000 ≤ address ∧ address < 0xC000) then none
  else c.mapper.ramBank? c.ramBanks

/-- Without a controller the RAM is not decoded by its low address lines alone. -/
theorem offset_unbanked {address : UInt16} :
    (address - 0xA000).toNat < ramBankSize ↔ 0xA000 ≤ address ∧ address < 0xC000 := by
  have h := address.toNat_lt
  rw [UInt16.toNat_sub, UInt16.le_iff_toNat_le, UInt16.lt_iff_toNat_lt]
  change (2 ^ 16 - 0xA000 + address.toNat) % 2 ^ 16 < 0x2000 ↔
    0xA000 ≤ address.toNat ∧ address.toNat < 0xC000
  omega

theorem offset_window {address : UInt16} (h : 0xA000 ≤ address ∧ address < 0xC000) :
    (address - 0xA000).toNat = address.toNat % ramBankSize := by
  obtain ⟨hstart, hend⟩ := h
  rw [UInt16.le_iff_toNat_le] at hstart
  rw [UInt16.lt_iff_toNat_lt] at hend
  rw [UInt16.toNat_sub_of_le _ _ hstart]
  change address.toNat - 0xA000 = address.toNat % 0x2000
  change 0xA000 ≤ address.toNat at hstart
  change address.toNat < 0xC000 at hend
  omega

theorem WholeBanks.ramBanks_pos {c : Cartridge} (h : c.WholeBanks) (hsome : 0 < c.ram.size) :
    0 < c.ramBanks :=
  Nat.div_pos (Nat.le_of_dvd hsome h.dvd) (by decide)

/-- A RAM of a single bank has only the bank zero. -/
theorem WholeBanks.ramBankOf_mbc1 {c : Cartridge} (h : c.WholeBanks) (hsome : 0 < c.ram.size)
    (m : Mbc1) : m.ramBankOf c.ram.size c.ramBanks = m.ramBank.toNat % c.ramBanks := by
  have hpos := h.ramBanks_pos hsome
  unfold Mbc1.ramBankOf
  split
  case isTrue hsmall =>
    have hone : c.ramBanks = 1 := by
      have hle : c.ramBanks ≤ 1 := Nat.div_le_of_le_mul (by rwa [Nat.mul_one])
      omega
    rw [hone, Nat.mod_one]
  case isFalse => rw [Nat.max_eq_right hpos]

/-- The places of the RAM are those of the addresses in the selected banks. -/
theorem WholeBanks.ramOffset?_eq_some {c : Cartridge} (h : c.WholeBanks) {address : UInt16}
    {i : Nat} (hi : i < c.ram.size) :
    c.ramOffset? address = some i ↔
      ∃ bank, c.bankAt? address = some bank ∧ bankOffset bank address = i := by
  have hsome : 0 < c.ram.size := Nat.zero_lt_of_lt hi
  have hpos := h.ramBanks_pos hsome
  unfold ramOffset? bankAt?
  cases hmapper : c.mapper with
  | unbanked =>
    have hsmall := h.unbanked hmapper
    by_cases hwindow : 0xA000 ≤ address ∧ address < 0xC000
    · simp [hwindow, Mapper.ramBank?, bankOffset, offset_window hwindow]
    · have hout := mt offset_unbanked.1 hwindow
      simp only [hwindow, not_false_eq_true, and_self, if_true, reduceCtorEq, false_and,
        exists_false, iff_false, Option.some.injEq]
      omega
  | mbc1 m =>
    simp only [h.ramBankOf_mbc1 hsome, reduceCtorEq, false_and, if_false, Mapper.ramBank?]
    cases m.ramEnabled <;> simp
  | mbc3 m =>
    simp only [Mbc3.ramBank?, hpos, and_true, reduceCtorEq, false_and, if_false, Mapper.ramBank?]
    cases m.ramEnabled <;> by_cases hselect : m.select ≤ 3 <;> simp [hselect]
  | mbc5 m =>
    simp only [Mbc5.ramBankOf, Nat.max_eq_right hpos, reduceCtorEq, false_and, if_false,
      Mapper.ramBank?]
    cases m.ramEnabled <;> simp

theorem WholeBanks.ramIndex?_eq_some {c : Cartridge} (h : c.WholeBanks) {address : UInt16}
    {bank : Nat} (hbank : c.bankAt? address = some bank)
    (hi : bankOffset bank address < c.ram.size) :
    c.ramIndex? address = some ⟨bankOffset bank address, hi⟩ := by
  rw [ramIndex?, (h.ramOffset?_eq_some hi).2 ⟨bank, hbank, rfl⟩]
  exact dif_pos hi

theorem WholeBanks.ramIndex?_eq_none {c : Cartridge} (h : c.WholeBanks) {address : UInt16}
    (hnone : ∀ bank, c.bankAt? address = some bank → c.ram.size ≤ bankOffset bank address) :
    c.ramIndex? address = none := by
  unfold ramIndex?
  split
  case h_1 i hplace =>
    refine dif_neg fun hi => ?_
    obtain ⟨bank, hbank, rfl⟩ := (h.ramOffset?_eq_some hi).1 hplace
    exact Nat.not_lt.2 (hnone bank hbank) hi
  case h_2 => rfl

/-- At an address there is a byte of the selected bank, or nothing. -/
theorem WholeBanks.ramIndex?_cases {c : Cartridge} (h : c.WholeBanks) (address : UInt16) :
    (∃ bank, c.bankAt? address = some bank ∧ ∃ hi : bankOffset bank address < c.ram.size,
      c.ramIndex? address = some ⟨bankOffset bank address, hi⟩) ∨
    (∀ bank, c.bankAt? address = some bank → c.ram.size ≤ bankOffset bank address) ∧
      c.ramIndex? address = none := by
  by_cases hthere : ∃ bank, c.bankAt? address = some bank ∧ bankOffset bank address < c.ram.size
  · obtain ⟨bank, hbank, hi⟩ := hthere
    exact .inl ⟨bank, hbank, hi, h.ramIndex?_eq_some hbank hi⟩
  · have hnone (bank : Nat) (hbank : c.bankAt? address = some bank) :
        c.ram.size ≤ bankOffset bank address :=
      Nat.le_of_not_lt fun hi => hthere ⟨bank, hbank, hi⟩
    exact .inr ⟨hnone, h.ramIndex?_eq_none hnone⟩

/-- In the window a byte is seen if the selected bank has it. -/
theorem WholeBanks.isSome_ramIndex? {c : Cartridge} (h : c.WholeBanks) {address : UInt16}
    (hwindow : 0xA000 ≤ address ∧ address < 0xC000) :
    (c.ramIndex? address).isSome ↔ ∃ bank, c.mapper.ramBank? c.ramBanks = some bank ∧
      bankOffset bank address < c.ram.size := by
  have hbankAt : c.bankAt? address = c.mapper.ramBank? c.ramBanks :=
    if_neg fun hout => hout.2 hwindow
  rw [← hbankAt]
  rcases h.ramIndex?_cases address with ⟨bank, hbank, hi, hindex⟩ | ⟨hnone, hindex⟩
  · rw [hindex]
    exact iff_of_true rfl ⟨bank, hbank, hi⟩
  · rw [hindex]
    refine iff_of_false Bool.false_ne_true ?_
    rintro ⟨bank, hbank, hi⟩
    exact Nat.not_lt.2 (hnone bank hbank) hi

/-- A read gives the byte of the selected bank, or `FF` if there is none. -/
theorem WholeBanks.readRam_eq {c : Cartridge} (h : c.WholeBanks) (address : UInt16) :
    c.readRam address =
      ((c.bankAt? address).bind (c.ramByte? · (address.toNat % ramBankSize))).getD 0xFF := by
  unfold readRam
  rcases h.ramIndex?_cases address with ⟨bank, hbank, hi, hindex⟩ | ⟨hnone, hindex⟩
  · have hbyte : c.ramByte? bank (address.toNat % ramBankSize) =
        some c.ram[bankOffset bank address] :=
      Array.getElem?_eq_getElem hi
    rw [hindex, hbank, Option.bind_some, hbyte]
    rfl
  · rw [hindex]
    cases hbank : c.bankAt? address with
    | none => rfl
    | some bank =>
      have hbyte : c.ramByte? bank (address.toNat % ramBankSize) = none :=
        Array.getElem?_eq_none (hnone bank hbank)
      rw [Option.bind_some, hbyte, Option.getD_none]

/-- A write reaches the byte of the selected bank at the address, if there is one, and no other. -/
theorem WholeBanks.ramByte?_writeRam {c : Cartridge} (h : c.WholeBanks) (address : UInt16)
    (value : UInt8) (bank : Nat) {offset : Nat} (hoffset : offset < ramBankSize) :
    (c.writeRam address value).ramByte? bank offset =
      if c.bankAt? address = some bank ∧ address.toNat % ramBankSize = offset then
        (c.ramByte? bank offset).map fun _ => value
      else c.ramByte? bank offset := by
  have hplace (bank' : Nat) : bankOffset bank' address = bank * ramBankSize + offset ↔
      bank' = bank ∧ address.toNat % ramBankSize = offset := by
    simp only [bankOffset, ramBankSize] at hoffset ⊢
    omega
  unfold writeRam
  rcases h.ramIndex?_cases address with ⟨bank', hbank, hi, hindex⟩ | ⟨hnone, hindex⟩
  · simp only [hindex, ramByte?, hbank, Option.some.injEq, ← hplace]
    split
    case isTrue hsame =>
      rw [← hsame, Array.getElem?_eq_getElem hi, Array.getElem?_set_self]
      rfl
    case isFalse hother => exact Array.getElem?_set_ne hi hother
  · simp only [hindex]
    split
    case isTrue hsame =>
      have hbyte : c.ramByte? bank offset = none := by
        rw [ramByte?, ← (hplace bank).2 ⟨rfl, hsame.2⟩]
        exact Array.getElem?_eq_none (hnone bank hsame.1)
      rw [hbyte, Option.map_none]
    case isFalse => rfl

/-! ## Accesses -/

/-- An access to a cartridge. -/
inductive Access where
  | readRom (address : UInt16)
  | writeRom (address : UInt16) (value : UInt8)
  | readRam (address : UInt16)
  | writeRam (address : UInt16) (value : UInt8)
  deriving DecidableEq, Repr

/-- The cartridge after accesses, the latest of them first. -/
def after (c : Cartridge) : List Access → Cartridge
  | [] => c
  | .readRom _ :: earlier => c.after earlier
  | .writeRom address value :: earlier => ((c.after earlier).writeRom address value).2
  | .readRam _ :: earlier => c.after earlier
  | .writeRam address value :: earlier => (c.after earlier).writeRam address value

/-- The accesses that reach the controller. -/
def romWrites : List Access → RomHistory
  | [] => []
  | .writeRom address value :: earlier => (address, value) :: romWrites earlier
  | _ :: earlier => romWrites earlier

theorem romWrites_append (later earlier : List Access) :
    romWrites (later ++ earlier) = romWrites later ++ romWrites earlier := by
  induction later with
  | nil => rfl
  | cons access later ih => cases access <;> simp [romWrites, ih]

/-- The bank of the RAM that is selected after accesses, unless the RAM cannot be used then or a
register of the clock is selected. -/
def ramBank? (c : Cartridge) (accesses : List Access) : Option Nat :=
  (c.banked (romWrites accesses)).mapper.ramBank? c.ramBanks

/-- Whether an access after others writes the byte at an offset in a bank of the RAM. Without a
controller the bank is seen only in its window. -/
def Reaches (c : Cartridge) (earlier : List Access) (bank offset : Nat) : Access → Prop
  | .writeRam address _ =>
    c.ramBank? earlier = some bank ∧ address.toNat % ramBankSize = offset ∧
      (c.header.controller = .mbc0 → 0xA000 ≤ address ∧ address < 0xC000)
  | _ => False

/-- Whether none of the later accesses writes the byte at an offset in a bank of the RAM. -/
def Undisturbed (c : Cartridge) (earlier : List Access) (bank offset : Nat) : List Access → Prop
  | [] => True
  | access :: later =>
    ¬ c.Reaches (later ++ earlier) bank offset access ∧ c.Undisturbed earlier bank offset later

/-! ## What accesses leave alone -/

theorem ram_writeRom (c : Cartridge) (address : UInt16) (value : UInt8) :
    (c.writeRom address value).2.ram = c.ram := by
  obtain ⟨header, rom, ram, mapper⟩ := c
  cases mapper <;> rfl

theorem readRom_writeRam (c : Cartridge) (address address' : UInt16) (value : UInt8) :
    (c.writeRam address value).readRom address' = c.readRom address' := by
  unfold writeRam
  split <;> rfl

theorem WholeBanks.writeRom {c : Cartridge} (h : c.WholeBanks) (address : UInt16) (value : UInt8) :
    (c.writeRom address value).2.WholeBanks := by
  obtain ⟨header, rom, ram, mapper⟩ := c
  cases mapper with
  | unbanked => exact h
  | _ => exact ⟨h.dvd, nofun⟩

theorem WholeBanks.writeRam {c : Cartridge} (h : c.WholeBanks) (address : UInt16) (value : UInt8) :
    (c.writeRam address value).WholeBanks := by
  unfold Cartridge.writeRam
  split
  · refine ⟨?_, fun hmapper => ?_⟩
    · rw [Array.size_set]
      exact h.dvd
    · rw [Array.size_set]
      exact h.unbanked hmapper
  · exact h

/-- What holds of a cartridge that has just been loaded. -/
structure IsNew (c : Cartridge) : Prop where
  mapper : c.mapper = .initial c.header.controller
  dvd : ramBankSize ∣ c.ram.size
  unbanked : c.header.controller = .mbc0 → c.ram.size ≤ ramBankSize

theorem dvd_of_ramSizeOfCode {code : UInt8} {size : Nat}
    (h : Header.ramSizeOfCode code = .ok size) : ramBankSize ∣ size := by
  unfold Header.ramSizeOfCode at h
  repeat' split at h
  all_goals cases h
  all_goals decide

theorem isNew_of_load {bytes : ByteArray} {c : Cartridge} (hload : load bytes = .ok c) :
    c.IsNew := by
  obtain ⟨rom, header, -, hheader, rfl⟩ := load_eq_ok.1 hload
  obtain ⟨controller, romSize, ramSize, -, -, hram, rfl⟩ := Header.ofImage_eq_ok.1 hheader
  have hdvd := dvd_of_ramSizeOfCode hram
  refine ⟨rfl, ?_, ?_⟩
  · simp only [Array.size_replicate, ramSizeOf]
    cases controller with
    | mbc0 =>
      change ramBankSize ∣ min ramSize ramBankSize
      rcases Nat.le_total ramSize ramBankSize with hle | hle
      · rwa [Nat.min_eq_left hle]
      · simp only [Nat.min_eq_right hle, Nat.dvd_refl]
    | mbc1 | mbc3 | mbc5 => exact hdvd
  · intro hmbc0
    change controller = .mbc0 at hmbc0
    subst hmbc0
    simp only [Array.size_replicate, ramSizeOf]
    exact Nat.min_le_right _ _

theorem IsNew.wholeBanks {c : Cartridge} (hnew : c.IsNew) : c.WholeBanks := by
  refine ⟨hnew.dvd, fun hmapper => hnew.unbanked ?_⟩
  rw [hnew.mapper] at hmapper
  cases hcontroller : c.header.controller with
  | mbc0 => rfl
  | _ =>
    rw [hcontroller] at hmapper
    cases hmapper

theorem banked_withRam (c : Cartridge) {ram : Array UInt8} (h : ram.size = c.ram.size)
    (history : RomHistory) : ({ c with ram }).banked history = { c.banked history with ram } := by
  simp only [banked, h]

/-- Accesses change the registers as the writes among them that reach the controller do, and the
bytes of the RAM. -/
theorem IsNew.after_eq {c : Cartridge} (hnew : c.IsNew) (accesses : List Access) :
    ∃ ram : Array UInt8, ram.size = c.ram.size ∧
      c.after accesses = { c.banked (romWrites accesses) with ram } := by
  induction accesses with
  | nil => exact ⟨c.ram, rfl, (banked_nil hnew.mapper).symm⟩
  | cons access earlier ih =>
    obtain ⟨ram, hsize, heq⟩ := ih
    cases access with
    | readRom address => exact ⟨ram, hsize, heq⟩
    | readRam address => exact ⟨ram, hsize, heq⟩
    | writeRom address value =>
      refine ⟨ram, hsize, ?_⟩
      rw [after, heq, ← banked_withRam c hsize, writeRom_banked, banked_withRam c hsize]
      rfl
    | writeRam address value =>
      rw [after, heq]
      unfold writeRam
      split
      case h_1 i _ => exact ⟨_, by rw [Array.size_set]; exact hsize, rfl⟩
      case h_2 => exact ⟨ram, hsize, rfl⟩

section

variable {c : Cartridge} (hnew : c.IsNew) (accesses : List Access)
include hnew

theorem IsNew.wholeBanks_after : (c.after accesses).WholeBanks := by
  induction accesses with
  | nil => exact hnew.wholeBanks
  | cons access earlier ih =>
    cases access with
    | readRom | readRam => exact ih
    | writeRom address value => exact ih.writeRom address value
    | writeRam address value => exact ih.writeRam address value

theorem IsNew.ram_size_after : (c.after accesses).ram.size = c.ram.size := by
  obtain ⟨ram, hsize, heq⟩ := hnew.after_eq accesses
  rw [heq, hsize]

theorem IsNew.readRom_after (address : UInt16) :
    (c.after accesses).readRom address = (c.banked (romWrites accesses)).readRom address := by
  obtain ⟨ram, -, heq⟩ := hnew.after_eq accesses
  rw [heq]
  rfl

/-- The bank that is selected for an address is the one that is selected after the accesses, unless
there is no controller and the address is outside the window. -/
theorem IsNew.bankAt?_after (address : UInt16) :
    (c.after accesses).bankAt? address =
      if c.header.controller = .mbc0 ∧ ¬ (0xA000 ≤ address ∧ address < 0xC000) then none
      else c.ramBank? accesses := by
  obtain ⟨ram, hsize, heq⟩ := hnew.after_eq accesses
  have hmapper : (c.banked (romWrites accesses)).mapper = .unbanked ↔
      c.header.controller = .mbc0 := by
    simp only [banked]
    cases c.header.controller <;> simp [Mapper.after]
  rw [heq]
  simp only [bankAt?, ramBank?, ramBanks, hmapper, hsize]

/-- An access that does not reach a byte leaves it as it is. -/
theorem IsNew.ramByte?_after_cons {access : Access} {bank offset : Nat}
    (hoffset : offset < ramBankSize) (hmiss : ¬ c.Reaches accesses bank offset access) :
    (c.after (access :: accesses)).ramByte? bank offset =
      (c.after accesses).ramByte? bank offset := by
  cases access with
  | readRom address => rfl
  | readRam address => rfl
  | writeRom address value => rw [after, ramByte?, ram_writeRom, ramByte?]
  | writeRam address value =>
    rw [after, (hnew.wholeBanks_after accesses).ramByte?_writeRam address value bank hoffset,
      if_neg]
    rintro ⟨hbank, hplace⟩
    rw [hnew.bankAt?_after] at hbank
    split at hbank
    case isTrue => cases hbank
    case isFalse hwindow =>
      exact hmiss ⟨hbank, hplace, fun hmbc0 => by simpa [hmbc0] using hwindow⟩

end

/-- Accesses that do not reach a byte leave it as it is. -/
theorem IsNew.ramByte?_after_append {c : Cartridge} (hnew : c.IsNew) {earlier later : List Access}
    {bank offset : Nat} (hoffset : offset < ramBankSize)
    (hlater : c.Undisturbed earlier bank offset later) :
    (c.after (later ++ earlier)).ramByte? bank offset =
      (c.after earlier).ramByte? bank offset := by
  induction later with
  | nil => rfl
  | cons access later ih =>
    obtain ⟨hmiss, hlater⟩ := hlater
    rw [List.cons_append, hnew.ramByte?_after_cons _ hoffset hmiss, ih hlater]

/-- The RAM of a new cartridge keeps what is written to it. A byte that is written in the selected
bank is read back whenever that bank is selected again, unless a later access reaches it; an access
that does not reach a byte leaves it as it is; nothing is read where no bank is selected or there is
no RAM; and writing the RAM never changes what is read of the ROM. -/
theorem ram_kept {bytes : ByteArray} {c : Cartridge} (hload : load bytes = .ok c) :
    (∀ earlier later address value bank, 0xA000 ≤ address → address < 0xC000 →
      c.ramBank? earlier = some bank → bankOffset bank address < c.ram.size →
      c.Undisturbed (.writeRam address value :: earlier) bank (address.toNat % ramBankSize)
        later →
      c.ramBank? (later ++ .writeRam address value :: earlier) = some bank →
      (c.after (later ++ .writeRam address value :: earlier)).readRam address = value) ∧
    (∀ earlier access bank offset, offset < ramBankSize →
      ¬ c.Reaches earlier bank offset access →
      (c.after (access :: earlier)).ramByte? bank offset =
        (c.after earlier).ramByte? bank offset) ∧
    (∀ accesses address, c.ramBank? accesses = none ∨ c.ram.size = 0 →
      (c.after accesses).readRam address = 0xFF) ∧
    (∀ earlier later address address' value,
      (c.after (later ++ .writeRam address value :: earlier)).readRom address' =
        (c.after (later ++ earlier)).readRom address') := by
  have hnew := isNew_of_load hload
  refine ⟨?_, ?_, ?_, ?_⟩
  · intro earlier later address value bank hstart hend hwrite hplace hlater hread
    have hoffset : address.toNat % ramBankSize < ramBankSize := Nat.mod_lt _ (by decide)
    have hbank (accesses : List Access) :
        (c.after accesses).bankAt? address = c.ramBank? accesses := by
      rw [hnew.bankAt?_after, if_neg fun hout => hout.2 ⟨hstart, hend⟩]
    obtain ⟨byte, hbyte⟩ : ∃ byte,
        (c.after earlier).ramByte? bank (address.toNat % ramBankSize) = some byte :=
      ⟨_, Array.getElem?_eq_getElem (by rwa [hnew.ram_size_after])⟩
    have hwritten : (c.after (.writeRam address value :: earlier)).ramByte? bank
        (address.toNat % ramBankSize) = some value := by
      rw [after, (hnew.wholeBanks_after earlier).ramByte?_writeRam address value bank hoffset,
        hbank, if_pos ⟨hwrite, rfl⟩, hbyte, Option.map_some]
    rw [(hnew.wholeBanks_after _).readRam_eq, hbank, hread, Option.bind_some,
      hnew.ramByte?_after_append hoffset hlater, hwritten, Option.getD_some]
  · intro earlier access bank offset hoffset hmiss
    exact hnew.ramByte?_after_cons earlier hoffset hmiss
  · intro accesses address hnone
    rw [(hnew.wholeBanks_after accesses).readRam_eq]
    rcases hnone with hbank | hsize
    · rw [hnew.bankAt?_after, hbank, ite_self, Option.bind_none, Option.getD_none]
    · have hempty (bank : Nat) :
          (c.after accesses).ramByte? bank (address.toNat % ramBankSize) = none :=
        Array.getElem?_eq_none (by rw [hnew.ram_size_after, hsize]; exact Nat.zero_le _)
      cases (c.after accesses).bankAt? address with
      | none => rfl
      | some bank => rw [Option.bind_some, hempty, Option.getD_none]
  · intro earlier later address address' value
    rw [hnew.readRom_after, hnew.readRom_after, romWrites_append, romWrites_append]
    rfl

/-- A cartridge with four banks of RAM. A byte of bank one is read back after a write to bank two, a
write while the RAM is disabled, and the selection of bank five, which is bank one. -/
theorem ram_kept_four_banks : ∃ (bytes : ByteArray) (c : Cartridge), load bytes = .ok c ∧
    c.header.controller = .mbc5 ∧ c.ram.size = 4 * ramBankSize ∧
    (c.after [.writeRom 0x0000 0x0A, .writeRom 0x4000 0x05, .writeRam 0xA123 0x77,
      .writeRom 0x0000 0x00, .writeRam 0xA123 0x66, .writeRom 0x4000 0x02, .writeRam 0xA123 0x55,
      .writeRom 0x4000 0x01, .writeRom 0x0000 0x0A]).readRam 0xA123 = 0x55 := by
  obtain ⟨c, hload, hmbc5, hram⟩ : ∃ c, load (RomImage.blank 0x1B 3).bytes = .ok c ∧
      c.header.controller = .mbc5 ∧ c.header.ramSize = 0x8000 := load_blank 0x1B 3 rfl rfl
  have hsize : c.ram.size = 4 * ramBankSize := by
    rw [load_ram_size hload, ramSizeOf, hmbc5]
    exact hram
  have hbanks : c.ramBanks = 4 := by
    rw [ramBanks, hsize]
    rfl
  have hbank (accesses : List Access) : c.ramBank? accesses =
      if Mbc1.ramEnabledAfter (romWrites accesses) then
        some ((Mbc5.ramBankAfter (romWrites accesses)).toNat % 4) else none := by
    rw [ramBank?, banked, hmbc5, hbanks]
    rfl
  refine ⟨_, c, hload, hmbc5, hsize, ?_⟩
  refine (ram_kept hload).1 [.writeRom 0x4000 0x01, .writeRom 0x0000 0x0A]
    [.writeRom 0x0000 0x0A, .writeRom 0x4000 0x05, .writeRam 0xA123 0x77,
      .writeRom 0x0000 0x00, .writeRam 0xA123 0x66, .writeRom 0x4000 0x02] 0xA123 0x55 1
    (by decide) (by decide) ?_ ?_ ?_ ?_
  · rw [hbank]
    rfl
  · rw [hsize]
    decide
  · simp only [Undisturbed, Reaches, hbank, hmbc5]
    decide
  · rw [hbank]
    rfl

end Cartridge

end GameBoy
