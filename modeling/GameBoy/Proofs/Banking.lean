import GameBoy.Proofs.Setup
import Mathlib.Algebra.Group.Nat.Defs
import Mathlib.Data.Nat.Log

/-!
# Banking

A controller is written where the ROM is seen, and what it shows afterwards is a function of all
that was written. A *history* holds these writes, the latest first; each register is the last value
in it that counts for the register. Which register of MBC1 a write reaches may depend on the mode at
that moment, so whether a write counts may depend on the history before it.

Main statement: `Cartridge.mbc1_banking`.
-/

namespace GameBoy

/-! ## Histories -/

/-- The writes where the ROM of a cartridge is seen, the latest first. -/
abbrev RomHistory := List (UInt16 × UInt8)

namespace RomHistory

variable {α : Type}

/-- The value of the last write that counts. Whether a write counts depends on its address and on
the history before it. -/
def last? (counts : UInt16 → RomHistory → Bool) : RomHistory → Option UInt8
  | [] => none
  | (address, value) :: before => if counts address before then some value else last? counts before

/-- A register that keeps something of the last value that counts. -/
def register (counts : UInt16 → RomHistory → Bool) (keep : UInt8 → α) (initial : α)
    (history : RomHistory) : α :=
  ((history.last? counts).map keep).getD initial

theorem register_cons (counts : UInt16 → RomHistory → Bool) (keep : UInt8 → α) (initial : α)
    (address : UInt16) (value : UInt8) (before : RomHistory) :
    register counts keep initial ((address, value) :: before) =
      if counts address before then keep value else register counts keep initial before := by
  rw [register, last?]
  split <;> rfl

/-- The writes from one address up to another. -/
def within (first final address : UInt16) (_ : RomHistory) : Bool :=
  first ≤ address && address ≤ final

/-- The windows of a controller's registers divide the addresses into blocks of one size. -/
theorem within_eq {first final : UInt16} (size k : Nat) (hsize : 0 < size)
    (hfirst : first.toNat = size * k) (hfinal : final.toNat + 1 = size * k + size)
    (address : UInt16) (before : RomHistory) :
    within first final address before = (address.toNat / size == k) := by
  rw [Bool.eq_iff_iff]
  simp only [within, UInt16.le_iff_toNat_le, hfirst, Bool.and_eq_true, decide_eq_true_eq,
    beq_iff_eq]
  rw [Nat.div_eq_iff hsize, Nat.mul_comm k size]
  omega

end RomHistory

/-- The cartridge after a history of writes. -/
def Cartridge.written (c : Cartridge) : RomHistory → Cartridge
  | [] => c
  | (address, value) :: before => ((c.written before).writeRom address value).2

/-! ## Address lines -/

section

-- The loop that looks for the power is private, and nothing is known of it but that it finds one.
open private nextPowerOfTwo.go from Init.Data.Nat.Power2.Basic

theorem nextPowerOfTwo_go (n k : Nat) (h : 0 < 2 ^ k) (hk : k ≤ Nat.clog 2 n) :
    nextPowerOfTwo.go n (2 ^ k) h = 2 ^ Nat.clog 2 n := by
  have hless : k < Nat.clog 2 n ↔ 2 ^ k < n := Nat.lt_clog_iff_pow_lt (by decide)
  induction hd : Nat.clog 2 n - k generalizing k with
  | zero =>
    have hlast : k = Nat.clog 2 n := by omega
    unfold nextPowerOfTwo.go
    rw [if_neg (by omega), hlast]
  | succ d ih =>
    unfold nextPowerOfTwo.go
    rw [if_pos (hless.1 (by omega))]
    exact ih (k + 1) _ (by omega) (Nat.lt_clog_iff_pow_lt (by decide)) (by omega)

/-- The smallest power of two that is large enough. -/
theorem nextPowerOfTwo_eq (n : Nat) : n.nextPowerOfTwo = 2 ^ Nat.clog 2 n := by
  unfold Nat.nextPowerOfTwo
  exact nextPowerOfTwo_go n 0 _ (Nat.zero_le _)

end

/-! ## The registers of MBC1 -/

namespace Mbc1

open RomHistory

/-- The mode: advanced if it can be changed and the last value written for it is odd. -/
def modeAfter (switchable : Bool) (history : RomHistory) : BankingMode :=
  if switchable && history.register (within 0x6000 0x7FFF) (·.toNat % 2 == 1) false then .advanced
  else .simple

/-- The low bits: those of the last value written for them, or one if they would be zero. -/
def lowAfter (history : RomHistory) : UInt8 :=
  history.register (within 0x2000 0x3FFF) (fun value => max 1 (value &&& 0x1F)) 1

/-- The two bits of the last value that was written for them in a mode. -/
def bitsAfter (switchable : Bool) (mode : BankingMode) (history : RomHistory) : UInt8 :=
  history.register
    (fun address before =>
      within 0x4000 0x5FFF address before && modeAfter switchable before == mode)
    (· &&& 0x03) 0

/-- Whether the RAM can be used: whether the last value written to enable it does so. -/
def ramEnabledAfter (history : RomHistory) : Bool :=
  history.register (within 0x0000 0x1FFF) (· &&& 0x0F == 0x0A) false

/-- The registers after a history. -/
def after (switchable : Bool) (history : RomHistory) : Mbc1 where
  low := lowAfter history
  high := bitsAfter switchable .advanced history
  ramBank := bitsAfter switchable .simple history
  mode := modeAfter switchable history
  ramEnabled := ramEnabledAfter history

theorem after_nil (switchable : Bool) : after switchable [] = initial := by
  cases switchable <;> rfl

section

variable (switchable : Bool) (mode : BankingMode) (address : UInt16) (value : UInt8)
  (history : RomHistory)

theorem ramEnabledAfter_cons : ramEnabledAfter ((address, value) :: history) =
    if address.toNat / 0x2000 = 0 then value &&& 0x0F == 0x0A else ramEnabledAfter history := by
  rw [ramEnabledAfter, register_cons, within_eq 0x2000 0 (by decide) rfl rfl]
  simp only [beq_iff_eq, ramEnabledAfter]

theorem lowAfter_cons : lowAfter ((address, value) :: history) =
    if address.toNat / 0x2000 = 1 then max 1 (value &&& 0x1F) else lowAfter history := by
  rw [lowAfter, register_cons, within_eq 0x2000 1 (by decide) rfl rfl]
  simp only [beq_iff_eq, lowAfter]

theorem bitsAfter_cons : bitsAfter switchable mode ((address, value) :: history) =
    if address.toNat / 0x2000 = 2 ∧ modeAfter switchable history = mode then value &&& 0x03
    else bitsAfter switchable mode history := by
  rw [bitsAfter, register_cons, within_eq 0x2000 2 (by decide) rfl rfl]
  simp only [Bool.and_eq_true, beq_iff_eq, bitsAfter]

theorem modeAfter_cons : modeAfter switchable ((address, value) :: history) =
    if address.toNat / 0x2000 = 3 ∧ switchable = true then
      if value &&& 0x01 == 0 then .simple else .advanced
    else modeAfter switchable history := by
  have hbit : (value &&& 0x01 == 0) = !(value.toNat % 2 == 1) := by
    rw [Bool.eq_iff_iff]
    simp only [beq_iff_eq, Bool.not_eq_true', beq_eq_false_iff_ne, ← UInt8.toNat_inj,
      UInt8.toNat_and, UInt8.toNat_one, UInt8.toNat_zero, Nat.and_one_is_mod]
    omega
  rw [modeAfter, register_cons, within_eq 0x2000 3 (by decide) rfl rfl, hbit, modeAfter]
  cases switchable with
  | false => simp
  | true =>
    by_cases hwindow : address.toNat / 0x2000 = 3
    · cases value.toNat % 2 == 1 <;> simp [hwindow]
    · simp [hwindow]

/-- A write takes the registers to those of the longer history. -/
theorem write_after (banks : Nat) :
    ((after switchable history).write switchable banks address value).2 =
      after switchable ((address, value) :: history) := by
  unfold write
  simp only [after, ramEnabledAfter_cons, lowAfter_cons, bitsAfter_cons, modeAfter_cons]
  split
  case h_1 hwindow => simp [hwindow]
  case h_2 hwindow => simp [hwindow]
  case h_3 hwindow => cases modeAfter switchable history <;> simp [hwindow]
  case h_4 hwindow => cases switchable <;> simp [hwindow]
  case h_5 h0 h1 h2 h3 =>
    simp only [eq_false h0, eq_false h1, eq_false h2, eq_false h3, false_and, if_false]

end

/-- The low bits are never all zero. -/
theorem lowAfter_bounds (history : RomHistory) :
    1 ≤ (lowAfter history).toNat ∧ (lowAfter history).toNat < 2 ^ 5 := by
  have hkeep (value : UInt8) :
      1 ≤ (max 1 (value &&& 0x1F)).toNat ∧ (max 1 (value &&& 0x1F)).toNat < 2 ^ 5 := by
    have hfive : (value &&& 0x1F).toNat ≤ 31 := Nat.and_le_right
    have hmax : max 1 (value &&& 0x1F) = if 1 ≤ value &&& 0x1F then value &&& 0x1F else 1 := rfl
    rw [hmax]
    split
    · rename_i hpos
      exact ⟨UInt8.le_iff_toNat_le.1 hpos, by omega⟩
    · decide
  simp only [lowAfter, register]
  cases history.last? (within 0x2000 0x3FFF) with
  | none => decide
  | some value => exact hkeep value

/-- The high bits and the low bits stand side by side. -/
theorem selected_eq {m : Mbc1} (hpos : 1 ≤ m.low.toNat) (hlow : m.low.toNat < 2 ^ 5) :
    m.selected = m.high.toNat <<< 5 ||| m.low.toNat := by
  rw [← Nat.shiftLeft_add_eq_or_of_lt hlow, Nat.shiftLeft_eq, selected, Nat.max_eq_right hpos]

theorem selected_after (switchable : Bool) (history : RomHistory) :
    (after switchable history).selected =
      (bitsAfter switchable .advanced history).toNat <<< 5 ||| (lowAfter history).toNat :=
  selected_eq (lowAfter_bounds history).1 (lowAfter_bounds history).2

theorem romBank_lower (m : Mbc1) (banks : Nat) {address : UInt16} (h : address < 0x4000) :
    m.romBank banks address =
      if m.mode = .advanced then (m.high.toNat <<< 5) % 2 ^ Nat.clog 2 banks else 0 := by
  rw [romBank, if_pos h]
  cases m.mode with
  | simple => rfl
  | advanced => simp only [if_true, onLines, nextPowerOfTwo_eq, Nat.shiftLeft_eq, Nat.reducePow]

theorem romBank_upper (m : Mbc1) (banks : Nat) {address : UInt16} (h : 0x4000 ≤ address) :
    m.romBank banks address = m.selected % 2 ^ Nat.clog 2 banks := by
  have hupper : ¬ address < 0x4000 := UInt16.not_lt.2 h
  rw [romBank, if_neg hupper, onLines, nextPowerOfTwo_eq]

/-- With five address lines the low bits are all there. -/
theorem selected_ne {banks : Nat} (h : 17 ≤ banks) (switchable : Bool) (history : RomHistory) :
    (after switchable history).selected % 2 ^ Nat.clog 2 banks % 32 ≠ 0 := by
  obtain ⟨hpos, hlow⟩ := lowAfter_bounds history
  have hlines : 4 < Nat.clog 2 banks := (Nat.lt_clog_iff_pow_lt (by decide)).2 (by omega)
  obtain ⟨k, hk⟩ : 2 ^ 5 ∣ 2 ^ Nat.clog 2 banks := Nat.pow_dvd_pow 2 hlines
  rw [hk, Nat.mod_mul_right_mod, selected]
  simp only [after]
  omega

end Mbc1

namespace Cartridge

open Mbc1

theorem written_mbc1 {c : Cartridge} (h : c.mapper = .mbc1 .initial) (history : RomHistory) :
    c.written history =
      { c with mapper := .mbc1 (.after (isSwitchable c.rom.size c.ram.size) history) } := by
  induction history with
  | nil =>
    rw [written, after_nil, ← h]
  | cons write before ih =>
    obtain ⟨address, value⟩ := write
    rw [written, ih, ← write_after _ _ _ _ c.rom.banks]
    rfl

theorem load_mbc1 {bytes : ByteArray} {c : Cartridge} (hload : load bytes = .ok c)
    (hmbc1 : c.header.controller = .mbc1) :
    c.rom.bytes = bytes ∧ c.mapper = .mbc1 .initial ∧ c.ram.size = c.header.ramSize := by
  obtain ⟨rom, header, hbytes, -, rfl⟩ := load_eq_ok.1 hload
  change header.controller = .mbc1 at hmbc1
  refine ⟨hbytes, ?_, ?_⟩
  · rw [hmbc1]
    rfl
  · rw [Array.size_replicate, ramSizeOf, hmbc1]

/-- The registers of a cartridge with MBC1 are functions of the history. Its lower window shows bank
zero, or in the advanced mode the one that the high bits select, and its upper window the one that
both select, on as many address lines as the whole banks need. If these are at least five, then no
bank is shown in the upper window whose five low bits are zero. -/
theorem mbc1_banking {bytes : ByteArray} {c : Cartridge} (hload : load bytes = .ok c)
    (hmbc1 : c.header.controller = .mbc1) (history : RomHistory) :
    let switchable := 512 * 1024 < bytes.size || 8 * 1024 < c.header.ramSize
    let low := (lowAfter history).toNat
    let high := (bitsAfter switchable .advanced history).toNat
    let banks := bytes.size / 0x4000
    let lower :=
      if modeAfter switchable history = .advanced then (high <<< 5) % 2 ^ Nat.clog 2 banks else 0
    let upper := (high <<< 5 ||| low) % 2 ^ Nat.clog 2 banks
    c.written history = { c with mapper := .mbc1 (.after switchable history) } ∧
      (∀ address, address < 0x4000 →
        (c.written history).readRom address =
          bytes[lower * 0x4000 + address.toNat]?.getD 0xFF) ∧
      (∀ address, 0x4000 ≤ address → address < 0x8000 →
        (c.written history).readRom address =
          bytes[upper * 0x4000 + (address.toNat - 0x4000)]?.getD 0xFF) ∧
      (17 ≤ banks → upper % 32 ≠ 0) := by
  intro switchable low high banks lower upper
  obtain ⟨rfl, hmapper, hram⟩ := load_mbc1 hload hmbc1
  have hwritten : c.written history = { c with mapper := .mbc1 (.after switchable history) } := by
    rw [written_mbc1 hmapper, hram]
    rfl
  have hread (address : UInt16) {bank : Nat}
      (hbank : (after switchable history).romBank banks address = bank) :
      (c.written history).readRom address =
        c.rom.bytes[bank * 0x4000 + address.toNat % 0x4000]?.getD 0xFF := by
    rw [hwritten, ← hbank]
    rfl
  refine ⟨hwritten, ?_, ?_, ?_⟩
  · intro address haddress
    have hoffset : address.toNat % 0x4000 = address.toNat :=
      Nat.mod_eq_of_lt (UInt16.lt_iff_toNat_lt.1 haddress)
    have hbank : (after switchable history).romBank banks address = lower :=
      romBank_lower _ _ haddress
    rw [hread address hbank, hoffset]
  · intro address hstart hend
    have hoffset : address.toNat % 0x4000 = address.toNat - 0x4000 := by
      have hstart' : 0x4000 ≤ address.toNat := UInt16.le_iff_toNat_le.1 hstart
      have hend' : address.toNat < 0x8000 := UInt16.lt_iff_toNat_lt.1 hend
      omega
    have hbank : (after switchable history).romBank banks address = upper := by
      rw [romBank_upper _ _ hstart, selected_after]
    rw [hread address hbank, hoffset]
  · intro hbanks
    have hne := selected_ne hbanks switchable history
    rw [selected_after] at hne
    exact hne

/-- A cartridge with 128 banks, after a change of the mode and writes to both parts of the number of
its bank: the windows show the banks 64 and 69. -/
theorem mbc1_banking_numbered : ∃ (bytes : ByteArray) (c : Cartridge),
    load bytes = .ok c ∧ c.header.controller = .mbc1 ∧
    (c.written [(0x2000, 0x45), (0x4000, 0x02), (0x6000, 0x01)]).readRom 0x0000 = 64 ∧
    (c.written [(0x2000, 0x45), (0x4000, 0x02), (0x6000, 0x01)]).readRom 0x4000 = 69 := by
  obtain ⟨bytes, hsize, hfirst, c, hload, hmbc1, -⟩ : ∃ bytes : ByteArray,
      bytes.size = 128 * romBankSize ∧
      (∀ bank < 128, bytes[bank * romBankSize]?.getD 0xFF = bank.toUInt8) ∧
      ∃ c, load bytes = .ok c ∧ c.header.controller = .mbc1 ∧ c.header.ramSize = 0 := by
    have hbanks : 2 ≤ 128 := by decide
    have hcode : Controller.ofCode 0x01 = .ok .mbc1 := rfl
    exact ⟨_, RomImage.size_numbered hbanks 0x01,
      fun bank hbank => RomImage.first_numbered hbanks 0x01 hbank, load_numbered hbanks hcode⟩
  have hlines : Nat.clog 2 (128 * romBankSize / 0x4000) = 7 := by decide
  have hswitchable : (512 * 1024 < 128 * romBankSize || 8 * 1024 < c.header.ramSize) = true := rfl
  obtain ⟨-, hlower, hupper, -⟩ :=
    mbc1_banking hload hmbc1 [(0x2000, 0x45), (0x4000, 0x02), (0x6000, 0x01)]
  refine ⟨bytes, c, hload, hmbc1, ?_, ?_⟩
  · rw [hlower 0 (by decide), hsize, hswitchable, hlines]
    exact hfirst 64 (by decide)
  · rw [hupper 0x4000 (by decide) (by decide), hsize, hswitchable, hlines]
    exact hfirst 69 (by decide)

end Cartridge

end GameBoy
