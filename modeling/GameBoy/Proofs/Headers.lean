import GameBoy.Proofs.Setup
import Mathlib.Algebra.BigOperators.Fin
import Mathlib.Algebra.BigOperators.Intervals

/-!
# Headers of cartridges

What an image must satisfy to be a cartridge, which error it is refused with, and what its header
says. Of an image that is large enough only the bytes from 0134 to 014D count. The last of them is a
checksum of the others, and a change of any single one of these bytes, itself included, is found by
it: the sum determines each byte from the others.

Main statement: `Header.parse_law`.
-/

namespace GameBoy

open Header (titleText checksumOf)

/-! ## Bytes of an image -/

/-- The byte at a place of an image. Past its end there are zeros. -/
def imageByte (bytes : ByteArray) (i : Nat) : UInt8 := bytes[i]?.getD 0

/-- So many bytes of an image from a place on. -/
def imageField (bytes : ByteArray) (first n : Nat) : List UInt8 :=
  (List.range n).map fun i => imageByte bytes (first + i)

theorem RomImage.byte_eq (rom : RomImage) (i : Fin 0x8000) : rom.byte i = imageByte rom.bytes i := by
  have hi : i.val < rom.bytes.size := Nat.lt_of_lt_of_le i.isLt rom.two_banks
  rw [imageByte, getElem?_pos rom.bytes i.val hi]
  rfl

theorem RomImage.field_eq (rom : RomImage) (first n : Nat) (h : first + n ≤ 0x8000) :
    (List.finRange n).map (fun i => rom.byte
      ⟨first + i.val, Nat.lt_of_lt_of_le (Nat.add_lt_add_left i.isLt first) h⟩) =
      imageField rom.bytes first n := by
  simp only [rom.byte_eq, imageField]
  rw [← List.map_coe_finRange_eq_range, List.map_map]
  rfl

/-- The smallest image with the given bytes. -/
def RomImage.ofPlaces (f : Nat → UInt8) : RomImage where
  bytes := ⟨Array.ofFn fun i : Fin 0x8000 => f i.val⟩
  two_banks := by simp only [ByteArray.size, Array.size_ofFn, Nat.le_refl]

theorem imageByte_ofPlaces (f : Nat → UInt8) {i : Nat} (hi : i < 0x8000) :
    imageByte (RomImage.ofPlaces f).bytes i = f i := by
  rw [← (RomImage.ofPlaces f).byte_eq ⟨i, hi⟩]
  simp only [RomImage.byte, RomImage.ofPlaces, ByteArray.getElem_eq_getElem_data, Array.getElem_ofFn]

theorem imageField_ofPlaces (f : Nat → UInt8) (first : Nat) {n : Nat} (h : first + n ≤ 0x8000) :
    imageField (RomImage.ofPlaces f).bytes first n = (List.range n).map fun i => f (first + i) := by
  refine List.map_congr_left fun i hi => imageByte_ofPlaces f ?_
  have hlt := List.mem_range.1 hi
  omega

/-! ## Families of controllers -/

namespace Controller

/-- The type codes of a family. -/
def codes : Controller → List UInt8
  | mbc0 => [0x00, 0x08, 0x09]
  | mbc1 => [0x01, 0x02, 0x03]
  | mbc3 => [0x0F, 0x10, 0x11, 0x12, 0x13]
  | mbc5 => [0x19, 0x1A, 0x1B, 0x1C, 0x1D, 0x1E]

theorem ofCode_eq_ok {code : UInt8} {c : Controller} : ofCode code = .ok c ↔ code ∈ c.codes := by
  have hall : ∀ n : Fin 256, ofCode (.ofNat n.val) = .ok c ↔ UInt8.ofNat n.val ∈ c.codes := by
    cases c <;> decide +kernel
  have hcode := hall ⟨code.toNat, code.toNat_lt⟩
  rwa [UInt8.ofNat_toNat] at hcode

theorem ofCode_cases (code : UInt8) :
    (∃ c : Controller, code ∈ c.codes ∧ ofCode code = .ok c) ∨
      (¬ ∃ c : Controller, code ∈ c.codes) ∧ ofCode code = .error (.unsupportedType code) := by
  cases hcode : ofCode code with
  | ok c => exact .inl ⟨c, ofCode_eq_ok.1 hcode, rfl⟩
  | error e =>
    refine .inr ⟨?_, ?_⟩
    · rintro ⟨c, hmem⟩
      rw [ofCode_eq_ok.2 hmem] at hcode
      cases hcode
    · unfold ofCode at hcode
      split_ifs at hcode
      exact hcode.symm

end Controller

namespace Header

/-! ## What is accepted -/

/-- What an image must satisfy, in the order in which it is checked, each with the error of an image
that does not. -/
def demands (bytes : ByteArray) : List (Prop × CartridgeError) :=
  let code := imageByte bytes 0x147
  let romCode := imageByte bytes 0x148
  let ramCode := imageByte bytes 0x149
  [(0x8000 ≤ bytes.size, .tooSmall bytes.size),
    ((∃ c : Controller, code ∈ c.codes), .unsupportedType code),
    (romCode ≤ 8, .invalidRomSize romCode),
    (ramCode ∈ [0, 2, 3, 4, 5], .invalidRamSize ramCode)]

/-- The first of some demands that is not met has the given error. -/
inductive FirstUnmet : List (Prop × CartridgeError) → CartridgeError → Prop where
  | here {demand : Prop} {e : CartridgeError} {rest : List (Prop × CartridgeError)} :
      ¬ demand → FirstUnmet ((demand, e) :: rest) e
  | later {demand : Prop} {e e' : CartridgeError} {rest : List (Prop × CartridgeError)} :
      demand → FirstUnmet rest e → FirstUnmet ((demand, e') :: rest) e

theorem FirstUnmet.not_met {demands : List (Prop × CartridgeError)} {e : CartridgeError}
    (h : FirstUnmet demands e) : ¬ ∀ demand ∈ demands, demand.1 := by
  induction h with
  | here hunmet => exact fun hmet => hunmet (hmet _ List.mem_cons_self)
  | later _ _ ih => exact fun hmet => ih fun demand hmem => hmet demand (List.mem_cons_of_mem _ hmem)

theorem FirstUnmet.unique {demands : List (Prop × CartridgeError)} {e e' : CartridgeError}
    (h : FirstUnmet demands e) (h' : FirstUnmet demands e') : e = e' := by
  induction h with
  | here hunmet =>
    cases h' with
    | here => rfl
    | later hmet => exact absurd hmet hunmet
  | later hmet _ ih =>
    cases h' with
    | here hunmet => exact absurd hmet hunmet
    | later _ h' => exact ih h'

theorem parse_small {bytes : ByteArray} (h : ¬ 0x8000 ≤ bytes.size) :
    parse bytes = .error (.tooSmall bytes.size) := by
  have hsmall : bytes.size < 0x8000 := Nat.lt_of_not_le h
  simp only [parse, RomImage.ofBytes, dif_pos hsmall]
  rfl

/-- The header of an image that is large enough. -/
theorem parse_large {bytes : ByteArray} (h : 0x8000 ≤ bytes.size) :
    parse bytes = do
      let controller ← Controller.ofCode (imageByte bytes 0x147)
      let romSize ← romSizeOfCode (imageByte bytes 0x148)
      let ramSize ← ramSizeOfCode (imageByte bytes 0x149)
      return {
        title := titleText (imageField bytes 0x134 15)
        typeCode := imageByte bytes 0x147
        controller, romSize, ramSize
        checksum := imageByte bytes 0x14D
        computed := checksumOf (imageField bytes 0x134 25) } := by
  obtain ⟨rom, rfl⟩ : ∃ rom : RomImage, rom.bytes = bytes := ⟨⟨bytes, h⟩, rfl⟩
  have htitle : titleBytes rom = imageField rom.bytes 0x134 15 := rom.field_eq 0x134 15 (by decide)
  have hchecked : checkedBytes rom = imageField rom.bytes 0x134 25 :=
    rom.field_eq 0x134 25 (by decide)
  have hparse : parse rom.bytes = ofImage rom := by
    rw [parse, RomImage.ofBytes_eq_ok.2 rfl]
    rfl
  rw [hparse, ofImage, htitle, hchecked]
  simp only [rom.byte_eq]
  rfl

theorem romSizeOfCode_cases (code : UInt8) :
    (code ≤ 8 ∧ ∃ size, romSizeOfCode code = .ok size) ∨
      ¬ code ≤ 8 ∧ romSizeOfCode code = .error (.invalidRomSize code) := by
  unfold romSizeOfCode
  by_cases hcode : code ≤ 8
  · exact .inl ⟨hcode, _, if_pos hcode⟩
  · exact .inr ⟨hcode, if_neg hcode⟩

theorem ramSizeOfCode_cases (code : UInt8) :
    (code ∈ [0, 2, 3, 4, 5] ∧ ∃ size, ramSizeOfCode code = .ok size) ∨
      code ∉ [0, 2, 3, 4, 5] ∧ ramSizeOfCode code = .error (.invalidRamSize code) := by
  unfold ramSizeOfCode
  split_ifs with h₀ h₂ h₃ h₄ h₅
  case neg => exact .inr ⟨by simp [*], rfl⟩
  all_goals exact .inl ⟨by simp [*], _, rfl⟩

/-- An image is refused with the error of the first demand that is not met, and else accepted. -/
theorem parse_cases (bytes : ByteArray) :
    (∃ e, FirstUnmet (demands bytes) e ∧ parse bytes = .error e) ∨
      (∀ demand ∈ demands bytes, demand.1) ∧ ∃ header, parse bytes = .ok header := by
  by_cases hsize : 0x8000 ≤ bytes.size
  · rw [parse_large hsize]
    rcases Controller.ofCode_cases (imageByte bytes 0x147) with ⟨c, hcode, hc⟩ | ⟨hcode, hc⟩
    · rcases romSizeOfCode_cases (imageByte bytes 0x148) with ⟨hrom, n, hn⟩ | ⟨hrom, hn⟩
      · rcases ramSizeOfCode_cases (imageByte bytes 0x149) with ⟨hram, m, hm⟩ | ⟨hram, hm⟩
        · refine .inr ⟨?_, _, by rw [hc, hn, hm]; rfl⟩
          simp only [demands, List.forall_mem_cons]
          exact ⟨hsize, ⟨c, hcode⟩, hrom, hram, by simp⟩
        · exact .inl ⟨_, .later hsize (.later ⟨c, hcode⟩ (.later hrom (.here hram))), by
            rw [hc, hn, hm]; rfl⟩
      · exact .inl ⟨_, .later hsize (.later ⟨c, hcode⟩ (.here hrom)), by rw [hc, hn]; rfl⟩
    · exact .inl ⟨_, .later hsize (.here hcode), by rw [hc]; rfl⟩
  · exact .inl ⟨_, .here hsize, parse_small hsize⟩

variable {bytes bytes' : ByteArray}

theorem parse_isOk : (∃ header, parse bytes = .ok header) ↔ ∀ demand ∈ demands bytes, demand.1 := by
  rcases parse_cases bytes with ⟨e, hunmet, herror⟩ | ⟨hmet, hok⟩
  · constructor
    · rintro ⟨header, hok⟩
      rw [herror] at hok
      cases hok
    · intro hmet
      exact absurd hmet hunmet.not_met
  · exact ⟨fun _ => hmet, fun _ => hok⟩

theorem parse_error (e : CartridgeError) : parse bytes = .error e ↔ FirstUnmet (demands bytes) e := by
  rcases parse_cases bytes with ⟨e', hunmet, herror⟩ | ⟨hmet, header, hok⟩
  · rw [herror]
    constructor
    · intro h
      obtain rfl := Except.error.inj h
      exact hunmet
    · intro h
      rw [hunmet.unique h]
  · rw [hok]
    constructor
    · intro h
      cases h
    · intro h
      exact absurd hmet h.not_met

/-- A cartridge has the header of its image, and is refused for the same reasons. -/
theorem load_header (bytes : ByteArray) :
    (Cartridge.load bytes).map (·.header) = parse bytes := by
  simp only [Cartridge.load, parse, Cartridge.ofImage, bind, Except.bind]
  cases RomImage.ofBytes bytes with
  | error e => rfl
  | ok rom =>
    simp only [Except.map]
    cases ofImage rom <;> rfl

/-! ## The title -/

/-- What a text must be to be the title in a field of bytes. -/
structure IsTitle (field : List UInt8) (title : String) : Prop where
  short : title.length ≤ field.length
  printable : ∀ c ∈ title.toList, 0x20 ≤ c.toNat ∧ c.toNat ≤ 0x7E
  trimmed : title.toList.getLast? ≠ some ' '
  /-- With spaces after it, it is what stands before the first zero and can be printed. -/
  shown : ∃ spaces, ((field.takeWhile (· != 0)).filter fun b => 0x20 ≤ b && b ≤ 0x7E).map
    (fun b => Char.ofNat b.toNat) = title.toList ++ List.replicate spaces ' '

theorem isTitle_titleText (field : List UInt8) : IsTitle field (titleText field) := by
  let shown := (field.takeWhile (· != 0)).filter isPrintable
  let chars := shown.map fun b => Char.ofNat b.toNat
  have htitle : (titleText field).toList = Text.dropTrailing (· == ' ') chars :=
    String.toList_ofList
  obtain ⟨⟨spaces, hchars⟩, htrimmed⟩ := Text.exists_dropTrailing_beq ' ' chars
  rw [← htitle] at hchars htrimmed
  refine ⟨?_, ?_, htrimmed, spaces, hchars⟩
  · calc (titleText field).length
      _ = (titleText field).toList.length := String.length_toList.symm
      _ ≤ chars.length := by
        have hlength := congrArg List.length hchars
        rw [List.length_append] at hlength
        omega
      _ = shown.length := List.length_map _
      _ ≤ (field.takeWhile (· != 0)).length := List.length_filter_le _ _
      _ ≤ field.length := (List.takeWhile_sublist _).length_le
  · intro c hc
    have hmem : c ∈ chars := by
      rw [hchars]
      exact List.mem_append_left _ hc
    obtain ⟨b, hb, rfl⟩ := List.mem_map.1 hmem
    have hprintable : 0x20 ≤ b ∧ b ≤ 0x7E := by
      simpa [isPrintable] using (List.mem_filter.1 hb).2
    have hlow := UInt8.le_iff_toNat_le.1 hprintable.1
    have hhigh := UInt8.le_iff_toNat_le.1 hprintable.2
    have hvalid : b.toNat.isValidChar := .inl (by have := b.toNat_lt; omega)
    have hchar : (Char.ofNat b.toNat).toNat = b.toNat := by
      rw [Char.ofNat, dif_pos hvalid]
      rfl
    rw [hchar]
    exact ⟨hlow, hhigh⟩

/-! ## The checksum -/

/-- The checksum in closed form. -/
theorem toNat_checksumOf (bytes : List UInt8) :
    ((checksumOf bytes).toNat : Int) =
      (-(bytes.map fun b => (b.toNat : Int)).sum - bytes.length) % 256 := by
  -- The sum so far is carried through the induction.
  have hfold : ∀ sum : UInt8, ((bytes.foldl (fun sum b => sum - b - 1) sum).toNat : Int) =
      (sum.toNat - (bytes.map fun b => (b.toNat : Int)).sum - bytes.length) % 256 := by
    induction bytes with
    | nil =>
      intro sum
      have hsum := sum.toNat_lt
      simp only [List.foldl_nil, List.map_nil, List.sum_nil, List.length_nil]
      omega
    | cons b bytes ih =>
      intro sum
      have hstep : (sum - b - 1).toNat = (2 ^ 8 - 1 + (2 ^ 8 - b.toNat + sum.toNat) % 2 ^ 8) % 2 ^ 8 := by
        rw [UInt8.toNat_sub, UInt8.toNat_sub]
        rfl
      have hb := b.toNat_lt
      rw [List.foldl_cons, ih, hstep]
      simp only [List.map_cons, List.sum_cons, List.length_cons]
      omega
  simpa [checksumOf] using hfold 0

theorem sum_imageField (bytes : ByteArray) (first n : Nat) :
    ((imageField bytes first n).map fun b => (b.toNat : Int)).sum =
      ∑ i ∈ Finset.Ico first (first + n), ((imageByte bytes i).toNat : Int) := by
  rw [Finset.sum_Ico_eq_sum_range, Nat.add_sub_cancel_left]
  induction n with
  | zero => rfl
  | succ n ih =>
    rw [Finset.sum_range_succ, ← ih]
    simp only [imageField, List.range_succ, List.map_append, List.sum_append]
    simp

/-- The checksum that an image should carry: its bytes from 0134 to 014C subtracted from 231. -/
theorem toNat_computed (bytes : ByteArray) :
    ((checksumOf (imageField bytes 0x134 25)).toNat : Int) =
      (231 - ∑ i ∈ Finset.Icc 0x134 0x14C, ((imageByte bytes i).toNat : Int)) % 256 := by
  have hsum := sum_imageField bytes 0x134 25
  have hlength : (imageField bytes 0x134 25).length = 25 := by simp [imageField]
  have hplaces : Finset.Ico 0x134 (0x134 + 25) = Finset.Icc 0x134 0x14C := by decide
  rw [toNat_checksumOf, hsum, hlength, hplaces]
  omega

/-- The other bytes and the checksum determine a byte. -/
theorem checksumOf_ne {k : Nat} (hk : k ∈ Finset.Icc 0x134 0x14C)
    (hother : imageByte bytes' k ≠ imageByte bytes k)
    (hsame : ∀ i ∈ Finset.Icc 0x134 0x14C, i ≠ k → imageByte bytes' i = imageByte bytes i) :
    checksumOf (imageField bytes' 0x134 25) ≠ checksumOf (imageField bytes 0x134 25) := by
  intro heq
  have hrest : ∑ i ∈ (Finset.Icc 0x134 0x14C).erase k, ((imageByte bytes' i).toNat : Int) =
      ∑ i ∈ (Finset.Icc 0x134 0x14C).erase k, ((imageByte bytes i).toNat : Int) := by
    refine Finset.sum_congr rfl fun i hi => ?_
    obtain ⟨hne, hi⟩ := Finset.mem_erase.1 hi
    rw [hsame i hi hne]
  have hsum' := Finset.add_sum_erase _ (fun i => ((imageByte bytes' i).toNat : Int)) hk
  have hsum := Finset.add_sum_erase _ (fun i => ((imageByte bytes i).toNat : Int)) hk
  have hcomputed : ((checksumOf (imageField bytes' 0x134 25)).toNat : Int) =
      ((checksumOf (imageField bytes 0x134 25)).toNat : Int) := by rw [heq]
  rw [toNat_computed, toNat_computed, ← hsum, ← hsum', hrest] at hcomputed
  have hb' := (imageByte bytes' k).toNat_lt
  have hb := (imageByte bytes k).toNat_lt
  exact hother (UInt8.toNat_inj.1 (by omega))

/-! ## The header -/

theorem fields_of_parse {header : Header} (h : parse bytes = .ok header) :
    header.title = titleText (imageField bytes 0x134 15) ∧
      header.checksum = imageByte bytes 0x14D ∧
      header.computed = checksumOf (imageField bytes 0x134 25) := by
  by_cases hsize : 0x8000 ≤ bytes.size
  · rw [parse_large hsize] at h
    cases hc : Controller.ofCode (imageByte bytes 0x147) with
    | error => simp [hc, bind, Except.bind] at h
    | ok c =>
      cases hn : romSizeOfCode (imageByte bytes 0x148) with
      | error => simp [hc, hn, bind, Except.bind] at h
      | ok n =>
        cases hm : ramSizeOfCode (imageByte bytes 0x149) with
        | error => simp [hc, hn, hm, bind, Except.bind] at h
        | ok m =>
          rw [hc, hn, hm] at h
          obtain rfl := Except.ok.inj h
          exact ⟨rfl, rfl, rfl⟩
  · rw [parse_small hsize] at h
    cases h

/-- Of an image that is large enough, the bytes from 0134 to 014D decide. -/
theorem parse_congr (h : 0x8000 ≤ bytes.size) (h' : 0x8000 ≤ bytes'.size)
    (hsame : ∀ i ∈ Finset.Icc 0x134 0x14D, imageByte bytes' i = imageByte bytes i) :
    parse bytes' = parse bytes := by
  have hfield (n : Nat) (hn : n ≤ 26) : imageField bytes' 0x134 n = imageField bytes 0x134 n := by
    refine List.map_congr_left fun i hi => hsame _ (Finset.mem_Icc.2 ?_)
    have hlt := List.mem_range.1 hi
    omega
  rw [parse_large h, parse_large h', hfield 15 (by decide), hfield 25 (by decide),
    hsame 0x147 (by decide), hsame 0x148 (by decide), hsame 0x149 (by decide),
    hsame 0x14D (by decide)]

/-- If two images differ in one byte from 0134 to 014D, the checksum of one of them is wrong. -/
theorem checksum_wrong {header header' : Header} (hparse : parse bytes = .ok header)
    (hparse' : parse bytes' = .ok header')
    (hone : ∃! k, k ∈ Finset.Icc 0x134 0x14D ∧ imageByte bytes' k ≠ imageByte bytes k) :
    ¬ (header.checksumOk = true ∧ header'.checksumOk = true) := by
  rintro ⟨hok, hok'⟩
  obtain ⟨k, ⟨hk, hother⟩, hunique⟩ := hone
  obtain ⟨-, hstored, hcomputed⟩ := fields_of_parse hparse
  obtain ⟨-, hstored', hcomputed'⟩ := fields_of_parse hparse'
  have hsum : imageByte bytes 0x14D = checksumOf (imageField bytes 0x134 25) := by
    rw [← hstored, ← hcomputed]
    exact eq_of_beq hok
  have hsum' : imageByte bytes' 0x14D = checksumOf (imageField bytes' 0x134 25) := by
    rw [← hstored', ← hcomputed']
    exact eq_of_beq hok'
  have hsame : ∀ i ∈ Finset.Icc 0x134 0x14D, i ≠ k → imageByte bytes' i = imageByte bytes i := by
    intro i hi hne
    by_contra hdiffers
    exact hne (hunique i ⟨hi, hdiffers⟩)
  by_cases hlast : k = 0x14D
  · -- The checksum itself has changed, and what it should be has not.
    have hfield : imageField bytes' 0x134 25 = imageField bytes 0x134 25 := by
      refine List.map_congr_left fun i hi => hsame _ (Finset.mem_Icc.2 ?_) ?_
      all_goals
        have hlt := List.mem_range.1 hi
        omega
    rw [hlast, hsum, hsum', hfield] at hother
    exact hother rfl
  · have hk' : k ∈ Finset.Icc 0x134 0x14C := by
      rw [Finset.mem_Icc] at hk ⊢
      omega
    have hinner : ∀ i ∈ Finset.Icc 0x134 0x14C, i ≠ k → imageByte bytes' i = imageByte bytes i := by
      intro i hi
      rw [Finset.mem_Icc] at hi
      exact hsame i (Finset.mem_Icc.2 (by omega))
    refine checksumOf_ne hk' hother hinner ?_
    rw [← hsum, ← hsum', hsame 0x14D (by decide) (Ne.symm hlast)]

/-- **What a header is.** An image is accepted exactly if it meets all demands, and refused with the
error of the first that it does not meet; a cartridge is loaded with the header of its image. The
title has printable characters of its field before the first zero, and the checksum that the header
should carry is 231 less the sum of the bytes before it. For two images that are large enough, the
same bytes from 0134 to 014D give the same header, and if just one of these bytes is different, one
of the two carries a wrong checksum. -/
theorem parse_law (bytes : ByteArray) :
    ((∃ header, parse bytes = .ok header) ↔ ∀ demand ∈ demands bytes, demand.1) ∧
    (∀ e, parse bytes = .error e ↔ FirstUnmet (demands bytes) e) ∧
    (Cartridge.load bytes).map (·.header) = parse bytes ∧
    (∀ header, parse bytes = .ok header → IsTitle (imageField bytes 0x134 15) header.title ∧
      (header.computed.toNat : Int) =
        (231 - ∑ i ∈ Finset.Icc 0x134 0x14C, ((imageByte bytes i).toNat : Int)) % 256) ∧
    ∀ bytes' : ByteArray,
      (0x8000 ≤ bytes.size → 0x8000 ≤ bytes'.size →
        (∀ i ∈ Finset.Icc 0x134 0x14D, imageByte bytes' i = imageByte bytes i) →
        parse bytes' = parse bytes) ∧
      ∀ header header', parse bytes = .ok header → parse bytes' = .ok header' →
        (∃! i, i ∈ Finset.Icc 0x134 0x14D ∧ imageByte bytes' i ≠ imageByte bytes i) →
        ¬ (header.checksumOk = true ∧ header'.checksumOk = true) := by
  refine ⟨parse_isOk, parse_error, load_header bytes, ?_, fun bytes' => ⟨parse_congr, ?_⟩⟩
  · intro header hok
    obtain ⟨htitle, -, hcomputed⟩ := fields_of_parse hok
    rw [htitle, hcomputed]
    exact ⟨isTitle_titleText _, toNat_computed bytes⟩
  · intro header header'
    exact checksum_wrong

/-- The places of an image without a controller, with the title `A` and its checksum. -/
def samplePlaces (i : Nat) : UInt8 :=
  if i = 0x134 then 0x41 else if i = 0x14D then 0xA6 else 0

/-- The image with a byte put at a place. -/
def sampleWith (place : Nat) (value : UInt8) : ByteArray :=
  (RomImage.ofPlaces (Function.update samplePlaces place value)).bytes

theorem imageByte_sampleWith (place : Nat) (value : UInt8) {i : Nat} (hi : i < 0x8000) :
    imageByte (sampleWith place value) i = Function.update samplePlaces place value i :=
  imageByte_ofPlaces _ hi

/-- A letter that is put into the title is found by the checksum; a byte put after the header
changes nothing. -/
theorem parse_law_corrupted : ∃ header header' : Header,
    parse (sampleWith 0x150 0) = .ok header ∧ header.checksumOk = true ∧
    IsTitle (imageField (sampleWith 0x150 0) 0x134 15) header.title ∧
    parse (sampleWith 0x135 0x42) = .ok header' ∧ header'.checksumOk = false ∧
    parse (sampleWith 0x150 1) = .ok header := by
  have hsize (place : Nat) (value : UInt8) : 0x8000 ≤ (sampleWith place value).size :=
    (RomImage.ofPlaces _).two_banks
  have hmet (place : Nat) (value : UInt8) (hplace : place ∉ Finset.Icc 0x147 0x149) :
      ∀ demand ∈ demands (sampleWith place value), demand.1 := by
    have hzero (i : Nat) (hi : i ∈ Finset.Icc 0x147 0x149) :
        imageByte (sampleWith place value) i = 0 := by
      have hne : i ≠ place := fun h => hplace (h ▸ hi)
      rw [imageByte_sampleWith place value (by rw [Finset.mem_Icc] at hi; omega),
        Function.update_of_ne hne]
      exact (by decide : ∀ i ∈ Finset.Icc 0x147 0x149, samplePlaces i = 0) i hi
    simp only [demands, hzero 0x147 (by decide), hzero 0x148 (by decide), hzero 0x149 (by decide),
      List.forall_mem_cons]
    exact ⟨hsize place value, ⟨.mbc0, by decide⟩, by decide, by decide, by simp⟩
  obtain ⟨header, hparse⟩ := (parse_law (sampleWith 0x150 0)).1.2 (hmet _ _ (by decide))
  obtain ⟨header', hparse'⟩ := (parse_law (sampleWith 0x135 0x42)).1.2 (hmet _ _ (by decide))
  obtain ⟨-, -, -, hfields, hpair⟩ := parse_law (sampleWith 0x150 0)
  have hok : header.checksumOk = true := by
    obtain ⟨-, hstored, hcomputed⟩ := fields_of_parse hparse
    rw [checksumOk, hstored, hcomputed, imageByte_sampleWith _ _ (by decide), sampleWith,
      imageField_ofPlaces _ _ (by decide)]
    decide +kernel
  have hone : ∃! i, i ∈ Finset.Icc 0x134 0x14D ∧
      imageByte (sampleWith 0x135 0x42) i ≠ imageByte (sampleWith 0x150 0) i := by
    refine ⟨0x135, ⟨by decide, ?_⟩, ?_⟩
    · rw [imageByte_sampleWith _ _ (by decide), imageByte_sampleWith _ _ (by decide)]
      decide
    · rintro i ⟨hi, hne⟩
      by_contra hother
      have hbound := Finset.mem_Icc.1 hi
      rw [imageByte_sampleWith _ _ (by omega), imageByte_sampleWith _ _ (by omega),
        Function.update_of_ne hother, Function.update_of_ne (by omega)] at hne
      exact hne rfl
  have hwrong := (hpair (sampleWith 0x135 0x42)).2 header header' hparse hparse' hone
  have hrest : ∀ i ∈ Finset.Icc 0x134 0x14D,
      imageByte (sampleWith 0x150 1) i = imageByte (sampleWith 0x150 0) i := by
    intro i hi
    have hbound := Finset.mem_Icc.1 hi
    rw [imageByte_sampleWith _ _ (by omega), imageByte_sampleWith _ _ (by omega),
      Function.update_of_ne (by omega), Function.update_of_ne (by omega)]
  refine ⟨header, header', hparse, hok, (hfields header hparse).1, hparse', ?_, ?_⟩
  · exact Bool.eq_false_iff.2 fun hok' => hwrong ⟨hok, hok'⟩
  · rw [(hpair (sampleWith 0x150 1)).1 (hsize _ _) (hsize _ _) hrest]
    exact hparse

end Header

end GameBoy
