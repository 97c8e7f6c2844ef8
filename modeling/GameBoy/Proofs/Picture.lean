import GameBoy.Proofs.Bits
import GameBoy.Proofs.BoundedMemory
import GameBoy.Video.Background
import Mathlib.Data.List.FinRange
import Mathlib.Data.List.TakeWhile

/-!
# The picture of the background

The background is a plane of 256 by 256 pixels, of which the scroll registers put a part on the
screen. Here the shade of each pixel is told from the bytes of video memory at their addresses, and
the picture as text from the shades: the lines from the first to the last that show anything, each
without the blank pixels at its end.

Main statement: `Memory.picture_law`.
-/

namespace GameBoy

namespace Memory

/-! ## The plane -/

/-- The byte of video memory at an address from 8000 to 9FFF. -/
def videoByte (m : Memory) (address : Int) : UInt8 := m.vram[(address - 0x8000).toNat]?.getD 0

/-- Where the map of the tiles starts. Bit 3 of the control register chooses. -/
def mapStart (lcdc : UInt8) : Int := if Byte.bits lcdc 3 then 0x9C00 else 0x9800

/-- Where a tile starts. Bit 4 of the control register chooses whether its number is unsigned and
counts from 8000, or signed and counts from 9000. -/
def tileStart (lcdc index : UInt8) : Int :=
  if Byte.bits lcdc 4 then 0x8000 + 16 * index.toNat else 0x9000 + 16 * index.toInt8.toInt

/-- The number of two bits. -/
def shadeOfBits (high low : Bool) : Fin 4 :=
  ⟨2 * high.toNat + low.toNat, by have := high.toNat_lt; have := low.toNat_lt; omega⟩

/-- The shade of the plane at a row and a column of pixels. A tile has eight rows of two bytes, of
which the second gives the higher bits, and the top bits are those of the pixel at the left. -/
def planeShade (m : Memory) (row column : Nat) : Fin 4 :=
  let lcdc := m.io.get DeviceRegister.lcdc
  let index := m.videoByte (mapStart lcdc + 32 * (row / 8 : Nat) + (column / 8 : Nat))
  let address := tileStart lcdc index + 2 * (row % 8 : Nat)
  let bit := 7 - column % 8
  shadeOfBits (Byte.bits (m.videoByte (address + 1)) bit) (Byte.bits (m.videoByte address) bit)

/-- The shade at a line and a pixel of the screen. -/
def screenShade (m : Memory) (line x : Nat) : Fin 4 :=
  m.planeShade ((line + (m.io.get DeviceRegister.scy).toNat) % 256)
    ((8 * ((m.io.get DeviceRegister.scx).toNat / 8) + x) % 256)

variable (m : Memory)

theorem videoByte_eq {i : Nat} (hi : i < 0x2000) {address : Int} (h : address = 0x8000 + i) :
    m.videoByte address = m.vram.get ⟨i, hi⟩ := by
  have hplace : (address - 0x8000).toNat = i := by omega
  rw [videoByte, hplace, Vector.getElem?_eq_getElem hi]
  rfl

theorem mapStart_eq (lcdc : UInt8) : mapStart lcdc = 0x8000 + (mapBase lcdc).val := by
  have hbit : Byte.bits lcdc 3 = true ↔ lcdc &&& 0x08 ≠ 0 := Byte.bits_eq_true lcdc 3
  simp only [mapStart, mapBase, hbit]
  split <;> rfl

theorem tileStart_eq (lcdc index : UInt8) :
    tileStart lcdc index = 0x8000 + (tileBase lcdc index).val := by
  have hbit : Byte.bits lcdc 4 = true ↔ lcdc &&& 0x10 ≠ 0 := Byte.bits_eq_true lcdc 4
  have hlow := index.toInt8.le_toInt
  have hhigh := index.toInt8.toInt_lt
  simp only [← Bounded.tileBase_eq, tileStart, hbit, Bounded.toSize]
  split_ifs <;> omega

theorem tileIndex_eq (row : UInt8) (column : Fin 32) : m.tileIndex row column =
    m.videoByte (mapStart (m.io.get DeviceRegister.lcdc) + 32 * (row.toNat / 8 : Nat) +
      column.val) := by
  rw [mapStart_eq, tileIndex]
  symm
  apply videoByte_eq
  omega

/-- The pixel at the left is the top bit, and the second byte has the higher bits. -/
theorem pixel_eq (row : TileRow) (i : Fin 8) :
    row.pixel i = shadeOfBits (Byte.bits row.hi (7 - i)) (Byte.bits row.lo (7 - i)) := by
  have hrev : (7 - i.val) = i.rev.val := by
    rw [Fin.val_rev]
    omega
  rw [hrev, ← Byte.testBit_eq_bits, ← Byte.testBit_eq_bits, TileRow.pixel]
  cases Byte.testBit row.hi i.rev <;> cases Byte.testBit row.lo i.rev <;> rfl

/-- A pixel of a tile on the screen has the shade of the plane. -/
theorem pixel_tileRow (line t : Nat) (i : Fin 8) :
    (m.tileRow line.toUInt8 t.toUInt8).pixel i = m.screenShade line (8 * t + i.val) := by
  let row := m.planeRow line.toUInt8
  let column := m.planeColumn t.toUInt8
  have hrow : row.toNat = (line + (m.io.get DeviceRegister.scy).toNat) % 256 := by
    simp [row, planeRow]
  have hcolumn : (8 * ((m.io.get DeviceRegister.scx).toNat / 8) + (8 * t + i.val)) % 256 =
      8 * column.val + i.val := by
    have hval : column.val = (t + (m.io.get DeviceRegister.scx).toNat / 8) % 32 := by
      simp only [column, planeColumn, Nat.toUInt8, UInt8.toNat_ofNat']
      omega
    omega
  have htile : (8 * column.val + i.val) / 8 = column.val := by omega
  have hpixel : (8 * column.val + i.val) % 8 = i.val := by omega
  rw [screenShade, ← hrow, hcolumn, planeShade]
  simp only [htile, hpixel]
  rw [← tileIndex_eq, pixel_eq]
  have hbyte (k : Fin 2) : m.vram.get ⟨(tileBase (m.io.get DeviceRegister.lcdc)
      (m.tileIndex row column)).val + row.toNat % 8 * 2 + k.val, by omega⟩ =
      m.videoByte (tileStart (m.io.get DeviceRegister.lcdc) (m.tileIndex row column) +
        2 * (row.toNat % 8 : Nat) + k.val) := by
    rw [tileStart_eq]
    symm
    apply videoByte_eq
    omega
  congr 2
  · exact hbyte 1
  · refine (hbyte 0).trans ?_
    rw [Fin.val_zero, Int.natCast_zero, Int.add_zero]

/-! ## Lines -/

/-- Values in groups of eight. -/
theorem flatMap_range_eight {α : Type} (f : Nat → α) (n : Nat) :
    (List.range n).flatMap (fun t => (List.finRange 8).map fun i => f (8 * t + i.val)) =
      (List.range (8 * n)).map f := by
  induction n with
  | zero => rfl
  | succ n ih =>
    have hgroup : (List.finRange 8).map (fun i => f (8 * n + i.val)) =
        (List.range 8).map fun i => f (8 * n + i) := by
      rw [← List.map_coe_finRange_eq_range, List.map_map]
      rfl
    rw [List.range_succ, List.flatMap_append, ih, List.flatMap_singleton, hgroup, Nat.mul_succ,
      List.range_add, List.map_append, List.map_map]
    rfl

theorem lineShades_eq (line : Nat) :
    m.lineShades line.toUInt8 = (List.range 160).map (m.screenShade line) := by
  show _ = (List.range (8 * screenTiles)).map (m.screenShade line)
  rw [← flatMap_range_eight, lineShades]
  apply List.flatMap_congr
  intro t _
  apply List.map_congr_left
  intro i _
  exact m.pixel_tileRow line t i

/-- The characters for the shades of a line. -/
def screenLine (m : Memory) (line : Nat) : List Char :=
  (List.range 160).map fun x => [' ', '.', 'o', '#'][m.screenShade line x]

/-- A line of the screen is blank. -/
def IsBlank (m : Memory) (line : Nat) : Prop := ∀ x < 160, (m.screenShade line x).val = 0

/-- A text shows a line: with the spaces that are missing at its end, it is the whole line. -/
def Shows (m : Memory) (line : Nat) (text : String) : Prop :=
  (∃ spaces, m.screenLine line = text.toList ++ List.replicate spaces ' ') ∧
    text.toList.getLast? ≠ some ' '

theorem lineChars_eq (line : Nat) :
    m.lineChars line.toUInt8 = Text.dropTrailing (· == ' ') (m.screenLine line) := by
  have hchar (shade : Fin 4) : shadeChar shade = [' ', '.', 'o', '#'][shade] := by
    revert shade
    decide
  rw [lineChars, lineShades_eq, List.map_map, screenLine]
  congr 2
  funext x
  exact hchar _

theorem shows_lineChars (line : Nat) :
    m.Shows line (String.ofList (m.lineChars line.toUInt8)) := by
  rw [Shows, String.toList_ofList, lineChars_eq]
  exact Text.exists_dropTrailing_beq ' ' (m.screenLine line)

theorem lineChars_eq_nil (line : Nat) :
    m.lineChars line.toUInt8 = [] ↔ m.IsBlank line := by
  have hspace (shade : Fin 4) : [' ', '.', 'o', '#'][shade] = ' ' ↔ shade.val = 0 := by
    revert shade
    decide
  have hblank : m.IsBlank line ↔ ∀ c ∈ m.screenLine line, c = ' ' := by
    simp only [IsBlank, screenLine, List.forall_mem_map, List.mem_range, hspace]
  rw [lineChars_eq, Text.dropTrailing, List.reverse_eq_nil_iff, List.dropWhile_eq_nil_iff,
    hblank]
  simp

/-! ## The picture -/

/-- Of the lines of a picture those from the first to the last that show anything are left. -/
theorem exists_trimmed {α : Type} (f : Nat → List α) (n : Nat) : ∃ first count, first + count ≤ n ∧
    Text.dropTrailing List.isEmpty (((List.range n).map f).dropWhile List.isEmpty) =
      (List.range' first count).map f ∧
    (∀ line < n, line < first ∨ first + count ≤ line → f line = []) ∧
    (0 < count → f first ≠ [] ∧ f (first + count - 1) ≠ []) := by
  -- The blank lines above, those that are left, and the blank lines below stand one after the
  -- other, so each of the three is an interval of line numbers.
  let lines := (List.range n).map f
  let body := lines.dropWhile List.isEmpty
  let kept := Text.dropTrailing List.isEmpty body
  obtain ⟨bottom, hbody, hbottom, hlast⟩ := Text.exists_dropTrailing List.isEmpty body
  have hsplit : (List.range' 0 n).map f = lines.takeWhile List.isEmpty ++ (kept ++ bottom) := by
    rw [← List.range_eq_range', ← hbody]
    exact List.takeWhile_append_dropWhile.symm
  obtain ⟨above, rest, habove, htop, hrest⟩ := List.map_eq_append_iff.1 hsplit
  obtain ⟨first, hfirst, rfl, rfl⟩ := List.range'_eq_append_iff.1 habove
  obtain ⟨shown, below, hbelow, hshown, hblank⟩ := List.map_eq_append_iff.1 hrest
  obtain ⟨count, hcount, rfl, rfl⟩ := List.range'_eq_append_iff.1 hbelow
  simp only [Nat.mul_one, Nat.zero_add] at htop hshown hblank
  refine ⟨first, count, by omega, hshown.symm, ?_, ?_⟩
  · rintro line hline (habove | hbelow)
    · have hmem : f line ∈ lines.takeWhile List.isEmpty := by
        rw [← htop]
        exact List.mem_map_of_mem (List.mem_range'_1.2 ⟨Nat.zero_le line, by omega⟩)
      exact List.isEmpty_iff.1 (List.all_eq_true.1 List.all_takeWhile _ hmem)
    · have hmem : f line ∈ bottom := by
        rw [← hblank]
        exact List.mem_map_of_mem (List.mem_range'_1.2 ⟨hbelow, by omega⟩)
      exact List.isEmpty_iff.1 (hbottom _ hmem)
  · intro hpos
    have hhead : body.head? = some (f first) := by
      rw [hbody]
      show (kept ++ bottom).head? = some (f first)
      rw [← hshown, List.head?_append, List.head?_map, List.head?_range', if_neg hpos.ne']
      rfl
    have hend : kept.getLast? = some (f (first + count - 1)) := by
      rw [← hshown, List.getLast?_map, List.getLast?_range', if_neg hpos.ne']
      rfl
    have hfilled := List.head?_dropWhile_not List.isEmpty lines
    rw [hhead] at hfilled
    exact ⟨List.isEmpty_eq_false_iff.1 hfilled, List.isEmpty_eq_false_iff.1 (hlast _ hend)⟩

/-- **What a picture is.** It is empty exactly if no pixel of the screen has a shade. Otherwise it
is the lines from the first to the last with a pixel that has a shade, each followed by a newline
and without the blank pixels at its end. -/
theorem picture_law :
    (m.picture = "" ↔ ∀ line < 144, m.IsBlank line) ∧
    (m.picture ≠ "" → ∃ first last, first ≤ last ∧ last < 144 ∧
      ¬ m.IsBlank first ∧ ¬ m.IsBlank last ∧
      (∀ line < 144, line < first ∨ last < line → m.IsBlank line) ∧
      ∃ text : Nat → String, (∀ line, m.Shows line (text line)) ∧
        m.picture = String.join
          ((List.range' first (last + 1 - first)).map fun line => text line ++ "\n")) := by
  obtain ⟨first, count, hcount, hlines, hblank, hshown⟩ :=
    exists_trimmed (fun line => m.lineChars line.toUInt8) screenLines
  have hpicture : m.picture = String.join ((List.range' first count).map fun line =>
      String.ofList (m.lineChars line.toUInt8) ++ "\n") := by
    rw [picture, pictureLines, hlines, List.map_map]
    rfl
  have hempty : m.picture = "" ↔ count = 0 := by
    rw [hpicture]
    cases count with
    | zero => simp
    | succ count => simp [List.range'_succ, String.join_cons]
  have houter : ∀ line < 144, line < first ∨ first + count ≤ line → m.IsBlank line := by
    intro line hline houtside
    exact (m.lineChars_eq_nil line).1 (hblank line hline houtside)
  refine ⟨?_, ?_⟩
  · rw [hempty]
    constructor
    · rintro rfl line hline
      exact houter line hline (Nat.lt_or_ge line first)
    · intro hall
      by_contra hpos
      have hfirst := (hshown (Nat.pos_of_ne_zero hpos)).1
      refine hfirst ((m.lineChars_eq_nil first).2 (hall first ?_))
      simp only [screenLines] at hcount
      omega
  · intro hne
    have hpos : 0 < count := Nat.pos_of_ne_zero fun hzero => hne (hempty.2 hzero)
    obtain ⟨hfirst, hlast⟩ := hshown hpos
    simp only [screenLines] at hcount
    refine ⟨first, first + count - 1, by omega, by omega, ?_, ?_, ?_, ?_⟩
    · exact fun h => hfirst ((m.lineChars_eq_nil first).2 h)
    · exact fun h => hlast ((m.lineChars_eq_nil _).2 h)
    · intro line hline houtside
      exact houter line hline (by omega)
    · have hsize : first + count - 1 + 1 - first = count := by omega
      rw [hsize]
      exact ⟨_, m.shows_lineChars, hpicture⟩

/-- The memory with a tile that has a single pixel, the last of its first row. In the signed
numbering its number is -1, and the map has it at the second place. -/
def sampleMemory : Memory :=
  { start none none with
    io := Vector.replicate 0x80 0
    vram := Vector.ofFn fun i : Fin 0x2000 =>
      if i.val = 0x1801 then 0xFF else if i.val = 0xFF1 then 1 else 0 }

theorem videoByte_sampleMemory (address : Int) : sampleMemory.videoByte address =
    if address = 0x9801 then 0xFF else if address = 0x8FF1 then 1 else 0 := by
  rw [videoByte, sampleMemory, Vector.getElem?_ofFn]
  by_cases hmap : address = 0x9801
  · subst hmap
    rfl
  · by_cases htile : address = 0x8FF1
    · subst htile
      rfl
    · have hmap' : (address - 0x8000).toNat ≠ 0x1801 := by omega
      have htile' : (address - 0x8000).toNat ≠ 0xFF1 := by omega
      by_cases hsize : (address - 0x8000).toNat < 0x2000
      · simp [hmap, htile, hmap', htile', hsize]
      · simp [hmap, htile, hsize]

/-- The pixel is on the first line, so the picture begins there. -/
theorem picture_law_sample : (sampleMemory.screenShade 0 15).val = 2 ∧ sampleMemory.picture ≠ "" ∧
    ∃ (last : Nat) (text : Nat → String), (∀ line, sampleMemory.Shows line (text line)) ∧
      sampleMemory.picture = String.join
        ((List.range' 0 (last + 1)).map fun line => text line ++ "\n") := by
  have hshade : (sampleMemory.screenShade 0 15).val = 2 := by
    simp only [screenShade, planeShade, videoByte_sampleMemory]
    decide +kernel
  have hshown : ¬ sampleMemory.IsBlank 0 := by
    intro hblank
    have hzero := hblank 15 (by decide)
    rw [hshade] at hzero
    exact absurd hzero (by decide)
  obtain ⟨hempty, hfilled⟩ := picture_law sampleMemory
  have hne : sampleMemory.picture ≠ "" := fun h => hshown (hempty.1 h 0 (by decide))
  obtain ⟨first, last, -, -, -, -, houter, text, htext, hpicture⟩ := hfilled hne
  have hfirst : first = 0 := by
    by_contra hpos
    exact hshown (houter 0 (by decide) (.inl (Nat.pos_of_ne_zero hpos)))
  subst hfirst
  exact ⟨hshade, hne, last, text, htext, hpicture⟩

end Memory

end GameBoy
