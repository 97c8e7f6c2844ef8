import GameBoy.Memory
import GameBoy.Video.Tile

/-!
# The background

The background is a plane of 32 by 32 tiles that wraps around in both directions. A map in video
memory names the tile at each place; the scroll registers tell which part of the plane is on the
screen, horizontally in whole tiles.
-/

namespace GameBoy

/-- The width of the screen in tiles. -/
def screenTiles : Nat := 20

/-- The height of the screen in lines. -/
def screenLines : Nat := 144

namespace Memory

/-! ## Tiles -/

/-- The row of the plane that a line of the screen shows. -/
@[inline] def planeRow (m : Memory) (line : UInt8) : UInt8 := line + m.io.get DeviceRegister.scy

/-- The column of the plane, in tiles, that a tile column of the screen shows. -/
@[inline] def planeColumn (m : Memory) (tileX : UInt8) : Fin 32 :=
  ⟨(tileX.toNat + (m.io.get DeviceRegister.scx).toNat / 8) % 32, Nat.mod_lt _ (by decide)⟩

/-- Where the map starts in video memory: the control register chooses one of two. -/
def mapBase (lcdc : UInt8) : Fin 0x1C01 := if lcdc &&& 0x08 ≠ 0 then 0x1C00 else 0x1800

/-- Where a tile starts in video memory. In the signed numbering the tiles from 0 to 127 lie behind
the others. -/
def tileBase (lcdc index : UInt8) : Fin 0x17F1 :=
  have := index.toNat_lt
  if h : lcdc &&& 0x10 ≠ 0 ∨ 0x80 ≤ index.toNat then ⟨index.toNat * 16, by omega⟩
  else ⟨0x1000 + index.toNat * 16, by simp only [not_or] at h; omega⟩

/-- The number of the tile at a place of the plane. -/
def tileIndex (m : Memory) (row : UInt8) (column : Fin 32) : UInt8 :=
  let base := mapBase (m.io.get DeviceRegister.lcdc)
  m.vram.get ⟨base.val + row.toNat / 8 * 32 + column.val, by have := row.toNat_lt; omega⟩

/-- The row of a tile that a line of the screen shows in a tile column of the screen. -/
def tileRow (m : Memory) (line tileX : UInt8) : TileRow :=
  let row := m.planeRow line
  let base := tileBase (m.io.get DeviceRegister.lcdc) (m.tileIndex row (m.planeColumn tileX))
  { lo := m.vram.get ⟨base.val + row.toNat % 8 * 2, by omega⟩
    hi := m.vram.get ⟨base.val + row.toNat % 8 * 2 + 1, by omega⟩ }

/-- The row of a tile that the line being displayed shows in a tile column of the screen. -/
def currentTileRow (m : Memory) (tileX : UInt8) : TileRow := m.tileRow m.ly tileX

/-! ## Pictures -/

/-- The character for a shade. -/
def shadeChar : Fin 4 → Char
  | 0 => ' '
  | 1 => '.'
  | 2 => 'o'
  | 3 => '#'

/-- The shades of the background on a line of the screen. -/
def lineShades (m : Memory) (line : UInt8) : List (Fin 4) :=
  (List.range screenTiles).flatMap fun x => (m.tileRow line x.toUInt8).pixels

/-- A line of the screen as characters, without the blank pixels at its end. -/
def lineChars (m : Memory) (line : UInt8) : List Char :=
  Text.dropTrailing (· == ' ') ((m.lineShades line).map shadeChar)

/-- The lines of the background on the screen, without the blank lines above and below. -/
def pictureLines (m : Memory) : List (List Char) :=
  let lines := (List.range screenLines).map fun line => m.lineChars line.toUInt8
  Text.dropTrailing List.isEmpty (lines.dropWhile List.isEmpty)

/-- The background on the screen as text, one character per pixel. -/
def picture (m : Memory) : String :=
  String.join (m.pictureLines.map fun chars => String.ofList chars ++ "\n")

end Memory

end GameBoy
