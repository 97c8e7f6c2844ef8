import GameBoy.Word

/-!
# Rows of tiles

A row of a tile has eight pixels of four shades. Two bytes hold it: the pixel at the left is the
top bit of both, the second byte giving the higher bit of the shade.
-/

namespace GameBoy

/-- One row of a tile. -/
structure TileRow where
  /-- The low bits of the shades. -/
  lo : UInt8
  /-- The high bits of the shades. -/
  hi : UInt8
  deriving DecidableEq, Repr

namespace TileRow

/-- The shade of a pixel, counted from the left. -/
def pixel (row : TileRow) (i : Fin 8) : Fin 4 :=
  match Byte.testBit row.hi i.rev, Byte.testBit row.lo i.rev with
  | false, false => 0
  | false, true => 1
  | true, false => 2
  | true, true => 3

/-- The shades of all pixels, leftmost first. -/
def pixels (row : TileRow) : List (Fin 4) := (List.finRange 8).map row.pixel

/-- Whether all pixels have shade zero. -/
def isBlank (row : TileRow) : Bool := row.lo == 0 && row.hi == 0

end TileRow

end GameBoy
