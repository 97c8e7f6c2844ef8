import GameBoy.Text

/-!
# The cartridge header

A ROM image has at least two banks. Its header tells the title, the family of bank controllers and
the sizes of the memory chips, and carries a checksum of its own bytes. Reading it checks, in this
order, the size of the image, the family, the ROM size and the RAM size; the first that is wrong is
reported. A wrong checksum is no error.
-/

namespace GameBoy

/-! ## Errors -/

/-- Why an image is no cartridge. -/
inductive CartridgeError where
  /-- The image has fewer than two banks. -/
  | tooSmall (size : Nat)
  /-- The type code names no supported family of controllers. -/
  | unsupportedType (code : UInt8)
  /-- The code of the ROM size has no meaning. -/
  | invalidRomSize (code : UInt8)
  /-- The code of the RAM size has no meaning. -/
  | invalidRamSize (code : UInt8)
  deriving DecidableEq, Repr

/-- What an error says. -/
def CartridgeError.message : CartridgeError → String
  | tooSmall size => s!"ROM image is {size} bytes, smaller than the 32 KiB minimum"
  | unsupportedType code => s!"unsupported cartridge type 0x{Text.hexByte code}"
  | invalidRomSize code => s!"invalid ROM size code 0x{Text.hexByte code}"
  | invalidRamSize code => s!"invalid RAM size code 0x{Text.hexByte code}"

/-! ## Images -/

/-- The size of a ROM bank. -/
def romBankSize : Nat := 0x4000

/-- The size of a RAM bank. -/
def ramBankSize : Nat := 0x2000

/-- A ROM image of at least two banks. -/
structure RomImage where
  /-- The bytes of the image. -/
  bytes : ByteArray
  /-- There are at least two banks. -/
  two_banks : 0x8000 ≤ bytes.size

namespace RomImage

/-- Accept an image that is large enough. -/
def ofBytes (bytes : ByteArray) : Except CartridgeError RomImage :=
  if h : bytes.size < 0x8000 then .error (.tooSmall bytes.size)
  else .ok ⟨bytes, Nat.le_of_not_lt h⟩

/-- The length of the image in bytes. -/
@[inline] def size (rom : RomImage) : Nat := rom.bytes.size

/-- The number of whole banks. -/
@[inline] def banks (rom : RomImage) : Nat := rom.size / romBankSize

/-- A byte of the two banks that every image has. -/
def byte (rom : RomImage) (i : Fin 0x8000) : UInt8 :=
  have : i.val < rom.bytes.size := Nat.lt_of_lt_of_le i.isLt rom.two_banks
  rom.bytes[i.val]

/-- The byte of a bank that an address selects, or `FF` past the end of the image. -/
@[inline] def bankByte (rom : RomImage) (bank : Nat) (address : UInt16) : UInt8 :=
  rom.bytes[bank * romBankSize + address.toNat % romBankSize]?.getD 0xFF

end RomImage

/-! ## Controllers -/

/-- A family of memory bank controllers. -/
inductive Controller where
  /-- None: two ROM banks, and up to one RAM bank. -/
  | mbc0
  | mbc1
  | mbc3
  | mbc5
  deriving DecidableEq, Repr

namespace Controller

/-- The family that a type code names. -/
def ofCode (code : UInt8) : Except CartridgeError Controller :=
  if code = 0x00 ∨ code = 0x08 ∨ code = 0x09 then .ok mbc0
  else if 0x01 ≤ code ∧ code ≤ 0x03 then .ok mbc1
  else if 0x0F ≤ code ∧ code ≤ 0x13 then .ok mbc3
  else if 0x19 ≤ code ∧ code ≤ 0x1E then .ok mbc5
  else .error (.unsupportedType code)

/-- The name of a family. -/
def name : Controller → String
  | mbc0 => "Mbc0"
  | mbc1 => "Mbc1"
  | mbc3 => "Mbc3"
  | mbc5 => "Mbc5"

end Controller

/-! ## The header -/

/-- The contents of a cartridge header. -/
structure Header where
  /-- The title, without padding. -/
  title : String
  /-- The type code. -/
  typeCode : UInt8
  /-- The family of controllers that the type code names. -/
  controller : Controller
  /-- The declared size of the ROM in bytes. -/
  romSize : Nat
  /-- The size of the RAM in bytes. -/
  ramSize : Nat
  /-- The checksum that the header carries. -/
  checksum : UInt8
  /-- The checksum of the header's bytes. -/
  computed : UInt8
  deriving DecidableEq, Repr

namespace Header

/-- The bytes that hold the title. -/
def titleBytes (rom : RomImage) : List UInt8 :=
  (List.finRange 15).map fun i => rom.byte ⟨0x134 + i.val, by omega⟩

/-- Whether a byte is a printable character of the title: a space or a visible ASCII character. -/
def isPrintable (b : UInt8) : Bool := 0x20 ≤ b && b ≤ 0x7E

/-- The title in a list of bytes: what stands before the first zero, without the bytes that are not
printable and without spaces at the end. -/
def titleText (bytes : List UInt8) : String :=
  let shown := (bytes.takeWhile (· != 0)).filter isPrintable
  let chars := shown.map fun b => Char.ofNat b.toNat
  String.ofList (Text.dropTrailing (· == ' ') chars)

/-- The bytes that the checksum covers. -/
def checkedBytes (rom : RomImage) : List UInt8 :=
  (List.finRange 25).map fun i => rom.byte ⟨0x134 + i.val, by omega⟩

/-- The checksum of a list of bytes: each byte and one more are subtracted from zero in turn. -/
def checksumOf (bytes : List UInt8) : UInt8 := bytes.foldl (fun sum b => sum - b - 1) 0

/-- The ROM size that a code declares: 32 KiB times a power of two. -/
def romSizeOfCode (code : UInt8) : Except CartridgeError Nat :=
  if code ≤ 8 then .ok (0x8000 <<< code.toNat) else .error (.invalidRomSize code)

/-- The RAM size that a code declares. -/
def ramSizeOfCode (code : UInt8) : Except CartridgeError Nat :=
  if code = 0 then .ok 0
  else if code = 2 then .ok (8 * 1024)
  else if code = 3 then .ok (32 * 1024)
  else if code = 4 then .ok (128 * 1024)
  else if code = 5 then .ok (64 * 1024)
  else .error (.invalidRamSize code)

/-- Read the header of an image. -/
def ofImage (rom : RomImage) : Except CartridgeError Header := do
  let typeCode := rom.byte 0x147
  let controller ← Controller.ofCode typeCode
  let romSize ← romSizeOfCode (rom.byte 0x148)
  let ramSize ← ramSizeOfCode (rom.byte 0x149)
  return {
    title := titleText (titleBytes rom)
    typeCode, controller, romSize, ramSize
    checksum := rom.byte 0x14D
    computed := checksumOf (checkedBytes rom) }

/-- Read the header at the start of a list of bytes. -/
def parse (bytes : ByteArray) : Except CartridgeError Header := do
  ofImage (← RomImage.ofBytes bytes)

/-- Whether the header carries the right checksum. -/
def checksumOk (header : Header) : Bool := header.checksum == header.computed

/-- The lines that describe a header. -/
def describeLines (header : Header) : List String :=
  [s!"title:    {header.title}",
    s!"type:     0x{Text.hexByte header.typeCode} ({header.controller.name})",
    s!"ROM:      {header.romSize / 1024} KiB",
    s!"RAM:      {header.ramSize / 1024} KiB",
    s!"checksum: 0x{Text.hexByte header.checksum} " ++
      (if header.checksumOk then "(ok)" else "(mismatch)")]

/-- A description of a header on several lines. -/
def describe (header : Header) : String := String.join (header.describeLines.map (· ++ "\n"))

/-- The header field by field. -/
def inspect (header : Header) : String :=
  Text.record "CartridgeHeader"
    [("title", Text.quoted header.title), ("cartridge_type", toString header.typeCode),
      ("mbc", header.controller.name), ("rom_size", toString header.romSize),
      ("ram_size", toString header.ramSize), ("header_checksum", toString header.checksum),
      ("computed_checksum", toString header.computed)]

end Header

end GameBoy
