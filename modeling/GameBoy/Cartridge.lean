import GameBoy.Word

/-!
# The cartridge header

A cartridge image describes itself in the bytes `0x134` to `0x14D`: a title, the kind of cartridge,
its size, and a checksum over the bytes before it. An image too short to hold the checksum has no
header.
-/

namespace GameBoy

/-- The parts of a header that the loader reports. -/
structure CartridgeHeader where
  title : String
  cartridgeType : Byte
  romSize : Byte
  /-- The checksum that the header states. -/
  checksum : Byte
  /-- The checksum of the bytes that the header holds. -/
  computed : Byte
  deriving DecidableEq, Repr

namespace CartridgeHeader

/-- The bytes of an image from one offset up to another. -/
def bytes (image : Array Byte) (start stop : Nat) : List Byte := (image.extract start stop).toList

/-- A byte of the title as a character; what is not printable becomes a question mark. -/
def titleChar (b : Byte) : Char :=
  if 0x20 ≤ b && b ≤ 0x7E then Char.ofNat b.toNat else '?'

/-- The characters of a list without the blanks at its end. -/
def trimEnd (cs : List Char) : List Char := (cs.reverse.dropWhile (· == ' ')).reverse

/-- The title: the bytes before the first zero, as characters, without blanks at the end. -/
def titleOf (bs : List Byte) : String :=
  String.ofList (trimEnd ((bs.takeWhile (· != 0)).map titleChar))

/-- The checksum of some bytes: from zero, each byte and one more are subtracted. -/
def checksumOf (bs : List Byte) : Byte := bs.foldl (fun sum b => sum - b - 1) 0

/-- The header of an image that is long enough to hold one. -/
def parse? (image : Array Byte) : Option CartridgeHeader :=
  if 0x14D < image.size then
    some
      { title := titleOf (bytes image 0x134 0x144)
        cartridgeType := image.getD 0x147 0
        romSize := image.getD 0x148 0
        checksum := image.getD 0x14D 0
        computed := checksumOf (bytes image 0x134 0x14D) }
  else none

def checksumOk (header : CartridgeHeader) : Bool := header.checksum == header.computed

/-- Whether the cartridge expects to switch banks. Only the plain types fit the fixed window. -/
def isBanked (header : CartridgeHeader) : Bool :=
  !([0x00, 0x08, 0x09].contains header.cartridgeType)

/-- The size in bytes that the header states, if it is one of the known sizes. -/
def romBytes (header : CartridgeHeader) : Option Nat :=
  if header.romSize ≤ 8 then some (0x8000 <<< header.romSize.toNat) else none

end CartridgeHeader

end GameBoy
