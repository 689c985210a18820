/-
  Quartet.Image
  ─────────────
  **PROGRAM IMAGES.**

  An assembled program is a segment of read-only data and a segment of code.  Its image is a header
  of 64 bytes (a mark of four bytes, then zeros), the data and the code.  The header does not
  record where the data end, so whoever reads an image says how long they are.

  What the definitions stand for: `Image.header` for `Header`, `Image.encode` for `Image.Bytes`,
  `Image.hasMagic` for `HasMagic`, `Image.decode` for `DecodeImage` and `Image.stringAt?` for
  `DecodeString`.
-/
import Quartet.Bytes
import Quartet.Opcode

namespace Quartet

/-- An assembled program. -/
structure Image where
  /-- The read-only data. -/
  data : Bytes
  /-- The code, four bytes for each instruction. -/
  code : Bytes
deriving DecidableEq, Repr

namespace Image

/-! ## §1. Writing. -/

/-- The size of the header. -/
def headerSize : Nat := 64

/-- The most data a program may have: an offset into them is one byte. -/
def maxDataSize : Nat := 256

/-- The bytes an image starts with. -/
def magic : Bytes := [0x2D, 0x32, 0x31, 0x2D]

/-- The header: the mark, filled up with zeros. -/
def header : Bytes := magic ++ List.replicate (headerSize - magic.length) 0

@[simp] theorem length_header : header.length = headerSize := rfl

/-- The bytes of an image. -/
def encode (img : Image) : Bytes := header ++ img.data ++ img.code

/-! ## §2. Reading. -/

/-- Why bytes are not an image with the given data length. -/
inductive Problem where
  /-- The header is short or does not start with the mark. -/
  | badHeader
  /-- No data segment has this size. -/
  | dataSize (size : Int)
  /-- The data segment would be longer than what follows the header. -/
  | dataBeyondBody (size : Int) (body : Nat)
  /-- The rest is not made of whole instructions. -/
  | raggedCode (size : Int)
deriving DecidableEq, Repr

/-- The wording of a problem. -/
def Problem.message : Problem → Bytes
  | .badHeader => ascii "bad image header"
  | .dataSize size => ascii "invalid data segment size " ++ decimal size
  | .dataBeyondBody size body =>
    ascii "data segment size " ++ decimal size ++ ascii " exceeds image body size "
      ++ decimalNat body
  | .raggedCode size =>
    ascii "code segment size " ++ decimal size ++ ascii " is not a multiple of "
      ++ decimalNat slotSize

/-- Whether bytes start with the mark of an image. -/
def hasMagic (bs : Bytes) : Bool := magic.isPrefixOf bs

/-- The image in the given bytes, its data being `dataSize` bytes long. -/
def decode (bs : Bytes) (dataSize : Int) : Except Problem Image :=
  let body := bs.drop headerSize
  if bs.length < headerSize ∨ !hasMagic bs then .error .badHeader
  else if dataSize < 0 ∨ (maxDataSize : Int) < dataSize then .error (.dataSize dataSize)
  else if (body.length : Int) < dataSize then .error (.dataBeyondBody dataSize body.length)
  else if (body.length - dataSize) % slotSize ≠ 0 then .error (.raggedCode (body.length - dataSize))
  else .ok ⟨body.take dataSize.toNat, body.drop dataSize.toNat⟩

/-! ## §3. Strings in the data. -/

/-- The bytes up to the first zero. -/
def untilZero (bs : Bytes) : Bytes := bs.takeWhile (· ≠ 0)

/-- The string that starts at an offset and ends before the next zero byte or at the end.  There is
none if the offset is outside the data. -/
def stringAt? (data : Bytes) (start : Int) : Option Bytes :=
  if 0 ≤ start ∧ start ≤ data.length then some (untilZero (data.drop start.toNat)) else none

/-- The strings of data from an offset on, each with its offset: every string ends at a zero byte or
at the end of the data. -/
def stringsFrom (offset : Nat) (data : Bytes) : List (Nat × Bytes) :=
  if data = [] then []
  else
    (offset, untilZero data) ::
      stringsFrom (offset + (untilZero data).length + 1) (data.drop ((untilZero data).length + 1))
termination_by data.length
decreasing_by
  have : data.length ≠ 0 := by simpa using ‹¬data = []›
  simp only [List.length_drop]
  omega

/-- The strings of a program's data with their offsets. -/
def strings (img : Image) : List (Nat × Bytes) := stringsFrom 0 img.data

end Image

end Quartet
