/-
  Quartet.Listing
  ───────────────
  **CODE AS TEXT.**

  A listing shows one instruction a line, with its address, its name and its operands as the
  opcode's shape says.  Bytes that are mapped to no opcode are shown as `igl`; an instruction that
  the code breaks off is shown as its name and `???`.

  What the definitions stand for: `Listing.at?` for `Disassemble`, `Listing.pieces` for
  `DisassembleAll` and `Listing.image` for `disassemble`.
-/
import Quartet.Image
import Quartet.Opcode
import Quartet.Text.Characters

namespace Quartet

namespace Listing

/-! ## §1. One instruction. -/

/-- The operands of a shape, taken from operand bytes. -/
def operandPieces : List ArgKind → Bytes → List Bytes
  | .register :: shape, b :: rest => (ascii " $" ++ decimalNat b.toNat) :: operandPieces shape rest
  | .immediate :: shape, high :: low :: rest =>
    (ascii " #" ++ decimalNat (high.toNat * 256 + low.toNat)) :: operandPieces shape rest
  | _, _ => []

/-- The instruction that code starts with. -/
def slotPieces : Bytes → List Bytes
  | [] => []
  | [op] | [op, _] | [op, _, _] => [Opcode.nameOfByte op, ascii " ???"]
  | op :: a :: b :: c :: _ => Opcode.nameOfByte op :: operandPieces (Opcode.shapeOfByte op) [a, b, c]

/-- The instruction at an address, and the address of the next one.  There is none outside the
code. -/
def at? (code : Bytes) (pc : Int) : Option (List Bytes × Nat) :=
  if 0 ≤ pc ∧ pc < code.length then
    some (slotPieces (code.drop pc.toNat), min (pc.toNat + slotSize) code.length)
  else none

/-! ## §2. All instructions. -/

/-- An address as it stands before an instruction: six columns wide, with a place for the sign. -/
def address (n : Int) : Bytes := padLeft 6 (signedDecimal n) ++ ascii "\t"

/-- The lines of code whose first byte has the given address.  Addresses are words of 64 bits. -/
def lines (base : Int64) (code : Bytes) : List (List Bytes) :=
  if code = [] then []
  else
    (address base.toInt :: slotPieces code ++ [ascii "\n"])
      :: lines (base + Int64.ofNat slotSize) (code.drop slotSize)
termination_by code.length
decreasing_by
  have : code.length ≠ 0 := by simpa using ‹¬code = []›
  simp only [List.length_drop, slotSize]
  omega

/-- The listing of code whose first byte has the given address. -/
def pieces (base : Int64) (code : Bytes) : List Bytes := (lines base code).flatten

/-- The listing of an image: the strings of its data, then its code. -/
def image (img : Image) : List Bytes :=
  [ascii ".data\n"]
    ++ img.strings.map (fun s => address s.1 ++ ascii ".asciiz " ++ quote s.2 ++ ascii "\n")
    ++ [ascii ".code\n"] ++ pieces 0 img.code

end Listing

end Quartet
