/-
  Quartet.Opcode
  ──────────────
  **THE INSTRUCTION SET.**

  An instruction is a slot of four bytes: the byte of its opcode, then three operand bytes.  The
  opcodes are numbered from 0; a byte past the last is mapped to none.  Every opcode has a shape,
  the kinds of its operands in order, and one or two names.  Names are found in either case.

  What the definitions stand for: `Opcode.ofByte?` for `Decode`, `Opcode.lookup?` for
  `LookupOpcode`, and `Opcode.nameOfByte` and `Opcode.shapeOfByte` for the methods `String` and
  `Operands` of `Opcode`.
-/
import Quartet.Text.Glyph

namespace Quartet

/-- The size of an instruction in bytes. -/
def slotSize : Nat := 4

/-- The number of registers. -/
def registerCount : Nat := 32

/-- The kinds of operands in an opcode's shape. -/
inductive ArgKind where
  /-- The number of a register, one byte. -/
  | register
  /-- A number of sixteen bits, two bytes, the higher one first. -/
  | immediate
deriving DecidableEq, Repr

/-- The operations of the machine. -/
inductive Opcode where
  /-- Stop. -/
  | hlt
  /-- Put a number into a register. -/
  | load
  /-- Sum of two registers into a third. -/
  | add
  /-- Difference of two registers into a third. -/
  | sub
  /-- Product of two registers into a third. -/
  | mul
  /-- Quotient of two registers into a third; the remainder is kept apart. -/
  | div
  /-- Jump to the address in a register. -/
  | jmp
  /-- Jump forward from the next instruction by a register. -/
  | jmpf
  /-- Jump backward from the next instruction by a register. -/
  | jmpb
  /-- Set the flag if two registers are equal. -/
  | eq
  /-- Set the flag if two registers differ. -/
  | neq
  /-- Set the flag if the first register is greater. -/
  | gt
  /-- Set the flag if the first register is less. -/
  | lt
  /-- Set the flag if the first register is greater or equal. -/
  | gtq
  /-- Set the flag if the first register is less or equal. -/
  | ltq
  /-- Jump to the address in a register if the flag is set. -/
  | jmpe
  /-- Extend the heap by a register's number of zero bytes. -/
  | aloc
  /-- Add one to a register. -/
  | inc
  /-- Take one from a register. -/
  | dec
deriving DecidableEq, Repr

namespace Opcode

/-- All opcodes in the order of their bytes. -/
def all : List Opcode :=
  [hlt, load, add, sub, mul, div, jmp, jmpf, jmpb, eq, neq, gt, lt, gtq, ltq, jmpe, aloc, inc, dec]

/-- The byte of an opcode: its place in the order. -/
def toByte (op : Opcode) : UInt8 := UInt8.ofNat op.ctorIdx

/-- The opcode of a byte, if the byte is mapped. -/
def ofByte? (b : UInt8) : Option Opcode := all[b.toNat]?

/-- The names of an opcode, the canonical one first. -/
def names : Opcode → List String
  | hlt => ["hlt"]
  | load => ["load"]
  | add => ["add"]
  | sub => ["sub"]
  | mul => ["mul"]
  | div => ["div"]
  | jmp => ["jmp"]
  | jmpf => ["jmpf"]
  | jmpb => ["jmpb"]
  | eq => ["eq"]
  | neq => ["neq"]
  | gt => ["gt"]
  | lt => ["lt"]
  | gtq => ["gtq", "gte"]
  | ltq => ["ltq", "lte"]
  | jmpe => ["jmpe", "jeq"]
  | aloc => ["aloc"]
  | inc => ["inc"]
  | dec => ["dec"]

/-- The canonical name of an opcode. -/
def mnemonic (op : Opcode) : Bytes := ascii (op.names.headD "")

/-- The kinds of operands an opcode takes, in order. -/
def shape : Opcode → List ArgKind
  | hlt => []
  | load => [.register, .immediate]
  | add | sub | mul | div => [.register, .register, .register]
  | eq | neq | gt | lt | gtq | ltq => [.register, .register]
  | jmp | jmpf | jmpb | jmpe | aloc | inc | dec => [.register]

/-- The opcode with the given name, in either case. -/
def lookup? (name : Bytes) : Option Opcode :=
  all.find? fun op => op.names.any fun n => n.toList = (glyphs name).map Glyph.lower

/-! ## §1. Bytes that may be mapped to no opcode. -/

/-- The name of the opcode of a byte; `igl` if the byte is not mapped. -/
def nameOfByte (b : UInt8) : Bytes :=
  match ofByte? b with
  | some op => op.mnemonic
  | none => ascii "igl"

/-- The shape of the opcode of a byte; empty if the byte is not mapped. -/
def shapeOfByte (b : UInt8) : List ArgKind :=
  match ofByte? b with
  | some op => op.shape
  | none => []

/-- A byte that is mapped to an opcode is the byte of that opcode. -/
theorem toByte_of_ofByte? {b : UInt8} {op : Opcode} (h : ofByte? b = some op) : op.toByte = b := by
  have hall : ∀ n : Fin 19, all[n.val]?.map toByte = some (UInt8.ofNat n.val) := by decide
  obtain ⟨hlt, _⟩ := List.getElem?_eq_some_iff.1 h
  have hb := hall ⟨b.toNat, hlt⟩
  have h' : all[b.toNat]? = some op := h
  simp only [h', Option.map_some, Option.some.injEq, UInt8.ofNat_toNat] at hb
  exact hb

@[simp] theorem ofByte?_toByte (op : Opcode) : ofByte? op.toByte = some op := by
  cases op <;> rfl

end Opcode

end Quartet
