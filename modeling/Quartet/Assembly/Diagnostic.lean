/-
  Quartet.Assembly.Diagnostic
  ───────────────────────────
  **ERRORS AND WARNINGS OF THE ASSEMBLER.**

  A diagnostic has a kind, a position, a message and, for a syntax error, the text that was not
  read.  `Defect` names the causes the assembler itself finds and words each in one place.

  What the definitions stand for: `Kind` for `ErrorKind`, `Diagnostic` for `Error`,
  `Diagnostic.text` for `Error.Error`, and `Diagnostic.textAll` and `Diagnostic.count` for the methods
  of `ErrAsm`.
-/
import Quartet.Image
import Quartet.Source.Record

namespace Quartet

/-! ## §1. Kinds. -/

/-- The kinds of diagnostics. -/
inductive Kind where
  /-- The text is no program. -/
  | syntaxError
  /-- No directive with operands has this name. -/
  | unknownDirective
  /-- A label stands before any section. -/
  | noSegmentDeclaration
  /-- A label is declared again. -/
  | duplicateSymbol
  /-- A text that nothing can refer to. -/
  | stringConstantWithoutLabel
  /-- A reference to no label. -/
  | unresolvedSymbol
  /-- More data than an image may have. -/
  | dataSegmentOverflow
  /-- No section has this name. -/
  | unknownSection
  /-- An offset of more than one byte. -/
  | symbolOffsetOverflow
  /-- An operand that does not belong there. -/
  | invalidOperand
  /-- A register that there is not. -/
  | invalidRegister
  /-- A kind that is not among these, by its number. -/
  | unlisted (number : Int)
deriving DecidableEq, Repr

namespace Kind

/-- The listed kinds in the order of their numbers. -/
def listed : List Kind :=
  [syntaxError, unknownDirective, noSegmentDeclaration, duplicateSymbol,
    stringConstantWithoutLabel, unresolvedSymbol, dataSegmentOverflow, unknownSection,
    symbolOffsetOverflow, invalidOperand, invalidRegister]

/-- The kind with a given number. -/
def ofNumber (n : Int) : Kind :=
  if n < 0 then unlisted n else listed[n.toNat]?.getD (unlisted n)

/-- The words for a kind. -/
def text : Kind → Bytes
  | syntaxError => ascii "syntax error"
  | unknownDirective => ascii "unknown directive"
  | noSegmentDeclaration => ascii "no segment declaration"
  | duplicateSymbol => ascii "duplicate symbol"
  | stringConstantWithoutLabel => ascii "string constant without label"
  | unresolvedSymbol => ascii "unresolved symbol"
  | dataSegmentOverflow => ascii "data segment overflow"
  | unknownSection => ascii "unknown section"
  | symbolOffsetOverflow => ascii "symbol offset overflow"
  | invalidOperand => ascii "invalid operand"
  | invalidRegister => ascii "invalid register"
  | unlisted _ => ascii "unknown error"

end Kind

/-! ## §2. Diagnostics. -/

/-- An error or a warning. -/
structure Diagnostic where
  /-- Its kind. -/
  kind : Kind
  /-- The place it is about. -/
  pos : Position
  /-- What it says beyond its kind. -/
  message : Bytes
  /-- The text that was not read, for a syntax error. -/
  remainder : Bytes := []
deriving DecidableEq, Repr

namespace Diagnostic

/-- A diagnostic as text: the place if there is one, the kind, and the message if there is one. -/
def text (d : Diagnostic) : Bytes :=
  (if d.pos.isValid then d.pos.text ++ ascii ": " else []) ++ d.kind.text
    ++ (if d.message = [] then [] else ascii ": " ++ d.message)

/-- Several diagnostics as text, one a line. -/
def textAll (ds : List Diagnostic) : Bytes := joinLines (ds.map text)

/-- How many diagnostics are of a kind. -/
def count (kind : Kind) (ds : List Diagnostic) : Nat := ds.countP fun d => d.kind = kind

end Diagnostic

/-- A syntax error as a diagnostic. -/
def SyntaxError.diagnostic (e : SyntaxError) : Diagnostic :=
  ⟨.syntaxError, e.pos, e.problem.message, e.remainder⟩

/-! ## §3. Causes. -/

/-- What the assembler finds wrong with a record. -/
inductive Defect where
  /-- A directive with operands that is not known. -/
  | unknownDirective (name : Bytes)
  /-- A label before any section. -/
  | labelOutsideSections (name : Bytes)
  /-- A label that was declared at another place already. -/
  | duplicateLabel (name : Bytes) (earlier : Position)
  /-- A text without label. -/
  | unlabelledString (text : Bytes)
  /-- A reference to a label that is not declared. -/
  | unresolvedReference (name : Bytes)
  /-- A text with which the data would have the given size. -/
  | tooMuchData (name : Bytes) (size : Nat)
  /-- A section that is not known. -/
  | unknownSection (name : Bytes)
  /-- A label too far from the start of its section. -/
  | labelTooFar (name : Bytes) (offset : Nat)
  /-- Operands of a text directive other than one text. -/
  | notOneString
  /-- More operand bytes than an instruction has room for. -/
  | tooManyOperands (op : UInt8)
  /-- A token that is no operand of an instruction. -/
  | noOperand (token : Token) (op : UInt8)
  /-- A register that there is not. -/
  | noRegister (index : UInt8)
deriving DecidableEq, Repr

namespace Defect

/-- The kind of a cause. -/
def kind : Defect → Kind
  | unknownDirective _ => .unknownDirective
  | labelOutsideSections _ => .noSegmentDeclaration
  | duplicateLabel _ _ => .duplicateSymbol
  | unlabelledString _ => .stringConstantWithoutLabel
  | unresolvedReference _ => .unresolvedSymbol
  | tooMuchData _ _ => .dataSegmentOverflow
  | unknownSection _ => .unknownSection
  | labelTooFar _ _ => .symbolOffsetOverflow
  | notOneString | tooManyOperands _ | noOperand _ _ => .invalidOperand
  | noRegister _ => .invalidRegister

/-- The wording of a cause. -/
def message : Defect → Bytes
  | unknownDirective name => (Token.directive name).text
  | labelOutsideSections name => ascii "label " ++ name ++ ascii " declared outside of any section"
  | duplicateLabel name earlier => name ++ ascii ", previous definition here: " ++ earlier.text
  | unlabelledString text => (Token.string text).text
  | unresolvedReference name => name
  | tooMuchData name size =>
    name ++ ascii ": " ++ decimalNat size ++ ascii " bytes exceeds " ++ decimalNat Image.maxDataSize
  | unknownSection name => (Token.directive name).text
  | labelTooFar name offset => name ++ ascii " at offset " ++ decimalNat offset
  | notOneString => ascii ".asciiz expects a single string operand"
  | tooManyOperands op =>
    ascii "operands of " ++ Opcode.nameOfByte op ++ ascii " exceed instruction size"
  | noOperand token op =>
    token.text ++ ascii " is not a valid operand for " ++ Opcode.nameOfByte op
  | noRegister index => (Token.register index).text

/-- The diagnostic of a cause at a place. -/
def diagnostic (d : Defect) (pos : Position) : Diagnostic := ⟨d.kind, pos, d.message, []⟩

end Defect

end Quartet
