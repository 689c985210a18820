/-
  Quartet.Source.Record
  ─────────────────────
  **TOKENS, RECORDS AND WHAT IS NONE.**

  A program is a list of records.  A record has an optional label, a head (an operation or a
  directive) and operands.  Every token has one source form; `text` gives it.  A text that is no
  program has a problem at one of its tokens.

  What the definitions stand for: `Token` for `Token` and the seven types that implement it,
  `Record` for `Instruction`, `Program` for the type of this name, `Token.text` and `Record.text` for
  the methods `String`, and `Cursor.problem` for `parser.errorAt`.
-/
import Quartet.Opcode
import Quartet.Source.Cursor

namespace Quartet

/-! ## §1. Tokens and records. -/

/-- A word of the source language. -/
inductive Token where
  /-- An operation, by the byte of its opcode. -/
  | op (byte : UInt8)
  /-- A register, `$N`. -/
  | register (index : UInt8)
  /-- A number, `#N`.  Only its low sixteen bits reach the code. -/
  | immediate (value : Int32)
  /-- The declaration of a label, `name:`. -/
  | label (name : Bytes)
  /-- A reference to a label, `@name`. -/
  | reference (name : Bytes)
  /-- A directive to the assembler, `.name`. -/
  | directive (name : Bytes)
  /-- A text, `'text'`. -/
  | string (text : Bytes)
deriving DecidableEq, Repr

/-- The source form of a token. -/
def Token.text : Token → Bytes
  | .op byte => Opcode.nameOfByte byte
  | .register index => ascii "$" ++ decimalNat index.toNat
  | .immediate value => ascii "#" ++ decimal value.toInt
  | .label name => name ++ ascii ":"
  | .reference name => ascii "@" ++ name
  | .directive name => ascii "." ++ name
  | .string text => ascii "'" ++ text ++ ascii "'"

/-- An instruction or a directive, as it stands in a source text. -/
structure Record where
  /-- Where it begins. -/
  pos : Position := {}
  /-- The label it declares. -/
  label : Option Bytes := none
  /-- Its operation or directive. -/
  head : Token
  /-- Its operands. -/
  operands : List Token := []
deriving DecidableEq, Repr

/-- A program: records in source order. -/
abbrev Program := List Record

namespace Record

/-- Whether the record is headed by an operation. -/
def isOperation (r : Record) : Bool :=
  match r.head with
  | .op _ => true
  | _ => false

/-- Whether the record is headed by a directive. -/
def isDirective (r : Record) : Bool :=
  match r.head with
  | .directive _ => true
  | _ => false

/-- The source form of a record: its tokens divided by spaces. -/
def text (r : Record) : Bytes :=
  (match r.label with
    | some name => (Token.label name).text ++ ascii " "
    | none => []) ++ r.head.text ++ r.operands.flatMap fun t => ascii " " ++ t.text

end Record

/-! ## §2. Why a text is no program. -/

/-- What is wrong with a source text. -/
inductive SyntaxProblem where
  /-- No digits after `$`. -/
  | registerNumber
  /-- A register number of more than one byte. -/
  | registerRange (digits : Bytes)
  /-- No digits after `#`. -/
  | integer
  /-- A number of more than 32 bits. -/
  | integerRange (numeral : Bytes)
  /-- No name after `@`. -/
  | labelName
  /-- A text without end. -/
  | unterminatedString
  /-- No name after a point. -/
  | directiveName
  /-- A name that no operation has. -/
  | unknownMnemonic (name : Bytes)
  /-- A label without a record. -/
  | nothingAfterLabel (name : Bytes)
  /-- Something that starts no record. -/
  | noRecord
deriving DecidableEq, Repr

/-- The wording of a problem. -/
def SyntaxProblem.message : SyntaxProblem → Bytes
  | .registerNumber => ascii "expected register number"
  | .registerRange digits => ascii "register number out of range: $" ++ digits
  | .integer => ascii "expected integer"
  | .integerRange numeral => ascii "integer out of range: #" ++ numeral
  | .labelName => ascii "expected label name"
  | .unterminatedString => ascii "unterminated string literal"
  | .directiveName => ascii "expected directive name"
  | .unknownMnemonic name => ascii "unknown mnemonic " ++ quote name
  | .nothingAfterLabel name => ascii "expected opcode or directive after label " ++ name
  | .noRecord => ascii "expected opcode, directive or label"

/-- A problem at the token where it was met, with all that follows from there. -/
structure SyntaxError where
  /-- Where the token begins. -/
  pos : Position
  /-- What is wrong with it. -/
  problem : SyntaxProblem
  /-- The text from there on. -/
  remainder : Bytes
deriving DecidableEq, Repr

/-- A problem with the token at a cursor. -/
def Cursor.problem (c : Cursor) (p : SyntaxProblem) : SyntaxError := ⟨c.pos, p, unread c.rest⟩

end Quartet
