/-
  Quartet.Session.Request
  ───────────────────────
  **WHAT A LINE ASKS FOR.**

  A line whose first word is the name of a command asks for that command.  Any other line is input
  for the machine: instructions in the source language without labels, or bytes in hexadecimal.

  What the definitions stand for: `Request.ofLine` for the choice among commands in `REPL.eval`,
  `inputCode` for `REPL.assemble` and what `REPL.input` makes of its errors, and `hexBytes` for
  `parseHex`.
-/
import Quartet.Assembly.Assembler
import Quartet.Bytes

namespace Quartet

/-! ## §1. Commands. -/

/-- What a line asks for. -/
inductive Request where
  /-- End the session. -/
  | quit
  /-- List the commands. -/
  | help
  /-- List the program. -/
  | program
  /-- Show the registers. -/
  | registers
  /-- Show the heap. -/
  | heap
  /-- Show the read-only data. -/
  | data
  /-- Show all lines so far. -/
  | history
  /-- Start the machine over. -/
  | reset
  /-- Run the program. -/
  | run
  /-- Put the program of a file in place of the present one. -/
  | loadFile (name : Bytes)
  /-- Add to the program and carry out an instruction. -/
  | input (line : Bytes)
deriving DecidableEq, Repr

namespace Request

/-- Whether a byte ends the first word of a line. -/
def endsWord (b : UInt8) : Bool := b = asciiByte ' ' || b = asciiByte '\t'

/-- The first word of a line. -/
def firstWord (line : Bytes) : Bytes := line.takeWhile fun b => !endsWord b

/-- What follows the first word, without the white space around it. -/
def argument (line : Bytes) : Bytes := trim (line.dropWhile fun b => !endsWord b)

/-- The request of a line that neither starts nor ends with white space. -/
def ofLine (line : Bytes) : Request :=
  let word := firstWord line
  if word = ascii ".quit" then quit
  else if word = ascii ".help" then help
  else if word = ascii ".program" then program
  else if word = ascii ".registers" then registers
  else if word = ascii ".heap" then heap
  else if word = ascii ".ro" then data
  else if word = ascii ".history" then history
  else if word = ascii ".reset" then reset
  else if word = ascii ".run" then run
  else if word = ascii ".load_file" then loadFile (argument line)
  else input line

end Request

/-! ## §2. Input for the machine. -/

/-- Why a line is no input. -/
inductive InputProblem where
  /-- It is neither instructions nor hexadecimal bytes; the field is the first that is no byte. -/
  | unreadable (error : SyntaxError) (field : Bytes)
  /-- It declares a label. -/
  | label (pos : Position) (name : Bytes)
  /-- Its instructions cannot be assembled. -/
  | rejected (errors : List Diagnostic)
deriving DecidableEq, Repr

/-- The wording of a problem. -/
def InputProblem.message : InputProblem → Bytes
  | .unreadable error field =>
    error.diagnostic.text ++ ascii "\nunable to decode hex: invalid hex byte " ++ quote field
  | .label pos name =>
    pos.text ++ ascii ": label " ++ name
      ++ ascii ": labels are not supported in interactive input"
  | .rejected errors => Diagnostic.textAll errors

/-- The bytes of hexadecimal fields, or the first field that is no byte. -/
def hexBytes : List Bytes → Except Bytes Bytes
  | [] => .ok []
  | field :: rest =>
    match Numeral.natural 16 255 field with
    | .error _ => .error field
    | .ok n =>
      match hexBytes rest with
      | .error field => .error field
      | .ok bs => .ok (UInt8.ofNat n :: bs)

/-- The first label that records declare, with the place of its record. -/
def firstLabel? (p : Program) : Option (Position × Bytes) :=
  p.findSome? fun r => r.label.map (r.pos, ·)

/-- A line's records as a program: they are always code. -/
def inputProgram (p : Program) : Program := { head := .directive (ascii "code") } :: p

/-- The code that a line adds, and what is noted on the way. -/
def inputCode (line : Bytes) : Except InputProblem Bytes × List Entry :=
  match Program.parse (ascii "input") line with
  | .error e =>
    match hexBytes (fields line) with
    | .error field => (.error (.unreadable e field), [])
    | .ok bs => (.ok bs, [])
  | .ok p =>
    match firstLabel? p with
    | some (pos, name) => (.error (.label pos name), [])
    | none =>
      let done := (inputProgram p).assemble
      match done.result with
      | .error errors => (.error (.rejected errors), done.entries)
      | .ok img => (.ok img.code, done.entries)

end Quartet
