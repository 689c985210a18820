/-
  Quartet.Assembly.Assembler
  ──────────────────────────
  **FROM SOURCE TO IMAGE.**

  A program is assembled in two passes.  Errors of the first pass keep the second from being made;
  either all errors of a pass are returned or an image is, never a part of one.  An assembler can be
  used again: it keeps the warnings and the symbols of the last text that was a program.

  What the definitions stand for: `Program.assemble` for `Assembler.AssembleProgram`,
  `Assembler.assemble` for `Assembler.Assemble`, and `assemble` for that method of a new assembler.
-/
import Quartet.Assembly.Encoding
import Quartet.Files.Error
import Quartet.Journal
import Quartet.Source.Parser

namespace Quartet

/-! ## §1. Programs. -/

/-- All that assembling a program gives. -/
structure Assembly where
  /-- The image, or the errors of the pass that failed. -/
  result : Except (List Diagnostic) Image
  /-- The warnings. -/
  warnings : List Diagnostic
  /-- The symbols, unless the first pass failed. -/
  symbols : Option SymbolTable
  /-- What is noted. -/
  entries : List Entry

/-- Assembles a program. -/
def Program.assemble (p : Program) : Assembly :=
  let layout := Layout.ofProgram p
  let warned := layout.warnings.map Entry.warning
  if layout.errors ≠ [] then ⟨.error layout.errors, layout.warnings, none, warned⟩
  else
    let laidOut := warned ++ [.laidOut layout.symbols.size layout.data.length layout.codeSize]
    let errors := Program.encodingErrors layout.symbols p
    if errors ≠ [] then ⟨.error errors, layout.warnings, some layout.symbols, laidOut⟩
    else
      let code := Program.code layout.symbols p
      ⟨.ok ⟨layout.data, code⟩, layout.warnings, some layout.symbols,
        laidOut ++ [.encoded code.length]⟩

/-! ## §2. Texts. -/

/-- Why a text gives no image. -/
inductive Refusal where
  /-- It cannot be read. -/
  | unreadable (failure : ReadFailure)
  /-- It is no program that can be assembled. -/
  | rejected (errors : List Diagnostic)
deriving DecidableEq, Repr

/-- The wording of a refusal. -/
def Refusal.message : Refusal → Bytes
  | .unreadable failure => failure.report
  | .rejected errors => Diagnostic.textAll errors

/-- What an assembler keeps of the last program. -/
structure Assembler where
  /-- The warnings. -/
  warnings : List Diagnostic := []
  /-- The symbols, unless there was no program or its first pass failed. -/
  symbols : Option SymbolTable := none
deriving DecidableEq, Repr

/-- The outcome of assembling a text. -/
structure Assembled where
  /-- The assembler afterwards. -/
  assembler : Assembler
  /-- The image, or why there is none. -/
  result : Except Refusal Image
  /-- What is noted. -/
  entries : List Entry

/-- Assembles a text.  A text that cannot be read or is no program leaves the assembler as it
was. -/
def Assembler.assemble (a : Assembler) (file : Bytes) (input : Input) : Assembled :=
  match input.failure with
  | some failure => ⟨a, .error (.unreadable failure), []⟩
  | none =>
    match Program.parse file input.text with
    | .error e => ⟨a, .error (.rejected [e.diagnostic]), []⟩
    | .ok p =>
      let done := p.assemble
      ⟨⟨done.warnings, done.symbols⟩, done.result.mapError Refusal.rejected, done.entries⟩

/-- Assembles a text with a new assembler. -/
def assemble (file : Bytes) (input : Input) : Assembled := ({} : Assembler).assemble file input

end Quartet
