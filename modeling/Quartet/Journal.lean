/-
  Quartet.Journal
  ───────────────
  **WHAT IS NOTED ALONG THE WAY.**

  The machine notes every instruction and every fault, the assembler the end of each pass and every
  warning.  What is noted never changes what is done: entries are computed from the same values as
  the results.
-/
import Quartet.Assembly.Diagnostic
import Quartet.Machine.Step

namespace Quartet

/-- How much an entry matters. -/
inductive Level where
  /-- Of use to whoever looks for an error in the machine or the assembler. -/
  | debug
  /-- Of use to everyone. -/
  | info
  /-- A sign that something may be wrong. -/
  | warn
  /-- A failure. -/
  | error
deriving DecidableEq, Repr

namespace Level

/-- The word for a level. -/
def name : Level → String
  | debug => "debug"
  | info => "info"
  | warn => "warn"
  | error => "error"

/-- The level with a name; the empty name stands for the lowest. -/
def ofName (name : String) : Level :=
  if name = "info" then info else if name = "warn" then warn else if name = "error" then error
  else debug

/-- Whether a level is at least as high as another. -/
def atLeast (level least : Level) : Bool := least.ctorIdx ≤ level.ctorIdx

end Level

/-- One thing that is noted. -/
inductive Entry where
  /-- An instruction is about to take effect. -/
  | execute (pc : Int) (op : Opcode) (a b c : UInt8)
  /-- An instruction failed. -/
  | fault (fault : Fault)
  /-- The first pass found no error. -/
  | laidOut (symbols data code : Nat)
  /-- The second pass found no error. -/
  | encoded (code : Nat)
  /-- The assembler warns. -/
  | warning (diagnostic : Diagnostic)
deriving DecidableEq, Repr

/-- A value that goes with an entry. -/
inductive Field where
  /-- A number. -/
  | number (value : Int)
  /-- A text. -/
  | text (value : Bytes)
  /-- Bytes that are no text. -/
  | bytes (value : Bytes)
deriving DecidableEq, Repr

namespace Entry

/-- How much an entry matters. -/
def level : Entry → Level
  | warning _ => .warn
  | _ => .debug

/-- Which part notes it. -/
def source : Entry → String
  | execute .. | fault _ => "vm"
  | _ => "asm"

/-- The text of an entry. -/
def message : Entry → Bytes
  | execute .. => ascii "exec"
  | fault _ => ascii "fault"
  | laidOut .. => ascii "discovery done"
  | encoded _ => ascii "code generation done"
  | warning d => d.text

/-- The values that go with an entry. -/
def fields : Entry → List (String × Field)
  | execute pc op a b c =>
    [("pc", .number pc), ("op", .text op.mnemonic), ("args", .bytes [a, b, c])]
  | fault f => [("pc", .number f.pc), ("error", .text f.cause.message)]
  | laidOut symbols data code =>
    [("symbols", .number symbols), ("data", .number data), ("code", .number code)]
  | encoded code => [("code", .number code)]
  | warning _ => []

end Entry

/-! ## §1. The machine's entries. -/

namespace Machine

/-- What is noted while the machine makes its next step. -/
def stepEntries (m : Machine) : List Entry :=
  if m.fault.isSome then []
  else
    (match m.fetch with
      | .slot op a b c => [.execute m.pc op a b c]
      | _ => [])
      ++ (match m.step.2.fault with
        | some f => [.fault f]
        | none => [])

/-- What is noted while the machine makes a bounded run. -/
def runEntries (limit : Nat) (m : Machine) : Array Entry :=
  go limit m #[]
where
  /-- Adds the entries of a bounded run to earlier ones. -/
  go : Nat → Machine → Array Entry → Array Entry
    | 0, _, noted => noted
    | limit + 1, m, noted =>
      match m.step with
      | (.proceed, next) => go limit next (noted ++ m.stepEntries)
      | _ => noted ++ m.stepEntries

end Machine

end Quartet
