/-
  Quartet.Assembly.Layout
  ───────────────────────
  **THE FIRST PASS: WHERE EVERYTHING GOES.**

  The first pass goes through the records in order.  It follows the sections, counts the code,
  collects the data and binds every label to the offset that is reached in its section.  A record
  that cannot be laid out adds an error and the pass goes on.

  The pass is written once, over the means that it has: a table of labels, how they are looked up and
  declared there, and how the text of a directive is taken from its operands.  The assembler uses
  `Means.plain`.

  What the definitions stand for: `Survey` for `discovery`, `Survey.addBy` and `Layout.ofProgram` for
  `discovery.run`, `Survey.refuse` for `discovery.errorf`, `Survey.labelDefectBy` for
  `discovery.label`, `Survey.bindBy` for `discovery.bind`, `Survey.addDirectiveBy` for
  `discovery.directive`, `Survey.addSectionBy` for its use of `discovery.bindCurrent` and
  `Survey.addStringBy` for `discovery.asciiz`.
-/
import Quartet.Assembly.Diagnostic
import Quartet.Assembly.SymbolTable

namespace Quartet

/-- What the first pass knows after some records. -/
structure Survey (Table : Type) where
  /-- The section that is open, if one is. -/
  current : Option Section := none
  /-- The size of the code so far. -/
  codeSize : Nat := 0
  /-- The labels so far. -/
  symbols : Table
  /-- The data so far. -/
  data : Bytes := []
  /-- The errors so far. -/
  errors : List Diagnostic := []
  /-- The warnings so far. -/
  warnings : List Diagnostic := []
deriving DecidableEq, Repr

/-- What the first pass of the assembler knows. -/
abbrev Layout := Survey SymbolTable

/-- The means of the first pass. -/
structure Means (m : Type → Type) (Table : Type) where
  /-- Looks a label up. -/
  lookup : Table → Bytes → m (Option Symbol)
  /-- Declares a label. -/
  declare : Table → Symbol → m Table
  /-- The text among operands, of which there is at least one, if it is the only one. -/
  text : List Token → m (Option Bytes)

/-- The text that is the only operand. -/
def onlyText? : List Token → Option Bytes
  | [.string text] => some text
  | _ => none

/-- The means of the assembler, given how symbols are declared. -/
def Means.declaring {m : Type → Type} [Monad m] (declare : SymbolTable → Symbol → m SymbolTable) :
    Means m SymbolTable where
  lookup t name := return t.lookup? name
  declare := declare
  text operands := return onlyText? operands

/-- The means of the assembler.  What a declaration gives back is not looked at. -/
def Means.plain : Means Id SymbolTable := .declaring fun t s => pure (t.declare s).2

/-- The largest offset a label may have. -/
def Layout.maxOffset : Nat := 255

/-! ## §1. The pass, whatever its means. -/

namespace Survey

variable {Table : Type}

/-- Adds an error about a record. -/
def refuse (l : Survey Table) (r : Record) (d : Defect) : Survey Table :=
  { l with errors := l.errors ++ [d.diagnostic r.pos] }

/-- Adds a warning about a record. -/
def warn (l : Survey Table) (r : Record) (d : Defect) : Survey Table :=
  { l with warnings := l.warnings ++ [d.diagnostic r.pos] }

variable {m : Type → Type} [Monad m] (w : Means m Table) (l : Survey Table) (r : Record)

/-- Why a label cannot be declared now, if it cannot: no section is open, or it is declared
already. -/
def labelDefectBy (name : Bytes) : m (Option Defect) :=
  if l.current = none then return some (.labelOutsideSections name)
  else do
    let found ← w.lookup l.symbols name
    return found.map fun earlier => .duplicateLabel name earlier.pos

/-- Binds a label to an offset, unless the offset is too large. -/
def bindBy (name : Bytes) (space : Section) (offset : Nat) : m (Survey Table) :=
  if Layout.maxOffset < offset then return l.refuse r (.labelTooFar name offset)
  else do
    let symbols ← w.declare l.symbols ⟨name, space, UInt8.ofNat offset, r.pos⟩
    return { l with symbols := symbols }

/-- Binds the label of a record, if it has one that can be declared, to an offset. -/
def bindLabelBy (space : Section) (offset : Nat) : m (Survey Table) :=
  match r.label with
  | none => return l
  | some name => do
    match ← l.labelDefectBy w name with
    | some d => return l.refuse r d
    | none => l.bindBy w r name space offset

/-- Lays out an instruction: its label stands for the code reached before it. -/
def addOperationBy : m (Survey Table) := do
  let bound ← l.bindLabelBy w r .code l.codeSize
  return { bound with codeSize := bound.codeSize + slotSize }

/-- Opens a section.  A label on the directive stands for what was reached in the section before. -/
def addSectionBy (name : Bytes) : m (Survey Table) := do
  let bound ← (if l.current = some .data then l.bindLabelBy w r .data l.data.length
    else l.bindLabelBy w r .code l.codeSize)
  match Section.ofName? name with
  | some s => return { bound with current := some s }
  | none => return bound.warn r (.unknownSection name)

/-- Lays out a labelled text: the text and a zero byte go to the data. -/
def addTextBy (name text : Bytes) : m (Survey Table) := do
  match ← l.labelDefectBy w name with
  | some d => return l.refuse r d
  | none =>
    if Image.maxDataSize < l.data.length + text.length + 1 then
      return l.refuse r (.tooMuchData name (l.data.length + text.length + 1))
    else do
      let bound ← l.bindBy w r name .data l.data.length
      return { bound with data := bound.data ++ text ++ [0] }

/-- Lays out a text directive. -/
def addStringBy : m (Survey Table) := do
  match ← w.text r.operands with
  | some text =>
    match r.label with
    | none => return l.warn r (.unlabelledString text)
    | some name => l.addTextBy w r name text
  | none => return l.refuse r .notOneString

/-- Lays out a directive: without operands it opens a section. -/
def addDirectiveBy (name : Bytes) : m (Survey Table) :=
  if r.operands = [] then l.addSectionBy w r name
  else if name = ascii "asciiz" then l.addStringBy w r
  else return l.refuse r (.unknownDirective name)

/-- Lays out one record.  A record that is headed by neither an operation nor a directive takes no
room. -/
def addBy : m (Survey Table) :=
  match r.head with
  | .op _ => l.addOperationBy w r
  | .directive name => l.addDirectiveBy w r name
  | _ => return l

/-- Lays out records one after the other. -/
def addAllBy (p : Program) : m (Survey Table) := p.foldlM (addBy w) l

end Survey

/-! ## §2. The pass of the assembler. -/

namespace Layout

/-- What is known before the first record. -/
def start : Layout := { symbols := {} }

/-- Lays out one record. -/
def add (l : Layout) (r : Record) : Layout := Id.run (l.addBy .plain r)

/-- Lays out a program. -/
def ofProgram (p : Program) : Layout := p.foldl add start

/-- A program laid out in two parts is laid out from where the first part ends. -/
theorem ofProgram_append (p q : Program) : ofProgram (p ++ q) = q.foldl add (ofProgram p) :=
  List.foldl_append

/-! ## §3. Its parts, and what they come down to. -/

section Plain

variable (l : Layout) (r : Record)

/-- Why a label cannot be declared now, if it cannot. -/
def labelDefect? (name : Bytes) : Option Defect := Id.run (l.labelDefectBy .plain name)

/-- Binds a label to an offset, unless the offset is too large. -/
def bind (name : Bytes) (space : Section) (offset : Nat) : Layout :=
  Id.run (l.bindBy .plain r name space offset)

/-- Binds the label of a record. -/
def bindLabel (space : Section) (offset : Nat) : Layout :=
  Id.run (l.bindLabelBy .plain r space offset)

/-- Lays out an instruction. -/
def addOperation : Layout := Id.run (l.addOperationBy .plain r)

/-- Opens a section. -/
def addSection (name : Bytes) : Layout := Id.run (l.addSectionBy .plain r name)

/-- Lays out a labelled text. -/
def addText (name text : Bytes) : Layout := Id.run (l.addTextBy .plain r name text)

/-- Lays out a text directive. -/
def addString : Layout := Id.run (l.addStringBy .plain r)

/-- Lays out a directive. -/
def addDirective (name : Bytes) : Layout := Id.run (l.addDirectiveBy .plain r name)

theorem labelDefect?_eq (name : Bytes) :
    l.labelDefect? name =
      if l.current = none then some (.labelOutsideSections name)
      else (l.symbols.lookup? name).map fun earlier => .duplicateLabel name earlier.pos := rfl

theorem bind_eq (name : Bytes) (space : Section) (offset : Nat) :
    l.bind r name space offset =
      if maxOffset < offset then l.refuse r (.labelTooFar name offset)
      else { l with symbols := (l.symbols.declare ⟨name, space, UInt8.ofNat offset, r.pos⟩).2 } :=
  rfl

theorem bindLabel_eq (space : Section) (offset : Nat) :
    l.bindLabel r space offset =
      match r.label with
      | none => l
      | some name =>
        match l.labelDefect? name with
        | some d => l.refuse r d
        | none => l.bind r name space offset := rfl

theorem addOperation_eq :
    l.addOperation r =
      { l.bindLabel r .code l.codeSize with
        codeSize := (l.bindLabel r .code l.codeSize).codeSize + slotSize } := rfl

theorem addSection_eq (name : Bytes) :
    l.addSection r name =
      match Section.ofName? name with
      | some s =>
        { (if l.current = some .data then l.bindLabel r .data l.data.length
          else l.bindLabel r .code l.codeSize) with current := some s }
      | none =>
        (if l.current = some .data then l.bindLabel r .data l.data.length
          else l.bindLabel r .code l.codeSize).warn r (.unknownSection name) := by
  unfold addSection Survey.addSectionBy
  by_cases hdata : l.current = some .data
  · rw [if_pos hdata, if_pos hdata]
    cases Section.ofName? name <;> rfl
  · rw [if_neg hdata, if_neg hdata]
    cases Section.ofName? name <;> rfl

theorem addText_eq (name text : Bytes) :
    l.addText r name text =
      match l.labelDefect? name with
      | some d => l.refuse r d
      | none =>
        if Image.maxDataSize < l.data.length + text.length + 1 then
          l.refuse r (.tooMuchData name (l.data.length + text.length + 1))
        else
          { l.bind r name .data l.data.length with
            data := (l.bind r name .data l.data.length).data ++ text ++ [0] } := rfl

theorem addString_eq :
    l.addString r =
      match r.operands with
      | [.string text] =>
        match r.label with
        | none => l.warn r (.unlabelledString text)
        | some name => l.addText r name text
      | _ => l.refuse r .notOneString := by
  unfold addString Survey.addStringBy
  cases r.operands with
  | nil => rfl
  | cons t ts =>
      cases t with
      | string text => cases ts <;> rfl
      | op _ | register _ | immediate _ | label _ | reference _ | directive _ => rfl

theorem addDirective_eq (name : Bytes) :
    l.addDirective r name =
      if r.operands = [] then l.addSection r name
      else if name = ascii "asciiz" then l.addString r
      else l.refuse r (.unknownDirective name) := rfl

theorem add_eq :
    l.add r =
      match r.head with
      | .op _ => l.addOperation r
      | .directive name => l.addDirective r name
      | _ => l := rfl

end Plain

end Layout

end Quartet
