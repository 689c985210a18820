/-
  Quartet.Assembly.SymbolTable
  ────────────────────────────
  **LABELS AND WHAT THEY STAND FOR.**

  A table keeps symbols in the order of their declaration, and of each name the first.

  What the definitions stand for: `Section`, `Symbol` and `SymbolTable` for the types of
  these names, `SymbolTable.lookup?` for `SymbolTable.Lookup`, and `SymbolTable.declare` for the
  method of this name.
-/
import Quartet.Source.Cursor

namespace Quartet

/-- The sections of a program. -/
inductive Section where
  /-- The code. -/
  | code
  /-- The read-only data. -/
  | data
deriving DecidableEq, Repr

namespace Section

/-- The word for a section. -/
def name : Section → String
  | code => "code"
  | data => "data"

/-- The section that a directive of the given name opens. -/
def ofName? (name : Bytes) : Option Section :=
  if name = ascii "code" then some code
  else if name = ascii "data" then some data
  else none

/-- The word for the section with a given number: 0 stands for none, and so does every number that
has no section. -/
def nameOfNumber (n : Int) : String :=
  if n = 1 then code.name else if n = 2 then data.name else "none"

end Section

/-- A label and the offset it stands for. -/
structure Symbol where
  /-- The label. -/
  name : Bytes
  /-- The section the offset is in. -/
  space : Section
  /-- The offset, in one byte. -/
  offset : UInt8
  /-- Where the label was declared. -/
  pos : Position
deriving DecidableEq, Repr

/-- The symbols of a program. -/
structure SymbolTable where
  /-- The symbols in the order of their declaration. -/
  symbols : List Symbol := []
deriving DecidableEq, Repr

namespace SymbolTable

/-- The symbol with a name. -/
def lookup? (t : SymbolTable) (name : Bytes) : Option Symbol :=
  t.symbols.find? fun s => s.name = name

/-- Declares a symbol.  If the name is taken, the earlier symbol is returned and nothing
changes. -/
def declare (t : SymbolTable) (s : Symbol) : Option Symbol × SymbolTable :=
  match t.lookup? s.name with
  | some earlier => (some earlier, t)
  | none => (none, ⟨t.symbols ++ [s]⟩)

/-- The number of symbols. -/
def size (t : SymbolTable) : Nat := t.symbols.length

/-! ## §1. Declaring and looking up. -/

/-- A declaration gives back the symbol that had the name before. -/
theorem declare_fst (t : SymbolTable) (s : Symbol) : (t.declare s).1 = t.lookup? s.name := by
  unfold declare
  split
  · next earlier h => exact h.symm
  · next h => exact h.symm

/-- A name that is taken keeps its symbol, and a new one gets the symbol declared. -/
theorem lookup?_declare (t : SymbolTable) (s : Symbol) (name : Bytes) :
    (t.declare s).2.lookup? name =
      (t.lookup? name).or (if s.name = name then some s else none) := by
  unfold declare
  split
  · next earlier h =>
    by_cases hname : s.name = name
    · subst hname
      simp [h]
    · simp [hname]
  · next h =>
    simp only [lookup?, List.find?_append]
    by_cases hname : s.name = name <;> simp [hname]

end SymbolTable

end Quartet
