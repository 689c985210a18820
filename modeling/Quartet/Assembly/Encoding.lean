/-
  Quartet.Assembly.Encoding
  ─────────────────────────
  **THE SECOND PASS: FROM RECORDS TO CODE.**

  Every instruction becomes a slot of four bytes: the opcode, then the bytes of its operands, filled
  up with zeros.  The second pass only reads the symbol table, so each record is encoded on its own.

  What the definitions stand for: `Record.encode?` for `encode`, with `operandsBytes` for its
  loop over the operands, and `Program.encodingErrors` and `Program.code` for the two results of
  `generate`.
-/
import Quartet.Assembly.Layout

namespace Quartet

/-! ## §1. One instruction. -/

/-- The operand bytes an instruction has room for. -/
def operandRoom : Nat := slotSize - 1

/-- The low sixteen bits of a number in two bytes, the higher one first. -/
def wordBytes (value : Int32) : Bytes :=
  [UInt8.ofNat ((value.toInt % 65536).toNat / 256), UInt8.ofNat ((value.toInt % 65536).toNat % 256)]

/-- The bytes of one operand of an operation. -/
def operandBytes (symbols : SymbolTable) (op : UInt8) : Token → Except Defect Bytes
  | .register index =>
    if registerCount ≤ index.toNat then .error (.noRegister index) else .ok [index]
  | .immediate value => .ok (wordBytes value)
  | .reference name =>
    match symbols.lookup? name with
    | some s => .ok [s.offset]
    | none => .error (.unresolvedReference name)
  | token => .error (.noOperand token op)

/-- The bytes of an operation's operands, after those that are placed already. -/
def operandsBytes (symbols : SymbolTable) (op : UInt8) (placed : Bytes) :
    List Token → Except Defect Bytes
  | [] => .ok placed
  | t :: ts =>
    match operandBytes symbols op t with
    | .error d => .error d
    | .ok bs =>
      if operandRoom < placed.length + bs.length then .error (.tooManyOperands op)
      else operandsBytes symbols op (placed ++ bs) ts

/-- The slot of an operation with the given operand bytes. -/
def slot (op : UInt8) (operands : Bytes) : Bytes :=
  op :: operands ++ List.replicate (operandRoom - operands.length) 0

/-- The slot of a record, or what is wrong with it; none if it is no instruction. -/
def Record.encode? (symbols : SymbolTable) (r : Record) : Option (Except Diagnostic Bytes) :=
  match r.head with
  | .op byte =>
    match operandsBytes symbols byte [] r.operands with
    | .error d => some (.error (d.diagnostic r.pos))
    | .ok operands => some (.ok (slot byte operands))
  | _ => none

/-! ## §2. All instructions. -/

namespace Program

/-- The slots of a program's instructions in order, with those that cannot be encoded. -/
def slots (symbols : SymbolTable) (p : Program) : List (Except Diagnostic Bytes) :=
  p.filterMap (Record.encode? symbols)

/-- The errors of the second pass. -/
def encodingErrors (symbols : SymbolTable) (p : Program) : List Diagnostic :=
  (slots symbols p).filterMap fun
    | .error d => some d
    | .ok _ => none

/-- The code of a program. -/
def code (symbols : SymbolTable) (p : Program) : Bytes :=
  (slots symbols p).flatMap fun
    | .error _ => []
    | .ok bs => bs

end Program

end Quartet
