/-
  Quartet.Proofs.Assembly.Appending
  ─────────────────────────────────
  **APPENDING SOURCE MOVES NOTHING.**

  Records that are appended to a program may open other sections, add data and declare labels, and
  the references of the program itself are then looked up in a longer table.  Still no byte of the
  program changes and no label of it moves:

    • `Program.labels_append`, `Program.table_append` — new labels stand behind the old ones,
    • `Program.offsetOf?_append` — so a label that was declared keeps its offset,
    • `Program.Realises.slotImage_append` — and every instruction that was encoded keeps its slot,
    • `assemble_append` — data, code and symbols are only extended.
-/
import Quartet.Proofs.Assembly.Diagnostics

namespace Quartet

namespace Program

/-! ## §1. Labels. -/

theorem labels_append (p q : Program) : (p ++ q).labels = p.labels ++ labelsFrom p q :=
  labelsFrom_append [] p q

/-- The table of a program is the beginning of that of a longer one. -/
theorem table_append (p q : Program) : p.table.symbols <+: (p ++ q).table.symbols := by
  unfold table
  rw [labels_append, List.map_append]
  exact List.prefix_append _ _

/-- A label that was declared keeps its offset, for names are looked up from the front. -/
theorem offsetOf?_append {p : Program} {name : Bytes} {offset : Nat}
    (h : p.offsetOf? name = some offset) (q : Program) :
    (p ++ q).offsetOf? name = some offset := by
  unfold offsetOf? at h ⊢
  obtain ⟨a, ha, hoffset⟩ := Option.map_eq_some_iff.mp h
  rw [labels_append, List.find?_append, ha, ← hoffset]
  rfl

/-! ## §2. Slots. -/

namespace Realises

variable {p : Program} {img : Image} {table : SymbolTable} (hreal : p.Realises img table)
include hreal

/-- An operand that was encoded keeps its bytes: if it is a reference, its label was declared. -/
theorem operandImage_append {op : UInt8} {t : Token} {bs : Bytes}
    (h : operandBytes table op t = .ok bs) (q : Program) :
    (p ++ q).operandImage t = p.operandImage t := by
  cases t with
  | reference name =>
      simp only [operandBytes] at h
      split at h
      · next s hs =>
        have hdeclared : p.offsetOf? name = some s.offset.toNat := by
          rw [offsetOf?_eq_lookup? hreal.labels, hs]
          rfl
        show ((p ++ q).offsetOf? name).toList.map UInt8.ofNat = (p.offsetOf? name).toList.map UInt8.ofNat
        rw [offsetOf?_append hdeclared q, hdeclared]
      · exact absurd h (by simp)
  | op _ | register _ | immediate _ | label _ | directive _ | string _ => rfl

/-- **Every instruction that was encoded keeps its slot.** -/
theorem slotImage_append {r : Record} (hr : r ∈ p.instructions) (q : Program) :
    (p ++ q).slotImage r = p.slotImage r := by
  obtain ⟨byte, bs, hhead, hops⟩ := hreal.encoded r hr
  have hoperands : r.operands.flatMap (p ++ q).operandImage = r.operands.flatMap p.operandImage := by
    apply List.flatMap_congr
    intro t ht
    obtain ⟨these, hthese⟩ := operandBytes_of_mem hops ht
    exact hreal.operandImage_append hthese q
  simp only [slotImage, hhead, hoperands]

/-- The code is followed by the slots of the instructions that were appended. -/
theorem code_append (q : Program) :
    (p ++ q).instructions.flatMap (p ++ q).slotImage =
      img.code ++ q.instructions.flatMap (p ++ q).slotImage := by
  have hkept : p.instructions.flatMap (p ++ q).slotImage = p.instructions.flatMap p.slotImage := by
    apply List.flatMap_congr
    intro r hr
    exact hreal.slotImage_append hr q
  rw [instructions_append, List.flatMap_append, hkept, ← hreal.code]

end Realises

/-! ## §3. The whole assembly. -/

/-- The symbols of a program that is assembled are its labels. -/
theorem symbols_of_assemble {p : Program} (hp : ∀ r ∈ p, r.isOperation ∨ r.isDirective) {img : Image}
    (h : p.assemble.result = .ok img) : p.assemble.symbols = some p.table := by
  obtain ⟨hlayout, -, -, hsymbols⟩ := assemble_eq_ok h
  rw [hsymbols, symbols_ofProgram hp hlayout]

end Program

/-- **Appending source never moves what is already there.**  If a program can be assembled, and also
with more records behind it, then its data, its code and its symbols are the beginnings of those of
the longer program. -/
theorem assemble_append (p q : Program) (hpq : ∀ r ∈ p ++ q, r.isOperation ∨ r.isDirective)
    (img img' : Image) (h : p.assemble.result = .ok img) (h' : (p ++ q).assemble.result = .ok img') :
    img.data <+: img'.data ∧ img.code <+: img'.code ∧
      ∃ table table', p.assemble.symbols = some table ∧ (p ++ q).assemble.symbols = some table' ∧
        table.symbols <+: table'.symbols := by
  have hp : ∀ r ∈ p, r.isOperation ∨ r.isDirective := fun r hr => hpq r (List.mem_append_left q hr)
  obtain ⟨table, hreal⟩ := Program.realises_of_assemble hp h
  obtain ⟨table', hreal'⟩ := Program.realises_of_assemble hpq h'
  refine ⟨?_, ?_, p.table, (p ++ q).table, Program.symbols_of_assemble hp h,
    Program.symbols_of_assemble hpq h', p.table_append q⟩
  · rw [hreal.data, hreal'.data, Program.dataBytes_append]
    exact List.prefix_append _ _
  · rw [hreal'.code, hreal.code_append q]
    exact List.prefix_append _ _

/-- Data and code with a reference back, and a label on the last instruction. -/
def appendingSample : Program :=
  [{ head := .directive (ascii "data") },
    { label := some (ascii "hi"), head := .directive (ascii "asciiz"),
      operands := [.string (ascii "ab")] },
    { label := some (ascii "end"), head := .directive (ascii "code") },
    { head := .op 1, operands := [.register 2, .reference (ascii "end")] },
    { label := some (ascii "stop"), head := .op 0 }]

/-- More data, and code that refers to labels on both sides. -/
def appendedSample : Program :=
  [{ label := some (ascii "more"), head := .directive (ascii "asciiz"),
      operands := [.string (ascii "c")] },
    { head := .op 1, operands := [.register 3, .reference (ascii "stop")] },
    { head := .op 1, operands := [.register 4, .reference (ascii "more")] }]

theorem assemble_append_sample :
    (∀ r ∈ appendingSample ++ appendedSample, r.isOperation ∨ r.isDirective) ∧
    appendingSample.assemble.result = .ok ⟨[97, 98, 0], [1, 2, 3, 0, 0, 0, 0, 0]⟩ ∧
    (appendingSample ++ appendedSample).assemble.result =
      .ok ⟨[97, 98, 0, 99, 0], [1, 2, 3, 0, 0, 0, 0, 0, 1, 3, 4, 0, 1, 4, 3, 0]⟩ ∧
    ∃ table table', appendingSample.assemble.symbols = some table ∧
      (appendingSample ++ appendedSample).assemble.symbols = some table' ∧
      table.symbols <+: table'.symbols := by
  have hpq : ∀ r ∈ appendingSample ++ appendedSample, r.isOperation ∨ r.isDirective := by decide
  have himg : appendingSample.assemble.result = .ok ⟨[97, 98, 0], [1, 2, 3, 0, 0, 0, 0, 0]⟩ := rfl
  have himg' : (appendingSample ++ appendedSample).assemble.result =
      .ok ⟨[97, 98, 0, 99, 0], [1, 2, 3, 0, 0, 0, 0, 0, 1, 3, 4, 0, 1, 4, 3, 0]⟩ := rfl
  obtain ⟨-, -, hsymbols⟩ := assemble_append appendingSample appendedSample hpq _ _ himg himg'
  exact ⟨hpq, himg, himg', hsymbols⟩

end Quartet
