/-
  Quartet.Proofs.Assembly.Strings
  ───────────────────────────────
  **STRINGS SURVIVE ASSEMBLY AND LISTING.**

  The assembler writes a text and a zero byte; whoever reads the data has the offset of the label, or
  only the data themselves.  The two agree on where every text begins and where it ends:

    • `Program.assemble_statements` — records that are neither instructions nor directives might as
      well not be there,
    • `Program.Realises.lookup?_of_text` — the label of a text stands for the data before it,
    • `Program.Realises.stringAt?_of_text` — what is read there is the text, up to a zero byte in it,
    • `Program.Realises.stringsFrom_dataBytes` — and without such zero bytes the strings that a
      listing visits are the texts,
    • `strings_survive` — for all programs, and what a listing makes of any data.
-/
import Mathlib.Data.List.Nodup
import Quartet.Proofs.Assembly.Addresses
import Quartet.Proofs.Image.Strings

namespace Quartet

/-! ## §1. Records that are not laid out. -/

/-- Whether a record is headed by an operation or a directive. -/
def Record.isStatement (r : Record) : Bool := r.isOperation || r.isDirective

theorem Record.isStatement_iff {r : Record} :
    r.isStatement = true ↔ r.isOperation = true ∨ r.isDirective = true := by
  unfold isStatement
  rw [Bool.or_eq_true]

/-- No other record is laid out. -/
theorem Layout.add_of_not_isStatement (l : Layout) {r : Record} (h : r.isStatement = false) :
    l.add r = l := by
  rw [add_eq]
  unfold Record.isStatement Record.isOperation Record.isDirective at h
  cases hhead : r.head with
  | op byte => simp [hhead] at h
  | directive name => simp [hhead] at h
  | register _ | immediate _ | label _ | reference _ | string _ => rfl

theorem Layout.foldl_add_statements (p : Program) :
    ∀ l : Layout, (p.filter Record.isStatement).foldl add l = p.foldl add l := by
  induction p with
  | nil => intro l; rfl
  | cons r p ih =>
      intro l
      cases hr : r.isStatement with
      | true =>
          rw [List.filter_cons_of_pos hr]
          exact ih (l.add r)
      | false =>
          rw [List.filter_cons_of_neg (by simp [hr]), ih, List.foldl_cons,
            add_of_not_isStatement l hr]

namespace Program

theorem slots_statements (table : SymbolTable) (p : Program) :
    slots table (p.filter Record.isStatement) = p.slots table := by
  unfold slots
  rw [List.filterMap_filter]
  refine List.filterMap_congr ?_
  intro r _
  cases hr : r.isStatement with
  | true => rfl
  | false =>
      have hop : r.isOperation = false := (Bool.or_eq_false_iff.mp hr).1
      rw [Record.encode?_eq_none_iff.mpr hop]
      rfl

/-- **A program is assembled as its instructions and directives alone are.** -/
theorem assemble_statements (p : Program) : assemble (p.filter Record.isStatement) = p.assemble := by
  have hlayout : Layout.ofProgram (p.filter Record.isStatement) = Layout.ofProgram p :=
    Layout.foldl_add_statements p .start
  unfold assemble encodingErrors code
  simp only [hlayout, slots_statements]

end Program

/-! ## §2. Labelled texts. -/

/-- A labelled text is the one operand of a directive with a label. -/
theorem Record.labelledText?_eq_some {r : Record} {text : Bytes} (h : r.labelledText? = some text) :
    (∃ name, r.label = some name) ∧ r.head = .directive (ascii "asciiz") ∧
      r.operands = [.string text] := by
  unfold labelledText? at h
  split at h
  · next label name text' hlabel hhead hops =>
    by_cases hname : name = ascii "asciiz"
    · rw [if_pos hname] at h
      rw [hhead, hname, hops, Option.some.inj h]
      exact ⟨⟨label, hlabel⟩, rfl, rfl⟩
    · rw [if_neg hname] at h
      exact absurd h (by simp)
  · exact absurd h (by simp)

theorem Record.dataBytes_of_text {r : Record} {text : Bytes} (h : r.labelledText? = some text) :
    r.dataBytes = text ++ [0] := by
  simp only [dataBytes, h]

/-- The label of a text with the offset that a table gives it, and the text. -/
def Record.stringIn? (table : SymbolTable) (r : Record) : Option (Nat × Bytes) :=
  r.labelledText?.bind fun text =>
    (r.label.bind table.lookup?).map fun s => (s.offset.toNat, text)

/-- A name that is declared once stands for the offset it is declared with. -/
theorem Program.offsetOf?_of_mem {p : Program} (hnodup : (p.labels.map Address.name).Nodup)
    {a : Address} (ha : a ∈ p.labels) : p.offsetOf? a.name = some a.offset := by
  unfold offsetOf?
  cases hfind : p.labels.find? fun b => b.name = a.name with
  | none =>
      have hno := List.find?_eq_none.mp hfind a ha
      exact absurd (decide_eq_true rfl) hno
  | some b =>
      have hname : b.name = a.name := by simpa using List.find?_some hfind
      have hb : b ∈ p.labels := List.mem_of_find?_eq_some hfind
      rw [List.inj_on_of_nodup_map hnodup hb ha hname]
      rfl

namespace Program.Realises

variable {p : Program} {img : Image} {table : SymbolTable} (hreal : p.Realises img table)
include hreal

/-- **The label of a text stands for the data before it.** -/
theorem lookup?_of_text {before after : Program} {r : Record} (hsplit : p = before ++ r :: after)
    {name text : Bytes} (hlabel : r.label = some name) (htext : r.labelledText? = some text) :
    ∃ s, table.lookup? name = some s ∧ s.offset.toNat = before.dataBytes.length := by
  obtain ⟨-, hhead, hops⟩ := Record.labelledText?_eq_some htext
  have hplace : before.placeAfter r = (.data, before.dataBytes.length) := by
    simp [placeAfter, hhead, hops]
  have hmem : (⟨name, .data, before.dataBytes.length, r.pos⟩ : Address) ∈ p.labels := by
    have hlabels : p.labels =
        labelsFrom [] before ++ (labelAfter before r ++ labelsFrom (before ++ [r]) after) := by
      rw [hsplit]
      exact labelsFrom_append [] before (r :: after)
    rw [hlabels]
    apply List.mem_append_right
    apply List.mem_append_left
    simp [labelAfter, hlabel, hplace]
  have hoffset := offsetOf?_of_mem hreal.nodup hmem
  rw [offsetOf?_eq_lookup? hreal.labels] at hoffset
  exact Option.map_eq_some_iff.mp hoffset

/-- What is read at the label of a text is the text, up to its first zero byte. -/
theorem stringAt?_of_text {r : Record} (hr : r ∈ p) {name text : Bytes} (hlabel : r.label = some name)
    (htext : r.labelledText? = some text) :
    ∃ s, table.lookup? name = some s ∧
      Image.stringAt? img.data s.offset.toNat = some (Image.untilZero text) := by
  obtain ⟨before, after, hsplit⟩ := List.append_of_mem hr
  obtain ⟨s, hs, hoffset⟩ := hreal.lookup?_of_text hsplit hlabel htext
  -- the text and its zero byte stand between the data before and behind
  have hdata : img.data = dataBytes before ++ (text ++ 0 :: dataBytes after) := by
    rw [hreal.data, hsplit, dataBytes_append]
    show dataBytes before ++ (r.dataBytes ++ dataBytes after) = _
    rw [Record.dataBytes_of_text htext, List.append_assoc]
    rfl
  refine ⟨s, hs, ?_⟩
  rw [hoffset, hdata, Image.stringAt?_append, Image.untilZero_append_zero]

/-- **The strings in the data of some records are their texts**, if no text has a zero byte in it. -/
theorem stringsFrom_dataBytes {rest : Program} :
    ∀ before : Program, p = before ++ rest →
      (∀ r ∈ rest, ∀ text, r.labelledText? = some text → 0 ∉ text) →
      Image.stringsFrom before.dataBytes.length rest.dataBytes =
        rest.filterMap (Record.stringIn? table) := by
  -- The records before are generalised: an offset counts their data.
  induction rest with
  | nil =>
      intro before _ _
      exact Image.stringsFrom_nil _
  | cons r rest ih =>
      intro before hsplit hclean
      have hnext := ih (before ++ [r]) (by rw [hsplit, List.append_assoc]; rfl)
        fun t ht => hclean t (List.mem_cons_of_mem r ht)
      have hbefore : (before ++ [r]).dataBytes.length =
          before.dataBytes.length + r.dataBytes.length := by
        rw [dataBytes_append, List.length_append]
        simp [dataBytes]
      rw [hbefore] at hnext
      show Image.stringsFrom _ (r.dataBytes ++ dataBytes rest) = _
      cases htext : r.labelledText? with
      | none =>
          have hdata : r.dataBytes = [] := by simp only [Record.dataBytes, htext]
          rw [hdata] at hnext ⊢
          rw [List.filterMap_cons_none (by simp [Record.stringIn?, htext])]
          exact hnext
      | some text =>
          obtain ⟨⟨name, hlabel⟩, -, -⟩ := Record.labelledText?_eq_some htext
          obtain ⟨s, hs, hoffset⟩ := hreal.lookup?_of_text hsplit hlabel htext
          have hpair : r.stringIn? table = some (before.dataBytes.length, text) := by
            simp [Record.stringIn?, htext, hlabel, hs, hoffset]
          rw [Record.dataBytes_of_text htext, List.length_append] at hnext
          rw [List.filterMap_cons_some hpair, Record.dataBytes_of_text htext, List.append_assoc,
            ← hnext]
          exact Image.stringsFrom_more (hclean r List.mem_cons_self text htext) _ _

end Program.Realises

/-! ## §3. All programs. -/

/-- A labelled text is never left out of the layout. -/
theorem Record.isStatement_of_text {r : Record} {text : Bytes} (h : r.labelledText? = some text) :
    r.isStatement = true := by
  simp [isStatement, isDirective, (labelledText?_eq_some h).2.1]

theorem Program.filterMap_stringIn?_statements (table : SymbolTable) (p : Program) :
    (p.filter Record.isStatement).filterMap (Record.stringIn? table) =
      p.filterMap (Record.stringIn? table) := by
  rw [List.filterMap_filter]
  refine List.filterMap_congr ?_
  intro r _
  cases htext : r.labelledText? with
  | none => simp [Record.stringIn?, htext]
  | some text => rw [if_pos (Record.isStatement_of_text htext)]

/-- **Strings survive assembly and listing.**  What is read at the label of a text is the text up to its
first zero byte, and if no text has one, a listing visits the texts at the offsets of their labels, in
source order.  Over any data whatsoever a listing comes to an end; with a zero byte after each, the
strings that it has visited are the data again, but for a last zero byte that was missing. -/
theorem strings_survive (p : Program) :
    (∀ img, p.assemble.result = .ok img → ∃ table, p.assemble.symbols = some table ∧
      (∀ r ∈ p, ∀ name text, r.label = some name → r.labelledText? = some text →
        ∃ s, table.lookup? name = some s ∧
          Image.stringAt? img.data s.offset.toNat = some (text.takeWhile (· ≠ 0))) ∧
      ((∀ r ∈ p, ∀ text, r.labelledText? = some text → 0 ∉ text) →
        img.strings = p.filterMap (Record.stringIn? table))) ∧
    ∀ img : Image,
      (∀ visited, Image.Visits img.data 0 visited ↔ visited = img.strings) ∧
      Image.terminated img.strings =
        (if img.data = [] ∨ img.data.getLast? = some 0 then img.data else img.data ++ [0]) ∧
      ∀ before pos s after, img.strings = before ++ (pos, s) :: after →
        pos = (Image.terminated before).length := by
  constructor
  · intro img h
    -- only the records that are laid out matter
    rw [← p.assemble_statements] at h ⊢
    have hp : ∀ r ∈ p.filter Record.isStatement, r.isOperation ∨ r.isDirective := by
      intro r hr
      exact Record.isStatement_iff.mp (List.mem_filter.mp hr).2
    obtain ⟨table, hreal⟩ := Program.realises_of_assemble hp h
    refine ⟨table, hreal.symbols, ?_, ?_⟩
    · intro r hr name text hlabel htext
      have hmem : r ∈ p.filter Record.isStatement :=
        List.mem_filter.mpr ⟨hr, Record.isStatement_of_text htext⟩
      exact hreal.stringAt?_of_text hmem hlabel htext
    · intro hclean
      rw [← p.filterMap_stringIn?_statements]
      unfold Image.strings
      rw [hreal.data]
      exact hreal.stringsFrom_dataBytes [] rfl fun r hr => hclean r (List.mem_filter.mp hr).1
  · intro img
    refine ⟨img.visits_iff, Image.terminated_stringsFrom img.data 0, ?_⟩
    intro before pos s after h
    rw [Image.position_of_stringsFrom img.data 0 before after pos s h, Nat.zero_add]

/-- An empty text between two others, a text without a label, a label on a section header, and a
record that is not laid out. -/
def stringsSample : Program :=
  [{ head := .directive (ascii "data") },
    { label := some (ascii "a"), head := .directive (ascii "asciiz"),
      operands := [.string (ascii "xy")] },
    { label := some (ascii "b"), head := .directive (ascii "asciiz"), operands := [.string []] },
    { head := .directive (ascii "asciiz"), operands := [.string (ascii "lost")] },
    { label := some (ascii "other"), head := .register 3 },
    { label := some (ascii "c"), head := .directive (ascii "asciiz"),
      operands := [.string (ascii "z")] },
    { label := some (ascii "end"), head := .directive (ascii "code") },
    { head := .op 1, operands := [.register 9, .reference (ascii "c")] }]

theorem strings_survive_sample :
    stringsSample.assemble.result = .ok ⟨[120, 121, 0, 0, 122, 0], [1, 9, 4, 0]⟩ ∧
    (∀ r ∈ stringsSample, ∀ text, r.labelledText? = some text → 0 ∉ text) ∧
    ∃ table, stringsSample.assemble.symbols = some table ∧
      (∃ s, table.lookup? (ascii "c") = some s ∧
        Image.stringAt? [120, 121, 0, 0, 122, 0] s.offset.toNat = some [122]) ∧
      Image.strings ⟨[120, 121, 0, 0, 122, 0], [1, 9, 4, 0]⟩ =
        stringsSample.filterMap (Record.stringIn? table) := by
  have himg : stringsSample.assemble.result = .ok ⟨[120, 121, 0, 0, 122, 0], [1, 9, 4, 0]⟩ := rfl
  have hclean : ∀ r ∈ stringsSample, ∀ text, r.labelledText? = some text → 0 ∉ text := by
    have hall : ∀ r ∈ stringsSample, 0 ∉ r.labelledText?.getD [] := by decide
    intro r hr text htext
    have hr0 := hall r hr
    rw [htext] at hr0
    exact hr0
  obtain ⟨table, hsymbols, hread, hlisted⟩ := (strings_survive stringsSample).1 _ himg
  refine ⟨himg, hclean, table, hsymbols, ?_, hlisted hclean⟩
  exact hread
    { label := some (ascii "c"), head := .directive (ascii "asciiz"),
      operands := [.string (ascii "z")] } (by decide) (ascii "c") (ascii "z") rfl rfl

end Quartet
