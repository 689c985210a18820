/-
  Quartet.Proofs.Assembly.Acceptance
  ──────────────────────────────────
  **EXACTLY THE ACCEPTABLE PROGRAMS ARE ASSEMBLED.**

  `Program.Acceptable` says which programs can be assembled, in terms of their records and of the
  addresses counted over them.  Neither pass occurs in it.

    • `Layout.errors_add_eq_nil_iff` — when the first pass has nothing against one more record,
    • `Layout.errors_ofProgram_eq_nil_iff` — hence against a whole program: no error hides another,
      because the pass never takes an error back,
    • `encodingErrors_eq_nil_iff` — when the second pass finds no error,
    • `assemble_ok_iff_acceptable` — an image is made of the acceptable programs, and every other one is
      refused with at least one error.
-/
import Quartet.Proofs.Assembly.Addresses

namespace Quartet

/-! ## §1. Acceptable programs. -/

/-- The bytes that an operand takes in a slot. -/
def Token.width : Token → Nat
  | .register _ | .reference _ => 1
  | .immediate _ => 2
  | _ => 0

/-- The bytes that operands take together. -/
def Token.widths : List Token → Nat
  | [] => 0
  | t :: ts => t.width + widths ts

/-- A directive with operands is a text directive, and its operand is one text. -/
def Record.Directed (r : Record) : Prop :=
  r.isDirective → r.operands ≠ [] →
    r.head = .directive (ascii "asciiz") ∧ ∃ text, r.operands = [.string text]

namespace Program

/-- What can be an operand of an instruction: a register of the machine, a number, or a reference to a
label that is declared somewhere in the program. -/
def HasOperand (p : Program) : Token → Prop
  | .register index => index.toNat < registerCount
  | .immediate _ => True
  | .reference name => name ∈ p.filterMap Record.label
  | _ => False

/-- The operands of an instruction can be encoded, and they fit into its slot. -/
def Encodes (p : Program) (r : Record) : Prop :=
  (∀ t ∈ r.operands, p.HasOperand t) ∧ Token.widths r.operands ≤ 3

/-- What the layout of a program asks for. -/
structure Arranged (p : Program) : Prop where
  /-- Directives with operands are texts. -/
  directives : ∀ r ∈ p, r.Directed
  /-- A label comes after a section has been opened. -/
  sections : ∀ (i : Nat) (r : Record), p[i]? = some r → r.label ≠ none →
    ∃ s ∈ p.take i, s.opened? ≠ none
  /-- No label is declared twice. -/
  distinct : (p.filterMap Record.label).Nodup
  /-- The labelled texts, with a zero byte after each, fit into the data. -/
  dataSize : p.dataBytes.length ≤ 256
  /-- The offset of every label is one byte. -/
  offsets : ∀ a ∈ p.labels, a.offset ≤ 255

/-- **The programs that can be assembled.** -/
structure Acceptable (p : Program) : Prop extends p.Arranged where
  /-- Every instruction has operands that can be encoded, and they fit into its slot. -/
  operands : ∀ r ∈ p.instructions, p.Encodes r

end Program

/-! ## §2. One record in the first pass. -/

namespace Layout

/-- The label of a record, if it has one, can be declared at an offset. -/
def Declares (l : Layout) (r : Record) (offset : Nat) : Prop :=
  ∀ name, r.label = some name →
    (l.current ≠ none ∧ l.symbols.lookup? name = none) ∧ offset ≤ maxOffset

/-- The first pass has nothing against a record. -/
structure Accepts (l : Layout) (r : Record) : Prop where
  /-- A directive with operands is a text. -/
  directed : r.Directed
  /-- Its label can be declared. -/
  declares : l.Declares r (l.place r).2
  /-- Its text fits into the data. -/
  room : r.dataBytes ≠ [] → l.data.length + r.dataBytes.length ≤ Image.maxDataSize

theorem errors_refuse_eq_nil_iff {l : Layout} {r : Record} {d : Defect} :
    (l.refuse r d).errors = [] ↔ False :=
  ⟨errors_refuse_ne_nil l r d, False.elim⟩

theorem labelDefect?_eq_none_iff {l : Layout} {name : Bytes} :
    l.labelDefect? name = none ↔ l.current ≠ none ∧ l.symbols.lookup? name = none := by
  rw [labelDefect?_eq]
  by_cases hcurrent : l.current = none
  · simp [hcurrent]
  · simp [hcurrent]

theorem errors_bind_eq_nil_iff {l : Layout} {r : Record} {name : Bytes} {space : Section}
    {offset : Nat} :
    (l.bind r name space offset).errors = [] ↔ l.errors = [] ∧ offset ≤ maxOffset := by
  rw [bind_eq]
  by_cases hfar : maxOffset < offset
  · rw [if_pos hfar, errors_refuse_eq_nil_iff]
    exact ⟨False.elim, fun h => absurd h.2 (Nat.not_le_of_lt hfar)⟩
  · rw [if_neg hfar]
    exact ⟨fun h => ⟨h, Nat.le_of_not_lt hfar⟩, fun h => h.1⟩

theorem errors_bindLabel_eq_nil_iff {l : Layout} {r : Record} {space : Section} {offset : Nat} :
    (l.bindLabel r space offset).errors = [] ↔ l.errors = [] ∧ l.Declares r offset := by
  rw [bindLabel_eq]
  unfold Declares
  cases hlabel : r.label with
  | none => simp
  | some name =>
      simp only [Option.some.injEq, forall_eq']
      cases hdefect : l.labelDefect? name with
      | some d =>
          have hno : ¬(l.current ≠ none ∧ l.symbols.lookup? name = none) := by
            rw [← labelDefect?_eq_none_iff, hdefect]
            simp
          simp only [errors_refuse_eq_nil_iff, hno, false_and, and_false]
      | none =>
          simp only [errors_bind_eq_nil_iff, labelDefect?_eq_none_iff.mp hdefect, ne_eq,
            not_false_eq_true, true_and]

/-- A record that adds no data is accepted if its label can be declared. -/
theorem accepts_iff_declares {l : Layout} {r : Record} (hdirected : r.Directed)
    (htext : r.dataBytes = []) : l.Accepts r ↔ l.Declares r (l.place r).2 :=
  ⟨fun h => h.declares, fun h => ⟨hdirected, h, fun hne => absurd htext hne⟩⟩

theorem errors_addOperation_eq_nil_iff {l : Layout} {r : Record} {byte : UInt8}
    (hhead : r.head = .op byte) :
    (l.addOperation r).errors = [] ↔ l.errors = [] ∧ l.Accepts r := by
  have hplace : l.place r = (.code, l.codeSize) := by simp [place, hhead]
  have hdirected : r.Directed := by
    intro hdir
    exact absurd hdir (by simp [Record.isDirective, hhead])
  have htext : r.dataBytes = [] := by simp [Record.dataBytes, Record.labelledText?, hhead]
  show (l.bindLabel r .code l.codeSize).errors = [] ↔ _
  rw [errors_bindLabel_eq_nil_iff, accepts_iff_declares hdirected htext, hplace]

theorem errors_addSection_eq_nil_iff {l : Layout} {r : Record} {name : Bytes}
    (hhead : r.head = .directive name) (hops : r.operands = []) :
    (l.addSection r name).errors = [] ↔ l.errors = [] ∧ l.Accepts r := by
  have hdirected : r.Directed := fun _ hne => absurd hops hne
  have htext : r.dataBytes = [] := by
    simp only [Record.dataBytes, Record.labelledText?, hhead, hops]
    cases r.label <;> rfl
  -- a section that is not known is warned about, which is no error
  have herrors : (l.addSection r name).errors =
      (l.bindLabel r (l.place r).1 (l.place r).2).errors := by
    rw [addSection_of_directive l hhead hops]
    cases Section.ofName? name <;> rfl
  rw [herrors, errors_bindLabel_eq_nil_iff, accepts_iff_declares hdirected htext]

theorem errors_addText_eq_nil_iff {l : Layout} {r : Record} {name text : Bytes}
    (hhead : r.head = .directive (ascii "asciiz")) (hops : r.operands = [.string text])
    (hlabel : r.label = some name) :
    (l.addText r name text).errors = [] ↔ l.errors = [] ∧ l.Accepts r := by
  have hplace : l.place r = (.data, l.data.length) := by simp [place, hhead, hops]
  have htext : r.dataBytes = text ++ [0] := by
    simp [Record.dataBytes, Record.labelledText?, hhead, hops, hlabel]
  have hlength : r.dataBytes.length = text.length + 1 := by simp [htext]
  rw [addText_eq]
  cases hdefect : l.labelDefect? name with
  | some d =>
      -- the label cannot be declared, whatever the text
      simp only [errors_refuse_eq_nil_iff]
      refine ⟨False.elim, ?_⟩
      rintro ⟨-, haccepts⟩
      have hnone := labelDefect?_eq_none_iff.mpr (haccepts.declares name hlabel).1
      exact absurd (hdefect.symm.trans hnone) (by simp)
  | none =>
      have hdeclared := labelDefect?_eq_none_iff.mp hdefect
      simp only
      by_cases hfull : Image.maxDataSize < l.data.length + text.length + 1
      · -- the text does not fit
        rw [if_pos hfull, errors_refuse_eq_nil_iff]
        refine ⟨False.elim, ?_⟩
        rintro ⟨-, haccepts⟩
        have hroom := haccepts.room (by simp [htext])
        omega
      · rw [if_neg hfull]
        show (l.bind r name .data l.data.length).errors = [] ↔ _
        rw [errors_bind_eq_nil_iff]
        constructor
        · rintro ⟨herrors, hle⟩
          refine ⟨herrors, fun _ _ => ⟨hhead, text, hops⟩, ?_, fun _ => by omega⟩
          intro other hother
          rw [hlabel, Option.some.injEq] at hother
          rw [hplace, ← hother]
          exact ⟨hdeclared, hle⟩
        · rintro ⟨herrors, haccepts⟩
          have hle := (haccepts.declares name hlabel).2
          rw [hplace] at hle
          exact ⟨herrors, hle⟩

theorem errors_addString_eq_nil_iff {l : Layout} {r : Record}
    (hhead : r.head = .directive (ascii "asciiz")) (hne : r.operands ≠ []) :
    (l.addString r).errors = [] ↔ l.errors = [] ∧ l.Accepts r := by
  rw [addString_eq]
  split
  · next text hops =>
    cases hlabel : r.label with
    | some name => exact errors_addText_eq_nil_iff hhead hops hlabel
    | none =>
        -- an unlabelled text is only warned about
        have haccepts : l.Accepts r := by
          refine ⟨fun _ _ => ⟨hhead, text, hops⟩, ?_, ?_⟩
          · intro name hname
            exact absurd (hlabel.symm.trans hname) (by simp)
          · intro htext
            exact absurd (by simp [Record.dataBytes, Record.labelledText?, hlabel]) htext
        exact ⟨fun h => ⟨h, haccepts⟩, fun h => h.1⟩
  · next hops =>
    rw [errors_refuse_eq_nil_iff]
    refine ⟨False.elim, ?_⟩
    rintro ⟨-, haccepts⟩
    obtain ⟨-, text, htext⟩ := haccepts.directed (by simp [Record.isDirective, hhead]) hne
    exact hops text htext

/-- **One record.**  There is no error after a record exactly if there was none before and the first
pass has nothing against the record. -/
theorem errors_add_eq_nil_iff {l : Layout} {r : Record} (hr : r.isOperation ∨ r.isDirective) :
    (l.add r).errors = [] ↔ l.errors = [] ∧ l.Accepts r := by
  cases hhead : r.head with
  | op byte =>
      simp only [add_eq, hhead]
      exact errors_addOperation_eq_nil_iff hhead
  | directive name =>
      simp only [add_eq, hhead]
      rw [addDirective_eq]
      by_cases hops : r.operands = []
      · rw [if_pos hops]
        exact errors_addSection_eq_nil_iff hhead hops
      · rw [if_neg hops]
        by_cases hname : name = ascii "asciiz"
        · rw [if_pos hname]
          exact errors_addString_eq_nil_iff (hname ▸ hhead) hops
        · rw [if_neg hname, errors_refuse_eq_nil_iff]
          refine ⟨False.elim, ?_⟩
          rintro ⟨-, haccepts⟩
          obtain ⟨hasciiz, -⟩ := haccepts.directed (by simp [Record.isDirective, hhead]) hops
          rw [hhead] at hasciiz
          exact hname (Token.directive.inj hasciiz)
  | register _ | immediate _ | label _ | reference _ | string _ =>
      exact absurd hr (by simp [Record.isOperation, Record.isDirective, hhead])

end Layout

/-! ## §3. A whole program in the first pass. -/

namespace Program

theorem map_name_labelsFrom (p : Program) :
    ∀ before : Program, (labelsFrom before p).map Address.name = p.filterMap Record.label := by
  induction p with
  | nil => intro before; rfl
  | cons r p ih =>
      intro before
      show (labelAfter before r ++ labelsFrom (before ++ [r]) p).map Address.name = _
      rw [List.map_append, ih]
      unfold labelAfter
      cases hlabel : r.label with
      | none => rw [List.filterMap_cons_none hlabel]; rfl
      | some name => rw [List.filterMap_cons_some hlabel]; rfl

theorem map_name_labels (p : Program) : p.labels.map Address.name = p.filterMap Record.label :=
  map_name_labelsFrom p []

theorem openSection_ne_none_iff {p : Program} :
    p.openSection ≠ none ↔ ∃ s ∈ p, s.opened? ≠ none := by
  unfold openSection
  rw [ne_eq, List.getLast?_eq_none_iff, List.filterMap_eq_nil_iff]
  simp

/-- A record can be added to a program that is arranged. -/
structure Takes (p : Program) (r : Record) : Prop where
  /-- A directive with operands is a text. -/
  directed : r.Directed
  /-- A section was opened before its label. -/
  opened : r.label ≠ none → ∃ s ∈ p, s.opened? ≠ none
  /-- Its label is new. -/
  fresh : ∀ name, r.label = some name → name ∉ p.filterMap Record.label
  /-- The offset of its label is one byte. -/
  offset_le : ∀ name, r.label = some name → (p.placeAfter r).2 ≤ 255
  /-- Its text fits into the data. -/
  room : p.dataBytes.length + r.dataBytes.length ≤ 256

theorem sections_append_singleton_iff {p : Program} {r : Record} :
    (∀ (i : Nat) (s : Record), (p ++ [r])[i]? = some s → s.label ≠ none →
        ∃ t ∈ (p ++ [r]).take i, t.opened? ≠ none) ↔
      (∀ (i : Nat) (s : Record), p[i]? = some s → s.label ≠ none →
        ∃ t ∈ p.take i, t.opened? ≠ none) ∧
      (r.label ≠ none → ∃ t ∈ p, t.opened? ≠ none) := by
  constructor
  · intro h
    refine ⟨?_, ?_⟩
    · intro i s hs hlabel
      have hi : i < p.length := (List.getElem?_eq_some_iff.mp hs).1
      have hopened := h i s (by rw [List.getElem?_append_left hi]; exact hs) hlabel
      rwa [List.take_append_of_le_length (Nat.le_of_lt hi)] at hopened
    · intro hlabel
      have hopened := h p.length r (by simp) hlabel
      rwa [List.take_left] at hopened
  · rintro ⟨hp, hr⟩ i s hs hlabel
    -- the record stands in the program before, or is the new one
    by_cases hi : i < p.length
    · rw [List.getElem?_append_left hi] at hs
      rw [List.take_append_of_le_length (Nat.le_of_lt hi)]
      exact hp i s hs hlabel
    · rw [List.getElem?_append_right (by omega)] at hs
      obtain ⟨hlast, rfl⟩ := List.getElem?_eq_some_iff.mp hs
      have hzero : i = p.length := by
        simp only [List.length_singleton] at hlast
        omega
      subst hzero
      rw [List.take_left]
      exact hr (by simpa using hlabel)

theorem distinct_append_singleton_iff {p : Program} {r : Record} :
    ((p ++ [r]).filterMap Record.label).Nodup ↔
      (p.filterMap Record.label).Nodup ∧
      ∀ name, r.label = some name → name ∉ p.filterMap Record.label := by
  rw [List.filterMap_append]
  cases hlabel : r.label with
  | none => simp [hlabel]
  | some name =>
      rw [List.filterMap_cons_some hlabel, List.nodup_append]
      constructor
      · rintro ⟨hp, -, hdisjoint⟩
        refine ⟨hp, ?_⟩
        intro other hother hmem
        exact hdisjoint other hmem name List.mem_cons_self (Option.some.inj hother).symm
      · rintro ⟨hp, hfresh⟩
        refine ⟨hp, by simp, ?_⟩
        intro old hold new hnew heq
        have hname : new = name := by simpa using hnew
        exact hfresh name rfl (by rw [← hname, ← heq]; exact hold)

theorem offsets_append_singleton_iff {p : Program} {r : Record} :
    (∀ a ∈ labels (p ++ [r]), a.offset ≤ 255) ↔
      (∀ a ∈ p.labels, a.offset ≤ 255) ∧
      ∀ name, r.label = some name → (p.placeAfter r).2 ≤ 255 := by
  rw [labels_append_singleton, List.forall_mem_append]
  unfold labelAfter
  cases r.label <;> simp

/-- **A program is arranged record by record.** -/
theorem arranged_append_singleton_iff {p : Program} {r : Record} :
    Arranged (p ++ [r]) ↔ p.Arranged ∧ p.Takes r := by
  have hdata : (dataBytes (p ++ [r])).length = p.dataBytes.length + r.dataBytes.length := by
    rw [dataBytes_append, List.length_append]
    simp [dataBytes]
  constructor
  · intro h
    obtain ⟨hdirected, hdirected'⟩ := List.forall_mem_append.mp h.directives
    obtain ⟨hsections, hopened⟩ := sections_append_singleton_iff.mp h.sections
    obtain ⟨hdistinct, hfresh⟩ := distinct_append_singleton_iff.mp h.distinct
    obtain ⟨hoffsets, hoffset⟩ := offsets_append_singleton_iff.mp h.offsets
    have hsize := h.dataSize
    rw [hdata] at hsize
    refine ⟨⟨hdirected, hsections, hdistinct, ?_, hoffsets⟩,
      ⟨hdirected' r List.mem_cons_self, hopened, hfresh, hoffset, hsize⟩⟩
    omega
  · rintro ⟨h, hr⟩
    refine ⟨?_, sections_append_singleton_iff.mpr ⟨h.sections, hr.opened⟩,
      distinct_append_singleton_iff.mpr ⟨h.distinct, hr.fresh⟩, ?_,
      offsets_append_singleton_iff.mpr ⟨h.offsets, hr.offset_le⟩⟩
    · exact List.forall_mem_append.mpr ⟨h.directives, List.forall_mem_singleton.mpr hr.directed⟩
    · rw [hdata]
      exact hr.room

end Program

namespace Layout

/-- What the first pass has against a record is what the counts have against it. -/
theorem accepts_iff_takes {l : Layout} {p : Program} {r : Record} (h : l.Agrees p)
    (hp : p.Arranged) : l.Accepts r ↔ p.Takes r := by
  have hopen : l.current ≠ none ↔ ∃ s ∈ p, s.opened? ≠ none := by
    rw [h.current, Program.openSection_ne_none_iff]
  have hnew : ∀ name, l.symbols.lookup? name = none ↔ name ∉ p.filterMap Record.label := by
    intro name
    rw [← Program.map_name_labels, ← h.symbols, List.map_map]
    unfold SymbolTable.lookup?
    rw [List.find?_eq_none]
    simp [Symbol.address]
  have hsize := hp.dataSize
  constructor
  · intro hl
    have hdeclares := hl.declares
    unfold Declares at hdeclares
    rw [place_eq_placeAfter h] at hdeclares
    refine ⟨hl.directed, ?_, ?_, fun name hname => (hdeclares name hname).2, ?_⟩
    · intro hlabel
      obtain ⟨name, hname⟩ := Option.ne_none_iff_exists'.mp hlabel
      exact hopen.mp (hdeclares name hname).1.1
    · intro name hname
      exact (hnew name).mp (hdeclares name hname).1.2
    · -- a record without text cannot make the data too long
      by_cases htext : r.dataBytes = []
      · rw [htext]
        exact hsize
      · rw [← h.data]
        exact hl.room htext
  · intro hr
    refine ⟨hr.directed, ?_, ?_⟩
    · intro name hname
      rw [place_eq_placeAfter h]
      refine ⟨⟨hopen.mpr (hr.opened (by simp [hname])), (hnew name).mpr (hr.fresh name hname)⟩, ?_⟩
      exact hr.offset_le name hname
    · intro _
      rw [h.data]
      exact hr.room

/-- **The first pass finds no error exactly in the programs that are arranged.** -/
theorem errors_ofProgram_eq_nil_iff (p : Program) (hp : ∀ r ∈ p, r.isOperation ∨ r.isDirective) :
    (ofProgram p).errors = [] ↔ p.Arranged := by
  induction p using List.reverseRecOn with
  | nil =>
      refine ⟨fun _ => ⟨by simp, by simp, List.nodup_nil, by decide, ?_⟩, fun _ => rfl⟩
      intro a ha
      exact absurd ha List.not_mem_nil
  | append_singleton p r ih =>
      have hp' : ∀ s ∈ p, s.isOperation ∨ s.isDirective := fun s hs => hp s (by simp [hs])
      have hadd : ofProgram (p ++ [r]) = (ofProgram p).add r := ofProgram_append p [r]
      rw [hadd, errors_add_eq_nil_iff (hp r (by simp)), Program.arranged_append_singleton_iff,
          ih hp']
      -- only a program without errors so far is laid out as it is counted
      refine and_congr_right ?_
      intro harranged
      exact accepts_iff_takes (agrees_ofProgram p hp' ((ih hp').mpr harranged)) harranged

end Layout

/-! ## §4. The second pass. -/

theorem length_operandBytes {table : SymbolTable} {op : UInt8} {t : Token} {bs : Bytes}
    (h : operandBytes table op t = .ok bs) : bs.length = t.width := by
  cases t with
  | register index =>
      simp only [operandBytes] at h
      split at h
      · exact absurd h (by simp)
      · rw [← Except.ok.inj h]; rfl
  | immediate value => rw [← Except.ok.inj h]; rfl
  | reference name =>
      simp only [operandBytes] at h
      split at h
      · rw [← Except.ok.inj h]; rfl
      · exact absurd h (by simp)
  | op byte => exact absurd h (by simp [operandBytes])
  | label name => exact absurd h (by simp [operandBytes])
  | directive name => exact absurd h (by simp [operandBytes])
  | string text => exact absurd h (by simp [operandBytes])

section SecondPass

variable {p : Program} {table : SymbolTable} (hlabels : table.symbols.map Symbol.address = p.labels)
include hlabels

theorem lookup?_isSome_iff {name : Bytes} :
    (table.lookup? name).isSome ↔ name ∈ p.filterMap Record.label := by
  rw [← Program.map_name_labels, ← hlabels, List.map_map]
  unfold SymbolTable.lookup?
  rw [List.find?_isSome, List.mem_map]
  simp [Symbol.address]

theorem operandBytes_ok_iff (op : UInt8) {t : Token} :
    (∃ bs, operandBytes table op t = .ok bs) ↔ p.HasOperand t := by
  cases t with
  | register index =>
      simp only [operandBytes, Program.HasOperand]
      by_cases hlt : registerCount ≤ index.toNat
      · rw [if_pos hlt]
        exact iff_of_false (by simp) (Nat.not_lt_of_le hlt)
      · rw [if_neg hlt]
        exact iff_of_true ⟨_, rfl⟩ (Nat.lt_of_not_le hlt)
  | immediate value => exact iff_of_true ⟨_, rfl⟩ trivial
  | reference name =>
      show _ ↔ name ∈ p.filterMap Record.label
      rw [← lookup?_isSome_iff hlabels]
      simp only [operandBytes]
      cases table.lookup? name with
      | none => exact iff_of_false (by simp) (by simp)
      | some s => exact iff_of_true ⟨_, rfl⟩ rfl
  | op _ | label _ | directive _ | string _ => exact iff_of_false (by simp [operandBytes]) id

/-- Operands can be encoded after bytes that are placed already exactly if each can be and all have
room. -/
theorem operandsBytes_ok_iff (op : UInt8) {ts : List Token} {placed : Bytes}
    (hplaced : placed.length ≤ 3) :
    (∃ bs, operandsBytes table op placed ts = .ok bs) ↔
      (∀ t ∈ ts, p.HasOperand t) ∧ placed.length + Token.widths ts ≤ 3 := by
  induction ts generalizing placed with
  | nil => simpa [operandsBytes, Token.widths] using hplaced
  | cons t ts ih =>
      rw [List.forall_mem_cons, ← operandBytes_ok_iff hlabels op]
      show _ ↔ _ ∧ placed.length + (t.width + Token.widths ts) ≤ 3
      unfold operandsBytes
      cases ht : operandBytes table op t with
      | error d =>
          -- what cannot be encoded ends the encoding, whatever comes after it
          refine iff_of_false (by simp) ?_
          rintro ⟨⟨⟨bs, h⟩, -⟩, -⟩
          exact absurd h (by simp)
      | ok bs =>
          have hlength := length_operandBytes ht
          simp only
          by_cases hroom : operandRoom < placed.length + bs.length
          · rw [if_pos hroom]
            have hroom' : 3 < placed.length + bs.length := hroom
            refine iff_of_false (by simp) ?_
            rintro ⟨-, hsum⟩
            omega
          · rw [if_neg hroom]
            have hroom' : ¬3 < placed.length + bs.length := hroom
            rw [ih (by rw [List.length_append]; omega), List.length_append, hlength,
                Nat.add_assoc]
            simp

/-- **The second pass finds no error exactly if all instructions have operands that can be encoded
and fit.** -/
theorem encodingErrors_eq_nil_iff :
    p.encodingErrors table = [] ↔ ∀ r ∈ p.instructions, p.Encodes r := by
  have hnothing : ([] : Bytes).length ≤ 3 := by decide
  constructor
  · intro h r hr
    obtain ⟨hmem, hop⟩ := List.mem_filter.mp hr
    obtain ⟨byte, bs, -, hbytes, -⟩ :=
      Record.encode?_eq_ok hop (fun d => Program.encode?_ne_error h hmem d)
    have hok := (operandsBytes_ok_iff hlabels byte hnothing).mp ⟨bs, hbytes⟩
    simpa [Program.Encodes] using hok
  · intro h
    unfold Program.encodingErrors Program.slots
    rw [List.filterMap_filterMap, List.filterMap_eq_nil_iff]
    intro r hr
    -- an instruction gives its slot, and no other record gives anything
    cases hhead : r.head with
    | op byte =>
        have hinstr : r ∈ p.instructions :=
          List.mem_filter.mpr ⟨hr, by simp [Record.isOperation, hhead]⟩
        obtain ⟨bs, hbytes⟩ := (operandsBytes_ok_iff hlabels byte hnothing).mpr
          (by simpa [Program.Encodes] using h r hinstr)
        simp [Record.encode?, hhead, hbytes]
    | _ => simp [Record.encode?, hhead]

end SecondPass

/-! ## §5. Both passes. -/

/-- What assembling gives: the errors of the first pass that finds one, else an image. -/
theorem Program.assemble_result (p : Program) :
    p.assemble.result =
      if (Layout.ofProgram p).errors ≠ [] then .error (Layout.ofProgram p).errors
      else if p.encodingErrors (Layout.ofProgram p).symbols ≠ [] then
        .error (p.encodingErrors (Layout.ofProgram p).symbols)
      else .ok ⟨(Layout.ofProgram p).data, p.code (Layout.ofProgram p).symbols⟩ := by
  unfold Program.assemble
  simp only
  split
  · rfl
  · split <;> rfl

/-- **A program is acceptable exactly if neither pass finds an error.** -/
theorem Program.acceptable_iff {p : Program} (hp : ∀ r ∈ p, r.isOperation ∨ r.isDirective) :
    p.Acceptable ↔
      (Layout.ofProgram p).errors = [] ∧ p.encodingErrors (Layout.ofProgram p).symbols = [] := by
  have hfirst := Layout.errors_ofProgram_eq_nil_iff p hp
  -- the table of the first pass holds the labels that were counted, if there was no error
  have hsecond : (Layout.ofProgram p).errors = [] → _ := fun herrors =>
    encodingErrors_eq_nil_iff (Layout.agrees_ofProgram p hp herrors).symbols
  constructor
  · intro h
    have herrors := hfirst.mpr h.toArranged
    exact ⟨herrors, (hsecond herrors).mpr h.operands⟩
  · rintro ⟨herrors, hencoding⟩
    exact ⟨hfirst.mp herrors, (hsecond herrors).mp hencoding⟩

/-- **Exactly the acceptable programs are assembled**; any other is refused with at least one
error. -/
theorem assemble_ok_iff_acceptable (p : Program) (hp : ∀ r ∈ p, r.isOperation ∨ r.isDirective) :
    ((∃ img, p.assemble.result = .ok img) ↔ p.Acceptable) ∧
    (¬p.Acceptable → ∃ errors, p.assemble.result = .error errors ∧ errors ≠ []) := by
  rw [Program.acceptable_iff hp, Program.assemble_result]
  by_cases herrors : (Layout.ofProgram p).errors = []
  · rw [if_neg (not_not_intro herrors)]
    by_cases hencoding : p.encodingErrors (Layout.ofProgram p).symbols = []
    · rw [if_neg (not_not_intro hencoding)]
      exact ⟨iff_of_true ⟨_, rfl⟩ ⟨herrors, hencoding⟩, fun h => absurd ⟨herrors, hencoding⟩ h⟩
    · rw [if_pos hencoding]
      exact ⟨iff_of_false (by simp) (fun h => hencoding h.2), fun _ => ⟨_, rfl, hencoding⟩⟩
  · rw [if_pos herrors]
    exact ⟨iff_of_false (by simp) (fun h => herrors h.1), fun _ => ⟨_, rfl, herrors⟩⟩

/-- Data of exactly 256 bytes with a label at offset 255, and an instruction that refers to it. -/
def acceptanceSample : Program :=
  [{ head := .directive (ascii "data") },
    { label := some (ascii "a"), head := .directive (ascii "asciiz"),
      operands := [.string (List.replicate 254 0x78)] },
    { label := some (ascii "b"), head := .directive (ascii "asciiz"), operands := [.string []] },
    { head := .op 1, operands := [.register 31, .reference (ascii "b")] }]

/-- A label on a section header behind these data would have the offset 256. -/
def acceptanceLimit : Program :=
  acceptanceSample ++ [{ label := some (ascii "c"), head := .directive (ascii "code") }]

theorem assemble_ok_iff_acceptable_sample :
    acceptanceSample.Acceptable ∧ ¬acceptanceLimit.Acceptable ∧
    (∃ errors, acceptanceLimit.assemble.result = .error errors ∧ errors ≠ []) := by
  have hsample := assemble_ok_iff_acceptable acceptanceSample (by decide)
  have hlimit := assemble_ok_iff_acceptable acceptanceLimit (by decide +kernel)
  have hmade : ∃ img, acceptanceSample.assemble.result = .ok img := by
    have hok : acceptanceSample.assemble.result.isOk = true := by decide +kernel
    cases h : acceptanceSample.assemble.result with
    | ok img => exact ⟨img, rfl⟩
    | error errors => rw [h] at hok; exact absurd hok Bool.false_ne_true
  have hfar : ¬acceptanceLimit.Acceptable := by
    intro h
    have hmem : ⟨ascii "c", .data, 256, {}⟩ ∈ acceptanceLimit.labels := by decide +kernel
    exact absurd (h.offsets _ hmem) (by decide)
  exact ⟨hsample.1.mp hmade, hfar, hlimit.2 hfar⟩

end Quartet
