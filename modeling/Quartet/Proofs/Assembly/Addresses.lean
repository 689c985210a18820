/-
  Quartet.Proofs.Assembly.Addresses
  ─────────────────────────────────
  **THE TWO PASSES AGREE ON EVERY ADDRESS.**

  The first pass predicts addresses that only the second pass realises.  Here the addresses are
  counted once more, over the records that stand before, without either pass:

    • `Program.dataBytes` — the labelled texts, each with its zero byte,
    • `Program.labels` — every label with the section and the offset it stands for,
    • `Program.slotImage` — the four bytes of an instruction, a label being the byte of its offset.

  `Layout.Agrees` ties what the first pass knows to these counts; one record keeps it
  (`agrees_add`), hence every program does (`agrees_ofProgram`).  The second pass then writes
  exactly `slotImage` of every instruction (`code_eq_flatMap_slotImage`), and
  `assemble_addresses` puts the two together.
-/
import Mathlib.Data.List.Induction
import Quartet.Assembly.Assembler

namespace Quartet

/-! ## §1. Addresses by counting. -/

/-- A label and the place it stands for; the offset is a number of any size. -/
structure Address where
  /-- The label. -/
  name : Bytes
  /-- The section the offset is in. -/
  space : Section
  /-- The offset. -/
  offset : Nat
  /-- Where the label was declared. -/
  pos : Position
deriving DecidableEq, Repr

/-- The address that a symbol records in one byte. -/
def Symbol.address (s : Symbol) : Address := ⟨s.name, s.space, s.offset.toNat, s.pos⟩

namespace Record

/-- The section that a record opens: a directive without operands whose name is that of a
section. -/
def opened? (r : Record) : Option Section :=
  match r.head, r.operands with
  | .directive name, [] => Section.ofName? name
  | _, _ => none

/-- The text of a labelled `.asciiz` record. -/
def labelledText? (r : Record) : Option Bytes :=
  match r.label, r.head, r.operands with
  | some _, .directive name, [.string text] => if name = ascii "asciiz" then some text else none
  | _, _, _ => none

/-- The bytes that a record adds to the data: its text and one zero byte. -/
def dataBytes (r : Record) : Bytes :=
  match r.labelledText? with
  | some text => text ++ [0]
  | none => []

end Record

namespace Program

/-- The records that are headed by an operation. -/
def instructions (p : Program) : List Record := p.filter Record.isOperation

/-- The data of a program: its labelled texts in order, a zero byte after each. -/
def dataBytes (p : Program) : Bytes := p.flatMap Record.dataBytes

/-- The section that is open after a program. -/
def openSection (p : Program) : Option Section := (p.filterMap Record.opened?).getLast?

/-- The place that a label on `r` stands for, if the records of `before` stand before it. -/
def placeAfter (before : Program) (r : Record) : Section × Nat :=
  match r.head, r.operands with
  | .op _, _ => (.code, 4 * before.instructions.length)
  | _, [] =>
    if before.openSection = some .data then (.data, before.dataBytes.length)
    else (.code, 4 * before.instructions.length)
  | _, _ => (.data, before.dataBytes.length)

/-- The label of a record with its address. -/
def labelAfter (before : Program) (r : Record) : List Address :=
  match r.label with
  | some name => [⟨name, (placeAfter before r).1, (placeAfter before r).2, r.pos⟩]
  | none => []

/-- The labels of a program in order, if the records of `before` stand before it. -/
def labelsFrom (before : Program) : Program → List Address
  | [] => []
  | r :: rest => labelAfter before r ++ labelsFrom (before ++ [r]) rest

/-- The labels of a program with their addresses, in source order. -/
def labels (p : Program) : List Address := labelsFrom [] p

/-- The offset that a label stands for. -/
def offsetOf? (p : Program) (name : Bytes) : Option Nat :=
  (p.labels.find? fun a => a.name = name).map Address.offset

/-- The bytes of an operand: a register is its number, a number its low sixteen bits with the
higher byte first, a reference the offset of its label in one byte. -/
def operandImage (p : Program) : Token → Bytes
  | .register index => [index]
  | .immediate n => [UInt8.ofNat (n.toInt / 256 % 256).toNat, UInt8.ofNat (n.toInt % 256).toNat]
  | .reference name => (p.offsetOf? name).toList.map UInt8.ofNat
  | _ => []

/-- The slot of an instruction: the byte of its operation and the bytes of its operands, filled up
with zeros. -/
def slotImage (p : Program) (r : Record) : Bytes :=
  match r.head with
  | .op byte =>
    byte :: r.operands.flatMap (operandImage p)
      ++ List.replicate (3 - (r.operands.flatMap (operandImage p)).length) 0
  | _ => []

end Program

/-! ## §2. What an admitted record does to the layout. -/

/-- The symbol that a label on a record is bound to. -/
def Record.symbolAt (r : Record) (place : Section × Nat) : List Symbol :=
  match r.label with
  | some name => [⟨name, place.1, UInt8.ofNat place.2, r.pos⟩]
  | none => []

namespace Layout

/-- The place that a label on the next record stands for. -/
def place (l : Layout) (r : Record) : Section × Nat :=
  match r.head, r.operands with
  | .op _, _ => (.code, l.codeSize)
  | _, [] => if l.current = some .data then (.data, l.data.length) else (.code, l.codeSize)
  | _, _ => (.data, l.data.length)

/-- The label of a record can be bound to an offset: no error stands before it, the name is new
and the offset fits into a byte. -/
structure Binds (l : Layout) (r : Record) (offset : Nat) : Prop where
  /-- No error was found before. -/
  errors : l.errors = []
  /-- The name is not taken. -/
  fresh : ∀ name, r.label = some name → l.symbols.lookup? name = none
  /-- The offset is one byte. -/
  offset_le : ∀ name, r.label = some name → offset ≤ maxOffset

/-- All that the first pass does with a record it has nothing against. -/
structure Admits (l : Layout) (r : Record) (next : Layout) : Prop where
  /-- Its label, if it has one, can be bound to the place reached. -/
  binds : l.Binds r (l.place r).2
  /-- A section header opens its section. -/
  current : next.current = r.opened?.or l.current
  /-- An instruction takes four bytes. -/
  codeSize : next.codeSize = l.codeSize + if r.isOperation then 4 else 0
  /-- The label is the next symbol. -/
  symbols : next.symbols.symbols = l.symbols.symbols ++ r.symbolAt (l.place r)
  /-- A labelled text goes to the data. -/
  data : next.data = l.data ++ r.dataBytes

theorem labelDefect?_eq_none {l : Layout} {name : Bytes} (h : l.labelDefect? name = none) :
    l.symbols.lookup? name = none := by
  rw [labelDefect?_eq] at h
  split at h
  · exact absurd h (by simp)
  · simpa using h

theorem errors_refuse_ne_nil (l : Layout) (r : Record) (d : Defect) : (l.refuse r d).errors ≠ [] := by
  simp [Survey.refuse]

/-- A new name is declared at the end of the table. -/
theorem declare_of_lookup?_eq_none {t : SymbolTable} {s : Symbol} (h : t.lookup? s.name = none) :
    (t.declare s).2 = ⟨t.symbols ++ [s]⟩ := by
  unfold SymbolTable.declare
  rw [h]

/-- Binding a new label within reach adds its symbol; there is no error only then. -/
theorem bind_of_errors_eq_nil {l : Layout} {r : Record} {name : Bytes} {space : Section} {offset : Nat}
    (hnew : l.symbols.lookup? name = none) (h : (l.bind r name space offset).errors = []) :
    l.errors = [] ∧ offset ≤ maxOffset ∧
      l.bind r name space offset =
        { l with symbols := ⟨l.symbols.symbols ++ [⟨name, space, UInt8.ofNat offset, r.pos⟩]⟩ } := by
  rw [bind_eq] at h ⊢
  split at h
  · exact absurd h (errors_refuse_ne_nil _ _ _)
  · next hle =>
    rw [if_neg hle]
    refine ⟨h, Nat.le_of_not_lt hle, ?_⟩
    rw [declare_of_lookup?_eq_none (s := ⟨name, space, UInt8.ofNat offset, r.pos⟩) hnew]

/-- A label that is bound without error adds its symbol and nothing else. -/
theorem bindLabel_of_errors_eq_nil {l : Layout} {r : Record} {place : Section × Nat}
    (h : (l.bindLabel r place.1 place.2).errors = []) :
    l.Binds r place.2 ∧
      l.bindLabel r place.1 place.2 =
        { l with symbols := ⟨l.symbols.symbols ++ r.symbolAt place⟩ } := by
  rw [bindLabel_eq] at h ⊢
  unfold Record.symbolAt
  cases hlabel : r.label with
  | none =>
      simp only [hlabel] at h
      refine ⟨⟨h, ?_, ?_⟩, by simp⟩ <;>
        (intro name hname; exact absurd (hlabel.symm.trans hname) (by simp))
  | some name =>
      simp only [hlabel] at h
      cases hdefect : l.labelDefect? name with
      | some d =>
          simp only [hdefect] at h
          exact absurd h (errors_refuse_ne_nil _ _ _)
      | none =>
          simp only [hdefect] at h ⊢
          have hnew := labelDefect?_eq_none hdefect
          obtain ⟨herrors, hle, heq⟩ := bind_of_errors_eq_nil hnew h
          refine ⟨⟨herrors, ?_, fun _ _ => hle⟩, heq⟩
          intro other hother
          rw [hlabel, Option.some.injEq] at hother
          rw [← hother]
          exact hnew

theorem admits_addOperation {l : Layout} {r : Record} {byte : UInt8} (hhead : r.head = .op byte)
    (h : (l.addOperation r).errors = []) : l.Admits r (l.addOperation r) := by
  have hplace : l.place r = (.code, l.codeSize) := by simp [place, hhead]
  have hadd : l.addOperation r =
      { l.bindLabel r (l.place r).1 (l.place r).2 with
        codeSize := (l.bindLabel r (l.place r).1 (l.place r).2).codeSize + slotSize } := by
    rw [hplace]
    exact l.addOperation_eq r
  rw [hadd] at h ⊢
  obtain ⟨hbinds, heq⟩ := bindLabel_of_errors_eq_nil h
  have hopened : r.opened? = none := by simp [Record.opened?, hhead]
  have htext : r.dataBytes = [] := by simp [Record.dataBytes, Record.labelledText?, hhead]
  have hop : r.isOperation = true := by simp [Record.isOperation, hhead]
  refine ⟨hbinds, ?_, ?_, ?_, ?_⟩ <;> simp only [heq, hopened, htext, hop]
  · rfl
  · rfl
  · exact (List.append_nil _).symm

/-- The part of a section header that binds its label. -/
theorem addSection_of_directive (l : Layout) {r : Record} {name : Bytes}
    (hhead : r.head = .directive name) (hops : r.operands = []) :
    l.addSection r name =
      match Section.ofName? name with
      | some s => { l.bindLabel r (l.place r).1 (l.place r).2 with current := some s }
      | none => (l.bindLabel r (l.place r).1 (l.place r).2).warn r (.unknownSection name) := by
  have hplace : l.place r =
      if l.current = some .data then (.data, l.data.length) else (.code, l.codeSize) := by
    simp [place, hhead, hops]
  have hbound : l.bindLabel r (l.place r).1 (l.place r).2 =
      if l.current = some .data then l.bindLabel r .data l.data.length
      else l.bindLabel r .code l.codeSize := by
    rw [hplace]
    split <;> rfl
  have heq := l.addSection_eq r name
  rw [← hbound] at heq
  exact heq

theorem admits_addSection {l : Layout} {r : Record} {name : Bytes} (hhead : r.head = .directive name)
    (hops : r.operands = []) (h : (l.addSection r name).errors = []) :
    l.Admits r (l.addSection r name) := by
  rw [addSection_of_directive l hhead hops] at h ⊢
  have hbound : (l.bindLabel r (l.place r).1 (l.place r).2).errors = [] := by
    cases hname : Section.ofName? name <;> simpa only [hname, Survey.warn] using h
  obtain ⟨hbinds, heq⟩ := bindLabel_of_errors_eq_nil hbound
  have hopened : r.opened? = Section.ofName? name := by simp [Record.opened?, hhead, hops]
  have htext : r.dataBytes = [] := by
    simp only [Record.dataBytes, Record.labelledText?, hhead, hops]
    cases r.label <;> rfl
  have hop : r.isOperation = false := by simp [Record.isOperation, hhead]
  cases hname : Section.ofName? name with
  | some s =>
      refine ⟨hbinds, ?_, ?_, ?_, ?_⟩ <;> simp only [heq, hopened, hname, htext, hop]
      · rfl
      · rfl
      · exact (List.append_nil _).symm
  | none =>
      refine ⟨hbinds, ?_, ?_, ?_, ?_⟩ <;> simp only [heq, hopened, hname, htext, hop, Survey.warn]
      · rfl
      · rfl
      · exact (List.append_nil _).symm

/-- Laying out a labelled text without error: the label is bound to the end of the data, then the
data grow. -/
theorem admits_addText {l : Layout} {r : Record} {name text : Bytes}
    (hhead : r.head = .directive (ascii "asciiz")) (hops : r.operands = [.string text])
    (hlabel : r.label = some name) (h : (l.addText r name text).errors = []) :
    l.Admits r (l.addText r name text) := by
  have hplace : l.place r = (.data, l.data.length) := by simp [place, hhead, hops]
  have hopened : r.opened? = none := by simp [Record.opened?, hhead, hops]
  have htext : r.dataBytes = text ++ [0] := by
    simp [Record.dataBytes, Record.labelledText?, hhead, hops, hlabel]
  have hop : r.isOperation = false := by simp [Record.isOperation, hhead]
  rw [addText_eq] at h ⊢
  cases hdefect : l.labelDefect? name with
  | some d =>
      simp only [hdefect] at h
      exact absurd h (errors_refuse_ne_nil _ _ _)
  | none =>
      simp only [hdefect] at h ⊢
      split at h
      · exact absurd h (errors_refuse_ne_nil _ _ _)
      · next hroom =>
        have hnew := labelDefect?_eq_none hdefect
        obtain ⟨herrors, hle, heq⟩ := bind_of_errors_eq_nil hnew h
        rw [if_neg hroom]
        have hbinds : l.Binds r (l.place r).2 := by
          rw [hplace]
          refine ⟨herrors, ?_, fun _ _ => hle⟩
          intro other hother
          rw [hlabel, Option.some.injEq] at hother
          rw [← hother]
          exact hnew
        refine ⟨hbinds, ?_, ?_, ?_, ?_⟩ <;> simp only [heq, hplace, hopened, htext, hop]
        · rfl
        · rfl
        · simp [Record.symbolAt, hlabel]
        · exact List.append_assoc _ _ _

theorem admits_addString {l : Layout} {r : Record} (hhead : r.head = .directive (ascii "asciiz"))
    (h : (l.addString r).errors = []) : l.Admits r (l.addString r) := by
  rw [addString_eq] at h ⊢
  split at h
  · next text hops =>
    cases hlabel : r.label with
    | some name =>
        simp only [hlabel] at h
        exact admits_addText hhead hops hlabel h
    | none =>
        -- an unlabelled text is only warned about
        simp only [hlabel] at h
        refine ⟨⟨h, ?_, ?_⟩, ?_, ?_, ?_, ?_⟩
        · intro name hname
          exact absurd (hlabel.symm.trans hname) (by simp)
        · intro name hname
          exact absurd (hlabel.symm.trans hname) (by simp)
        · simp [Survey.warn, Record.opened?, hhead, hops]
        · simp [Survey.warn, Record.isOperation, hhead]
        · simp [Survey.warn, Record.symbolAt, hlabel]
        · simp [Survey.warn, Record.dataBytes, Record.labelledText?, hlabel]
  · exact absurd h (errors_refuse_ne_nil _ _ _)

/-- **One record.**  If the first pass has nothing against a record, it does all that
`Layout.Admits` says. -/
theorem admits_add {l : Layout} {r : Record} (hr : r.isOperation ∨ r.isDirective)
    (h : (l.add r).errors = []) : l.Admits r (l.add r) := by
  rw [add_eq] at h ⊢
  split at h
  · next byte hhead => exact admits_addOperation hhead h
  · next name hhead =>
    rw [addDirective_eq] at h ⊢
    split at h
    · next hops =>
      rw [if_pos hops]
      exact admits_addSection hhead hops h
    · next hops =>
      rw [if_neg hops]
      split at h
      · next hname =>
        rw [if_pos hname]
        subst hname
        exact admits_addString hhead h
      · exact absurd h (errors_refuse_ne_nil _ _ _)
  · next hop hdir =>
    -- neither an operation nor a directive: there is no such record
    exfalso
    rcases hr with hr | hr
    · unfold Record.isOperation at hr
      split at hr
      · next byte hhead => exact hop byte hhead
      · exact absurd hr (by simp)
    · unfold Record.isDirective at hr
      split at hr
      · next name hhead => exact hdir name hhead
      · exact absurd hr (by simp)

end Layout

/-! ## §3. The first pass agrees with the count. -/

namespace Program

theorem instructions_append (p q : Program) :
    (p ++ q).instructions = p.instructions ++ q.instructions :=
  List.filter_append ..

theorem dataBytes_append (p q : Program) : (p ++ q).dataBytes = p.dataBytes ++ q.dataBytes :=
  List.flatMap_append

theorem openSection_append_singleton (p : Program) (r : Record) :
    openSection (p ++ [r]) = r.opened?.or p.openSection := by
  unfold openSection
  rw [List.filterMap_append]
  cases hopened : r.opened? <;> simp [hopened]

theorem labelsFrom_append (before p q : Program) :
    labelsFrom before (p ++ q) = labelsFrom before p ++ labelsFrom (before ++ p) q := by
  induction p generalizing before with
  | nil => simp [labelsFrom]
  | cons r p ih =>
      show labelAfter before r ++ labelsFrom (before ++ [r]) (p ++ q) = _
      rw [ih]
      simp [labelsFrom]

theorem labels_append_singleton (p : Program) (r : Record) :
    labels (p ++ [r]) = p.labels ++ labelAfter p r := by
  unfold labels
  rw [labelsFrom_append]
  simp [labelsFrom]

end Program

namespace Layout

/-- **The invariant of the first pass**: what it knows after some records is what can be counted
over them. -/
structure Agrees (l : Layout) (p : Program) : Prop where
  /-- The open section is the last one opened. -/
  current : l.current = p.openSection
  /-- The code has four bytes for every instruction. -/
  codeSize : l.codeSize = 4 * p.instructions.length
  /-- The data are the labelled texts. -/
  data : l.data = p.dataBytes
  /-- The symbols are the labels, none with a shortened offset. -/
  symbols : l.symbols.symbols.map Symbol.address = p.labels
  /-- No label is declared twice. -/
  nodup : (p.labels.map Address.name).Nodup

theorem agrees_empty : Layout.start.Agrees [] :=
  ⟨rfl, rfl, rfl, rfl, List.nodup_nil⟩

theorem place_eq_placeAfter {l : Layout} {p : Program} (h : l.Agrees p) (r : Record) :
    l.place r = p.placeAfter r := by
  unfold place Program.placeAfter
  rw [h.current, h.codeSize, h.data]

/-- A byte holds an offset that is at most 255. -/
theorem address_symbolAt {p : Program} {r : Record}
    (hle : ∀ name, r.label = some name → (p.placeAfter r).2 ≤ maxOffset) :
    (r.symbolAt (p.placeAfter r)).map Symbol.address = p.labelAfter r := by
  unfold Record.symbolAt Program.labelAfter
  cases hlabel : r.label with
  | none => rfl
  | some name =>
      have hbyte : (UInt8.ofNat (p.placeAfter r).2).toNat = (p.placeAfter r).2 := by
        have := hle name hlabel
        rw [UInt8.toNat_ofNat_of_lt']
        show _ < 256
        unfold maxOffset at this
        omega
      simp only [List.map_cons, List.map_nil, Symbol.address, hbyte]

/-- A name that no symbol has is no label so far. -/
theorem name_not_mem_labels {l : Layout} {p : Program} (h : l.Agrees p) {name : Bytes}
    (hnew : l.symbols.lookup? name = none) : name ∉ p.labels.map Address.name := by
  rw [← h.symbols, List.map_map]
  intro hmem
  obtain ⟨s, hs, hname⟩ := List.mem_map.mp hmem
  have := List.find?_eq_none.mp hnew s hs
  exact this (by simpa [Symbol.address] using hname)

/-- **One record keeps the invariant.** -/
theorem agrees_add {l next : Layout} {p : Program} {r : Record} (h : l.Agrees p)
    (hadmits : l.Admits r next) : next.Agrees (p ++ [r]) := by
  have hplace : l.place r = p.placeAfter r := place_eq_placeAfter h r
  -- One field after the other: what the record did, then what was known before it.
  refine ⟨?_, ?_, ?_, ?_, ?_⟩
  · rw [hadmits.current, h.current, Program.openSection_append_singleton]
  · rw [hadmits.codeSize, h.codeSize, Program.instructions_append, List.length_append]
    unfold Program.instructions
    cases hop : r.isOperation <;> simp [hop]
    omega
  · rw [hadmits.data, h.data, Program.dataBytes_append]
    simp [Program.dataBytes]
  · rw [hadmits.symbols, List.map_append, h.symbols, hplace, Program.labels_append_singleton,
        address_symbolAt (hplace ▸ hadmits.binds.offset_le)]
  · rw [Program.labels_append_singleton, List.map_append]
    refine List.nodup_append.mpr ⟨h.nodup, ?_, ?_⟩
    · unfold Program.labelAfter
      cases r.label <;> simp
    · -- the new label is not among the old ones
      intro old hold new hnew heq
      unfold Program.labelAfter at hnew
      cases hlabel : r.label with
      | none => simp [hlabel] at hnew
      | some name =>
          simp only [hlabel, List.map_cons, List.map_nil, List.mem_singleton] at hnew
          subst hnew
          subst heq
          exact name_not_mem_labels h (hadmits.binds.fresh _ hlabel) hold

/-- **The first pass agrees with the count** on every program it has nothing against. -/
theorem agrees_ofProgram (p : Program) (hp : ∀ r ∈ p, r.isOperation ∨ r.isDirective)
    (h : (ofProgram p).errors = []) : (ofProgram p).Agrees p := by
  -- Records are laid out from the left, so the induction takes the last one off; that it was
  -- admitted says that none before it was refused.
  induction p using List.reverseRecOn with
  | nil => exact agrees_empty
  | append_singleton p r ih =>
      have hadd : ofProgram (p ++ [r]) = (ofProgram p).add r := ofProgram_append p [r]
      rw [hadd] at h ⊢
      have hadmits := admits_add (hp r (by simp)) h
      exact agrees_add (ih (fun s hs => hp s (by simp [hs])) hadmits.binds.errors) hadmits

end Layout

/-! ## §4. The second pass writes what was counted. -/

theorem Record.encode?_eq_none_iff {table : SymbolTable} {r : Record} :
    r.encode? table = none ↔ r.isOperation = false := by
  unfold Record.encode? Record.isOperation
  cases r.head with
  | op byte => cases hops : operandsBytes table byte [] r.operands <;> simp [hops]
  | _ => simp

/-- An instruction without error has its operand bytes in its slot. -/
theorem Record.encode?_eq_ok {table : SymbolTable} {r : Record} (hop : r.isOperation)
    (hok : ∀ d, r.encode? table ≠ some (.error d)) :
    ∃ byte bs, r.head = .op byte ∧ operandsBytes table byte [] r.operands = .ok bs ∧
      r.encode? table = some (.ok (slot byte bs)) := by
  cases hhead : r.head with
  | op byte =>
      unfold Record.encode? at hok ⊢
      simp only [hhead] at hok ⊢
      cases hops : operandsBytes table byte [] r.operands with
      | error d => exact absurd (by rw [hops]) (hok (d.diagnostic r.pos))
      | ok bs => exact ⟨byte, bs, rfl, hops, rfl⟩
  | _ => exact absurd hop (by simp [Record.isOperation, hhead])

/-- If the second pass finds no error, no record has one. -/
theorem Program.encode?_ne_error {table : SymbolTable} {p : Program}
    (h : p.encodingErrors table = []) {r : Record} (hr : r ∈ p) (d : Diagnostic) :
    r.encode? table ≠ some (.error d) := by
  intro hd
  have hslot : .error d ∈ p.slots table := List.mem_filterMap.mpr ⟨r, hr, hd⟩
  have herror : d ∈ p.encodingErrors table := List.mem_filterMap.mpr ⟨_, hslot, rfl⟩
  rw [h] at herror
  exact absurd herror List.not_mem_nil

/-- Each operand of an encoded instruction is encoded. -/
theorem operandBytes_of_mem {table : SymbolTable} {op : UInt8} {ts : List Token} {placed bs : Bytes}
    (h : operandsBytes table op placed ts = .ok bs) {t : Token} (ht : t ∈ ts) :
    ∃ these, operandBytes table op t = .ok these := by
  induction ts generalizing placed with
  | nil => exact absurd ht List.not_mem_nil
  | cons u ts ih =>
      unfold operandsBytes at h
      split at h
      · exact absurd h (by simp)
      · next these hthese =>
        split at h
        · exact absurd h (by simp)
        · rcases List.mem_cons.mp ht with rfl | ht
          · exact ⟨these, hthese⟩
          · exact ih h ht

/-- The operand bytes that an instruction is given have room in it. -/
theorem length_operandsBytes {table : SymbolTable} {op : UInt8} {ts : List Token}
    {placed bs : Bytes} (hplaced : placed.length ≤ operandRoom)
    (h : operandsBytes table op placed ts = .ok bs) : bs.length ≤ operandRoom := by
  induction ts generalizing placed with
  | nil =>
      rw [← Except.ok.inj h]
      exact hplaced
  | cons t ts ih =>
      unfold operandsBytes at h
      split at h
      · exact absurd h nofun
      · split at h
        · exact absurd h nofun
        · next hroom =>
          refine ih ?_ h
          rw [List.length_append]
          omega

/-- **Every instruction is encoded in four bytes.** -/
theorem Record.length_encode? {table : SymbolTable} {r : Record} {bs : Bytes}
    (h : r.encode? table = some (.ok bs)) : bs.length = 4 := by
  unfold Record.encode? at h
  split at h
  · split at h
    · exact absurd h (by simp)
    · next operands hops =>
      have hroom := length_operandsBytes (Nat.zero_le _) hops
      simp only [Option.some.injEq, Except.ok.injEq] at h
      subst h
      unfold slot
      rw [List.length_append, List.length_cons, List.length_replicate]
      unfold operandRoom slotSize at hroom ⊢
      omega
  · exact absurd h (by simp)

section SecondPass

variable {p : Program} {table : SymbolTable} (hlabels : table.symbols.map Symbol.address = p.labels)
include hlabels

/-- Looking a label up gives the offset that was counted. -/
theorem offsetOf?_eq_lookup? (name : Bytes) :
    p.offsetOf? name = (table.lookup? name).map fun s => s.offset.toNat := by
  unfold Program.offsetOf? SymbolTable.lookup?
  rw [← hlabels, List.find?_map, Option.map_map]
  rfl

/-- The bytes of one operand. -/
theorem operandBytes_eq_operandImage {op : UInt8} {t : Token} {bs : Bytes}
    (h : operandBytes table op t = .ok bs) : bs = p.operandImage t := by
  cases t with
  | register index =>
      simp only [operandBytes] at h
      split at h
      · exact absurd h (by simp)
      · exact (Except.ok.inj h).symm
  | immediate value =>
      rw [← Except.ok.inj h]
      have hhigh : (value.toInt % 65536).toNat / 256 = (value.toInt / 256 % 256).toNat := by omega
      have hlow : (value.toInt % 65536).toNat % 256 = (value.toInt % 256).toNat := by omega
      show wordBytes value = [_, _]
      rw [wordBytes, hhigh, hlow]
  | reference name =>
      simp only [operandBytes] at h
      split at h
      · next s hs =>
        rw [← Except.ok.inj h]
        show [s.offset] = (p.offsetOf? name).toList.map UInt8.ofNat
        rw [offsetOf?_eq_lookup? hlabels, hs]
        simp
      · exact absurd h (by simp)
  | op byte => exact absurd h (by simp [operandBytes])
  | label name => exact absurd h (by simp [operandBytes])
  | directive name => exact absurd h (by simp [operandBytes])
  | string text => exact absurd h (by simp [operandBytes])

/-- The bytes of all operands, after those placed already. -/
theorem operandsBytes_eq_operandImage {op : UInt8} {ts : List Token} {placed bs : Bytes}
    (h : operandsBytes table op placed ts = .ok bs) :
    bs = placed ++ ts.flatMap p.operandImage := by
  induction ts generalizing placed with
  | nil =>
      rw [← Except.ok.inj h]
      simp
  | cons t ts ih =>
      unfold operandsBytes at h
      split at h
      · exact absurd h (by simp)
      · next these hthese =>
        split at h
        · exact absurd h (by simp)
        · rw [ih h, operandBytes_eq_operandImage hlabels hthese, List.flatMap_cons,
              List.append_assoc]

/-- A record that is encoded is an instruction and gives the slot that was counted. -/
theorem encode?_eq_slotImage {r : Record} {bs : Bytes} (h : r.encode? table = some (.ok bs)) :
    r.isOperation ∧ bs = p.slotImage r := by
  unfold Record.encode? at h
  split at h
  · next byte hhead =>
    split at h
    · exact absurd h (by simp)
    · next operands hops =>
      have heq := operandsBytes_eq_operandImage hlabels hops
      rw [List.nil_append] at heq
      simp only [Option.some.injEq, Except.ok.injEq] at h
      subst h
      refine ⟨by simp [Record.isOperation, hhead], ?_⟩
      simp only [Program.slotImage, hhead, slot, operandRoom, slotSize, heq]
  · exact absurd h (by simp)

/-- A reference that is encoded is the byte of a declared label's offset. -/
theorem operandImage_reference {op : UInt8} {name bs : Bytes}
    (h : operandBytes table op (.reference name) = .ok bs) :
    ∃ a ∈ p.labels, a.name = name ∧ p.operandImage (.reference name) = [UInt8.ofNat a.offset] := by
  simp only [operandBytes] at h
  split at h
  · next s hs =>
    refine ⟨s.address, ?_, ?_, ?_⟩
    · rw [← hlabels]
      exact List.mem_map_of_mem (List.mem_of_find?_eq_some hs)
    · have hname : s.name = name := by simpa using List.find?_some hs
      exact hname
    · show (p.offsetOf? name).toList.map UInt8.ofNat = [UInt8.ofNat s.offset.toNat]
      rw [offsetOf?_eq_lookup? hlabels, hs]
      rfl
  · exact absurd h (by simp)

/-- The code of records that can all be encoded is the slots that were counted. -/
theorem code_eq_flatMap_slotImage {q : Program}
    (hq : ∀ r ∈ q, ∀ d, r.encode? table ≠ some (.error d)) :
    q.code table = q.instructions.flatMap p.slotImage := by
  induction q with
  | nil => rfl
  | cons r q ih =>
      have htail := ih fun s hs => hq s (List.mem_cons_of_mem _ hs)
      unfold Program.code Program.slots Program.instructions at htail ⊢
      cases henc : r.encode? table with
      | none =>
          -- a directive, which has no slot
          rw [List.filterMap_cons_none henc, List.filter_cons_of_neg, htail]
          rw [Record.encode?_eq_none_iff.mp henc]
          decide
      | some encoded =>
          cases encoded with
          | error d => exact absurd henc (hq r List.mem_cons_self d)
          | ok bs =>
              obtain ⟨hop, heq⟩ := encode?_eq_slotImage hlabels henc
              rw [List.filterMap_cons_some henc, List.filter_cons_of_pos hop, List.flatMap_cons,
                  List.flatMap_cons, htail, ← heq]

end SecondPass

/-! ## §5. The whole assembly. -/

/-- An image is made only if neither pass finds an error, and then by both passes. -/
theorem Program.assemble_eq_ok {p : Program} {img : Image} (h : p.assemble.result = .ok img) :
    (Layout.ofProgram p).errors = [] ∧ p.encodingErrors (Layout.ofProgram p).symbols = [] ∧
      img = ⟨(Layout.ofProgram p).data, p.code (Layout.ofProgram p).symbols⟩ ∧
      p.assemble.symbols = some (Layout.ofProgram p).symbols := by
  unfold Program.assemble at h ⊢
  by_cases hlayout : (Layout.ofProgram p).errors = []
  · by_cases hencoding : p.encodingErrors (Layout.ofProgram p).symbols = []
    · simp only [hlayout, hencoding, ne_eq, not_true_eq_false, if_false] at h ⊢
      exact ⟨trivial, trivial, (Except.ok.inj h).symm, trivial⟩
    · simp only [hlayout, hencoding, ne_eq, not_true_eq_false, not_false_eq_true, if_false,
        if_true] at h
      exact absurd h (by simp)
  · simp only [hlayout, ne_eq, not_false_eq_true, if_true] at h
    exact absurd h (by simp)

/-- What an image holds of the program it was assembled from. -/
structure Program.Realises (p : Program) (img : Image) (table : SymbolTable) : Prop where
  /-- The table is that of the assembly. -/
  symbols : p.assemble.symbols = some table
  /-- Its symbols are the labels. -/
  labels : table.symbols.map Symbol.address = p.labels
  /-- No label is declared twice. -/
  nodup : (p.labels.map Address.name).Nodup
  /-- The data are the labelled texts. -/
  data : img.data = p.dataBytes
  /-- The code is the slots of the instructions. -/
  code : img.code = p.instructions.flatMap p.slotImage
  /-- Every slot has four bytes. -/
  length : ∀ r ∈ p.instructions, (p.slotImage r).length = 4
  /-- The operands of every instruction could be encoded. -/
  encoded : ∀ r ∈ p.instructions, ∃ byte bs,
    r.head = .op byte ∧ operandsBytes table byte [] r.operands = .ok bs

/-- An assembled program is realised by its image. -/
theorem Program.realises_of_assemble {p : Program} (hp : ∀ r ∈ p, r.isOperation ∨ r.isDirective)
    {img : Image} (h : p.assemble.result = .ok img) : ∃ table, p.Realises img table := by
  obtain ⟨hlayout, hencoding, rfl, hsymbols⟩ := Program.assemble_eq_ok h
  have hagrees := Layout.agrees_ofProgram p hp hlayout
  have hok : ∀ r ∈ p, ∀ d, r.encode? (Layout.ofProgram p).symbols ≠ some (.error d) :=
    fun r hr => Program.encode?_ne_error hencoding hr
  refine ⟨_, hsymbols, hagrees.symbols, hagrees.nodup, hagrees.data,
    code_eq_flatMap_slotImage hagrees.symbols hok, ?_, ?_⟩
  · intro r hr
    obtain ⟨hmem, hop⟩ := List.mem_filter.mp hr
    obtain ⟨byte, bs, -, -, henc⟩ := Record.encode?_eq_ok hop (hok r hmem)
    obtain ⟨-, heq⟩ := encode?_eq_slotImage hagrees.symbols henc
    rw [← heq, Record.length_encode? henc]
  · intro r hr
    obtain ⟨hmem, hop⟩ := List.mem_filter.mp hr
    obtain ⟨byte, bs, hhead, hops, -⟩ := Record.encode?_eq_ok hop (hok r hmem)
    exact ⟨byte, bs, hhead, hops⟩

/-- **The two passes agree on every address.**  An assembled program's data are its labelled texts
with a zero byte after each, its code is one slot for each instruction, and its symbols are its
labels, each once and with the offset counted over the records before it.  Every reference,
forward or backward, is encoded as the offset of its label. -/
theorem assemble_addresses (p : Program) (hp : ∀ r ∈ p, r.isOperation ∨ r.isDirective) (img : Image)
    (h : p.assemble.result = .ok img) :
    img.data = p.dataBytes ∧
    img.code = p.instructions.flatMap p.slotImage ∧
    (∀ r ∈ p.instructions, (p.slotImage r).length = 4) ∧
    img.code.length = 4 * p.instructions.length ∧
    (∃ table, p.assemble.symbols = some table ∧ table.symbols.map Symbol.address = p.labels) ∧
    (p.labels.map Address.name).Nodup ∧
    (∀ a ∈ p.labels, a.offset ≤ 255) ∧
    ∀ r ∈ p.instructions, ∀ name, .reference name ∈ r.operands →
      ∃ a ∈ p.labels, a.name = name ∧ p.operandImage (.reference name) = [UInt8.ofNat a.offset] := by
  obtain ⟨table, hreal⟩ := Program.realises_of_assemble hp h
  refine ⟨hreal.data, hreal.code, hreal.length, ?_, ⟨table, hreal.symbols, hreal.labels⟩,
    hreal.nodup, ?_, ?_⟩
  · rw [hreal.code, List.length_flatMap, List.map_congr_left hreal.length, List.map_const',
        List.sum_replicate_nat, Nat.mul_comm]
  · intro a ha
    rw [← hreal.labels] at ha
    obtain ⟨s, -, rfl⟩ := List.mem_map.mp ha
    have := s.offset.toNat_lt
    show s.offset.toNat ≤ 255
    omega
  · intro r hr name hname
    obtain ⟨byte, bs, -, hops⟩ := hreal.encoded r hr
    obtain ⟨these, hthese⟩ := operandBytes_of_mem hops hname
    exact operandImage_reference hreal.labels hthese

/-- Both sections, a text that is dropped, a label on a section header, and references that go
forward and back. -/
def addressesSample : Program :=
  [{ head := .directive (ascii "data") },
    { label := some (ascii "hi"), head := .directive (ascii "asciiz"),
      operands := [.string (ascii "ab")] },
    { head := .directive (ascii "asciiz"), operands := [.string (ascii "dropped")] },
    { label := some (ascii "end"), head := .directive (ascii "code") },
    { head := .op 1, operands := [.register 2, .reference (ascii "go")] },
    { label := some (ascii "go"), head := .op 1, operands := [.register 3, .immediate (-2)] },
    { head := .op 1, operands := [.register 4, .reference (ascii "end")] }]

theorem assemble_addresses_sample :
    (∀ r ∈ addressesSample, r.isOperation ∨ r.isDirective) ∧
    addressesSample.assemble.result =
      .ok ⟨[97, 98, 0], [1, 2, 4, 0, 1, 3, 255, 254, 1, 4, 3, 0]⟩ ∧
    addressesSample.dataBytes = [97, 98, 0] ∧
    addressesSample.labels.map (fun a => (a.space, a.offset)) =
      [(.data, 0), (.data, 3), (.code, 4)] ∧
    (∀ r ∈ addressesSample.instructions, (addressesSample.slotImage r).length = 4) ∧
    (addressesSample.labels.map Address.name).Nodup := by
  have hp : ∀ r ∈ addressesSample, r.isOperation ∨ r.isDirective := by decide
  have himg : addressesSample.assemble.result =
      .ok ⟨[97, 98, 0], [1, 2, 4, 0, 1, 3, 255, 254, 1, 4, 3, 0]⟩ := rfl
  obtain ⟨hdata, -, hlength, -, -, hnodup, -, -⟩ := assemble_addresses addressesSample hp _ himg
  exact ⟨hp, himg, hdata.symm, rfl, hlength, hnodup⟩

end Quartet
