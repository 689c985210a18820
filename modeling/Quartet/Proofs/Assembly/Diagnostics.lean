/-
  Quartet.Proofs.Assembly.Diagnostics
  ───────────────────────────────────
  **EVERY RECORD IS DIAGNOSED ONCE.**

  An error changes what the first pass knows: a label that was refused can be declared again, a text
  that was refused takes no room.  Still each record is diagnosed on its own, and the batches that are
  returned are lists over the records in source order:

    • `Layout.errors_add`, `Layout.add_noting` — one record adds one error at most and one warning at
      most, and nothing in a layout depends on the warnings,
    • `Layout.errors_foldl_add`, `Layout.foldl_add_noting` — hence the batches of the first pass,
    • `Layout.foldl_add_filter` — records that are only warned about might as well not be there,
    • `Program.symbols_ofProgram`, `Program.encodingErrors_eq_filterMap` — the second pass takes every
      instruction on its own, against the table of all labels,
    • `diagnostics_batched` — both passes.
-/
import Mathlib.Data.List.Basic
import Quartet.Proofs.Assembly.Reassembly

namespace Quartet

/-! ## §1. What is wrong with a record. -/

/-- What a record is warned about: it is to open a section that there is not, or it is a text that
nothing can refer to. -/
def Record.warning? (r : Record) : Option Defect :=
  match r.head, r.operands with
  | .directive name, [] =>
    if name = ascii "code" ∨ name = ascii "data" then none else some (.unknownSection name)
  | .directive name, [.string text] =>
    if name = ascii "asciiz" ∧ r.label = none then some (.unlabelledString text) else none
  | _, _ => none

/-- The record has no label and is warned about. -/
def Record.isRemark (r : Record) : Bool := r.label.isNone && r.warning?.isSome

/-- What keeps an instruction from being encoded against a table of labels. -/
def Record.encodingDefect? (table : SymbolTable) (r : Record) : Option Defect :=
  match r.head with
  | .op byte =>
    match operandsBytes table byte [] r.operands with
    | .error d => some d
    | .ok _ => none
  | _ => none

/-- A defect of the kinds that only the second pass finds: a reference to no label, a register that
there is not, or an operand that does not belong to an instruction. -/
def Record.IsEncodingDefect (r : Record) (d : Defect) : Prop :=
  d.kind = .unresolvedSymbol ∨ d.kind = .invalidRegister ∨ d.kind = .invalidOperand ∧ r.isOperation

namespace Layout

/-- What keeps the label of a record from being bound to an offset. -/
def bindingDefect? (l : Layout) (r : Record) (offset : Nat) : Option Defect :=
  r.label.bind fun name =>
    (l.labelDefect? name).or
      (if maxOffset < offset then some (.labelTooFar name offset) else none)

/-- What keeps a labelled text from the data. -/
def textDefect? (l : Layout) (name text : Bytes) : Option Defect :=
  (l.labelDefect? name).or
    (if Image.maxDataSize < l.data.length + text.length + 1 then
      some (.tooMuchData name (l.data.length + text.length + 1))
    else if maxOffset < l.data.length then some (.labelTooFar name l.data.length)
    else none)

/-- What is wrong with a text directive. -/
def stringDefect? (l : Layout) (r : Record) : Option Defect :=
  match r.operands with
  | [.string text] => r.label.bind fun name => l.textDefect? name text
  | _ => some .notOneString

/-- What the first pass has against a record. -/
def defect? (l : Layout) (r : Record) : Option Defect :=
  match r.head with
  | .op _ => l.bindingDefect? r (l.place r).2
  | .directive name =>
    if r.operands = [] then l.bindingDefect? r (l.place r).2
    else if name = ascii "asciiz" then l.stringDefect? r
    else some (.unknownDirective name)
  | _ => none

/-- What the first pass has against the records of a program one after the other. -/
def defects (l : Layout) : Program → List (Option Defect)
  | [] => []
  | r :: p => l.defect? r :: (l.add r).defects p

end Layout

/-- The diagnostic of a record, if something is wrong with it. -/
def Record.diagnose (r : Record) (found : Option Defect) : Option Diagnostic :=
  found.map fun d => d.diagnostic r.pos

/-- Diagnostics stand at the records that something is wrong with, in the same order. -/
theorem Record.map_pos_diagnose {α : Type} (xs : List α) (record : α → Record)
    (found : α → Option Defect) :
    (xs.filterMap fun x => (record x).diagnose (found x)).map Diagnostic.pos =
      (xs.filter fun x => (found x).isSome).map fun x => (record x).pos := by
  induction xs with
  | nil => rfl
  | cons x xs ih =>
      cases hx : found x with
      | none =>
          rw [List.filterMap_cons_none (by rw [hx]; rfl), List.filter_cons_of_neg (by simp [hx]), ih]
      | some d =>
          rw [List.filterMap_cons_some (b := d.diagnostic (record x).pos) (by rw [hx]; rfl),
              List.filter_cons_of_pos (by simp [hx]), List.map_cons, List.map_cons, ih]
          rfl

namespace Program

/-- One diagnostic for each record that something is wrong with, in source order. -/
def diagnostics (p : Program) (found : List (Option Defect)) : List Diagnostic :=
  (p.zip found).filterMap fun x => x.1.diagnose x.2

/-- What the first pass has against each record of a program. -/
def layoutDefects (p : Program) : List (Option Defect) := Layout.start.defects p

/-- The errors of the first pass. -/
def layoutErrors (p : Program) : List Diagnostic := p.diagnostics p.layoutDefects

/-- All labels of a program with what they stand for. -/
def table (p : Program) : SymbolTable :=
  ⟨p.labels.map fun a => ⟨a.name, a.space, UInt8.ofNat a.offset, a.pos⟩⟩

end Program

/-- The errors that are returned. -/
def Assembly.errors (a : Assembly) : List Diagnostic :=
  match a.result with
  | .error errors => errors
  | .ok _ => []

/-! ## §2. One record in the first pass. -/

/-- The two kinds of records that are only warned about. -/
theorem Record.isRemark_cases (r : Record) (h : r.isRemark) :
    r.label = none ∧
      ((∃ name, r.head = .directive name ∧ r.operands = [] ∧ Section.ofName? name = none ∧
          r.warning? = some (.unknownSection name)) ∨
        ∃ text, r.head = .directive (ascii "asciiz") ∧ r.operands = [.string text] ∧
          r.warning? = some (.unlabelledString text)) := by
  unfold isRemark at h
  rw [Bool.and_eq_true, Option.isNone_iff_eq_none] at h
  obtain ⟨hlabel, hwarning⟩ := h
  refine ⟨hlabel, ?_⟩
  unfold warning? at hwarning ⊢
  split at hwarning
  · next name hhead hops =>
    by_cases hname : name = ascii "code" ∨ name = ascii "data"
    · rw [if_pos hname] at hwarning
      exact absurd hwarning Bool.false_ne_true
    · obtain ⟨hcode, hdata⟩ := not_or.mp hname
      refine Or.inl ⟨name, hhead, hops, ?_, ?_⟩
      · unfold Section.ofName?
        rw [if_neg hcode, if_neg hdata]
      · exact if_neg hname
  · next name text hhead hops =>
    by_cases hname : name = ascii "asciiz" ∧ r.label = none
    · exact Or.inr ⟨text, by rw [hhead, hname.1], hops, if_pos hname⟩
    · rw [if_neg hname] at hwarning
      exact absurd hwarning Bool.false_ne_true
  · exact absurd hwarning Bool.false_ne_true

namespace Layout

theorem errors_bind (l : Layout) (r : Record) (name : Bytes) (space : Section) (offset : Nat) :
    (l.bind r name space offset).errors = l.errors ++
      (r.diagnose (if maxOffset < offset then some (.labelTooFar name offset) else none)).toList := by
  rw [bind_eq]
  by_cases hfar : maxOffset < offset
  · rw [if_pos hfar, if_pos hfar]
    rfl
  · rw [if_neg hfar, if_neg hfar]
    exact (List.append_nil _).symm

theorem errors_bindLabel (l : Layout) (r : Record) (space : Section) (offset : Nat) :
    (l.bindLabel r space offset).errors =
      l.errors ++ (r.diagnose (l.bindingDefect? r offset)).toList := by
  rw [bindLabel_eq]
  unfold bindingDefect?
  cases r.label with
  | none => exact (List.append_nil _).symm
  | some name =>
      cases hdefect : l.labelDefect? name with
      | some d =>
          simp only [Option.bind_some, hdefect]
          rfl
      | none =>
          simp only [Option.bind_some, hdefect]
          exact errors_bind l r name space offset

theorem errors_addText (l : Layout) (r : Record) (name text : Bytes) :
    (l.addText r name text).errors =
      l.errors ++ (r.diagnose (l.textDefect? name text)).toList := by
  rw [addText_eq]
  unfold textDefect?
  cases hdefect : l.labelDefect? name with
  | some d => rfl
  | none =>
      simp only [Option.none_or]
      by_cases hfull : Image.maxDataSize < l.data.length + text.length + 1
      · rw [if_pos hfull, if_pos hfull]
        rfl
      · rw [if_neg hfull, if_neg hfull]
        exact errors_bind l r name .data l.data.length

theorem errors_addString (l : Layout) (r : Record) :
    (l.addString r).errors = l.errors ++ (r.diagnose (l.stringDefect? r)).toList := by
  rw [addString_eq]
  unfold stringDefect?
  cases r.operands with
  | nil => rfl
  | cons t ts =>
      cases t with
      | string text =>
          cases ts with
          | nil =>
              cases r.label with
              | none => exact (List.append_nil _).symm
              | some name => exact errors_addText l r name text
          | cons u us => rfl
      | op _ | register _ | immediate _ | label _ | reference _ | directive _ => rfl

/-- **One record adds one error at most.** -/
theorem errors_add (l : Layout) (r : Record) :
    (l.add r).errors = l.errors ++ (r.diagnose (l.defect? r)).toList := by
  rw [add_eq]
  unfold defect?
  cases hhead : r.head with
  | op byte =>
      have hplace : (l.place r).2 = l.codeSize := by simp [place, hhead]
      simp only [hplace]
      exact errors_bindLabel l r .code l.codeSize
  | directive name =>
      simp only
      rw [addDirective_eq]
      by_cases hops : r.operands = []
      · rw [if_pos hops, if_pos hops, addSection_of_directive l hhead hops]
        have hbound := errors_bindLabel l r (l.place r).1 (l.place r).2
        cases Section.ofName? name <;> exact hbound
      · rw [if_neg hops, if_neg hops]
        by_cases hname : name = ascii "asciiz"
        · rw [if_pos hname, if_pos hname]
          exact errors_addString l r
        · rw [if_neg hname, if_neg hname]
          rfl
  | register _ | immediate _ | label _ | reference _ | string _ => exact (List.append_nil _).symm

/-- The layout with other warnings. -/
def noting (l : Layout) (ws : List Diagnostic) : Layout := { l with warnings := ws }

theorem bind_noting (l : Layout) (ws : List Diagnostic) (r : Record) (name : Bytes) (space : Section)
    (offset : Nat) :
    (l.noting ws).bind r name space offset = (l.bind r name space offset).noting ws := by
  rw [bind_eq, bind_eq]
  by_cases hfar : maxOffset < offset
  · rw [if_pos hfar, if_pos hfar]
    rfl
  · rw [if_neg hfar, if_neg hfar]
    rfl

theorem bindLabel_noting (l : Layout) (ws : List Diagnostic) (r : Record) (space : Section)
    (offset : Nat) :
    (l.noting ws).bindLabel r space offset = (l.bindLabel r space offset).noting ws := by
  rw [bindLabel_eq, bindLabel_eq]
  have hdefect : ∀ name, (l.noting ws).labelDefect? name = l.labelDefect? name := fun _ => rfl
  cases r.label with
  | none => rfl
  | some name =>
      simp only [hdefect]
      cases l.labelDefect? name with
      | some d => rfl
      | none => exact bind_noting l ws r name space offset

theorem addText_noting (l : Layout) (ws : List Diagnostic) (r : Record) (name text : Bytes) :
    (l.noting ws).addText r name text = (l.addText r name text).noting ws := by
  rw [addText_eq, addText_eq]
  have hdefect : (l.noting ws).labelDefect? name = l.labelDefect? name := rfl
  have hdata : (l.noting ws).data = l.data := rfl
  rw [hdefect, hdata]
  cases l.labelDefect? name with
  | some d => rfl
  | none =>
      simp only
      by_cases hfull : Image.maxDataSize < l.data.length + text.length + 1
      · rw [if_pos hfull, if_pos hfull]
        rfl
      · rw [if_neg hfull, if_neg hfull, bind_noting]
        rfl

theorem addSection_noting (l : Layout) (ws : List Diagnostic) {r : Record} {name : Bytes}
    (hhead : r.head = .directive name) (hops : r.operands = []) :
    (l.noting ws).addSection r name =
      (l.addSection r name).noting (ws ++ (r.diagnose r.warning?).toList) := by
  have hwarning : r.warning? =
      if (Section.ofName? name).isNone then some (.unknownSection name) else none := by
    unfold Record.warning? Section.ofName?
    rw [hhead, hops]
    by_cases hcode : name = ascii "code"
    · simp only [if_pos hcode, if_pos (Or.inl hcode)]
      rfl
    · by_cases hdata : name = ascii "data"
      · simp only [if_neg hcode, if_pos hdata, if_pos (Or.inr hdata)]
        rfl
      · simp only [if_neg hcode, if_neg hdata, if_neg (not_or.mpr ⟨hcode, hdata⟩)]
        rfl
  rw [addSection_of_directive _ hhead hops, addSection_of_directive l hhead hops, bindLabel_noting, hwarning]
  cases Section.ofName? name with
  | some s =>
      show _ = Layout.noting _ (ws ++ [])
      rw [List.append_nil]
      rfl
  | none => rfl

theorem noting_of_warning?_eq_none {r : Record} (h : r.warning? = none) (l : Layout)
    (ws : List Diagnostic) : l.noting (ws ++ (r.diagnose r.warning?).toList) = l.noting ws := by
  rw [h]
  show l.noting (ws ++ []) = _
  rw [List.append_nil]

theorem addString_noting (l : Layout) (ws : List Diagnostic) {r : Record}
    (hhead : r.head = .directive (ascii "asciiz")) (hne : r.operands ≠ []) :
    (l.noting ws).addString r =
      (l.addString r).noting (ws ++ (r.diagnose r.warning?).toList) := by
  rw [addString_eq, addString_eq]
  split
  · next text hops =>
    cases hlabel : r.label with
    | none =>
        have hwarning : r.warning? = some (.unlabelledString text) := by
          simp [Record.warning?, hhead, hops, hlabel]
        rw [hwarning]
        rfl
    | some name =>
        rw [noting_of_warning?_eq_none (by simp [Record.warning?, hhead, hops, hlabel])]
        exact addText_noting l ws r name text
  · next hops =>
    have hwarning : r.warning? = none := by
      unfold Record.warning?
      rw [hhead]
      split
      · next hnil => exact absurd hnil hne
      · next htext => exact absurd htext (hops _)
      · rfl
    rw [noting_of_warning?_eq_none hwarning]
    rfl

/-- **One record adds one warning at most**, and what else it does depends on no warning. -/
theorem add_noting (l : Layout) (ws : List Diagnostic) (r : Record) :
    (l.noting ws).add r = (l.add r).noting (ws ++ (r.diagnose r.warning?).toList) := by
  rw [add_eq, add_eq]
  cases hhead : r.head with
  | op byte =>
      rw [noting_of_warning?_eq_none (by simp [Record.warning?, hhead])]
      show { (l.noting ws).bindLabel r .code l.codeSize with
        codeSize := ((l.noting ws).bindLabel r .code l.codeSize).codeSize + slotSize } = _
      rw [bindLabel_noting]
      rfl
  | directive name =>
      simp only
      rw [addDirective_eq, addDirective_eq]
      by_cases hops : r.operands = []
      · rw [if_pos hops, if_pos hops]
        exact addSection_noting l ws hhead hops
      · rw [if_neg hops, if_neg hops]
        by_cases hname : name = ascii "asciiz"
        · rw [if_pos hname, if_pos hname]
          exact addString_noting l ws (hname ▸ hhead) hops
        · have hwarning : r.warning? = none := by
            unfold Record.warning?
            rw [hhead]
            split
            · next hnil => exact absurd hnil hops
            · next hdir _ =>
              rw [← Token.directive.inj hdir]
              exact if_neg fun h => hname h.1
            · rfl
          rw [if_neg hname, if_neg hname, noting_of_warning?_eq_none hwarning]
          rfl
  | register _ | immediate _ | label _ | reference _ | string _ =>
      rw [noting_of_warning?_eq_none (by simp [Record.warning?, hhead])]

/-- A record that is only warned about does nothing else. -/
theorem add_of_isRemark {r : Record} (h : r.isRemark) (l : Layout) :
    l.add r = l.noting (l.warnings ++ (r.diagnose r.warning?).toList) := by
  obtain ⟨hlabel, hremark⟩ := r.isRemark_cases h
  rcases hremark with ⟨name, hhead, hops, hname, hwarning⟩ | ⟨text, hhead, hops, hwarning⟩
  · have hbound : ∀ place : Section × Nat, l.bindLabel r place.1 place.2 = l := by
      intro place
      rw [bindLabel_eq, hlabel]
    simp only [add_eq, hhead, addDirective_eq, if_pos hops]
    rw [addSection_of_directive l hhead hops, hname, hbound, hwarning]
    rfl
  · have hne : r.operands ≠ [] := by rw [hops]; exact List.cons_ne_nil _ _
    simp only [add_eq, hhead, addDirective_eq, if_neg hne, if_true]
    rw [addString_eq, hops, hlabel, hwarning]
    rfl

/-! ## §3. All records in the first pass. -/

end Layout

theorem Program.diagnostics_cons (r : Record) (p : Program) (d : Option Defect)
    (found : List (Option Defect)) :
    diagnostics (r :: p) (d :: found) = (r.diagnose d).toList ++ p.diagnostics found := by
  unfold diagnostics
  rw [List.zip_cons_cons, List.filterMap_eq_flatMap_toList, List.flatMap_cons,
      ← List.filterMap_eq_flatMap_toList]

namespace Layout

/-- **The errors of the first pass** are what it has against each record, in source order. -/
theorem errors_foldl_add (p : Program) :
    ∀ l : Layout, (p.foldl add l).errors = l.errors ++ p.diagnostics (l.defects p) := by
  induction p with
  | nil => intro l; exact (List.append_nil _).symm
  | cons r p ih =>
      intro l
      rw [List.foldl_cons, ih, errors_add, List.append_assoc]
      exact congrArg (l.errors ++ ·) (Program.diagnostics_cons r p _ _).symm

theorem length_defects (p : Program) : ∀ l : Layout, (l.defects p).length = p.length := by
  induction p with
  | nil => intro l; rfl
  | cons r p ih =>
      intro l
      exact congrArg (· + 1) (ih (l.add r))

/-- **The warnings of the first pass** are those of each record, in source order. -/
theorem foldl_add_noting (p : Program) :
    ∀ (l : Layout) (ws : List Diagnostic), p.foldl add (l.noting ws) =
      (p.foldl add l).noting (ws ++ p.filterMap fun r => r.diagnose r.warning?) := by
  induction p with
  | nil =>
      intro l ws
      show l.noting ws = l.noting (ws ++ [])
      rw [List.append_nil]
  | cons r p ih =>
      intro l ws
      rw [List.foldl_cons, add_noting, ih, List.append_assoc,
          List.filterMap_eq_flatMap_toList _ (r :: p), List.flatMap_cons,
          ← List.filterMap_eq_flatMap_toList]
      rfl

/-- **Records that are only warned about** change nothing but the warnings. -/
theorem foldl_add_filter (p : Program) :
    ∀ l : Layout, ∃ ws, (p.filter fun r => !r.isRemark).foldl add l = (p.foldl add l).noting ws := by
  induction p with
  | nil => intro l; exact ⟨l.warnings, rfl⟩
  | cons r p ih =>
      intro l
      by_cases hr : r.isRemark = true
      · obtain ⟨ws, hws⟩ := ih l
        refine ⟨ws, ?_⟩
        rw [List.filter_cons_of_neg (by simp [hr]), hws, List.foldl_cons, add_of_isRemark hr,
            foldl_add_noting]
        rfl
      · rw [List.filter_cons_of_pos (by simp [hr])]
        exact ih (l.add r)

end Layout

/-! ## §4. The second pass. -/

namespace Program

variable {p : Program}

/-- Without errors the first pass gives the table of all labels. -/
theorem symbols_ofProgram (hp : ∀ r ∈ p, r.isOperation ∨ r.isDirective)
    (herrors : (Layout.ofProgram p).errors = []) : (Layout.ofProgram p).symbols = p.table := by
  have hsame : ∀ s : Symbol,
      Symbol.mk s.address.name s.address.space (UInt8.ofNat s.address.offset) s.address.pos = s := by
    intro s
    show Symbol.mk s.name s.space (UInt8.ofNat s.offset.toNat) s.pos = s
    rw [UInt8.ofNat_toNat]
  unfold table
  rw [← (Layout.agrees_ofProgram p hp herrors).symbols, List.map_map]
  exact congrArg SymbolTable.mk
    ((List.map_id _).symm.trans (List.map_congr_left fun s _ => (hsame s).symm))

/-- The second pass takes every record on its own. -/
theorem encodingErrors_eq_filterMap (table : SymbolTable) (p : Program) :
    p.encodingErrors table = p.filterMap fun r => r.diagnose (r.encodingDefect? table) := by
  unfold encodingErrors slots
  rw [List.filterMap_filterMap]
  refine List.filterMap_congr ?_
  intro r _
  unfold Record.encode? Record.encodingDefect?
  cases r.head with
  | op byte =>
      simp only
      cases operandsBytes table byte [] r.operands <;> rfl
  | register _ | immediate _ | label _ | reference _ | string _ | directive _ => rfl

/-- Records that are only warned about are no instructions. -/
theorem slots_filter (table : SymbolTable) (p : Program) :
    slots table (p.filter fun r => !r.isRemark) = p.slots table := by
  unfold slots
  rw [List.filterMap_filter]
  refine List.filterMap_congr ?_
  intro r _
  by_cases hr : r.isRemark = true
  · have hhead : ∃ name, r.head = .directive name := by
      obtain ⟨-, ⟨name, hhead, -⟩ | ⟨-, hhead, -⟩⟩ := r.isRemark_cases hr
      · exact ⟨name, hhead⟩
      · exact ⟨_, hhead⟩
    obtain ⟨name, hhead⟩ := hhead
    simp [hr, Record.encode?, hhead]
  · simp [hr]

end Program

/-- Something is wrong with exactly the instructions that cannot be encoded. -/
theorem Record.encodingDefect?_isSome_iff {p : Program} {table : SymbolTable}
    (hlabels : table.symbols.map Symbol.address = p.labels) (r : Record) :
    (r.encodingDefect? table).isSome ↔ r.isOperation ∧ ¬p.Encodes r := by
  unfold encodingDefect? isOperation
  cases r.head with
  | op byte =>
      have hencodes : p.Encodes r ↔ ∃ bs, operandsBytes table byte [] r.operands = .ok bs := by
        rw [operandsBytes_ok_iff hlabels byte (show ([] : Bytes).length ≤ 3 from Nat.zero_le 3)]
        simp [Program.Encodes]
      rw [hencodes]
      cases hbytes : operandsBytes table byte [] r.operands with
      | error d => simp [hbytes]
      | ok bs => simp [hbytes]
  | register _ | immediate _ | label _ | reference _ | string _ | directive _ => simp

/-! ## §5. Which pass a diagnostic is of. -/

theorem operandBytes_kind {table : SymbolTable} {op : UInt8} {t : Token} {d : Defect}
    (h : operandBytes table op t = .error d) :
    d.kind = .unresolvedSymbol ∨ d.kind = .invalidRegister ∨ d.kind = .invalidOperand := by
  cases t with
  | register index =>
      simp only [operandBytes] at h
      split at h
      · rw [← Except.error.inj h]
        exact Or.inr (Or.inl rfl)
      · exact absurd h (by simp)
  | immediate value => exact absurd h (by simp [operandBytes])
  | reference name =>
      simp only [operandBytes] at h
      split at h
      · exact absurd h (by simp)
      · rw [← Except.error.inj h]
        exact Or.inl rfl
  | op _ | label _ | directive _ | string _ =>
      rw [← Except.error.inj h]
      exact Or.inr (Or.inr rfl)

theorem operandsBytes_kind {table : SymbolTable} {op : UInt8} {d : Defect} (ts : List Token) :
    ∀ placed, operandsBytes table op placed ts = .error d →
      d.kind = .unresolvedSymbol ∨ d.kind = .invalidRegister ∨ d.kind = .invalidOperand := by
  induction ts with
  | nil =>
      intro placed h
      exact absurd h (by simp [operandsBytes])
  | cons t ts ih =>
      intro placed h
      unfold operandsBytes at h
      cases ht : operandBytes table op t with
      | error other =>
          simp only [ht] at h
          rw [← Except.error.inj h]
          exact operandBytes_kind ht
      | ok bs =>
          simp only [ht] at h
          by_cases hroom : operandRoom < placed.length + bs.length
          · rw [if_pos hroom] at h
            rw [← Except.error.inj h]
            exact Or.inr (Or.inr rfl)
          · rw [if_neg hroom] at h
            exact ih _ h

theorem Record.isEncodingDefect_of_encodingDefect? {table : SymbolTable} {r : Record} {d : Defect}
    (h : r.encodingDefect? table = some d) : r.IsEncodingDefect d := by
  unfold encodingDefect? at h
  split at h
  · next byte hhead =>
    split at h
    · next other hbytes =>
      obtain rfl := Option.some.inj h
      have hop : r.isOperation = true := by simp [isOperation, hhead]
      rcases operandsBytes_kind r.operands [] hbytes with hkind | hkind | hkind
      · exact Or.inl hkind
      · exact Or.inr (Or.inl hkind)
      · exact Or.inr (Or.inr ⟨hkind, hop⟩)
    · exact absurd h (by simp)
  · exact absurd h (by simp)

namespace Layout

/-- The kinds of what keeps a label or a text from its place. -/
def placingKinds : List Kind :=
  [.noSegmentDeclaration, .duplicateSymbol, .symbolOffsetOverflow, .dataSegmentOverflow]

theorem kind_labelDefect? {l : Layout} {name : Bytes} {d : Defect} (h : l.labelDefect? name = some d) :
    d.kind ∈ placingKinds := by
  rw [labelDefect?_eq] at h
  split at h
  · rw [← Option.some.inj h]
    simp [placingKinds, Defect.kind]
  · obtain ⟨earlier, -, rfl⟩ := Option.map_eq_some_iff.mp h
    simp [placingKinds, Defect.kind]

theorem kind_bindingDefect? {l : Layout} {r : Record} {offset : Nat} {d : Defect}
    (h : l.bindingDefect? r offset = some d) : d.kind ∈ placingKinds := by
  obtain ⟨name, -, hname⟩ := Option.bind_eq_some_iff.mp h
  rcases Option.or_eq_some_iff.mp hname with hlabel | ⟨-, hfar⟩
  · exact kind_labelDefect? hlabel
  · split at hfar
    · rw [← Option.some.inj hfar]
      simp [placingKinds, Defect.kind]
    · exact absurd hfar (by simp)

theorem kind_textDefect? {l : Layout} {name text : Bytes} {d : Defect}
    (h : l.textDefect? name text = some d) : d.kind ∈ placingKinds := by
  rcases Option.or_eq_some_iff.mp h with hlabel | ⟨-, hroom⟩
  · exact kind_labelDefect? hlabel
  · split at hroom
    · rw [← Option.some.inj hroom]
      simp [placingKinds, Defect.kind]
    · split at hroom
      · rw [← Option.some.inj hroom]
        simp [placingKinds, Defect.kind]
      · exact absurd hroom (by simp)

theorem not_isEncodingDefect_of_kind {r : Record} {d : Defect} (h : d.kind ∈ placingKinds) :
    ¬r.IsEncodingDefect d := by
  rintro (hkind | hkind | ⟨hkind, -⟩) <;>
    exact absurd (hkind ▸ h) (by decide)

/-- The first pass finds nothing of these kinds, but that an operand of a text directive does not
belong there. -/
theorem not_isEncodingDefect_of_defect? {l : Layout} {r : Record} {d : Defect}
    (h : l.defect? r = some d) : ¬r.IsEncodingDefect d := by
  unfold defect? at h
  cases hhead : r.head with
  | op byte =>
      simp only [hhead] at h
      exact not_isEncodingDefect_of_kind (kind_bindingDefect? h)
  | directive name =>
      have hop : ¬r.isOperation = true := by simp [Record.isOperation, hhead]
      simp only [hhead] at h
      by_cases hops : r.operands = []
      · rw [if_pos hops] at h
        exact not_isEncodingDefect_of_kind (kind_bindingDefect? h)
      · rw [if_neg hops] at h
        by_cases hname : name = ascii "asciiz"
        · rw [if_pos hname] at h
          unfold stringDefect? at h
          split at h
          · obtain ⟨name, -, htext⟩ := Option.bind_eq_some_iff.mp h
            exact not_isEncodingDefect_of_kind (kind_textDefect? htext)
          · obtain rfl := Option.some.inj h
            rintro (hkind | hkind | ⟨-, hoperation⟩)
            · exact absurd hkind (by decide)
            · exact absurd hkind (by decide)
            · exact hop hoperation
        · rw [if_neg hname] at h
          obtain rfl := Option.some.inj h
          rintro (hkind | hkind | ⟨hkind, -⟩) <;> exact Kind.noConfusion hkind
  | register _ | immediate _ | label _ | reference _ | string _ =>
      simp only [hhead] at h
      exact absurd h (by simp)

theorem not_isEncodingDefect_of_mem (p : Program) :
    ∀ (l : Layout) {r : Record} {d : Defect}, (r, some d) ∈ p.zip (l.defects p) →
      ¬r.IsEncodingDefect d := by
  induction p with
  | nil => exact fun _ _ _ h => absurd h List.not_mem_nil
  | cons s p ih =>
      intro l r d h
      change (r, some d) ∈ (s, l.defect? s) :: p.zip ((l.add s).defects p) at h
      rcases List.mem_cons.mp h with hhead | htail
      · obtain ⟨rfl, hdefect⟩ := Prod.mk.inj hhead
        exact not_isEncodingDefect_of_defect? hdefect.symm
      · exact ih (l.add s) htail

end Layout

/-! ## §6. Both passes. -/

namespace Program

/-- The diagnostics of a program, record by record. -/
structure Batched (p : Program) : Prop where
  /-- Warnings are returned in any case, one at most for each record and in source order. -/
  warnings : p.assemble.warnings = p.filterMap fun r => r.diagnose r.warning?
  /-- They stand at the records that there is a warning for. -/
  warnings_pos : p.assemble.warnings.map Diagnostic.pos =
    (p.filter fun r => r.warning?.isSome).map Record.pos
  /-- The first pass has one thing at most against each record. -/
  length_layoutDefects : p.layoutDefects.length = p.length
  /-- It has nothing against the programs that are arranged. -/
  layoutErrors_eq_nil_iff : p.layoutErrors = [] ↔ p.Arranged
  /-- If it has something against a record, this is returned and there is no second pass. -/
  layout : p.layoutErrors ≠ [] → p.assemble.errors = p.layoutErrors ∧ p.assemble.symbols = none
  /-- Its errors stand at the records it has something against. -/
  layout_pos : p.layoutErrors.map Diagnostic.pos =
    ((p.zip p.layoutDefects).filter fun x => x.2.isSome).map fun x => x.1.pos
  /-- They are never of the kinds that the second pass finds. -/
  layout_kind : ∀ r d, (r, some d) ∈ p.zip p.layoutDefects → ¬r.IsEncodingDefect d
  /-- Else what is wrong with each instruction, against the table of all labels, is returned. -/
  encoding : p.layoutErrors = [] →
    p.assemble.errors = (p.filterMap fun r => r.diagnose (r.encodingDefect? p.table)) ∧
      p.assemble.symbols = some p.table
  /-- These errors stand at the instructions that cannot be encoded. -/
  encoding_pos : p.layoutErrors = [] → p.assemble.errors.map Diagnostic.pos =
    (p.filter fun r => (r.encodingDefect? p.table).isSome).map Record.pos
  /-- There is one for each instruction that cannot be encoded, and no other. -/
  encoding_iff : p.layoutErrors = [] →
    ∀ r ∈ p, (r.encodingDefect? p.table).isSome ↔ r.isOperation ∧ ¬p.Encodes r
  /-- They are of the kinds of the second pass. -/
  encoding_kind : ∀ r ∈ p, ∀ d, r.encodingDefect? p.table = some d → r.IsEncodingDefect d
  /-- Without the records that are only warned about, the image is the same, and so are the
  errors. -/
  remarks : (assemble (p.filter fun r => !r.isRemark)).result = p.assemble.result

/-- The first pass returns what it has against each record. -/
theorem errors_ofProgram (p : Program) : (Layout.ofProgram p).errors = p.layoutErrors :=
  (Layout.errors_foldl_add p .start).trans (List.nil_append _)

theorem warnings_ofProgram (p : Program) :
    (Layout.ofProgram p).warnings = p.filterMap fun r => r.diagnose r.warning? :=
  congrArg Survey.warnings (Layout.foldl_add_noting p .start [])

theorem assemble_filter (p : Program) :
    (assemble (p.filter fun r => !r.isRemark)).result = p.assemble.result := by
  obtain ⟨ws, hws⟩ := Layout.foldl_add_filter p .start
  have hlayout : Layout.ofProgram (p.filter fun r => !r.isRemark) = (Layout.ofProgram p).noting ws :=
    hws
  rw [assemble_result, assemble_result, hlayout]
  unfold encodingErrors code
  rw [slots_filter]
  rfl

theorem assemble_of_layoutErrors {p : Program} (h : p.layoutErrors ≠ []) :
    p.assemble.errors = p.layoutErrors ∧ p.assemble.symbols = none := by
  unfold Assembly.errors assemble
  simp only [errors_ofProgram]
  rw [if_pos h]
  exact ⟨rfl, rfl⟩

theorem assemble_of_layoutErrors_eq_nil {p : Program}
    (hp : ∀ r ∈ p, r.isOperation ∨ r.isDirective) (h : p.layoutErrors = []) :
    p.assemble.errors = (p.filterMap fun r => r.diagnose (r.encodingDefect? p.table)) ∧
      p.assemble.symbols = some p.table := by
  have htable := symbols_ofProgram hp (p.errors_ofProgram.trans h)
  rw [← encodingErrors_eq_filterMap]
  unfold Assembly.errors assemble
  simp only [errors_ofProgram, htable]
  rw [if_neg (not_not_intro h)]
  by_cases hencoding : p.encodingErrors p.table = []
  · rw [if_neg (not_not_intro hencoding)]
    exact ⟨hencoding.symm, rfl⟩
  · rw [if_pos hencoding]
    exact ⟨rfl, rfl⟩

end Program

/-- **Diagnostics are batched faithfully**: record by record, all those of the pass that fails. -/
theorem diagnostics_batched (p : Program) (hp : ∀ r ∈ p, r.isOperation ∨ r.isDirective) :
    p.Batched where
  warnings := p.assemble_warnings.trans p.warnings_ofProgram
  warnings_pos := by
    rw [p.assemble_warnings, p.warnings_ofProgram]
    exact Record.map_pos_diagnose p id Record.warning?
  length_layoutDefects := Layout.length_defects p .start
  layoutErrors_eq_nil_iff := by
    rw [← p.errors_ofProgram]
    exact Layout.errors_ofProgram_eq_nil_iff p hp
  layout := Program.assemble_of_layoutErrors
  layout_pos := Record.map_pos_diagnose (p.zip p.layoutDefects) Prod.fst Prod.snd
  layout_kind := fun _ _ h => Layout.not_isEncodingDefect_of_mem p .start h
  encoding := Program.assemble_of_layoutErrors_eq_nil hp
  encoding_pos := by
    intro h
    rw [(Program.assemble_of_layoutErrors_eq_nil hp h).1]
    exact Record.map_pos_diagnose p id (Record.encodingDefect? p.table)
  encoding_iff := by
    intro h r _
    have herrors := p.errors_ofProgram.trans h
    rw [← Program.symbols_ofProgram hp herrors]
    exact r.encodingDefect?_isSome_iff (Layout.agrees_ofProgram p hp herrors).symbols
  encoding_kind := fun _ _ _ h => Record.isEncodingDefect_of_encodingDefect? h
  remarks := p.assemble_filter

/-- A label that is refused and then declared, a record with an error and a warning, a text directive
without a text, and a reference that the second pass would refuse. -/
def diagnosedSample : Program :=
  [{ pos := { line := 1 }, head := .directive (ascii "bss") },
    { pos := { line := 2 }, label := some (ascii "a"), head := .op 0 },
    { pos := { line := 3 }, head := .directive (ascii "code") },
    { pos := { line := 4 }, label := some (ascii "a"), head := .op 0 },
    { pos := { line := 5 }, label := some (ascii "a"), head := .directive (ascii "bss") },
    { pos := { line := 6 }, head := .directive (ascii "asciiz"), operands := [.string [0x78]] },
    { pos := { line := 7 }, head := .directive (ascii "asciiz"), operands := [.register 1] },
    { pos := { line := 8 }, head := .op 1, operands := [.reference (ascii "b")] }]

/-- Instructions that cannot be encoded in each way, and one that refers to a label after it. -/
def encodingSample : Program :=
  [{ pos := { line := 1 }, head := .directive (ascii "code") },
    { pos := { line := 2 }, head := .op 1, operands := [.reference (ascii "b")] },
    { pos := { line := 3 }, head := .op 1, operands := [.register 32] },
    { pos := { line := 4 }, head := .op 1, operands := [.reference (ascii "a")] },
    { pos := { line := 5 }, head := .op 1, operands := [.string []] },
    { pos := { line := 6 }, label := some (ascii "a"), head := .op 1,
      operands := [.immediate 1, .immediate 2] }]

theorem diagnostics_batched_sample :
    diagnosedSample.Batched ∧
    (diagnosedSample.assemble.errors.map fun d => (d.kind, d.pos.line)) =
      [(.noSegmentDeclaration, 2), (.duplicateSymbol, 5), (.invalidOperand, 7)] ∧
    (diagnosedSample.assemble.warnings.map fun d => (d.kind, d.pos.line)) =
      [(.unknownSection, 1), (.unknownSection, 5), (.stringConstantWithoutLabel, 6)] ∧
    encodingSample.Batched ∧
    (encodingSample.assemble.errors.map fun d => (d.kind, d.pos.line)) =
      [(.unresolvedSymbol, 2), (.invalidRegister, 3), (.invalidOperand, 5), (.invalidOperand, 6)] :=
  ⟨diagnostics_batched diagnosedSample (by decide), by decide +kernel, by decide +kernel,
    diagnostics_batched encodingSample (by decide), by decide +kernel⟩

end Quartet
