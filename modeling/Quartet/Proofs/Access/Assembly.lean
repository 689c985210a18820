/-
  Quartet.Proofs.Access.Assembly
  ──────────────────────────────
  **THE ASSEMBLER STAYS INSIDE ITS TABLES.**

  The first pass is given other means, and the second pass is written once more, with what they take
  by index:

    • `Checked.Directory` — a table of labels that is looked up through an index, and that no label
      may be declared in once it is frozen,
    • `Checked.text` — the first operand of a text directive,
    • `Checked.put` — the rest of a slot that operand bytes are copied to.

  The first pass declares labels in a table that is not frozen yet, and the second pass only looks
  labels up, so that a program is assembled as in the library (`Checked.assembleProgram_eq`).  So is
  a text (`Checked.assembleText_eq`): what fails to be parsed fails with a diagnostic, which is what
  it is taken for.
-/
import Quartet.Assembly.Assembler
import Quartet.Proofs.Access.Machine
import Quartet.Proofs.Access.Parser

namespace Quartet

namespace Checked

/-! ## §1. Tables of labels. -/

/-- A table of labels: the symbols in order, and the place of each name among them. -/
structure Directory where
  /-- The places of the names. -/
  index : List (Bytes × Nat) := []
  /-- The symbols. -/
  list : List Symbol := []
  /-- Whether nothing may be declared any more. -/
  frozen : Bool := false

namespace Directory

/-- The symbol with a name, if there is one. -/
def lookup (t : Directory) (name : Bytes) : Option (Option Symbol) :=
  match t.index.lookup name with
  | none => return none
  | some i => return some (← item? t.list i)

/-- Declares a symbol, which must not be done in a frozen table. -/
def declare (t : Directory) (s : Symbol) : Option Directory :=
  if t.frozen then none
  else
    match t.index.lookup s.name with
    | some i => do
      let _ ← item? t.list i
      return t
    | none =>
      return { t with index := t.index ++ [(s.name, t.list.length)], list := t.list ++ [s] }

/-- The directory of a table. -/
def ofTable (t : SymbolTable) (frozen : Bool) : Directory :=
  ⟨t.symbols.zipIdx.map fun x => (x.1.name, x.2), t.symbols, frozen⟩

/-- The index leads to the first symbol with a name. -/
theorem lookup_zipIdx (name : Bytes) (symbols : List Symbol) : ∀ k : Nat,
    ((symbols.zipIdx k).map fun x => (x.1.name, x.2)).lookup name = none ∧
        (symbols.find? fun s => s.name = name) = none ∨
      ∃ i s, ((symbols.zipIdx k).map fun x => (x.1.name, x.2)).lookup name = some (k + i) ∧
        symbols[i]? = some s ∧ (symbols.find? fun s => s.name = name) = some s := by
  induction symbols with
  | nil => exact fun _ => Or.inl ⟨rfl, rfl⟩
  | cons s symbols ih =>
      intro k
      rw [List.zipIdx_cons, List.map_cons]
      by_cases hname : s.name = name
      · refine Or.inr ⟨0, s, ?_, rfl, ?_⟩
        · rw [List.lookup_cons, beq_iff_eq.mpr hname.symm]
          rfl
        · exact List.find?_cons_of_pos (decide_eq_true hname)
      · have hne : (name == s.name) = false := beq_false_of_ne fun h => hname h.symm
        rw [List.lookup_cons, hne, List.find?_cons_of_neg (by simpa using hname)]
        rcases ih (k + 1) with hnone | ⟨i, t, hindex, hitem, hfound⟩
        · exact Or.inl hnone
        · refine Or.inr ⟨i + 1, t, ?_, hitem, hfound⟩
          rw [← Nat.add_assoc, Nat.add_right_comm]
          exact hindex

/-- **What the index leads to is there.** -/
theorem lookup_ofTable (t : SymbolTable) (frozen : Bool) (name : Bytes) :
    (ofTable t frozen).lookup name = some (t.lookup? name) := by
  unfold lookup SymbolTable.lookup?
  rcases lookup_zipIdx name t.symbols 0 with ⟨hindex, hfound⟩ | ⟨i, s, hindex, hitem, hfound⟩
  · rw [show (ofTable t frozen).index.lookup name = none from hindex, hfound]
    rfl
  · rw [Nat.zero_add] at hindex
    rw [show (ofTable t frozen).index.lookup name = some i from hindex, hfound]
    show (item? t.symbols i >>= _) = _
    rw [item?_natCast, hitem]
    rfl

/-- **Nothing is wrong with declaring in a table that is not frozen.** -/
theorem declare_ofTable (t : SymbolTable) (s : Symbol) :
    (ofTable t false).declare s = some (ofTable (t.declare s).2 false) := by
  unfold declare SymbolTable.declare SymbolTable.lookup?
  rw [if_neg (show ¬(ofTable t false).frozen = true from Bool.false_ne_true)]
  rcases lookup_zipIdx s.name t.symbols 0 with ⟨hindex, hfound⟩ | ⟨i, u, hindex, hitem, hfound⟩
  · rw [show (ofTable t false).index.lookup s.name = none from hindex, hfound]
    unfold ofTable
    simp only [List.zipIdx_append, List.map_append, Nat.zero_add]
    rfl
  · rw [Nat.zero_add] at hindex
    rw [show (ofTable t false).index.lookup s.name = some i from hindex, hfound]
    show (item? t.symbols i >>= _) = _
    rw [item?_natCast, hitem]
    rfl

/-- In a frozen table it is not done. -/
example (s : Symbol) : (Directory.ofTable {} true).declare s = none := rfl

/-- Freezes a table. -/
def freeze (t : Directory) : Directory := { t with frozen := true }

end Directory

/-! ## §2. The first pass. -/

/-- The text among operands.  The first operand is taken before their number is looked at. -/
def text (operands : List Token) : Option (Option Bytes) := do
  match ← item? operands 0 with
  | .string text => return if 1 < operands.length then none else some text
  | _ => return none

/-- **A text directive has a first operand.** -/
theorem text_eq {operands : List Token} (hne : operands ≠ []) :
    text operands = some (onlyText? operands) := by
  obtain ⟨t, ts, rfl⟩ := List.exists_cons_of_ne_nil hne
  unfold text
  rw [show item? (t :: ts) 0 = some t from rfl]
  cases t with
  | string text => cases ts <;> rfl
  | op _ | register _ | immediate _ | label _ | reference _ | directive _ => rfl

/-- The means of a first pass that takes by index what it takes. -/
def means : Means Option Directory where
  lookup := Directory.lookup
  declare := Directory.declare
  text := text

/-- What the first pass knows, with a table that is not frozen. -/
def ofLayout (l : Layout) : Survey Directory := { l with symbols := .ofTable l.symbols false }

section

variable (l : Layout) (r : Record)

theorem labelDefectBy_ofLayout (name : Bytes) :
    (ofLayout l).labelDefectBy means name = some (l.labelDefect? name) := by
  unfold Survey.labelDefectBy
  rw [l.labelDefect?_eq]
  show (if l.current = none then _ else (Directory.ofTable l.symbols false).lookup name >>= _) = _
  by_cases hcurrent : l.current = none
  · rw [if_pos hcurrent, if_pos hcurrent]
    rfl
  · rw [if_neg hcurrent, if_neg hcurrent, Directory.lookup_ofTable]
    rfl

/-- **The first pass never declares a label in a frozen table.** -/
theorem bindBy_ofLayout (name : Bytes) (space : Section) (offset : Nat) :
    (ofLayout l).bindBy means r name space offset =
      some (ofLayout (l.bind r name space offset)) := by
  unfold Survey.bindBy
  rw [l.bind_eq]
  by_cases hfar : Layout.maxOffset < offset
  · rw [if_pos hfar, if_pos hfar]
    rfl
  · rw [if_neg hfar, if_neg hfar]
    show ((Directory.ofTable l.symbols false).declare _ >>= _) = _
    rw [Directory.declare_ofTable]
    rfl

theorem bindLabelBy_ofLayout (space : Section) (offset : Nat) :
    (ofLayout l).bindLabelBy means r space offset =
      some (ofLayout (l.bindLabel r space offset)) := by
  unfold Survey.bindLabelBy
  rw [l.bindLabel_eq]
  cases r.label with
  | none => rfl
  | some name =>
      dsimp only
      rw [labelDefectBy_ofLayout]
      cases l.labelDefect? name with
      | some d => rfl
      | none => exact bindBy_ofLayout l r name space offset

theorem addOperationBy_ofLayout :
    (ofLayout l).addOperationBy means r = some (ofLayout (l.addOperation r)) := by
  unfold Survey.addOperationBy
  rw [bindLabelBy_ofLayout]
  rfl

theorem addSectionBy_ofLayout (name : Bytes) :
    (ofLayout l).addSectionBy means r name = some (ofLayout (l.addSection r name)) := by
  unfold Survey.addSectionBy
  rw [bindLabelBy_ofLayout, bindLabelBy_ofLayout, l.addSection_eq]
  have hcurrent : (ofLayout l).current = l.current := rfl
  rw [hcurrent]
  by_cases hdata : l.current = some .data
  · simp only [if_pos hdata]
    cases Section.ofName? name <;> rfl
  · simp only [if_neg hdata]
    cases Section.ofName? name <;> rfl

theorem addTextBy_ofLayout (name text : Bytes) :
    (ofLayout l).addTextBy means r name text = some (ofLayout (l.addText r name text)) := by
  unfold Survey.addTextBy
  rw [labelDefectBy_ofLayout, l.addText_eq]
  cases l.labelDefect? name with
  | some d => rfl
  | none =>
      have hdata : (ofLayout l).data = l.data := rfl
      dsimp only [Option.bind_eq_bind, Option.bind_some]
      rw [hdata]
      by_cases hfull : Image.maxDataSize < l.data.length + text.length + 1
      · rw [if_pos hfull, if_pos hfull]
        rfl
      · rw [if_neg hfull, if_neg hfull, bindBy_ofLayout]
        rfl

theorem addStringBy_ofLayout (hne : r.operands ≠ []) :
    (ofLayout l).addStringBy means r = some (ofLayout (l.addString r)) := by
  unfold Layout.addString Survey.addStringBy
  show (text r.operands >>= _) = some (ofLayout (Id.run (pure (onlyText? r.operands) >>= _)))
  rw [text_eq hne]
  cases onlyText? r.operands with
  | none => rfl
  | some text =>
      cases r.label with
      | none => rfl
      | some name => exact addTextBy_ofLayout l r name text

theorem addBy_ofLayout : (ofLayout l).addBy means r = some (ofLayout (l.add r)) := by
  unfold Survey.addBy
  rw [l.add_eq]
  cases r.head with
  | op byte => exact addOperationBy_ofLayout l r
  | directive name =>
      dsimp only
      unfold Survey.addDirectiveBy
      rw [l.addDirective_eq]
      by_cases hops : r.operands = []
      · rw [if_pos hops, if_pos hops]
        exact addSectionBy_ofLayout l r name
      · rw [if_neg hops, if_neg hops]
        by_cases hname : name = ascii "asciiz"
        · rw [if_pos hname, if_pos hname]
          exact addStringBy_ofLayout l r hops
        · rw [if_neg hname, if_neg hname]
          rfl
  | register _ | immediate _ | label _ | reference _ | string _ => rfl

end

/-- **The first pass is made without fail.** -/
theorem addAllBy_ofLayout (p : Program) : ∀ l : Layout,
    (ofLayout l).addAllBy means p = some (ofLayout (p.foldl Layout.add l)) := by
  induction p with
  | nil => exact fun _ => rfl
  | cons r p ih =>
      intro l
      show ((ofLayout l).addBy means r >>= _) = _
      rw [addBy_ofLayout]
      exact ih (l.add r)

/-! ## §3. The second pass. -/

/-- Copies bytes into a slot that is filled up to `n`: the slot and how far it is filled then, or
none if they do not fit. -/
def put (slot : Bytes) (n : Nat) (bs : Bytes) : Option (Option (Bytes × Nat)) :=
  if slotSize < n + bs.length then return none
  else do
    let room ← slice? slot n slot.length
    return some (slot.take n ++ (bs.take room.length ++ room.drop bs.length),
      n + min room.length bs.length)

/-- The bytes of one operand of an operation. -/
def operandBytes (symbols : Directory) (op : UInt8) : Token → Option (Except Defect Bytes)
  | .register index =>
    return if registerCount ≤ index.toNat then .error (.noRegister index) else .ok [index]
  | .immediate value => return .ok (wordBytes value)
  | .reference name => do
    match ← symbols.lookup name with
    | some s => return .ok [s.offset]
    | none => return .error (.unresolvedReference name)
  | token => return .error (.noOperand token op)

/-- Puts operands into a slot one after the other. -/
def putAll (symbols : Directory) (op : UInt8) :
    Bytes → Nat → List Token → Option (Except Defect Bytes)
  | slot, _, [] => return .ok slot
  | slot, n, t :: ts => do
    match ← operandBytes symbols op t with
    | .error d => return .error d
    | .ok bs =>
      match ← put slot n bs with
      | none => return .error (.tooManyOperands op)
      | some (slot, n) => putAll symbols op slot n ts

/-- The slot of a record, or what is wrong with it; none if it is no instruction. -/
def encode (symbols : Directory) (r : Record) : Option (Option (Except Diagnostic Bytes)) :=
  match r.head with
  | .op byte => do
    match ← putAll symbols byte [byte, 0, 0, 0] 1 r.operands with
    | .error d => return some (.error (d.diagnostic r.pos))
    | .ok slot => return some (.ok slot)
  | _ => return none

/-- The slots of a program's instructions in order, with those that cannot be encoded. -/
def slots (symbols : Directory) : Program → Option (List (Except Diagnostic Bytes))
  | [] => return []
  | r :: p => do
    match ← encode symbols r with
    | none => slots symbols p
    | some first => return first :: (← slots symbols p)

theorem operandBytes_ofTable (table : SymbolTable) (frozen : Bool) (op : UInt8) (t : Token) :
    operandBytes (.ofTable table frozen) op t = some (Quartet.operandBytes table op t) := by
  cases t with
  | reference name =>
      show ((Directory.ofTable table frozen).lookup name >>= _) = _
      rw [Directory.lookup_ofTable]
      simp only [Quartet.operandBytes]
      cases table.lookup? name <;> rfl
  | register _ | immediate _ | op _ | label _ | directive _ | string _ => rfl

/-- **What operands are copied to lies in the slot.** -/
theorem put_slot (op : UInt8) (placed bs : Bytes) :
    put (slot op placed) (op :: placed).length bs =
      some (if operandRoom < placed.length + bs.length then none
        else some (slot op (placed ++ bs), (op :: (placed ++ bs)).length)) := by
  unfold put
  by_cases hfull : operandRoom < placed.length + bs.length
  · rw [if_pos hfull, if_pos (by rw [List.length_cons]; unfold operandRoom slotSize at *; omega)]
    rfl
  · have hlength : bs.length ≤ operandRoom - placed.length := by omega
    -- the slot is cut after the operands placed so far, where its zeros start
    have hslot : slot op placed =
        (op :: placed) ++ List.replicate (operandRoom - placed.length) 0 := rfl
    have hroom : slice? (slot op placed) (op :: placed).length (slot op placed).length =
        some (List.replicate (operandRoom - placed.length) 0) :=
      slice?_append_right (op :: placed) _
    have htake : (slot op placed).take (op :: placed).length = op :: placed := by
      rw [hslot, List.take_left]
    have hzeros : (List.replicate (operandRoom - placed.length) (0 : UInt8)).drop bs.length =
        List.replicate (operandRoom - (placed ++ bs).length) 0 := by
      rw [List.drop_replicate, List.length_append, Nat.sub_sub]
    rw [if_neg hfull, if_neg (by rw [List.length_cons]; unfold operandRoom slotSize at *; omega),
        hroom]
    show some (some (_, _)) = some (some (_, _))
    rw [htake, hzeros, List.length_replicate, List.take_of_length_le hlength,
        Nat.min_eq_right hlength, ← List.length_append]
    unfold slot
    rw [List.cons_append, List.cons_append, List.cons_append, List.append_assoc]

theorem putAll_slot (table : SymbolTable) (frozen : Bool) (op : UInt8) (ts : List Token) :
    ∀ placed : Bytes,
      putAll (.ofTable table frozen) op (slot op placed) (op :: placed).length ts =
        some ((operandsBytes table op placed ts).map (slot op)) := by
  induction ts with
  | nil => exact fun _ => rfl
  | cons t ts ih =>
      intro placed
      unfold putAll operandsBytes
      rw [operandBytes_ofTable]
      cases Quartet.operandBytes table op t with
      | error d => rfl
      | ok bs =>
          show (put (slot op placed) (op :: placed).length bs >>= _) = _
          rw [put_slot]
          dsimp only
          by_cases hfull : operandRoom < placed.length + bs.length
          · rw [if_pos hfull, if_pos hfull]
            rfl
          · rw [if_neg hfull, if_neg hfull]
            exact ih (placed ++ bs)

theorem encode_ofTable (table : SymbolTable) (frozen : Bool) (r : Record) :
    encode (.ofTable table frozen) r = some (r.encode? table) := by
  unfold encode Record.encode?
  cases r.head with
  | op byte =>
      show (putAll (.ofTable table frozen) byte (slot byte []) [byte].length r.operands >>= _) = _
      rw [putAll_slot]
      dsimp only
      cases operandsBytes table byte [] r.operands <;> rfl
  | register _ | immediate _ | label _ | reference _ | string _ | directive _ => rfl

/-- **The second pass is made without fail**, whether the table is frozen or not. -/
theorem slots_ofTable (table : SymbolTable) (frozen : Bool) (p : Program) :
    slots (.ofTable table frozen) p = some (p.slots table) := by
  induction p with
  | nil => rfl
  | cons r p ih =>
      show (encode (.ofTable table frozen) r >>= _) = some (List.filterMap _ (r :: p))
      rw [encode_ofTable, ih, List.filterMap_cons]
      cases r.encode? table <;> rfl

/-! ## §4. Assembling. -/

/-- Assembles a program: the table is frozen between the passes. -/
def assembleProgram (p : Program) : Option Assembly := do
  let survey ← ({ symbols := {} } : Survey Directory).addAllBy means p
  let warned := survey.warnings.map Entry.warning
  if survey.errors ≠ [] then return ⟨.error survey.errors, survey.warnings, none, warned⟩
  else
    let symbols := survey.symbols.freeze
    let laidOut :=
      warned ++ [.laidOut symbols.list.length survey.data.length survey.codeSize]
    let encoded ← slots symbols p
    let errors := encoded.filterMap fun
      | .error d => some d
      | .ok _ => none
    if errors ≠ [] then return ⟨.error errors, survey.warnings, some ⟨symbols.list⟩, laidOut⟩
    else
      let code := encoded.flatMap fun
        | .error _ => []
        | .ok bs => bs
      return ⟨.ok ⟨survey.data, code⟩, survey.warnings, some ⟨symbols.list⟩,
        laidOut ++ [.encoded code.length]⟩

/-- **Assembling never reaches outside its tables.** -/
theorem assembleProgram_eq (p : Program) : assembleProgram p = some p.assemble := by
  unfold assembleProgram Program.assemble
  have hsurvey : ({ symbols := {} } : Survey Directory).addAllBy means p =
      some (ofLayout (Layout.ofProgram p)) := addAllBy_ofLayout p .start
  rw [hsurvey]
  show (if (Layout.ofProgram p).errors ≠ [] then _ else _) = _
  by_cases herrors : (Layout.ofProgram p).errors ≠ []
  · rw [if_pos herrors]
    simp only [if_pos herrors]
    rfl
  · rw [if_neg herrors]
    simp only [if_neg herrors]
    -- the second pass is made on the frozen table, which it does not declare anything in
    show (slots (.ofTable (Layout.ofProgram p).symbols true) p >>= _) = _
    rw [slots_ofTable]
    show (if Program.encodingErrors (Layout.ofProgram p).symbols p ≠ [] then _ else _) = _
    by_cases hencoding : Program.encodingErrors (Layout.ofProgram p).symbols p ≠ []
    · rw [if_pos hencoding, if_pos hencoding]
      rfl
    · rw [if_neg hencoding, if_neg hencoding]
      rfl

/-! ## §5. Texts. -/

namespace Failure

/-- The diagnostic that a failure must be. -/
def diagnostic? : Failure → Option Diagnostic
  | .diagnostic d => some d
  | _ => none

/-- The wording of a failure. -/
def message : Failure → Bytes
  | .diagnostic d => d.text
  | .batch ds => Diagnostic.textAll ds
  | .other message => message

/-- A refusal as it is handed on. -/
def ofRefusal : Refusal → Failure
  | .unreadable failure => .other failure.report
  | .rejected errors => .batch errors

end Failure

/-- Parses a text.  What fails to be parsed must fail with a diagnostic, which is handed on as a
batch. -/
def program (file src : Bytes) : Option (Except Failure Program) := do
  match ← parse file src with
  | .error e => return .error (.batch [← e.diagnostic?])
  | .ok p => return .ok p

/-- Assembles a text: the image, or why there is none, and what is noted. -/
def assembleText (file : Bytes) (input : Input) : Option (Except Failure Image × List Entry) :=
  match input.failure with
  | some failure => return (.error (.other failure.report), [])
  | none => do
    match ← program file input.text with
    | .error e => return (.error e, [])
    | .ok p =>
      let done ← assembleProgram p
      return (done.result.mapError .batch, done.entries)

/-- **What fails to be parsed is a diagnostic.** -/
theorem program_eq (file src : Bytes) :
    program file src = some ((Program.parse file src).mapError fun e => .batch [e.diagnostic]) := by
  unfold program
  rw [parse_eq]
  cases Program.parse file src <;> rfl

theorem assembleText_eq (file : Bytes) (input : Input) :
    assembleText file input =
      some ((assemble file input).result.mapError .ofRefusal, (assemble file input).entries) := by
  unfold assembleText assemble Assembler.assemble
  cases input.failure with
  | some failure => rfl
  | none =>
      dsimp only
      rw [program_eq]
      cases Program.parse file input.text with
      | error e => rfl
      | ok p =>
          show (assembleProgram p >>= _) = _
          rw [assembleProgram_eq]
          show some (p.assemble.result.mapError _, _) =
            some ((p.assemble.result.mapError Refusal.rejected).mapError _, _)
          cases p.assemble.result <;> rfl

end Checked

end Quartet
