/-
  Quartet.Proofs.Assembly.Declarations
  ────────────────────────────────────
  **NO DECLARATION IS LOST.**

  A declaration of a name that is taken changes nothing, and the first pass does not look at what a
  declaration gives back.  It need not: it looks the name up first, and nothing is declared between
  the two.

    • `SymbolTable.symbols_declareAll` — after any declarations the table lists the first symbol of
      each name, in order,
    • `Checked.Directory.foldlM_declare` — an index that is kept beside the list stays in step with
      it,
    • `Layout.has_addBy` — one record of the first pass makes one declaration at most, and that of
      a new name,
    • `declarations_kept` — so it is over all declarations of any program.

  The first pass is given means that note what is declared, and so all its declarations are had
  (`Layout.declarations`).
-/
import Mathlib.Data.List.Nodup
import Quartet.Proofs.Access.Assembly
import Quartet.Proofs.Assembly.Addresses

namespace Quartet

/-! ## §1. Any declarations in a new table. -/

namespace SymbolTable

/-- The table after some declarations in a new one. -/
def declareAll (ss : List Symbol) : SymbolTable := ss.foldl (fun t s => (t.declare s).2) {}

/-- The symbols with a name that none before them has. -/
def firsts (ss : List Symbol) : List Symbol :=
  (ss.zipIdx.filter fun x => (ss.take x.2).all fun s => s.name ≠ x.1.name).map Prod.fst

theorem declareAll_append_singleton (ss : List Symbol) (s : Symbol) :
    declareAll (ss ++ [s]) = ((declareAll ss).declare s).2 :=
  List.foldl_append

theorem firsts_append_singleton (ss : List Symbol) (s : Symbol) :
    firsts (ss ++ [s]) = firsts ss ++ if s.name ∈ ss.map Symbol.name then [] else [s] := by
  -- what stands before one of the earlier symbols is the same with and without the last one
  have hearlier : (ss.zipIdx.filter fun x => ((ss ++ [s]).take x.2).all fun s => s.name ≠ x.1.name) =
      ss.zipIdx.filter fun x => (ss.take x.2).all fun s => s.name ≠ x.1.name := by
    apply List.filter_congr
    rintro ⟨u, i⟩ hmem
    have hi : i < ss.length := List.snd_lt_of_mem_zipIdx hmem
    rw [List.take_append_of_le_length (Nat.le_of_lt hi)]
  unfold firsts
  rw [List.zipIdx_append, List.filter_append, List.map_append, hearlier]
  congr 1
  by_cases htaken : s.name ∈ ss.map Symbol.name
  · rw [if_pos htaken, List.zipIdx_singleton, Nat.zero_add,
        List.filter_cons_of_neg (by rw [List.take_left]; simpa using htaken)]
    rfl
  · rw [if_neg htaken, List.zipIdx_singleton, Nat.zero_add,
        List.filter_cons_of_pos (by rw [List.take_left]; simpa using htaken)]
    rfl

/-- A declaration of a name that is taken gives the earlier symbol back and changes nothing. -/
theorem declare_of_lookup?_eq_some {t : SymbolTable} {s earlier : Symbol}
    (h : t.lookup? s.name = some earlier) : t.declare s = (some earlier, t) := by
  unfold declare
  rw [h]

/-- A declaration of a new name puts its symbol at the end. -/
theorem declare_of_lookup?_eq_none {t : SymbolTable} {s : Symbol} (h : t.lookup? s.name = none) :
    t.declare s = (none, ⟨t.symbols ++ [s]⟩) :=
  Prod.ext ((declare_fst t s).trans h) (Layout.declare_of_lookup?_eq_none h)

/-- **Looking a name up** finds the first symbol that was declared for it. -/
theorem lookup?_declareAll (ss : List Symbol) (name : Bytes) :
    (declareAll ss).lookup? name = ss.find? fun s => s.name = name := by
  induction ss using List.reverseRecOn with
  | nil => rfl
  | append_singleton ss s ih =>
      rw [declareAll_append_singleton, lookup?_declare, ih, List.find?_append]
      by_cases hname : s.name = name <;> simp [hname]

theorem isSome_lookup?_declareAll (ss : List Symbol) (name : Bytes) :
    ((declareAll ss).lookup? name).isSome ↔ name ∈ ss.map Symbol.name := by
  rw [lookup?_declareAll, List.find?_isSome]
  simp

/-- **The list of a table**: the first symbol of each name, in the order of declaration. -/
theorem symbols_declareAll (ss : List Symbol) : (declareAll ss).symbols = firsts ss := by
  induction ss using List.reverseRecOn with
  | nil => rfl
  | append_singleton ss s ih =>
      rw [declareAll_append_singleton, firsts_append_singleton, ← ih]
      have hknown := isSome_lookup?_declareAll ss s.name
      cases hfound : (declareAll ss).lookup? s.name with
      | some earlier =>
          rw [hfound] at hknown
          rw [declare_of_lookup?_eq_some hfound, if_pos (hknown.mp rfl), List.append_nil]
      | none =>
          rw [hfound] at hknown
          rw [declare_of_lookup?_eq_none hfound, if_neg fun h => Bool.false_ne_true (hknown.mpr h)]

/-- A declaration repeats no name. -/
theorem nodup_declare {t : SymbolTable} (h : (t.symbols.map Symbol.name).Nodup) (s : Symbol) :
    ((t.declare s).2.symbols.map Symbol.name).Nodup := by
  cases hfound : t.lookup? s.name with
  | some earlier =>
      rw [declare_of_lookup?_eq_some hfound]
      exact h
  | none =>
      have hnew : s.name ∉ t.symbols.map Symbol.name := by
        intro hmem
        obtain ⟨u, hu, hname⟩ := List.mem_map.mp hmem
        exact absurd hname (by simpa using List.find?_eq_none.mp hfound u hu)
      rw [declare_of_lookup?_eq_none hfound, List.map_append]
      exact List.nodup_append.mpr ⟨h, List.nodup_singleton _, by
        rintro a ha b hb rfl
        rw [List.mem_singleton.mp hb] at ha
        exact hnew ha⟩

theorem nodup_declareAll (ss : List Symbol) :
    ((declareAll ss).symbols.map Symbol.name).Nodup := by
  induction ss using List.reverseRecOn with
  | nil => exact List.nodup_nil
  | append_singleton ss s ih =>
      rw [declareAll_append_singleton]
      exact nodup_declare ih s

/-- What a name that is not repeated is looked up as. -/
theorem lookup?_eq_some_iff {t : SymbolTable} (h : (t.symbols.map Symbol.name).Nodup)
    {name : Bytes} {s : Symbol} : t.lookup? name = some s ↔ s ∈ t.symbols ∧ s.name = name := by
  constructor
  · intro hfound
    exact ⟨List.mem_of_find?_eq_some hfound, of_decide_eq_true (List.find?_some hfound :)⟩
  · rintro ⟨hmem, hname⟩
    cases hfound : t.lookup? name with
    | none =>
        exact absurd hname (by simpa using List.find?_eq_none.mp hfound s hmem)
    | some u =>
        have hu : u.name = name := of_decide_eq_true (List.find?_some hfound :)
        have hsame := hu.trans hname.symm
        rw [List.inj_on_of_nodup_map h (List.mem_of_find?_eq_some hfound) hmem hsame]

end SymbolTable

/-! ## §2. The same declarations in a table with an index. -/

namespace Checked.Directory

/-- **The index stays in step with the list** over any declarations. -/
theorem foldlM_declare (ss : List Symbol) :
    ss.foldlM declare {} = some (ofTable (SymbolTable.declareAll ss) false) := by
  induction ss using List.reverseRecOn with
  | nil => rfl
  | append_singleton ss s ih =>
      rw [List.foldlM_append, ih, SymbolTable.declareAll_append_singleton, ← declare_ofTable]
      show (declare _ s >>= pure) = _
      rw [bind_pure]

/-- If no name is repeated, the index has the place of each. -/
theorem lookup_index_ofTable {t : SymbolTable} (h : (t.symbols.map Symbol.name).Nodup)
    (frozen : Bool) (name : Bytes) (i : Nat) :
    (ofTable t frozen).index.lookup name = some i ↔
      ∃ s, t.symbols[i]? = some s ∧ s.name = name := by
  rcases lookup_zipIdx name t.symbols 0 with ⟨hindex, hfound⟩ | ⟨j, u, hindex, hitem, hfound⟩
  · rw [show (ofTable t frozen).index.lookup name = none from hindex]
    refine ⟨fun hnone => absurd hnone (by simp), ?_⟩
    rintro ⟨s, hs, hname⟩
    exact absurd hname (by simpa using List.find?_eq_none.mp hfound s (List.mem_of_getElem? hs))
  · rw [Nat.zero_add] at hindex
    rw [show (ofTable t frozen).index.lookup name = some j from hindex, Option.some.injEq]
    have hu : u.name = name := of_decide_eq_true (List.find?_some hfound :)
    constructor
    · rintro rfl
      exact ⟨u, hitem, hu⟩
    · rintro ⟨s, hs, hname⟩
      have hj : (t.symbols.map Symbol.name)[j]? = some name := by
        rw [List.getElem?_map, hitem, ← hu]
        rfl
      have hi : (t.symbols.map Symbol.name)[i]? = some name := by
        rw [List.getElem?_map, hs, ← hname]
        rfl
      exact (List.getElem?_inj (List.getElem?_eq_some_iff.mp hj).1 h).mp (hj.trans hi.symm)

end Checked.Directory

/-! ## §3. One record makes one declaration at most. -/

theorem Survey.addAllBy_append_singleton {m : Type → Type} [Monad m] [LawfulMonad m] {Table : Type}
    (w : Means m Table) (l : Survey Table) (p : Program) (r : Record) :
    l.addAllBy w (p ++ [r]) = l.addAllBy w p >>= fun k => k.addBy w r := by
  unfold addAllBy
  rw [List.foldlM_append]
  congr 1
  funext k
  show (k.addBy w r >>= pure) = _
  rw [bind_pure]

namespace Layout

/-- What a record does to a layout, apart from the table: it makes one declaration at most, of its
own label and of a new name.  A label that is not declared is reported. -/
structure Effect (l : Layout) (r : Record) where
  /-- The symbol that is declared, if one is. -/
  symbol : Option Symbol
  /-- The layout with the table after that. -/
  next : SymbolTable → Layout
  symbols_next : ∀ t, (next t).symbols = t
  new : ∀ s ∈ symbol, l.symbols.lookup? s.name = none
  own : ∀ s ∈ symbol, r.label = some s.name ∧ s.pos = r.pos
  reported : r.isOperation ∨ r.isDirective → ∀ name, r.label = some name → symbol = none →
    ∃ d : Diagnostic, d.pos = r.pos ∧ ∀ t, (next t).errors = l.errors ++ [d]

namespace Effect

section

variable {l : Layout} {r : Record} {m : Type → Type} [Monad m]

/-- Has the effect, given how symbols are declared. -/
def run (e : Effect l r) (declare : SymbolTable → Symbol → m SymbolTable) : m Layout :=
  e.next <$> e.symbol.elim (pure l.symbols) (declare l.symbols)

/-- An error, and no declaration. -/
def refuse (l : Layout) (r : Record) (d : Defect) : Effect l r where
  symbol := none
  next t := { l.refuse r d with symbols := t }
  symbols_next _ := rfl
  new _ h := absurd h (by simp)
  own _ h := absurd h (by simp)
  reported _ _ _ _ := ⟨d.diagnostic r.pos, rfl, fun _ => rfl⟩

/-- No declaration, because there is no label. -/
def unlabelled (l : Layout) (r : Record)
    (h : r.isOperation ∨ r.isDirective → r.label = none) : Effect l r where
  symbol := none
  next t := { l with symbols := t }
  symbols_next _ := rfl
  new _ h := absurd h (by simp)
  own _ h := absurd h (by simp)
  reported hr _ hlabel _ := absurd ((h hr).symm.trans hlabel) (by simp)

/-- A declaration. -/
def declared (l : Layout) {r : Record} {name : Bytes} (hlabel : r.label = some name)
    (hnew : l.symbols.lookup? name = none) (space : Section) (offset : Nat) : Effect l r where
  symbol := some ⟨name, space, UInt8.ofNat offset, r.pos⟩
  next t := { l with symbols := t }
  symbols_next _ := rfl
  new s h := by
    cases h
    exact hnew
  own s h := by
    cases h
    exact ⟨hlabel, rfl⟩
  reported _ _ _ h := absurd h (by simp)

/-- An effect that is followed by something that touches neither the table nor the errors. -/
def followed (e : Effect l r) (f : Layout → Layout) (hsymbols : ∀ l, (f l).symbols = l.symbols)
    (herrors : ∀ l, (f l).errors = l.errors) : Effect l r where
  symbol := e.symbol
  next t := f (e.next t)
  symbols_next t := (hsymbols _).trans (e.symbols_next t)
  new := e.new
  own := e.own
  reported hr name hlabel hnone := by
    obtain ⟨d, hpos, hnext⟩ := e.reported hr name hlabel hnone
    exact ⟨d, hpos, fun t => (herrors _).trans (hnext t)⟩

theorem run_followed [LawfulMonad m] (e : Effect l r) {f : Layout → Layout}
    (hsymbols : ∀ l, (f l).symbols = l.symbols) (herrors : ∀ l, (f l).errors = l.errors)
    (declare : SymbolTable → Symbol → m SymbolTable) :
    (e.followed f hsymbols herrors).run declare = f <$> e.run declare := by
  unfold run followed
  rw [Functor.map_map]

end

end Effect

/-- The ways to lay something out, whatever is done to declare a symbol. -/
abbrev Way : Type 1 :=
  (m : Type → Type) → [Monad m] → (SymbolTable → Symbol → m SymbolTable) → m Layout

/-- A way has the effect of a record on a layout, however symbols are declared. -/
def Way.Has (way : Way) (l : Layout) (r : Record) : Prop :=
  ∃ e : Effect l r, ∀ (m : Type → Type) [Monad m] [LawfulMonad m]
    (declare : SymbolTable → Symbol → m SymbolTable), way m declare = e.run declare

section

variable {l : Layout} {r : Record}

theorem has_refuse (d : Defect) : Way.Has (fun _ _ _ => pure (l.refuse r d)) l r :=
  ⟨.refuse l r d, fun _ _ _ _ => (map_pure (Effect.refuse l r d).next l.symbols).symm⟩

theorem has_unlabelled (h : r.isOperation ∨ r.isDirective → r.label = none) :
    Way.Has (fun _ _ _ => pure l) l r :=
  ⟨.unlabelled l r h, fun _ _ _ _ => (map_pure (Effect.unlabelled l r h).next l.symbols).symm⟩

theorem has_warn (h : r.label = none) (d : Defect) : Way.Has (fun _ _ _ => pure (l.warn r d)) l r :=
  let e := (Effect.unlabelled l r fun _ => h).followed (fun l => l.warn r d) (fun _ => rfl)
    fun _ => rfl
  ⟨e, fun _ _ _ _ => (map_pure e.next l.symbols).symm⟩

theorem has_followed {way : Way} (h : way.Has l r) {f : Layout → Layout}
    (hsymbols : ∀ l, (f l).symbols = l.symbols) (herrors : ∀ l, (f l).errors = l.errors) :
    Way.Has (fun m _ declare => do return f (← way m declare)) l r := by
  obtain ⟨e, he⟩ := h
  refine ⟨e.followed f hsymbols herrors, fun m _ _ declare => ?_⟩
  rw [Effect.run_followed, ← he m declare]
  exact bind_pure_comp f _

/-- What comes to the same has the same effect. -/
theorem Way.Has.congr {way way' : Way} (h : way.Has l r)
    (heq : ∀ (m : Type → Type) [Monad m] [LawfulMonad m]
      (declare : SymbolTable → Symbol → m SymbolTable), way' m declare = way m declare) :
    way'.Has l r := by
  obtain ⟨e, he⟩ := h
  exact ⟨e, fun m _ _ declare => (heq m declare).trans (he m declare)⟩

/-- Looking a label up has no effect. -/
theorem labelDefectBy_declaring {m : Type → Type} [Monad m] [LawfulMonad m]
    (declare : SymbolTable → Symbol → m SymbolTable) (l : Layout) (name : Bytes) :
    l.labelDefectBy (.declaring declare) name = pure (l.labelDefect? name) := by
  unfold Survey.labelDefectBy
  rw [l.labelDefect?_eq]
  by_cases hcurrent : l.current = none
  · rw [if_pos hcurrent, if_pos hcurrent]
  · rw [if_neg hcurrent, if_neg hcurrent]
    exact pure_bind _ _

/-- **Binding a label that was looked up** declares it, or it is out of reach. -/
theorem has_bindBy {name : Bytes} (hlabel : r.label = some name)
    (hnew : l.symbols.lookup? name = none) (space : Section) (offset : Nat) :
    Way.Has (fun _ _ declare => l.bindBy (.declaring declare) r name space offset) l r := by
  unfold Survey.bindBy
  by_cases hfar : maxOffset < offset
  · simp only [if_pos hfar]
    exact has_refuse _
  · simp only [if_neg hfar]
    exact ⟨.declared l hlabel hnew space offset, fun _ _ _ _ => bind_pure_comp _ _⟩

theorem has_bindLabelBy (space : Section) (offset : Nat) :
    Way.Has (fun _ _ declare => l.bindLabelBy (.declaring declare) r space offset) l r := by
  cases hlabel : r.label with
  | none =>
      refine (has_unlabelled fun _ => hlabel).congr ?_
      intro m _ _ declare
      simp only [Survey.bindLabelBy, hlabel]
  | some name =>
      cases hdefect : l.labelDefect? name with
      | some d =>
          refine (has_refuse d).congr ?_
          intro m _ _ declare
          simp only [Survey.bindLabelBy, hlabel, labelDefectBy_declaring, hdefect, pure_bind]
      | none =>
          refine (has_bindBy hlabel (labelDefect?_eq_none hdefect) space offset).congr ?_
          intro m _ _ declare
          simp only [Survey.bindLabelBy, hlabel, labelDefectBy_declaring, hdefect, pure_bind]

theorem has_addOperationBy : Way.Has (fun _ _ declare => l.addOperationBy (.declaring declare) r) l r :=
  has_followed (has_bindLabelBy .code l.codeSize) (fun _ => rfl) fun _ => rfl

theorem has_addSectionBy (name : Bytes) :
    Way.Has (fun _ _ declare => l.addSectionBy (.declaring declare) r name) l r := by
  -- one section or the other: the label is looked up and bound in either
  have hbound : Way.Has (fun _ _ declare =>
      if l.current = some .data then l.bindLabelBy (.declaring declare) r .data l.data.length
      else l.bindLabelBy (.declaring declare) r .code l.codeSize) l r := by
    by_cases hdata : l.current = some .data
    · simp only [if_pos hdata]
      exact has_bindLabelBy _ _
    · simp only [if_neg hdata]
      exact has_bindLabelBy _ _
  unfold Survey.addSectionBy
  cases Section.ofName? name with
  | some s => exact has_followed hbound (fun _ => rfl) fun _ => rfl
  | none => exact has_followed hbound (fun _ => rfl) fun _ => rfl

theorem has_addTextBy {name : Bytes} (hlabel : r.label = some name) (text : Bytes) :
    Way.Has (fun _ _ declare => l.addTextBy (.declaring declare) r name text) l r := by
  cases hdefect : l.labelDefect? name with
  | some d =>
      refine (has_refuse d).congr ?_
      intro m _ _ declare
      simp only [Survey.addTextBy, labelDefectBy_declaring, hdefect, pure_bind]
  | none =>
      by_cases hfull : Image.maxDataSize < l.data.length + text.length + 1
      · refine (has_refuse (.tooMuchData name (l.data.length + text.length + 1))).congr ?_
        intro m _ _ declare
        simp only [Survey.addTextBy, labelDefectBy_declaring, hdefect, pure_bind, if_pos hfull]
      · -- nothing was declared since the label was looked up; the text goes to the data afterwards
        have hbound := has_bindBy hlabel (labelDefect?_eq_none hdefect) .data l.data.length
        refine (has_followed hbound (f := fun bound => { bound with data := bound.data ++ text ++ [0] })
          (fun _ => rfl) fun _ => rfl).congr ?_
        intro m _ _ declare
        simp only [Survey.addTextBy, labelDefectBy_declaring, hdefect, pure_bind, if_neg hfull]

theorem has_addStringBy : Way.Has (fun _ _ declare => l.addStringBy (.declaring declare) r) l r := by
  -- taking the text of the directive has no effect, either
  cases htext : onlyText? r.operands with
  | none =>
      refine (has_refuse .notOneString).congr ?_
      intro m _ _ declare
      show (pure (onlyText? r.operands) >>= _) = _
      rw [pure_bind, htext]
  | some text =>
      cases hlabel : r.label with
      | none =>
          refine (has_warn hlabel (.unlabelledString text)).congr ?_
          intro m _ _ declare
          show (pure (onlyText? r.operands) >>= _) = _
          rw [pure_bind, htext]
          simp only [hlabel]
      | some name =>
          refine (has_addTextBy hlabel text).congr ?_
          intro m _ _ declare
          show (pure (onlyText? r.operands) >>= _) = _
          rw [pure_bind, htext]
          simp only [hlabel]

/-- **One record makes one declaration at most, and that of a new name.** -/
theorem has_addBy (l : Layout) (r : Record) :
    Way.Has (fun _ _ declare => l.addBy (.declaring declare) r) l r := by
  unfold Survey.addBy
  cases hhead : r.head with
  | op byte => exact has_addOperationBy
  | directive name =>
      simp only
      unfold Survey.addDirectiveBy
      by_cases hops : r.operands = []
      · simp only [if_pos hops]
        exact has_addSectionBy name
      · simp only [if_neg hops]
        by_cases hname : name = ascii "asciiz"
        · simp only [if_pos hname]
          exact has_addStringBy
        · simp only [if_neg hname]
          exact has_refuse _
  | register _ | immediate _ | label _ | reference _ | string _ =>
      exact has_unlabelled (by simp [Record.isOperation, Record.isDirective, hhead])

end

/-! ## §4. All declarations of the first pass. -/

/-- Declares a symbol and notes it, with the table it is declared in. -/
def note (t : SymbolTable) (s : Symbol) : StateM (List (SymbolTable × Symbol)) SymbolTable :=
  modifyGet fun log => ((t.declare s).2, log ++ [(t, s)])

theorem Effect.run_note {l : Layout} {r : Record} (e : Effect l r)
    (log : List (SymbolTable × Symbol)) :
    (e.run note).run log =
      (e.run (m := Id) fun t s => (t.declare s).2,
        log ++ e.symbol.toList.map (Prod.mk l.symbols)) := by
  unfold run
  cases e.symbol with
  | none => exact congrArg (Prod.mk _) (List.append_nil log).symm
  | some s => rfl

/-- What is declared of a new name is the next symbol of the table. -/
theorem Effect.run_declare {l : Layout} {r : Record} (e : Effect l r) :
    e.run (m := Id) (fun t s => (t.declare s).2) =
      e.next ⟨l.symbols.symbols ++ e.symbol.toList⟩ := by
  have hnew := e.new
  unfold run
  -- here the result of the declaration is dropped, and nothing is lost because the name is new
  cases hsymbol : e.symbol with
  | none =>
      show e.next l.symbols = e.next ⟨l.symbols.symbols ++ []⟩
      rw [List.append_nil]
  | some s =>
      show e.next (l.symbols.declare s).2 = e.next ⟨l.symbols.symbols ++ [s]⟩
      rw [declare_of_lookup?_eq_none (hnew s hsymbol)]

/-- **One record**: what it declares is noted, and the table grows by it. -/
theorem exists_effect (l : Layout) (r : Record) : ∃ e : Effect l r,
    (∀ log, (l.addBy (.declaring note) r).run log =
      (l.add r, log ++ e.symbol.toList.map (Prod.mk l.symbols))) ∧
      l.add r = e.next ⟨l.symbols.symbols ++ e.symbol.toList⟩ := by
  obtain ⟨e, he⟩ := has_addBy l r
  have hadd : e.run (m := Id) (fun t s => (t.declare s).2) = l.add r :=
    (he Id _).symm
  refine ⟨e, fun log => ?_, hadd.symm.trans e.run_declare⟩
  have hnote : l.addBy (.declaring note) r = e.run note := he _ note
  rw [hnote, e.run_note, hadd]

/-- The declarations that the first pass makes, each with the table it is made in. -/
def declarations (p : Program) : List (SymbolTable × Symbol) :=
  ((start.addAllBy (.declaring note) p).run []).2

/-- The last record is laid out where the others end, and notes after what they noted. -/
theorem run_append_singleton (p : Program) (r : Record) :
    (start.addAllBy (.declaring note) (p ++ [r])).run [] =
      (((start.addAllBy (.declaring note) p).run []).1.addBy (.declaring note) r).run
        (declarations p) := by
  rw [Survey.addAllBy_append_singleton]
  rfl

/-- Noting the declarations changes nothing else. -/
theorem run_addAllBy_note (p : Program) :
    (start.addAllBy (.declaring note) p).run [] = (ofProgram p, declarations p) := by
  suffices h : ((start.addAllBy (.declaring note) p).run []).1 = ofProgram p from Prod.ext h rfl
  induction p using List.reverseRecOn with
  | nil => rfl
  | append_singleton p r ih =>
      obtain ⟨e, hrun, -⟩ := exists_effect (ofProgram p) r
      rw [run_append_singleton, ofProgram_append, ih, hrun]
      rfl

/-- What the last record of a program adds. -/
theorem exists_effect_ofProgram (p : Program) (r : Record) : ∃ e : Effect (ofProgram p) r,
    declarations (p ++ [r]) =
        declarations p ++ e.symbol.toList.map (Prod.mk (ofProgram p).symbols) ∧
      ofProgram (p ++ [r]) = e.next ⟨(ofProgram p).symbols.symbols ++ e.symbol.toList⟩ := by
  obtain ⟨e, hrun, hadd⟩ := exists_effect (ofProgram p) r
  refine ⟨e, ?_, (ofProgram_append p [r]).trans hadd⟩
  show ((start.addAllBy (.declaring note) (p ++ [r])).run []).2 = _
  rw [run_append_singleton, run_addAllBy_note, hrun]

/-- **The table of the first pass** lists the declared symbols, all of them. -/
theorem symbols_ofProgram (p : Program) :
    (ofProgram p).symbols.symbols = (declarations p).map Prod.snd := by
  induction p using List.reverseRecOn with
  | nil => rfl
  | append_singleton p r ih =>
      obtain ⟨e, hdeclarations, hnext⟩ := exists_effect_ofProgram p r
      rw [hnext, e.symbols_next, hdeclarations, List.map_append, List.map_map, ← ih]
      exact congrArg (List.append _) (List.map_id _).symm

/-- It is the table that the same declarations make of a new one. -/
theorem symbols_ofProgram_eq_declareAll (p : Program) :
    (ofProgram p).symbols = .declareAll ((declarations p).map Prod.snd) := by
  induction p using List.reverseRecOn with
  | nil => rfl
  | append_singleton p r ih =>
      obtain ⟨e, hdeclarations, hnext⟩ := exists_effect_ofProgram p r
      rw [hnext, e.symbols_next, hdeclarations, List.map_append, List.map_map]
      cases hsymbol : e.symbol with
      | none =>
          simp only [Option.toList_none, List.map_nil, List.append_nil]
          exact ih
      | some s =>
          have hnew := e.new s hsymbol
          show _ = SymbolTable.declareAll ((declarations p).map Prod.snd ++ [s])
          rw [SymbolTable.declareAll_append_singleton, ← ih, declare_of_lookup?_eq_none hnew]
          rfl

theorem nodup_ofProgram (p : Program) : ((ofProgram p).symbols.symbols.map Symbol.name).Nodup := by
  rw [symbols_ofProgram_eq_declareAll]
  exact SymbolTable.nodup_declareAll _

/-- **Every declaration is of a new name**, in the table of those before it. -/
theorem declaration_new (p : Program) {before : List (SymbolTable × Symbol)} {t : SymbolTable}
    {s : Symbol} (h : before ++ [(t, s)] <+: declarations p) :
    t = .declareAll (before.map Prod.snd) ∧ t.lookup? s.name = none := by
  induction p using List.reverseRecOn with
  | nil => exact absurd (List.prefix_nil.mp (show _ <+: [] from h)) (by simp)
  | append_singleton p r ih =>
      obtain ⟨e, hdeclarations, -⟩ := exists_effect_ofProgram p r
      rw [hdeclarations] at h
      -- a declaration of the last record, or one that was made before it
      cases hsymbol : e.symbol with
      | none =>
          rw [hsymbol, Option.toList_none, List.map_nil, List.append_nil] at h
          exact ih h
      | some u =>
          rw [hsymbol, Option.toList_some, List.map_cons, List.map_nil, List.prefix_concat_iff] at h
          rcases h with hlast | hearlier
          · obtain ⟨rfl, hpair⟩ := List.append_inj' hlast rfl
            cases hpair
            exact ⟨symbols_ofProgram_eq_declareAll p, e.new _ hsymbol⟩
          · exact ih hearlier

/-- A declaration stays made. -/
theorem declarations_append (p q : Program) : declarations p <+: declarations (p ++ q) := by
  induction q using List.reverseRecOn with
  | nil => exact (congrArg declarations (List.append_nil p)).symm ▸ List.prefix_refl _
  | append_singleton q r ih =>
      obtain ⟨e, hdeclarations, -⟩ := exists_effect_ofProgram (p ++ q) r
      rw [← List.append_assoc, hdeclarations]
      exact ih.trans (List.prefix_append _ _)

/-- **A label is declared or reported.** -/
theorem label_declared_or_reported (before : Program) {r : Record} (after : Program)
    (hr : r.isOperation ∨ r.isDirective) {name : Bytes} (hlabel : r.label = some name) :
    (∃ d : Diagnostic, d.pos = r.pos ∧
        (ofProgram (before ++ [r])).errors = (ofProgram before).errors ++ [d]) ∨
      ∃ s, s.name = name ∧ s.pos = r.pos ∧
        ((ofProgram before).symbols, s) ∈ declarations (before ++ r :: after) := by
  obtain ⟨e, hdeclarations, hnext⟩ := exists_effect_ofProgram before r
  cases hsymbol : e.symbol with
  | none =>
      obtain ⟨d, hpos, herrors⟩ := e.reported hr name hlabel hsymbol
      refine Or.inl ⟨d, hpos, ?_⟩
      rw [hnext]
      exact herrors _
  | some s =>
      obtain ⟨hname, hpos⟩ := e.own s hsymbol
      rw [hlabel, Option.some.injEq] at hname
      have hmem : ((ofProgram before).symbols, s) ∈ declarations (before ++ [r]) := by
        rw [hdeclarations, hsymbol]
        simp
      have hprefix := declarations_append (before ++ [r]) after
      rw [List.append_assoc] at hprefix
      exact Or.inr ⟨s, hname.symm, hpos, hprefix.subset hmem⟩

end Layout

/-! ## §5. Nothing is lost. -/

/-- **No declaration is lost.**  After any declarations in a new table, its list has the first
symbol of each name, in the order of declaration and no name twice.  A name is found exactly if it was
declared, and what is found is the entry of the list with that name, the first that was declared.
Declaring it again gives that entry back and changes nothing.  A table with an index beside its list
never fails on the same declarations, and the index has the place of each name.

Of any program, each declaration of the first pass is made in the table of those before it, and of a
name that is not there yet.  So the table has all of them in the end; and a label of an instruction
or a directive is among them, or its record is reported. -/
theorem declarations_kept :
    (∀ ss : List Symbol,
      let t := SymbolTable.declareAll ss
      t.symbols = SymbolTable.firsts ss ∧ (t.symbols.map Symbol.name).Nodup ∧
      (∀ name, (t.lookup? name).isSome ↔ name ∈ ss.map Symbol.name) ∧
      (∀ name, t.lookup? name = ss.find? fun s => s.name = name) ∧
      (∀ name s, t.lookup? name = some s ↔ s ∈ t.symbols ∧ s.name = name) ∧
      (∀ s, s.name ∈ ss.map Symbol.name →
        ∃ earlier, t.lookup? s.name = some earlier ∧ t.declare s = (some earlier, t)) ∧
      (∀ s, s.name ∉ ss.map Symbol.name → t.declare s = (none, ⟨t.symbols ++ [s]⟩)) ∧
      ∃ d : Checked.Directory, ss.foldlM Checked.Directory.declare {} = some d ∧
        d.list = t.symbols ∧ (∀ name, d.lookup name = some (t.lookup? name)) ∧
        ∀ name i, d.index.lookup name = some i ↔ ∃ s, d.list[i]? = some s ∧ s.name = name) ∧
    ∀ p : Program,
      (∀ before t s, before ++ [(t, s)] <+: Layout.declarations p →
        t = SymbolTable.declareAll (before.map Prod.snd) ∧ t.lookup? s.name = none ∧
          t.declare s = (none, ⟨t.symbols ++ [s]⟩)) ∧
      (Layout.ofProgram p).symbols.symbols = (Layout.declarations p).map Prod.snd ∧
      (∀ t s, (t, s) ∈ Layout.declarations p →
        (Layout.ofProgram p).symbols.lookup? s.name = some s) ∧
      ∀ before r after name, p = before ++ r :: after → r.isOperation ∨ r.isDirective →
        r.label = some name →
        (∃ d : Diagnostic, d.pos = r.pos ∧
          (Layout.ofProgram (before ++ [r])).errors = (Layout.ofProgram before).errors ++ [d]) ∨
        ∃ s, s.name = name ∧ s.pos = r.pos ∧
          ((Layout.ofProgram before).symbols, s) ∈ Layout.declarations p := by
  constructor
  · intro ss t
    have hnodup := SymbolTable.nodup_declareAll ss
    have hknown := SymbolTable.isSome_lookup?_declareAll ss
    refine ⟨SymbolTable.symbols_declareAll ss, hnodup, hknown, SymbolTable.lookup?_declareAll ss,
      fun _ _ => SymbolTable.lookup?_eq_some_iff hnodup, ?_, ?_, .ofTable t false,
      Checked.Directory.foldlM_declare ss, rfl, Checked.Directory.lookup_ofTable t false,
      Checked.Directory.lookup_index_ofTable hnodup false⟩
    · intro s hs
      obtain ⟨earlier, hearlier⟩ := Option.isSome_iff_exists.mp ((hknown s.name).mpr hs)
      exact ⟨earlier, hearlier, SymbolTable.declare_of_lookup?_eq_some hearlier⟩
    · intro s hs
      apply SymbolTable.declare_of_lookup?_eq_none
      rw [← Option.not_isSome_iff_eq_none, hknown]
      exact hs
  · intro p
    refine ⟨?_, Layout.symbols_ofProgram p, ?_, ?_⟩
    · intro before t s hprefix
      obtain ⟨htable, hnew⟩ := Layout.declaration_new p hprefix
      exact ⟨htable, hnew, SymbolTable.declare_of_lookup?_eq_none hnew⟩
    · intro t s hmem
      rw [SymbolTable.lookup?_eq_some_iff (Layout.nodup_ofProgram p), Layout.symbols_ofProgram]
      exact ⟨List.mem_map_of_mem (f := Prod.snd) hmem, rfl⟩
    · rintro before r after name rfl hr hlabel
      exact Layout.label_declared_or_reported before after hr hlabel

/-- A label that stands before two records, with another one between them. -/
def repeatedLabel : Program :=
  [{ head := .directive (ascii "code") },
    { label := some (ascii "a"), head := .op 0 },
    { label := some (ascii "b"), head := .directive (ascii "data") },
    { label := some (ascii "a"), head := .directive (ascii "asciiz"),
      operands := [.string (ascii "x")] }]

theorem declarations_kept_sample :
    (∃ earlier, earlier.space = .code ∧
      (SymbolTable.declareAll [⟨ascii "a", .code, 0, {}⟩, ⟨ascii "b", .data, 1, {}⟩]).declare
          ⟨ascii "a", .data, 2, {}⟩ =
        (some earlier, .declareAll [⟨ascii "a", .code, 0, {}⟩, ⟨ascii "b", .data, 1, {}⟩])) ∧
    (∃ s, s.name = ascii "b" ∧
      (Layout.ofProgram repeatedLabel).symbols.lookup? (ascii "b") = some s) ∧
    (Layout.declarations repeatedLabel).length = 2 ∧
      (Layout.ofProgram repeatedLabel).errors.length = 1 := by
  obtain ⟨htable, hpass⟩ := declarations_kept
  obtain ⟨-, -, -, -, -, htaken, -, -⟩ :=
    htable [⟨ascii "a", .code, 0, {}⟩, ⟨ascii "b", .data, 1, {}⟩]
  obtain ⟨-, -, hfound, hlabel⟩ := hpass repeatedLabel
  refine ⟨?_, ?_, rfl, rfl⟩
  · obtain ⟨earlier, hearlier, hdeclare⟩ := htaken ⟨ascii "a", .data, 2, {}⟩ (by decide)
    refine ⟨earlier, ?_, hdeclare⟩
    cases hearlier
    rfl
  · rcases hlabel (repeatedLabel.take 2) _ (repeatedLabel.drop 3) (ascii "b") rfl (Or.inr rfl) rfl
      with ⟨d, -, herrors⟩ | ⟨s, hname, -, hmem⟩
    · exact absurd (herrors.symm.trans (show _ = [] from rfl)) (by simp)
    · refine ⟨s, hname, ?_⟩
      rw [← hname]
      exact hfound _ s hmem

end Quartet
