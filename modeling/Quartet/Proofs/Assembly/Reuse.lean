/-
  Quartet.Proofs.Assembly.Reuse
  ─────────────────────────────
  **AN ASSEMBLER CAN BE USED AGAIN.**

  An assembler keeps warnings and symbols between its sources.  They are set in the middle of its
  work, so that some failures leave them alone and others do not.  Still no source sees anything of
  the sources before it, and what is kept is told by the last program among them:

    • `Assembler.take_eq` — one source: a program sets everything, any other source nothing,
    • `Assembler.after_eq` — hence what is kept after a row of sources,
    • `Source.assembled_of_layoutErrors`, `Source.assembled_of_layoutErrors_eq_nil` — what a program
      leaves, by the pass that fails,
    • `assembler_reused` — every call in a row of calls.
-/
import Quartet.Proofs.Assembly.Diagnostics

namespace Quartet

/-! ## §1. Rows of sources. -/

/-- What is given to an assembler: the name of a text and what a reader delivers of it. -/
structure Source where
  /-- The name of the text. -/
  file : Bytes
  /-- What the reader delivers. -/
  input : Input

namespace Source

/-- The program that a source writes, unless it cannot be read to its end or is not parsed. -/
def program? (s : Source) : Option Program :=
  if s.input.failure = none then (Program.parse s.file s.input.text).toOption else none

/-- Whether a source can be read and parsed. -/
def isProgram (s : Source) : Bool := s.program?.isSome

/-- What a new assembler makes of a source. -/
def assembled (s : Source) : Assembled := assemble s.file s.input

end Source

namespace Assembler

/-- Takes one source. -/
def take (a : Assembler) (s : Source) : Assembled := a.assemble s.file s.input

/-- Takes sources one after the other. -/
def takeEach (a : Assembler) : List Source → List Assembled
  | [] => []
  | s :: later => a.take s :: (a.take s).assembler.takeEach later

/-- The assembler after sources. -/
def after (a : Assembler) (sources : List Source) : Assembler :=
  sources.foldl (fun b s => (b.take s).assembler) a

/-- What a new assembler keeps of the last program among sources, if there is one. -/
def ofLast? (sources : List Source) : Option Assembler :=
  (sources.filter Source.isProgram).getLast?.map fun s => s.assembled.assembler

/-! ## §2. One source. -/

/-- **One source**: a program is assembled as by a new assembler, and any other source leaves the
assembler as it was. -/
theorem take_eq (a : Assembler) (s : Source) :
    a.take s = { s.assembled with assembler := if s.isProgram then s.assembled.assembler else a } := by
  obtain ⟨file, text, failure⟩ := s
  unfold take Source.assembled Source.isProgram Source.program? Quartet.assemble Assembler.assemble
  cases failure with
  | some failure => rfl
  | none =>
      cases hparse : Program.parse file text with
      | error e => rfl
      | ok p => rfl

/-! ## §3. All sources. -/

/-- **What an assembler keeps** is told by the last program it was given. -/
theorem after_eq (sources : List Source) :
    ∀ a : Assembler, a.after sources = (ofLast? sources).getD a := by
  induction sources with
  | nil => intro a; rfl
  | cons s later ih =>
      intro a
      show (a.take s).assembler.after later = _
      rw [ih, take_eq]
      unfold ofLast?
      by_cases hs : s.isProgram = true
      · -- a program counts unless another one follows
        rw [if_pos hs, List.filter_cons_of_pos hs, List.getLast?_cons]
        cases (later.filter Source.isProgram).getLast? <;> rfl
      · rw [if_neg hs, List.filter_cons_of_neg hs]

/-- The call for a source meets the assembler as the sources before left it. -/
theorem getElem?_takeEach (earlier : List Source) (s : Source) (later : List Source) :
    ∀ a : Assembler, (a.takeEach (earlier ++ s :: later))[earlier.length]? =
      some ((a.after earlier).take s) := by
  induction earlier with
  | nil => intro a; rfl
  | cons t earlier ih =>
      intro a
      show ((a.take t).assembler.takeEach (earlier ++ s :: later))[earlier.length]? = _
      rw [ih]
      rfl

end Assembler

/-! ## §4. What a program leaves. -/

namespace Source

variable {s : Source} {p : Program}

theorem parse_of_program? (h : s.program? = some p) :
    s.input.failure = none ∧ Program.parse s.file s.input.text = .ok p := by
  unfold program? at h
  by_cases hread : s.input.failure = none
  · rw [if_pos hread] at h
    refine ⟨hread, ?_⟩
    cases hparse : Program.parse s.file s.input.text with
    | error e =>
        rw [hparse] at h
        exact absurd h (by simp [Except.toOption])
    | ok q =>
        rw [hparse] at h
        exact congrArg Except.ok (Option.some.inj h)
  · rw [if_neg hread] at h
    exact absurd h (by simp)

/-- A source that is a program is assembled as this program. -/
theorem assembled_eq (h : s.program? = some p) :
    s.assembled.assembler = ⟨p.assemble.warnings, p.assemble.symbols⟩ ∧
      s.assembled.result = p.assemble.result.mapError Refusal.rejected := by
  obtain ⟨hread, hparse⟩ := parse_of_program? h
  unfold assembled assemble Assembler.assemble
  rw [hread, hparse]
  exact ⟨rfl, rfl⟩

theorem warnings_assemble (p : Program) :
    p.assemble.warnings = p.filterMap fun r => r.diagnose r.warning? :=
  p.assemble_warnings.trans p.warnings_ofProgram

/-- If the first pass fails, there are warnings but no symbols. -/
theorem assembled_of_layoutErrors (h : s.program? = some p) (herrors : p.layoutErrors ≠ []) :
    s.assembled.result = .error (.rejected p.layoutErrors) ∧
      s.assembled.assembler = ⟨p.filterMap fun r => r.diagnose r.warning?, none⟩ := by
  obtain ⟨hkept, hresult⟩ := assembled_eq h
  have hlayout : (Layout.ofProgram p).errors ≠ [] := by
    rw [p.errors_ofProgram]
    exact herrors
  rw [hkept, hresult, p.assemble_result, if_pos hlayout, p.errors_ofProgram, warnings_assemble,
      (Program.assemble_of_layoutErrors herrors).2]
  exact ⟨rfl, rfl⟩

/-- If it does not, all symbols are there, whether the second pass fails or not. -/
theorem assembled_of_layoutErrors_eq_nil (h : s.program? = some p) (herrors : p.layoutErrors = []) :
    s.assembled.assembler = ⟨p.filterMap fun r => r.diagnose r.warning?, some p.table⟩ ∧
      (p.encodingErrors p.table ≠ [] →
        s.assembled.result = .error (.rejected (p.encodingErrors p.table))) := by
  obtain ⟨hkept, hresult⟩ := assembled_eq h
  have hp : ∀ r ∈ p, r.isOperation ∨ r.isDirective := by
    intro r hr
    exact ((Program.writes_of_parse (parse_of_program? h).2).1 r hr).isOperation_or_isDirective
  have hlayout := p.errors_ofProgram.trans herrors
  refine ⟨?_, ?_⟩
  · rw [hkept, warnings_assemble, (Program.assemble_of_layoutErrors_eq_nil hp herrors).2]
  · intro hencoding
    rw [hresult, p.assemble_result, if_neg (not_not_intro hlayout), Program.symbols_ofProgram hp hlayout,
        if_pos hencoding]
    rfl

end Source

/-! ## §5. Calls. -/

/-- What a call gives for a source, after earlier ones, if nothing leaks from one to the next. -/
structure Assembled.Separate (outcome : Assembled) (earlier : List Source) (s : Source) : Prop where
  /-- The image or the errors are those of a new assembler. -/
  result : outcome.result = s.assembled.result
  /-- So is what is noted. -/
  entries : outcome.entries = s.assembled.entries
  /-- Kept is what a new assembler keeps of the last program so far, and nothing without one. -/
  kept : outcome.assembler = (Assembler.ofLast? (earlier ++ [s])).getD {}
  /-- A source that cannot be read or is not parsed leaves the assembler as it was. -/
  refused : s.program? = none → outcome.assembler = ({} : Assembler).after earlier
  /-- A program on which the first pass fails leaves its warnings and no symbols. -/
  layout : ∀ p, s.program? = some p → p.layoutErrors ≠ [] →
    outcome.result = .error (.rejected p.layoutErrors) ∧
      outcome.assembler = ⟨p.filterMap fun r => r.diagnose r.warning?, none⟩
  /-- Any other program leaves its warnings and the table of all its labels, -/
  symbols : ∀ p, s.program? = some p → p.layoutErrors = [] →
    outcome.assembler = ⟨p.filterMap fun r => r.diagnose r.warning?, some p.table⟩
  /-- also if the second pass fails. -/
  encoding : ∀ p, s.program? = some p → p.layoutErrors = [] → p.encodingErrors p.table ≠ [] →
    outcome.result = .error (.rejected (p.encodingErrors p.table))

/-- **Nothing leaks from one source to the next.**  Whatever sources an assembler is given one after
the other, each call gives what a new assembler would give, and what is kept after it is what a new
assembler keeps of the last program so far. -/
theorem assembler_reused (earlier : List Source) (s : Source) (later : List Source) :
    ∃ outcome, (({} : Assembler).takeEach (earlier ++ s :: later))[earlier.length]? = some outcome ∧
      outcome.Separate earlier s := by
  refine ⟨_, Assembler.getElem?_takeEach earlier s later {}, ?_⟩
  have htake := Assembler.take_eq (({} : Assembler).after earlier) s
  have hprogram : ∀ p, s.program? = some p → s.isProgram = true := by
    intro p hp
    unfold Source.isProgram
    rw [hp]
    rfl
  -- for a program the outcome is that of a new assembler altogether
  have hwhole : ∀ p, s.program? = some p →
      (({} : Assembler).after earlier).take s = s.assembled := by
    intro p hp
    rw [htake, if_pos (hprogram p hp)]
  refine ⟨by rw [htake], by rw [htake], ?_, ?_, ?_, ?_, ?_⟩
  · rw [← Assembler.after_eq]
    unfold Assembler.after
    rw [List.foldl_append]
    rfl
  · intro hnone
    have hno : ¬s.isProgram = true := by
      unfold Source.isProgram
      rw [hnone]
      exact Bool.false_ne_true
    rw [htake, if_neg hno]
  · intro p hp herrors
    rw [hwhole p hp]
    exact Source.assembled_of_layoutErrors hp herrors
  · intro p hp herrors
    rw [hwhole p hp]
    exact (Source.assembled_of_layoutErrors_eq_nil hp herrors).1
  · intro p hp herrors hencoding
    rw [hwhole p hp]
    exact (Source.assembled_of_layoutErrors_eq_nil hp herrors).2 hencoding

/-- A program with a label and a warning, a reader that fails, a text that is not parsed, and a
program on which the first pass fails after a warning. -/
def reuseSample : List Source :=
  [⟨ascii "a", { text := ascii ".code l: hlt .bss" }⟩,
   ⟨ascii "b", { text := ascii ".data", failure := some .deviceGone }⟩,
   ⟨ascii "c", { text := ascii "hlt $" }⟩,
   ⟨ascii "d", { text := ascii ".bss l: hlt" }⟩]

/-- A program on which the second pass fails. -/
def unresolvedSample : Source := ⟨ascii "e", { text := ascii ".code k: hlt m: jmp @n" }⟩

theorem assembler_reused_sample :
    (∃ outcome, (({} : Assembler).takeEach (reuseSample ++ [unresolvedSample]))[4]? = some outcome ∧
      outcome.Separate reuseSample unresolvedSample) ∧
    (({} : Assembler).takeEach (reuseSample ++ [unresolvedSample])).map (fun outcome =>
      (outcome.result.isOk, outcome.assembler.warnings.length,
        outcome.assembler.symbols.map fun table => table.symbols.map Symbol.name)) =
      [(true, 1, some [ascii "l"]), (false, 1, some [ascii "l"]), (false, 1, some [ascii "l"]),
       (false, 1, none), (false, 0, some [ascii "k", ascii "m"])] :=
  ⟨assembler_reused reuseSample unresolvedSample [], by decide +kernel⟩

end Quartet
