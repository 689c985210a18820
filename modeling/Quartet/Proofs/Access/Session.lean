/-
  Quartet.Proofs.Access.Session
  ─────────────────────────────
  **NOTHING OUTSIDE IS EVER REACHED FOR.**

  A session is written once more with what can fail in it:

    • `Checked.words` — a line is cut at the end of its first word,
    • `Checked.isSyntactic` — the first of a batch of errors tells whether a line is tried as
      hexadecimal bytes,
    • `Checked.program` — what fails to be parsed must be a diagnostic,

  beside the listing, the assembler and the machine.  A line starts with a word when it is cut, and a
  batch has a first error, which is a syntax error only if nothing was parsed.  So a session goes as in
  the library, whatever is entered, whatever the files hold and however many steps are allowed:
  `no_access_outside`.
-/
import Quartet.Proofs.Access.Assembly
import Quartet.Proofs.Access.Listing
import Quartet.Proofs.Assembly.Diagnostics
import Quartet.Session.Run

namespace Quartet

namespace Checked

/-! ## §1. What a line asks for. -/

/-- The place where the first word of a line ends; below zero if nothing ends it. -/
def wordEnd (line : Bytes) : Int :=
  match line.findIdx? Request.endsWord with
  | some i => i
  | none => -1

/-- The first word of a line and what follows it, without the white space around it. -/
def words (line : Bytes) : Option (Bytes × Bytes) :=
  if 0 < wordEnd line then do
    let word ← slice? line 0 (wordEnd line)
    let rest ← slice? line (wordEnd line) line.length
    return (word, trim rest)
  else return (line, [])

/-- The request that a first word makes. -/
def request (word argument line : Bytes) : Request :=
  if word = ascii ".quit" then .quit
  else if word = ascii ".help" then .help
  else if word = ascii ".program" then .program
  else if word = ascii ".registers" then .registers
  else if word = ascii ".heap" then .heap
  else if word = ascii ".ro" then .data
  else if word = ascii ".history" then .history
  else if word = ascii ".reset" then .reset
  else if word = ascii ".run" then .run
  else if word = ascii ".load_file" then .loadFile argument
  else .input line

theorem findIdx?_endsWord (line : Bytes) :
    line.findIdx? Request.endsWord =
      if (line.dropWhile fun b => !Request.endsWord b) = [] then none
      else some (Request.firstWord line).length := by
  unfold Request.firstWord
  induction line with
  | nil => rfl
  | cons b line ih =>
      cases hb : Request.endsWord b with
      | true => simp [List.findIdx?_cons, hb]
      | false =>
          rw [List.findIdx?_cons, hb, ih, List.dropWhile_cons_of_pos (by simp [hb]),
              List.takeWhile_cons_of_pos (by simp [hb])]
          by_cases hrest : (line.dropWhile fun b => !Request.endsWord b) = []
          · rw [if_pos hrest, if_pos hrest]
            rfl
          · rw [if_neg hrest, if_neg hrest]
            rfl

theorem wordEnd_of_eq_nil {line : Bytes}
    (h : (line.dropWhile fun b => !Request.endsWord b) = []) : wordEnd line = -1 := by
  unfold wordEnd
  rw [findIdx?_endsWord, if_pos h]

theorem wordEnd_of_ne_nil {line : Bytes}
    (h : (line.dropWhile fun b => !Request.endsWord b) ≠ []) :
    wordEnd line = (Request.firstWord line).length := by
  unfold wordEnd
  rw [findIdx?_endsWord, if_neg h]

/-- **A line that starts with a word is cut inside.** -/
theorem words_eq {line : Bytes} (h : ∀ b ∈ line.head?, Request.endsWord b = false) :
    words line = some (Request.firstWord line, Request.argument line) := by
  unfold Request.argument words
  have hline : Request.firstWord line ++ (line.dropWhile fun b => !Request.endsWord b) = line :=
    List.takeWhile_append_dropWhile
  by_cases hrest : (line.dropWhile fun b => !Request.endsWord b) = []
  · -- nothing ends the word
    rw [hrest, List.append_nil] at hline
    rw [wordEnd_of_eq_nil hrest, if_neg (by decide), hline, hrest]
    rfl
  · have hword : slice? line 0 (Request.firstWord line).length = some (Request.firstWord line) := by
      have hcut := slice?_append [] (Request.firstWord line)
        (line.dropWhile fun b => !Request.endsWord b)
      rw [hline, List.nil_append, List.length_nil, Int.natCast_zero, Int.zero_add] at hcut
      exact hcut
    have hafter : slice? line (Request.firstWord line).length line.length =
        some (line.dropWhile fun b => !Request.endsWord b) := by
      have hcut := slice?_append_right (Request.firstWord line)
        (line.dropWhile fun b => !Request.endsWord b)
      rw [hline] at hcut
      exact hcut
    -- only here does it matter that the line does not start with the end of a word
    have hpos : 0 < ((Request.firstWord line).length : Int) := by
      cases line with
      | nil => exact absurd rfl hrest
      | cons b tail =>
          unfold Request.firstWord
          rw [List.takeWhile_cons_of_pos (by rw [h b rfl]; rfl), List.length_cons]
          omega
    rw [wordEnd_of_ne_nil hrest, if_pos hpos, hword, hafter]
    rfl

theorem trimGlyphs_prefix (gs : List Glyph) : trimGlyphs gs <+: gs.dropWhile Glyph.isBlank := by
  have hsuffix := (List.dropWhile_suffix Glyph.isBlank
    (l := (gs.dropWhile Glyph.isBlank).reverse)).reverse
  rw [List.reverse_reverse] at hsuffix
  exact hsuffix

/-- A line starts with a word after trimming. -/
theorem endsWord_head_trim (line : Bytes) :
    ∀ b ∈ (trim line).head?, Request.endsWord b = false := by
  intro b hb
  unfold trim at hb
  cases hgs : trimGlyphs (glyphs line) with
  | nil =>
      rw [hgs] at hb
      exact absurd hb (by simp)
  | cons g gs =>
      obtain ⟨after, hafter⟩ := trimGlyphs_prefix (glyphs line)
      rw [hgs, List.cons_append] at hafter
      -- the first glyph that is left is not blank
      have hblank : g.isBlank = false := by
        have hhead := List.head?_dropWhile_not Glyph.isBlank (glyphs line)
        rw [← hafter] at hhead
        simpa using hhead
      have hread : g.Read := by
        have hmem : g ∈ (glyphs line).dropWhile Glyph.isBlank := by
          rw [← hafter]
          exact List.mem_cons_self
        exact Glyph.read_of_mem ((List.dropWhile_suffix Glyph.isBlank).subset hmem)
      have hmem : b ∈ g.bytes := by
        obtain ⟨a, tail, hbytes⟩ := List.exists_cons_of_ne_nil (bytes_ne_nil hread)
        rw [hgs, unread_cons, hbytes, List.cons_append, List.head?_cons] at hb
        rw [hbytes, Option.mem_some.mp hb]
        exact List.mem_cons_self
      -- a byte that ends a word is one of a glyph that is
      have hne : ∀ k : Char, k.toNat < 0x80 → isBlank k = true → b ≠ asciiByte k := by
        intro k hk hkblank heq
        rw [heq] at hmem
        have hchar := (hread.asciiByte_mem_iff hk).mp hmem
        unfold Glyph.isBlank at hblank
        rw [hchar, hkblank] at hblank
        exact absurd hblank (by decide)
      unfold Request.endsWord
      rw [decide_eq_false (hne ' ' (by decide) (by decide)),
          decide_eq_false (hne '\t' (by decide) (by decide))]
      rfl

/-! ## §2. Input for the machine. -/

/-- The code of a line's instructions, or why there is none, and what is noted on the way. -/
def lineCode (line : Bytes) : Option (Except Failure Bytes × List Entry) := do
  match ← program (ascii "input") line with
  | .error e => return (.error e, [])
  | .ok p =>
    match firstLabel? p with
    | some (pos, name) => return (.error (.other (InputProblem.label pos name).message), [])
    | none =>
      let done ← assembleProgram (inputProgram p)
      match done.result with
      | .error errors => return (.error (.batch errors), done.entries)
      | .ok img => return (.ok img.code, done.entries)

/-- Whether a failure is that of a text that is no program: the first error of a batch tells. -/
def isSyntactic : Failure → Option Bool
  | .batch errors => return (← item? errors 0).kind = .syntaxError
  | _ => return false

section Input

variable {State Broken : Type} (d : Device State Broken) (c : Console State Broken)

/-- Adds code to the program and carries out one instruction. -/
def enterCode (code : Bytes) : Option (Console State Broken) := do
  let (signal, m) ← step (c.session.machine.load code)
  return (c.withMachine m).report d signal

/-- Adds a line's code to the program and carries out one instruction. -/
def input (line : Bytes) : Option (Console State Broken) := do
  match ← lineCode line with
  | (.ok code, entries) => enterCode d (c.note entries) code
  | (.error e, entries) =>
    if ← isSyntactic e then
      match hexBytes (fields line) with
      | .error field =>
        return (c.note entries).print d
          (e.message ++ ascii "\nunable to decode hex: invalid hex byte " ++ quote field ++ ascii "\n")
      | .ok code => enterCode d (c.note entries) code
    else return (c.note entries).print d (e.message ++ ascii "\n")

end Input

theorem kind_ne_syntaxError (d : Defect) : d.kind ≠ .syntaxError := by
  cases d <;> exact nofun

theorem kind_diagnose {r : Record} {found : Option Defect} {e : Diagnostic}
    (h : r.diagnose found = some e) : e.kind ≠ .syntaxError := by
  obtain ⟨d, -, rfl⟩ := Option.map_eq_some_iff.mp h
  exact kind_ne_syntaxError d

theorem errors_of_assemble {p : Program} {errors : List Diagnostic}
    (h : p.assemble.result = .error errors) :
    errors ≠ [] ∧ ∀ e ∈ errors, e.kind ≠ .syntaxError := by
  rw [p.assemble_result] at h
  by_cases hlayout : (Layout.ofProgram p).errors = []
  · rw [if_neg (not_not_intro hlayout)] at h
    by_cases hencoding : p.encodingErrors (Layout.ofProgram p).symbols = []
    · rw [if_neg (not_not_intro hencoding)] at h
      exact absurd h (by simp)
    · rw [if_pos hencoding] at h
      obtain rfl := Except.error.inj h
      refine ⟨hencoding, ?_⟩
      intro e he
      rw [Program.encodingErrors_eq_filterMap] at he
      obtain ⟨r, -, hr⟩ := List.mem_filterMap.mp he
      exact kind_diagnose hr
  · rw [if_pos hlayout] at h
    obtain rfl := Except.error.inj h
    refine ⟨hlayout, ?_⟩
    intro e he
    rw [p.errors_ofProgram] at he
    obtain ⟨x, -, hx⟩ := List.mem_filterMap.mp he
    exact kind_diagnose hx

/-- **A batch of the assembler has a first error, which is no syntax error.** -/
theorem isSyntactic_of_assemble {p : Program} {errors : List Diagnostic}
    (h : p.assemble.result = .error errors) : isSyntactic (.batch errors) = some false := by
  obtain ⟨hne, hkinds⟩ := errors_of_assemble h
  obtain ⟨e, es, rfl⟩ := List.exists_cons_of_ne_nil hne
  show some (decide (e.kind = .syntaxError)) = some false
  rw [decide_eq_false (hkinds e List.mem_cons_self)]

/-- An empty batch would have none. -/
example : isSyntactic (.batch []) = none := rfl

section Input

variable {State Broken : Type} (d : Device State Broken) (c : Console State Broken)

theorem enterCode_eq (code : Bytes) :
    enterCode d c code =
      some ((c.withMachine (c.session.machine.load code).step.2).report d
        (c.session.machine.load code).step.1) := by
  unfold enterCode
  rw [step_eq]
  rfl

theorem input_of_ok {line code : Bytes} {entries : List Entry}
    (h : lineCode line = some (.ok code, entries)) :
    input d c line = enterCode d (c.note entries) code := by
  unfold input
  rw [h]
  rfl

/-- What is no program is tried as hexadecimal bytes, and what is one and still fails is not. -/
theorem input_of_error {line : Bytes} {e : Failure} {entries : List Entry}
    (h : lineCode line = some (.error e, entries)) (hkind : isSyntactic e = some false) :
    input d c line = some ((c.note entries).print d (e.message ++ ascii "\n")) := by
  unfold input
  rw [h]
  show (isSyntactic e >>= _) = _
  rw [hkind]
  rfl

/-- **Input for the machine is taken without fail.** -/
theorem input_eq (line : Bytes) : input d c line = some (c.input d line) := by
  have hprogram := program_eq (ascii "input") line
  cases hparse : Program.parse (ascii "input") line with
  | error e =>
      rw [hparse] at hprogram
      have hline : lineCode line = some (.error (.batch [e.diagnostic]), []) := by
        unfold lineCode
        rw [hprogram]
        rfl
      have htext : Diagnostic.textAll [e.diagnostic] = e.diagnostic.text := List.append_nil _
      -- the only error is a syntax error, so the line is tried as hexadecimal bytes
      unfold input
      rw [hline]
      cases hhex : hexBytes (fields line) with
      | error field =>
          simp only [Console.input, inputCode, hparse, hhex, InputProblem.message, ← htext]
          rfl
      | ok code =>
          simp only [Console.input, inputCode, hparse, hhex]
          exact enterCode_eq d (c.note []) code
  | ok p =>
      rw [hparse] at hprogram
      cases hlabel : firstLabel? p with
      | some found =>
          have hline : lineCode line =
              some (.error (.other (InputProblem.label found.1 found.2).message), []) := by
            simp only [lineCode, hprogram, Except.mapError, Option.bind_eq_bind, Option.bind_some,
              hlabel]
            rfl
          rw [input_of_error d c hline rfl]
          simp only [Console.input, inputCode, hparse, hlabel]
          rfl
      | none =>
          have hline : lineCode line =
              some (((inputProgram p).assemble.result.mapError .batch).map Image.code,
                (inputProgram p).assemble.entries) := by
            simp only [lineCode, hprogram, Except.mapError, Option.bind_eq_bind, Option.bind_some,
              hlabel, assembleProgram_eq]
            cases (inputProgram p).assemble.result <;> rfl
          cases hresult : (inputProgram p).assemble.result with
          | error errors =>
              -- the first error is there, and it is none that lets the line be tried otherwise
              rw [hresult] at hline
              rw [input_of_error d c hline (isSyntactic_of_assemble hresult)]
              simp only [Console.input, inputCode, hparse, hlabel, hresult]
              rfl
          | ok img =>
              rw [hresult] at hline
              rw [input_of_ok d c hline, enterCode_eq]
              simp only [Console.input, inputCode, hparse, hlabel, hresult]
              rfl

end Input

/-! ## §3. Sessions. -/

section Commands

variable {State Broken : Type} (d : Device State Broken) (c : Console State Broken)

/-- Runs the machine, for as many steps as the session allows. -/
def run : Option (Console State Broken) := do
  let (signal, m) ← runFor c.session.maxSteps.toNat c.session.machine
  if signal = .proceed then
    return (c.withMachine m).print d (ascii "stopped after " ++ decimal c.session.maxSteps
      ++ ascii " steps at " ++ decimal m.pc ++ ascii "\n")
  else return (c.withMachine m).report d signal

/-- Puts the program of a file in place of the present one. -/
def loadFile (openFile : Opener) (name : Bytes) : Option (Console State Broken) :=
  if name = [] then return c.print d (ascii "usage: .load_file <file>\n")
  else
    match openFile name with
    | .error e => return c.print d (e.message ++ ascii "\n")
    | .ok input => do
      match ← assembleText name input with
      | (.error e, entries) => return (c.note entries).print d (e.message ++ ascii "\n")
      | (.ok img, entries) =>
        return ((c.note entries).withMachine (c.session.machine.clear.loadImage img)).print d
          (ascii "loaded " ++ decimalNat img.code.length ++ ascii " bytes of code, "
            ++ decimalNat img.data.length ++ ascii " bytes of data\n")

/-- Does what is asked for; also tells whether the session ends. -/
def perform (host : Host) : Request → Option (Console State Broken × Bool)
  | .program => return (c.printAll d (← listing c.session.machine.code.toList), false)
  | .run => return (← run d c, false)
  | .loadFile name => return (← loadFile d c host.openFile name, false)
  | .input line => return (← input d c line, false)
  | asked => return c.perform d host asked

/-- Handles a line. -/
def eval (host : Host) (line : Bytes) : Option (Console State Broken × Bool) :=
  let asked := trim line
  if asked = [] then return (c, false)
  else do
    let (word, argument) ← words asked
    perform d { c with session := { c.session with history := c.session.history.push asked } } host
      (request word argument asked)

theorem run_eq : run d c = some (c.run d) := by
  unfold run Console.run
  rw [runFor_eq]
  show (if (c.session.machine.runFor c.session.maxSteps.toNat).1 = .proceed then _ else _) =
    some (if (c.session.machine.runFor c.session.maxSteps.toNat).1 = .proceed then _ else _)
  by_cases hgo : (c.session.machine.runFor c.session.maxSteps.toNat).1 = .proceed
  · rw [if_pos hgo, if_pos hgo]
    rfl
  · rw [if_neg hgo, if_neg hgo]
    rfl

theorem loadFile_eq (openFile : Opener) (name : Bytes) :
    loadFile d c openFile name = some (c.loadFile d openFile name) := by
  unfold loadFile Console.loadFile
  by_cases hname : name = []
  · rw [if_pos hname, if_pos hname]
    rfl
  · rw [if_neg hname, if_neg hname]
    cases openFile name with
    | error e => rfl
    | ok input =>
        dsimp only
        rw [assembleText_eq]
        cases (assemble name input).result with
        | error refusal => cases refusal <;> rfl
        | ok img => rfl

theorem perform_eq (host : Host) (asked : Request) :
    perform d c host asked = some (c.perform d host asked) := by
  cases asked with
  | program =>
      unfold perform
      rw [listing_eq]
      rfl
  | run =>
      unfold perform
      rw [run_eq]
      rfl
  | loadFile name =>
      show (loadFile d c host.openFile name >>= fun c => pure (c, false)) = _
      rw [loadFile_eq]
      rfl
  | input line =>
      show (input d c line >>= fun c => pure (c, false)) = _
      rw [input_eq]
      rfl
  | quit | help | registers | heap | data | history | reset => rfl

/-- **Every line is handled.** -/
theorem eval_eq (host : Host) (line : Bytes) : eval d c host line = some (c.eval d host line) := by
  unfold eval Console.eval
  by_cases hblank : trim line = []
  · simp only [if_pos hblank]
    rfl
  · simp only [if_neg hblank]
    rw [words_eq (endsWord_head_trim line)]
    exact perform_eq d _ host _

end Commands

/-- Handles lines, and ends with `last` if they all are. -/
def handle (host : Host) (last : Ending) : Transcript → List Bytes → Option Transcript
  | t, [] => return { t with ending := last }
  | t, line :: rest => do
    let (c, quit) ← eval Store.device t.console host line
    let next := t.record line c
    if quit ∨ next.ending ≠ .done then return next else handle host last next rest

/-- Runs a session on an input. -/
def converse (s : Session) (host : Host) (input : Input) (store : Store) : Option Transcript :=
  let (lines, failure) := input.lines
  handle host
    (match failure with
      | some failure => .readFailed failure
      | none => .done)
    { session := s, out := { state := store } } lines

theorem handle_eq (host : Host) (last : Ending) (lines : List Bytes) : ∀ t : Transcript,
    handle host last t lines = some (t.handle host last lines) := by
  induction lines with
  | nil => exact fun _ => rfl
  | cons line rest ih =>
      intro t
      unfold handle Transcript.handle
      rw [eval_eq]
      cases t.console.eval Store.device host line with
      | mk c quit =>
          show (if quit ∨ (t.record line c).ending ≠ .done then _ else _) =
            some (if quit ∨ (t.record line c).ending ≠ .done then _ else _)
          by_cases hend : quit ∨ (t.record line c).ending ≠ .done
          · rw [if_pos hend, if_pos hend]
            rfl
          · rw [if_neg hend, if_neg hend, ih]

end Checked

/-- **Nothing outside is ever reached for**: neither by a step of a machine, whatever its code, its
program counter and its registers, nor in a session, whatever its machine, the steps it allows, the
lines entered, the files opened and the storage written to. -/
theorem no_access_outside :
    (∀ m : Machine, Checked.step m = some m.step) ∧
      ∀ (s : Session) (host : Host) (input : Input) (store : Store),
        Checked.converse s host input store = some (s.converse host input store) := by
  refine ⟨Checked.step_eq, ?_⟩
  intro s host input store
  exact Checked.handle_eq host _ _ _

end Quartet
