/-
  Quartet.Proofs.Session.Batch
  ────────────────────────────
  **ENTERING A PROGRAM LINE BY LINE IS ASSEMBLING IT.**

  Instructions without labels may be entered in a session, which loads the code of each line and takes
  one step before it reads the next, or they may be assembled as one text and run.  The two agree:

    • `Session.exists_program` — a line of plain instructions loads the slots of its records,
    • `Session.parse_text`, `Session.assemble_text` — the whole text writes the records of all its
      lines, so its code is theirs together,
    • `Session.machine_reply`, `Session.machine_handle` — one line, hence all lines, make the machine
      go through loads and steps,
    • `converse_eq_batch` — and these come down to one load and the steps that count.
-/
import Mathlib.Data.List.Basic
import Quartet.Proofs.Assembly.Unlabelled
import Quartet.Proofs.Machine.Loading
import Quartet.Proofs.Session.Replies
import Quartet.Proofs.Source.Completeness
import Quartet.Proofs.Source.Lines

namespace Quartet

/-- The empty text is a program of no records. -/
theorem Program.parse_nil (file : Bytes) : Program.parse file [] = .ok [] := by
  -- the parser is not run: it accepts what writes no record
  obtain ⟨p, hparse, hsame⟩ := Program.parse_of_writes Program.writes_nil file
  rw [hparse, List.map_eq_nil_iff.mp hsame]

/-- An input that is read to its end is cut into lines whole. -/
theorem Input.lines_of_whole {input : Input} (h : input.lines.2 = none) :
    (linesOf input.text #[]).2 = false ∧ input.failure = none ∧
      input.lines.1 = (linesOf input.text #[]).1 := by
  unfold Input.lines at h ⊢
  generalize linesOf input.text #[] = read at h ⊢
  obtain ⟨lines, long⟩ := read
  cases long with
  | true => exact absurd h nofun
  | false => exact ⟨rfl, h, rfl⟩

namespace Session

/-! ## §1. Lines of plain instructions. -/

/-- A text that is accepted as instructions without labels. -/
def IsPlain (src : Bytes) : Prop :=
  ∃ p img, Program.parse (ascii "input") src = .ok p ∧ (∀ r ∈ p, r.label = none) ∧
    (inputProgram p).assemble.result = .ok img

/-- A line that is no command but plain instructions, unless it is blank. -/
def Enters (line : Bytes) : Prop :=
  trim line ≠ [] → Request.ofLine (trim line) = .input (trim line) ∧ IsPlain (trim line)

/-- Whether a text is plain can be computed. -/
theorem isPlain_iff {src : Bytes} :
    IsPlain src ↔
      (match Program.parse (ascii "input") src with
        | .ok p => p.all (·.label.isNone) && (inputProgram p).assemble.result.isOk
        | .error _ => false) = true := by
  unfold IsPlain
  cases hparse : Program.parse (ascii "input") src with
  | error e => simp
  | ok p =>
      simp only [Except.ok.injEq, Bool.and_eq_true, List.all_eq_true, Option.isNone_iff_eq_none]
      constructor
      · rintro ⟨_, img, rfl, hlabel, hok⟩
        exact ⟨hlabel, by rw [hok]; rfl⟩
      · rintro ⟨hlabel, hok⟩
        cases hresult : (inputProgram p).assemble.result with
        | error errors => rw [hresult] at hok; exact absurd hok nofun
        | ok img => exact ⟨p, img, rfl, hlabel, hresult⟩

instance : DecidablePred IsPlain := fun _ => decidable_of_iff _ isPlain_iff.symm

instance : DecidablePred Enters := fun _ => inferInstanceAs (Decidable (_ → _ ∧ _))

/-- The code that a line stands for. -/
def lineCode (line : Bytes) : Bytes :=
  match (inputCode (trim line)).1 with
  | .ok code => code
  | .error _ => []

/-- The records of a line. -/
def lineProgram (line : Bytes) : Program :=
  match Program.parse (ascii "input") (trim line) with
  | .ok p => p
  | .error _ => []

theorem isPlain_nil : IsPlain [] :=
  ⟨[], ⟨[], []⟩, Program.parse_nil _, List.forall_mem_nil _, rfl⟩

theorem Enters.isPlain {line : Bytes} (h : Enters line) : IsPlain (trim line) := by
  by_cases hblank : trim line = []
  · rw [hblank]
    exact isPlain_nil
  · exact (h hblank).2

/-- **A line of plain instructions** is taken for the slots of its records, which stand alone. -/
theorem exists_program {src : Bytes} (h : IsPlain src) :
    ∃ p, Program.parse (ascii "input") src = .ok p ∧ (∀ r ∈ p, r.SelfContained) ∧
      (inputCode src).1 = .ok (p.flatMap (Program.slotImage [])) := by
  obtain ⟨p, img, hparse, hlabel, hok⟩ := h
  have hhead : ∀ r ∈ p, r.isOperation ∨ r.isDirective := by
    intro r hr
    exact ((Program.writes_of_parse hparse).1 r hr).isOperation_or_isDirective
  have hlabel' : ∀ r ∈ inputProgram p, r.label = none := List.forall_mem_cons.mpr ⟨rfl, hlabel⟩
  have hhead' : ∀ r ∈ inputProgram p, r.isOperation ∨ r.isDirective :=
    List.forall_mem_cons.mpr ⟨Or.inr rfl, hhead⟩
  obtain ⟨hall, rfl⟩ := (Program.assemble_eq_ok_iff_selfContained hlabel' hhead').mp hok
  have hfirst : firstLabel? p = none := by
    unfold firstLabel?
    rw [List.findSome?_eq_none_iff]
    intro r hr
    rw [hlabel r hr]
    rfl
  refine ⟨p, hparse, (List.forall_mem_cons.mp hall).2, ?_⟩
  unfold inputCode
  simp only [hparse, hfirst, hok]
  -- the section header in front has no slot
  rfl

theorem Enters.inputCode_eq {line : Bytes} (h : Enters line) :
    (inputCode (trim line)).1 = .ok (lineCode line) := by
  obtain ⟨p, -, -, hcode⟩ := exists_program h.isPlain
  unfold lineCode
  rw [hcode]

theorem Enters.line_eq {line : Bytes} (h : Enters line) :
    Program.parse (ascii "input") (trim line) = .ok (lineProgram line) ∧
      (∀ r ∈ lineProgram line, r.SelfContained) ∧
      lineCode line = (lineProgram line).flatMap (Program.slotImage []) := by
  obtain ⟨p, hparse, hall, hcode⟩ := exists_program h.isPlain
  unfold lineCode lineProgram
  rw [hparse, hcode]
  exact ⟨rfl, hall, rfl⟩

theorem lineCode_of_blank {line : Bytes} (h : trim line = []) : lineCode line = [] := by
  have henters : Enters line := fun hne => absurd h hne
  obtain ⟨hparse, -, hcode⟩ := henters.line_eq
  rw [h, Program.parse_nil] at hparse
  rw [hcode, ← Except.ok.inj hparse]
  rfl

/-! ## §2. The whole text. -/

/-- **The whole text is parsed as the records of its lines.** -/
theorem parse_text {input : Input} (hwhole : input.lines.2 = none)
    (hlines : ∀ line ∈ input.lines.1, Enters line) (file : Bytes) :
    ∃ p, Program.parse file input.text = .ok p ∧ p.Same (input.lines.1.flatMap lineProgram) := by
  obtain ⟨hlong, -, heq⟩ := Input.lines_of_whole hwhole
  obtain ⟨lines, hall, hwrites⟩ := Program.writes_of_linesOf input.text #[] hlong
  rw [heq] at hlines ⊢
  rw [hall] at hlines ⊢
  refine Program.parse_of_writes (hwrites ?_) file
  intro line hline hnewline
  have hparse := (hlines line hline).line_eq.1
  exact (Program.writes_of_parse hparse).of_trim hnewline

theorem assemble_text {input : Input} (hwhole : input.lines.2 = none)
    (hlines : ∀ line ∈ input.lines.1, Enters line) (a : Assembler) (file : Bytes) :
    (a.assemble file input).result = .ok ⟨[], input.lines.1.flatMap lineCode⟩ := by
  obtain ⟨p, hparse, hsame⟩ := parse_text hwhole hlines file
  have hall : ∀ r ∈ p, r.SelfContained := by
    refine hsame.selfContained ?_
    intro r hr
    obtain ⟨line, hline, hr⟩ := List.mem_flatMap.mp hr
    exact (hlines line hline).line_eq.2.1 r hr
  have hcode : p.flatMap (Program.slotImage []) = input.lines.1.flatMap lineCode := by
    rw [hsame.flatMap_slotImage, List.flatMap_assoc]
    refine List.flatMap_congr ?_
    intro line hline
    exact (hlines line hline).line_eq.2.2.symm
  -- where a record stands in the text does not show in its slot
  have hok := (Program.assemble_eq_ok_iff_selfContained (fun r hr => (hall r hr).label)
    (fun r hr => (hall r hr).head)).mpr ⟨hall, rfl⟩
  rw [hcode] at hok
  unfold Assembler.assemble
  simp only [(Input.lines_of_whole hwhole).2.1, hparse, hok]
  rfl

/-! ## §3. The session. -/

/-- The calls that a line of plain instructions makes. -/
def lineCalls (line : Bytes) : List Machine.Call :=
  if trim line = [] then [] else [.load (lineCode line), .step]

theorem machine_enter {line : Bytes} (h : Enters line) (s : Session) :
    (s.enter (trim line)).quit = false ∧
      (s.enter (trim line)).session.machine = (s.machine.load (lineCode line)).step.2 := by
  have hcode := h.inputCode_eq
  rw [enter_eq]
  -- what is noted on the way does not matter
  generalize inputCode (trim line) = read at hcode ⊢
  obtain ⟨result, entries⟩ := read
  obtain rfl : result = .ok (lineCode line) := hcode
  exact ⟨rfl, rfl⟩

/-- **One line** makes the machine go through its calls, and the session goes on. -/
theorem machine_reply {line : Bytes} (h : Enters line) (s : Session) (host : Host) :
    (s.reply host line).quit = false ∧
      (s.reply host line).session.machine = (s.machine.callAll (lineCalls line)).2 := by
  by_cases hblank : trim line = []
  · have hreply : s.reply host line = { session := s } :=
      (s.reply_eq host line).trans (if_pos hblank)
    rw [hreply, show lineCalls line = [] from if_pos hblank]
    exact ⟨rfl, rfl⟩
  · have hreply : s.reply host line =
        { s with history := s.history.push (trim line) }.perform host (.ofLine (trim line)) :=
      (s.reply_eq host line).trans (if_neg hblank)
    rw [hreply, (h hblank).1, show lineCalls line = [.load (lineCode line), .step] from if_neg hblank]
    exact machine_enter h _

/-- A session that ends well has gone on after each line that did not ask for its end. -/
theorem handle_of_ending {host : Host} {last : Ending} {t : Transcript} {line : Bytes}
    {rest : List Bytes} (hquit : (t.session.reply host line).quit = false)
    (hdone : (Transcript.handle host last t (line :: rest)).ending = .done) :
    Transcript.handle host last t (line :: rest) =
      Transcript.handle host last (t.add line (t.session.reply host line)) rest := by
  by_cases hstop : (t.session.reply host line).quit ∨
      (t.add line (t.session.reply host line)).ending ≠ .done
  · rw [Transcript.handle_of_stop hstop] at hdone
    rcases hstop with hasked | hfailed
    · exact absurd (hquit.symm.trans hasked) nofun
    · exact absurd hdone hfailed
  · exact Transcript.handle_of_done hstop rest

/-- **All lines** make it go through the calls of each, if nothing fails in reading or writing. -/
theorem machine_handle {host : Host} {last : Ending} {lines : List Bytes}
    (hlines : ∀ line ∈ lines, Enters line) {t : Transcript}
    (hdone : (Transcript.handle host last t lines).ending = .done) :
    last = .done ∧ (Transcript.handle host last t lines).session.machine =
      (t.session.machine.callAll (lines.flatMap lineCalls)).2 := by
  induction lines generalizing t with
  | nil => exact ⟨hdone, rfl⟩
  | cons line rest ih =>
      obtain ⟨hquit, hmachine⟩ :=
        machine_reply (hlines line List.mem_cons_self) t.session host
      have hgo := handle_of_ending hquit hdone
      rw [hgo] at hdone
      obtain ⟨hlast, hrest⟩ := ih (fun l hl => hlines l (List.mem_cons_of_mem _ hl)) hdone
      refine ⟨hlast, ?_⟩
      rw [hgo, hrest, List.flatMap_cons, Machine.callAll_append, ← hmachine]
      rfl

/-- A session that ends well has read its whole input. -/
theorem machine_converse {s : Session} {host : Host} {input : Input} {store : Store}
    (hlines : ∀ line ∈ input.lines.1, Enters line)
    (hdone : (s.converse host input store).ending = .done) :
    input.lines.2 = none ∧ (s.converse host input store).session.machine =
      (s.machine.callAll (input.lines.1.flatMap lineCalls)).2 := by
  unfold converse at hdone ⊢
  generalize input.lines = read at hlines hdone ⊢
  obtain ⟨lines, failure⟩ := read
  obtain ⟨hlast, hmachine⟩ := machine_handle hlines hdone
  refine ⟨?_, hmachine⟩
  cases failure with
  | none => rfl
  | some failure => exact absurd hlast nofun

/-- The loads among these calls are the code of the lines. -/
theorem flatMap_bytes_lineCalls (lines : List Bytes) :
    (lines.flatMap lineCalls).flatMap Machine.Call.bytes = lines.flatMap lineCode := by
  rw [List.flatMap_assoc]
  refine List.flatMap_congr ?_
  intro line _
  unfold lineCalls
  by_cases hblank : trim line = []
  · rw [if_pos hblank, lineCode_of_blank hblank]
    rfl
  · rw [if_neg hblank]
    exact List.append_nil _

theorem feeds_lineCalls (lines : List Bytes) : ∀ c ∈ lines.flatMap lineCalls, c.feeds := by
  intro c hc
  obtain ⟨line, -, hc⟩ := List.mem_flatMap.mp hc
  unfold lineCalls at hc
  by_cases hblank : trim line = []
  · rw [if_pos hblank] at hc
    exact absurd hc List.not_mem_nil
  · rw [if_neg hblank] at hc
    rcases List.mem_pair.mp hc with rfl | rfl <;> rfl

end Session

/-- **A session agrees with batch assembly.**  Take a session on a machine that has carried out nothing
yet, and an input each of whose lines is blank or plain instructions.  If nothing fails in reading or
writing and no step faults, then the input is also assembled as one text.  Its image has no data, its
code is the code of the lines one after the other, and the machine of the session is where as many
steps as were counted lead with that code loaded first. -/
theorem converse_eq_batch (s : Session) (hcount : s.machine.count = 0) (host : Host)
    (input : Input) (store : Store) (hlines : ∀ line ∈ input.lines.1, Session.Enters line)
    (hdone : (s.converse host input store).ending = .done)
    (hfault : (s.converse host input store).session.machine.fault = none)
    (a : Assembler) (file : Bytes) :
    (a.assemble file input).result = .ok ⟨[], input.lines.1.flatMap Session.lineCode⟩ ∧
    (s.converse host input store).session.machine =
      ((s.machine.load (input.lines.1.flatMap Session.lineCode)).callAll
        (List.replicate (s.converse host input store).session.machine.count .step)).2 := by
  obtain ⟨hwhole, hmachine⟩ := Session.machine_converse hlines hdone
  refine ⟨Session.assemble_text hwhole hlines a file, ?_⟩
  -- of the calls of the session, one load and the steps that counted are left
  have hfeeds := Session.feeds_lineCalls input.lines.1
  have hok := Machine.faulted_not_mem_callAll hfeeds (hmachine ▸ hfault)
  obtain ⟨k, hexec⟩ := Machine.executes_callAll hfeeds hok
  rw [Session.flatMap_bytes_lineCalls, ← hmachine] at hexec
  have hk : (s.converse host input store).session.machine.count = k := by
    have hstart : (s.machine.load (input.lines.1.flatMap Session.lineCode)).count = 0 := hcount
    have hsteps := hexec.count_eq
    omega
  rw [hk]
  exact hexec.callAll_eq.1.symm

/-- Blanks before a line, a carriage return after it, a blank line, a line of two records, a line that
only takes a step, a stop, and a jump back that ends without a newline. -/
def batchSample : Input where
  text := ascii "  load $1 #2\r\n\ninc $1 dec $2 ; both\n; only a step\nhlt\njmp $0"

/-- Nothing from outside: no file, and nothing to show of a buffer. -/
def batchHost : Host := ⟨fun name => .error ⟨.opening, name, .missing⟩, fun _ _ => []⟩

/-- The session on it. -/
def batchTranscript : Transcript := Session.converse {} batchHost batchSample {}

theorem converse_eq_batch_sample :
    batchTranscript.session.machine.count = 5 ∧
    (assemble (ascii "session") batchSample).result =
      .ok ⟨[], [1, 1, 0, 2, 17, 1, 0, 0, 18, 2, 0, 0, 0, 0, 0, 0, 6, 0, 0, 0]⟩ ∧
    batchTranscript.session.machine =
      ((Machine.fresh.load [1, 1, 0, 2, 17, 1, 0, 0, 18, 2, 0, 0, 0, 0, 0, 0, 6, 0, 0, 0]).callAll
        (List.replicate 5 .step)).2 := by
  have hcode : batchSample.lines.1.flatMap Session.lineCode =
      [1, 1, 0, 2, 17, 1, 0, 0, 18, 2, 0, 0, 0, 0, 0, 0, 6, 0, 0, 0] := by decide +kernel
  have hcount : batchTranscript.session.machine.count = 5 := by decide +kernel
  obtain ⟨hassembled, hmachine⟩ := converse_eq_batch {} rfl batchHost batchSample {} (by decide +kernel)
    (by decide +kernel) (by decide +kernel) {} (ascii "session")
  rw [hcode] at hassembled hmachine
  refine ⟨hcount, hassembled, ?_⟩
  rw [← hcount]
  exact hmachine

end Quartet
