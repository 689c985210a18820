/-
  Quartet.Proofs.Session.Accepted
  ───────────────────────────────
  **THE PROGRAM OF A SESSION IS WHAT WAS ACCEPTED.**

  A line may load a file, add to the program, run it, start over, show something or be refused, in any
  order and over any number of sessions.  Through all of it the program is the last file loaded and,
  behind it, the code of the input accepted since:

    • `Session.Accepts`, `Session.Refuses`, `Session.Loads` — the grounds on which lines are taken and
      refused,
    • `Session.turned_reply` — what one line does to the program,
    • `Session.programAfter_takeTurn`, `Session.programAfter_takeAll` — hence what the program is after
      one line more, and after any lines,
    • `Session.exists_trail` — sessions on any inputs come down to lines handled one by one,
    • `program_eq_accepted` — both together, and what each kind of line leaves alone.
-/
import Quartet.Proofs.Machine.Restart
import Quartet.Proofs.Session.Replies

namespace Quartet

/-! ## §1. What is counted. -/

namespace Machine

theorem count_step_bounds (m : Machine) : m.count ≤ m.step.2.count ∧ m.step.2.count ≤ m.count + 1 := by
  rw [count_step]
  by_cases hcounts : m.carriesOut = true
  · rw [if_pos hcounts]
    omega
  · rw [if_neg hcounts]
    omega

theorem count_runFor_bounds (m : Machine) (limit : Nat) :
    m.count ≤ (m.runFor limit).2.count ∧ (m.runFor limit).2.count ≤ m.count + limit := by
  induction limit generalizing m with
  | zero => exact ⟨Nat.le_refl _, Nat.le_refl _⟩
  | succ limit ih =>
      have hfirst := m.count_step_bounds
      rw [runFor_succ_eq_ite]
      by_cases hgo : m.step.1 = .proceed
      · have hrest := ih m.step.2
        rw [if_pos hgo]
        omega
      · rw [if_neg hgo]
        omega

end Machine

/-- Whether a request only shows something, or ends the session. -/
def Request.shows : Request → Bool
  | .quit | .help | .program | .registers | .heap | .data | .history => true
  | .reset | .run | .loadFile _ | .input _ => false

namespace Session

/-! ## §2. What a line asks for. -/

/-- What a line asks for, unless it is blank. -/
def request? (line : Bytes) : Option Request :=
  if trim line = [] then none else some (.ofLine (trim line))

/-- The session with one more line in its history. -/
def noting (s : Session) (line : Bytes) : Session :=
  { s with history := s.history.push (trim line) }

theorem reply_of_none {line : Bytes} (h : request? line = none) (s : Session) (host : Host) :
    s.reply host line = { session := s } := by
  rw [reply_eq]
  unfold request? at h
  by_cases hblank : trim line = []
  · exact if_pos hblank
  · rw [if_neg hblank] at h
    exact absurd h (by simp)

theorem reply_of_some {line : Bytes} {q : Request} (h : request? line = some q) (s : Session)
    (host : Host) : s.reply host line = (s.noting line).perform host q := by
  rw [reply_eq]
  unfold request? at h
  by_cases hblank : trim line = []
  · rw [if_pos hblank] at h
    exact absurd h (by simp)
  · rw [if_neg hblank] at h
    rw [← Option.some.inj h]
    exact if_neg hblank

/-! ## §3. What is accepted and what is refused. -/

/-- Input that is accepted, and its code. -/
inductive Accepts : Bytes → Bytes → Prop
  /-- It is instructions without labels that can be assembled. -/
  | assembled {src : Bytes} {p : Program} {img : Image}
      (hparse : Program.parse (ascii "input") src = .ok p) (hlabel : ∀ r ∈ p, r.label = none)
      (himg : (inputProgram p).assemble.result = .ok img) : Accepts src img.code
  /-- It is no instructions but hexadecimal bytes. -/
  | hex {src code : Bytes} {e : SyntaxError}
      (hparse : Program.parse (ascii "input") src = .error e)
      (hhex : hexBytes (fields src) = .ok code) : Accepts src code

/-- Requests that are refused, by the files there are. -/
inductive Refuses (openFile : Opener) : Request → Prop
  /-- Input that is neither instructions nor hexadecimal bytes. -/
  | unreadable {src field : Bytes} {e : SyntaxError}
      (hparse : Program.parse (ascii "input") src = .error e)
      (hhex : hexBytes (fields src) = .error field) : Refuses openFile (.input src)
  /-- Instructions with a label. -/
  | labelled {src : Bytes} {p : Program} {r : Record}
      (hparse : Program.parse (ascii "input") src = .ok p) (hr : r ∈ p) (hlabel : r.label ≠ none) :
      Refuses openFile (.input src)
  /-- Instructions that cannot be assembled. -/
  | rejected {src : Bytes} {p : Program} {errors : List Diagnostic}
      (hparse : Program.parse (ascii "input") src = .ok p) (hlabel : ∀ r ∈ p, r.label = none)
      (herrors : (inputProgram p).assemble.result = .error errors) : Refuses openFile (.input src)
  /-- A file without a name. -/
  | unnamed : Refuses openFile (.loadFile [])
  /-- A file that cannot be opened. -/
  | unopened {name : Bytes} {e : FileError} (hopen : openFile name = .error e) :
      Refuses openFile (.loadFile name)
  /-- A file that cannot be read or assembled. -/
  | unassembled {name : Bytes} {input : Input} {refusal : Refusal} (hopen : openFile name = .ok input)
      (hrefusal : (assemble name input).result = .error refusal) : Refuses openFile (.loadFile name)

/-- Requests to load a file that can be assembled, and its image. -/
inductive Loads (openFile : Opener) : Request → Image → Prop
  | file {name : Bytes} {input : Input} {img : Image} (hname : name ≠ [])
      (hopen : openFile name = .ok input) (himg : (assemble name input).result = .ok img) :
      Loads openFile (.loadFile name) img

theorem firstLabel?_eq_none_iff {p : Program} : firstLabel? p = none ↔ ∀ r ∈ p, r.label = none := by
  unfold firstLabel?
  rw [List.findSome?_eq_none_iff]
  simp only [Option.map_eq_none_iff]

/-- **Input gives code exactly if it is accepted.** -/
theorem inputCode_eq_ok_iff {src code : Bytes} :
    (inputCode src).1 = .ok code ↔ Accepts src code := by
  constructor
  · intro h
    unfold inputCode at h
    cases hparse : Program.parse (ascii "input") src with
    | error e =>
        cases hhex : hexBytes (fields src) with
        | error field => simp [hparse, hhex] at h
        | ok bs =>
            simp only [hparse, hhex, Except.ok.injEq] at h
            rw [← h]
            exact Accepts.hex hparse hhex
    | ok p =>
        cases hfirst : firstLabel? p with
        | some found => simp [hparse, hfirst] at h
        | none =>
            cases himg : (inputProgram p).assemble.result with
            | error errors => simp [hparse, hfirst, himg] at h
            | ok img =>
                simp only [hparse, hfirst, himg, Except.ok.injEq] at h
                rw [← h]
                exact Accepts.assembled hparse (firstLabel?_eq_none_iff.mp hfirst) himg
  · intro h
    cases h with
    | assembled hparse hlabel himg =>
        simp [inputCode, hparse, firstLabel?_eq_none_iff.mpr hlabel, himg]
    | hex hparse hhex => simp [inputCode, hparse, hhex]

/-- Input that is refused gives no code. -/
theorem inputCode_of_refuses {src : Bytes} {openFile : Opener} (h : Refuses openFile (.input src)) :
    ∃ problem, (inputCode src).1 = .error problem := by
  cases h with
  | unreadable hparse hhex => exact ⟨_, by simp [inputCode, hparse, hhex]; rfl⟩
  | @labelled _ p r hparse hr hlabel =>
      cases hfirst : firstLabel? p with
      | none => exact absurd (firstLabel?_eq_none_iff.mp hfirst r hr) hlabel
      | some found => exact ⟨_, by simp [inputCode, hparse, hfirst]; rfl⟩
  | rejected hparse hlabel herrors =>
      exact ⟨_, by simp [inputCode, hparse, firstLabel?_eq_none_iff.mpr hlabel, herrors]; rfl⟩

theorem refuses_or_accepts (openFile : Opener) (src : Bytes) :
    Refuses openFile (.input src) ∨ ∃ code, Accepts src code := by
  cases hparse : Program.parse (ascii "input") src with
  | error e =>
      cases hhex : hexBytes (fields src) with
      | error field => exact Or.inl (.unreadable hparse hhex)
      | ok code => exact Or.inr ⟨code, .hex hparse hhex⟩
  | ok p =>
      by_cases hlabel : ∀ r ∈ p, r.label = none
      · cases himg : (inputProgram p).assemble.result with
        | error errors => exact Or.inl (.rejected hparse hlabel himg)
        | ok img => exact Or.inr ⟨img.code, .assembled hparse hlabel himg⟩
      · have hsome : ∃ r ∈ p, r.label ≠ none := by simpa using hlabel
        obtain ⟨r, hr, hlabelled⟩ := hsome
        exact Or.inl (.labelled hparse hr hlabelled)

theorem refuses_or_loads (openFile : Opener) (name : Bytes) :
    Refuses openFile (.loadFile name) ∨ ∃ img, Loads openFile (.loadFile name) img := by
  by_cases hname : name = []
  · rw [hname]
    exact Or.inl .unnamed
  · cases hopen : openFile name with
    | error e => exact Or.inl (.unopened hopen)
    | ok input =>
        cases himg : (assemble name input).result with
        | error refusal => exact Or.inl (.unassembled hopen himg)
        | ok img => exact Or.inr ⟨img, .file hname hopen himg⟩

/-- Nothing is both refused and loaded. -/
theorem Refuses.not_loads {openFile : Opener} {q : Request} (h : Refuses openFile q) (img : Image) :
    ¬Loads openFile q img := by
  rintro ⟨hname, hopen, himg⟩
  cases h with
  | unnamed => exact hname rfl
  | unopened hnone =>
      rw [hnone] at hopen
      exact absurd hopen (by simp)
  | unassembled hsame hrefusal =>
      rw [hsame] at hopen
      rw [← Except.ok.inj hopen, hrefusal] at himg
      exact absurd himg (by simp)

/-- What is refused is answered with a text that does not depend on the session, and nothing else
happens. -/
theorem exists_perform_of_refuses {host : Host} {q : Request} (h : Refuses host.openFile q) :
    ∃ output entries, ∀ s : Session,
      s.perform host q = { session := s, output := output, entries := entries } := by
  cases q with
  | input src =>
      obtain ⟨problem, hproblem⟩ := inputCode_of_refuses h
      refine ⟨[problem.message ++ ascii "\n"], (inputCode src).2, ?_⟩
      intro s
      show s.enter src = _
      rw [enter_eq]
      generalize inputCode src = read at hproblem ⊢
      obtain ⟨result, entries⟩ := read
      obtain rfl : result = .error problem := hproblem
      rfl
  | loadFile name =>
      by_cases hname : name = []
      · exact ⟨_, _, fun s => (s.loadFile_eq host.openFile name).trans (if_pos hname)⟩
      · cases h with
        | unnamed => exact absurd rfl hname
        | @unopened _ e hopen =>
            refine ⟨[e.message ++ ascii "\n"], [], ?_⟩
            intro s
            show s.loadFile host.openFile name = _
            simp only [loadFile_eq, if_neg hname, hopen]
        | @unassembled _ input refusal hopen hrefusal =>
            refine ⟨[refusal.message ++ ascii "\n"], (assemble name input).entries, ?_⟩
            intro s
            show s.loadFile host.openFile name = _
            simp only [loadFile_eq, if_neg hname, hopen, hrefusal]
  | _ => exact absurd h nofun

section Perform

variable (s : Session) {host : Host} {q : Request}

/-- **What is refused has no effect at all.** -/
theorem perform_of_refuses (h : Refuses host.openFile q) :
    (s.perform host q).session = s ∧ (s.perform host q).quit = false := by
  obtain ⟨output, entries, hperform⟩ := exists_perform_of_refuses h
  rw [hperform s]
  exact ⟨rfl, rfl⟩

/-- Nor has what only shows something. -/
theorem perform_of_shows (h : q.shows) : (s.perform host q).session = s := by
  cases q with
  | reset => exact absurd h (by simp [Request.shows])
  | run => exact absurd h (by simp [Request.shows])
  | loadFile name => exact absurd h (by simp [Request.shows])
  | input src => exact absurd h (by simp [Request.shows])
  | _ => rfl

theorem machine_perform_run :
    (s.perform host .run).session.machine = (s.machine.runFor s.maxSteps.toNat).2 := by
  show s.runMachine.session.machine = _
  rw [runMachine_eq]

theorem perform_of_loads {img : Image} (h : Loads host.openFile q img) :
    (s.perform host q).session = { s with machine := s.machine.clear.loadImage img } := by
  cases h with
  | @file name input img hname hopen himg =>
      show (s.loadFile host.openFile name).session = _
      simp only [loadFile_eq, if_neg hname, hopen, himg]

/-- **Accepted input** is loaded, and one step is taken and reported. -/
theorem perform_of_accepts {src code : Bytes} (h : Accepts src code) :
    (s.perform host (.input src)).session =
        { s with machine := (s.machine.load code).step.2 } ∧
      (s.perform host (.input src)).output =
        report (s.machine.load code).step.1 (s.machine.load code).step.2 ∧
      (s.perform host (.input src)).quit = false := by
  have hcode := inputCode_eq_ok_iff.mpr h
  show (s.enter src).session = _ ∧ (s.enter src).output = _ ∧ (s.enter src).quit = false
  rw [enter_eq]
  -- what is noted on the way does not matter
  generalize inputCode src = read at hcode ⊢
  obtain ⟨result, entries⟩ := read
  obtain rfl : result = .ok code := hcode
  exact ⟨rfl, rfl, rfl⟩

end Perform

/-! ## §4. What a line does to the program. -/

/-- A line, and the world at the time when it is handled. -/
structure Turn where
  /-- What is there from outside. -/
  host : Host
  /-- The line. -/
  line : Bytes

namespace Turn

/-- The image that a line loads, if it loads one. -/
def image? (t : Turn) : Option Image :=
  match request? t.line with
  | some (.loadFile name) =>
    if name = [] then none
    else
      match t.host.openFile name with
      | .ok input => (assemble name input).result.toOption
      | .error _ => none
  | _ => none

/-- The code that a line adds, if it is input and accepted. -/
def code? (t : Turn) : Option Bytes :=
  match request? t.line with
  | some (.input src) => (inputCode src).1.toOption
  | _ => none

theorem image?_eq_some_iff {t : Turn} {img : Image} :
    t.image? = some img ↔ ∃ q, request? t.line = some q ∧ Loads t.host.openFile q img := by
  constructor
  · intro h
    unfold image? at h
    cases hq : request? t.line with
    | none => simp [hq] at h
    | some q =>
        refine ⟨q, rfl, ?_⟩
        cases q with
        | loadFile name =>
            by_cases hname : name = []
            · simp [hq, hname] at h
            · cases hopen : t.host.openFile name with
              | error e => simp [hq, hname, hopen] at h
              | ok input =>
                  cases himg : (assemble name input).result with
                  | error refusal => simp [hq, hname, hopen, himg, Except.toOption] at h
                  | ok found =>
                      simp only [hq, hname, hopen, himg, if_false, Except.toOption,
                        Option.some.injEq] at h
                      rw [← h]
                      exact Loads.file hname hopen himg
        | _ => simp [hq] at h
  · rintro ⟨q, hq, hloads⟩
    cases hloads with
    | file hname hopen himg => simp [image?, hq, hname, hopen, himg, Except.toOption]

theorem code?_eq_some_iff {t : Turn} {code : Bytes} :
    t.code? = some code ↔ ∃ src, request? t.line = some (.input src) ∧ Accepts src code := by
  constructor
  · intro h
    unfold code? at h
    cases hq : request? t.line with
    | none => simp [hq] at h
    | some q =>
        cases q with
        | input src =>
            refine ⟨src, rfl, inputCode_eq_ok_iff.mp ?_⟩
            cases hcode : (inputCode src).1 with
            | error problem => simp [hq, hcode, Except.toOption] at h
            | ok found =>
                simp only [hq, hcode, Except.toOption, Option.some.injEq] at h
                rw [h]
        | _ => simp [hq] at h
  · rintro ⟨src, hq, haccepts⟩
    simp [code?, hq, inputCode_eq_ok_iff.mpr haccepts, Except.toOption]

end Turn

/-- What a line can do to the program, one case for each way it can go. -/
inductive Turned (t : Turn) (m m' : Machine) : Prop
  /-- It puts the program of a file in place of the one before. -/
  | loaded {img : Image} (himage : t.image? = some img) (hcode : t.code? = none)
      (heq : m' = m.clear.loadImage img)
  /-- It adds its code and takes a step. -/
  | entered {code : Bytes} (himage : t.image? = none) (hcode : t.code? = some code)
      (heq : m' = (m.load code).step.2)
  /-- It leaves the program alone. -/
  | kept (himage : t.image? = none) (hcode : t.code? = none) (hkept : m'.code = m.code)
      (hdata : m'.data = m.data)

/-- **What one line does.** -/
theorem turned_reply (s : Session) (t : Turn) :
    Turned t s.machine (s.reply t.host t.line).session.machine := by
  cases hq : request? t.line with
  | none =>
      rw [reply_of_none hq]
      exact Turned.kept (by simp [Turn.image?, hq]) (by simp [Turn.code?, hq]) rfl rfl
  | some q =>
      rw [reply_of_some hq]
      cases q with
      | loadFile name =>
          have hcode : t.code? = none := by simp [Turn.code?, hq]
          rcases refuses_or_loads t.host.openFile name with hrefuses | ⟨img, hloads⟩
          · have himage : t.image? = none := by
              rw [Option.eq_none_iff_forall_ne_some]
              intro img himg
              obtain ⟨q, hq', hloads⟩ := Turn.image?_eq_some_iff.mp himg
              rw [← Option.some.inj (hq.symm.trans hq')] at hloads
              exact hrefuses.not_loads img hloads
            rw [(perform_of_refuses _ hrefuses).1]
            exact Turned.kept himage hcode rfl rfl
          · rw [perform_of_loads _ hloads]
            exact Turned.loaded (Turn.image?_eq_some_iff.mpr ⟨_, hq, hloads⟩) hcode rfl
      | input src =>
          have himage : t.image? = none := by simp [Turn.image?, hq]
          rcases refuses_or_accepts t.host.openFile src with hrefuses | ⟨code, haccepts⟩
          · have hcode : t.code? = none := by
              obtain ⟨problem, hproblem⟩ := inputCode_of_refuses hrefuses
              simp [Turn.code?, hq, hproblem, Except.toOption]
            rw [(perform_of_refuses _ hrefuses).1]
            exact Turned.kept himage hcode rfl rfl
          · rw [(perform_of_accepts _ haccepts).1]
            exact Turned.entered himage (Turn.code?_eq_some_iff.mpr ⟨_, hq, haccepts⟩) rfl
      | run =>
          refine Turned.kept (by simp [Turn.image?, hq]) (by simp [Turn.code?, hq]) ?_ ?_
          · rw [machine_perform_run]
            exact Machine.code_runFor _ _
          · rw [machine_perform_run]
            exact (Machine.indifferent_runFor _ _).data_eq
      | _ => exact Turned.kept (by simp [Turn.image?, hq]) (by simp [Turn.code?, hq]) rfl rfl

/-! ## §5. The program after any lines. -/

/-- The code that lines add, in order. -/
def addedCode (ts : List Turn) : Bytes := (ts.filterMap Turn.code?).flatten

/-- **What the program of a machine is**, after lines were handled from the machine `m` on: a base and
the code that was added since. -/
structure ProgramAfter (m : Machine) (ts : List Turn) (m' : Machine) : Prop where
  /-- If no file was loaded, the base is what there was at the start. -/
  unloaded : (∀ t ∈ ts, t.image? = none) →
    m'.code.toList = m.code.toList ++ addedCode ts ∧ m'.data.bytes = m.data.bytes
  /-- Else it is the last file that was loaded. -/
  loaded : ∀ earlier t later img, ts = earlier ++ t :: later → t.image? = some img →
    (∀ u ∈ later, u.image? = none) →
    m'.code.toList = img.code ++ addedCode later ∧ m'.data.bytes.toList = img.data

theorem programAfter_nil (m : Machine) : ProgramAfter m [] m := by
  refine ⟨fun _ => ⟨(List.append_nil _).symm, rfl⟩, ?_⟩
  intro earlier t later img hts
  exact absurd hts (by simp)

theorem addedCode_append (ts us : List Turn) : addedCode (ts ++ us) = addedCode ts ++ addedCode us := by
  unfold addedCode
  rw [List.filterMap_append, List.flatten_append]

/-- A list with one more at its end is divided there or before. -/
theorem append_cons_eq_append_singleton {ts earlier later : List Turn} {t u : Turn}
    (h : ts ++ [u] = earlier ++ t :: later) :
    (later = [] ∧ t = u) ∨ ∃ rest, later = rest ++ [u] ∧ ts = earlier ++ t :: rest := by
  rcases List.eq_nil_or_concat later with hnil | ⟨rest, last, hlast⟩
  · rw [hnil] at h
    obtain ⟨-, hlast⟩ := List.append_inj' h rfl
    exact Or.inl ⟨hnil, (List.cons.inj hlast).1.symm⟩
  · rw [List.concat_eq_append] at hlast
    rw [hlast, ← List.cons_append, ← List.append_assoc] at h
    obtain ⟨hts, hu⟩ := List.append_inj' h rfl
    rw [← (List.cons.inj hu).1] at hlast
    exact Or.inr ⟨rest, hlast, hts⟩

/-- A line that loads no file adds its code, if any. -/
theorem ProgramAfter.extend {m m' m'' : Machine} {ts : List Turn} {t : Turn}
    (h : ProgramAfter m ts m') (himage : t.image? = none)
    (hcode : m''.code.toList = m'.code.toList ++ addedCode [t]) (hdata : m''.data = m'.data) :
    ProgramAfter m (ts ++ [t]) m'' := by
  constructor
  · intro hnone
    obtain ⟨hold, hbytes⟩ := h.unloaded fun u hu => hnone u (List.mem_append_left _ hu)
    rw [hcode, hold, addedCode_append, List.append_assoc, hdata]
    exact ⟨rfl, hbytes⟩
  · intro earlier u later img hts himg hlater
    rcases append_cons_eq_append_singleton hts with ⟨-, rfl⟩ | ⟨rest, rfl, hrest⟩
    · -- this line is not the one that loaded
      rw [himage] at himg
      exact absurd himg (by simp)
    · obtain ⟨hold, hbytes⟩ :=
        h.loaded earlier u rest img hrest himg fun v hv => hlater v (List.mem_append_left _ hv)
      rw [hcode, hold, addedCode_append, List.append_assoc, hdata]
      exact ⟨rfl, hbytes⟩

/-- A line that loads a file puts it in place of all that was there. -/
theorem programAfter_of_load {m m' : Machine} {ts : List Turn} {t : Turn} {img : Image}
    (himage : t.image? = some img) (hcode : m'.code.toList = img.code)
    (hdata : m'.data.bytes.toList = img.data) : ProgramAfter m (ts ++ [t]) m' := by
  constructor
  · intro hnone
    have hthis := hnone t (List.mem_append_right _ List.mem_cons_self)
    rw [himage] at hthis
    exact absurd hthis (by simp)
  · intro earlier u later img' hts himg' hlater
    rcases append_cons_eq_append_singleton hts with ⟨rfl, rfl⟩ | ⟨rest, rfl, -⟩
    · rw [← Option.some.inj (himage.symm.trans himg')]
      exact ⟨hcode.trans (List.append_nil _).symm, hdata⟩
    · -- no earlier file is the last one
      have hthis := hlater t (List.mem_append_right _ List.mem_cons_self)
      rw [himage] at hthis
      exact absurd hthis (by simp)

/-- The session after a line. -/
def takeTurn (s : Session) (t : Turn) : Session := (s.reply t.host t.line).session

/-- The session after lines. -/
def takeAll (s : Session) (ts : List Turn) : Session := ts.foldl takeTurn s

/-- **One line more.** -/
theorem programAfter_takeTurn {m : Machine} {ts : List Turn} {s : Session}
    (h : ProgramAfter m ts s.machine) (t : Turn) :
    ProgramAfter m (ts ++ [t]) (s.takeTurn t).machine := by
  cases s.turned_reply t with
  | @loaded img himage hcode heq =>
      apply programAfter_of_load himage
      · rw [takeTurn, heq]
        simp [Machine.loadImage, Machine.load, Machine.clear]
      · rw [takeTurn, heq]
        simp [Machine.loadImage, Machine.load, Machine.clear]
  | @entered code himage hcode heq =>
      have hadded : addedCode [t] = code := by simp [addedCode, hcode]
      apply h.extend himage
      · rw [takeTurn, heq, hadded, Machine.code_step_load]
      · rw [takeTurn, heq, (Machine.indifferent_step _).data_eq]
        rfl
  | kept himage hcode hkept hdata =>
      have hadded : addedCode [t] = [] := by simp [addedCode, hcode]
      apply h.extend himage
      · rw [takeTurn, hkept, hadded, List.append_nil]
      · exact hdata

/-- **Any lines.** -/
theorem programAfter_takeAll (s : Session) (ts : List Turn) :
    ProgramAfter s.machine ts (s.takeAll ts).machine := by
  -- by induction on the lines still to come, with those already handled in front
  have hall : ∀ (us before : List Turn) (u : Session), ProgramAfter s.machine before u.machine →
      ProgramAfter s.machine (before ++ us) (u.takeAll us).machine := by
    intro us
    induction us with
    | nil =>
        intro before u h
        rw [List.append_nil]
        exact h
    | cons t us ih =>
        intro before u h
        have hnext := ih (before ++ [t]) (u.takeTurn t) (programAfter_takeTurn h t)
        rw [List.append_assoc] at hnext
        exact hnext
  exact hall ts [] s (programAfter_nil _)

/-! ## §6. Sessions on any inputs. -/

/-- What a session is held on: what is there from outside, an input and storage to write to. -/
structure Visit where
  /-- What is there from outside. -/
  host : Host
  /-- The input. -/
  input : Input
  /-- The storage. -/
  store : Store

/-- The session held on it. -/
def visit (s : Session) (v : Visit) : Transcript := s.converse v.host v.input v.store

/-- The lines handled in sessions held one after the other, each with the session after it. -/
def points : Session → List Visit → List (Turn × Session)
  | _, [] => []
  | s, v :: rest =>
    (s.visit v).handled.toList.map (fun h => (⟨v.host, h.line⟩, h.after))
      ++ (s.visit v).session.points rest

/-- Lines handled one by one, each with the session after it. -/
def trail : Session → List Turn → List (Turn × Session)
  | _, [] => []
  | s, t :: ts => (t, s.takeTurn t) :: (s.takeTurn t).trail ts

theorem trail_append (ts us : List Turn) :
    ∀ s : Session, s.trail (ts ++ us) = s.trail ts ++ (s.takeAll ts).trail us := by
  induction ts with
  | nil => intro s; rfl
  | cons t ts ih =>
      intro s
      show (t, s.takeTurn t) :: (s.takeTurn t).trail (ts ++ us) = _
      rw [ih]
      rfl

/-- The lines handled are the first of those that there are, each in its turn. -/
theorem exists_trail_handle (host : Host) (last : Ending) (lines : List Bytes) :
    ∀ t : Transcript, ∃ ts,
      (Transcript.handle host last t lines).handled.toList.map
          (fun h => ((⟨host, h.line⟩ : Turn), h.after)) =
        t.handled.toList.map (fun h => (⟨host, h.line⟩, h.after)) ++ t.session.trail ts ∧
      (Transcript.handle host last t lines).session = t.session.takeAll ts := by
  induction lines with
  | nil =>
      intro t
      exact ⟨[], (List.append_nil _).symm, rfl⟩
  | cons line rest ih =>
      intro t
      let next := t.add line (t.session.reply host line)
      have hnext : next.handled.toList.map (fun h => ((⟨host, h.line⟩ : Turn), h.after)) =
          t.handled.toList.map (fun h => (⟨host, h.line⟩, h.after)) ++
            t.session.trail [⟨host, line⟩] := by
        simp [next, Transcript.add, Transcript.record, Console.after, trail, takeTurn]
      by_cases hstop : (t.session.reply host line).quit ∨ next.ending ≠ .done
      · have hhandle : Transcript.handle host last t (line :: rest) = next :=
          Transcript.handle_of_stop hstop rest
        rw [hhandle]
        exact ⟨[⟨host, line⟩], hnext, rfl⟩
      · have hhandle : Transcript.handle host last t (line :: rest) =
            Transcript.handle host last next rest := Transcript.handle_of_done hstop rest
        obtain ⟨ts, hts, hsession⟩ := ih next
        rw [hhandle]
        refine ⟨⟨host, line⟩ :: ts, ?_, hsession⟩
        rw [hts, hnext, List.append_assoc]
        rfl

/-- Holding a session is handling the lines of its input. -/
theorem exists_visit_eq_handle (s : Session) (v : Visit) :
    ∃ last, s.visit v =
      Transcript.handle v.host last { session := s, out := { state := v.store } } v.input.lines.1 :=
  ⟨_, rfl⟩

/-- **Sessions on any inputs come down to lines handled one by one.** -/
theorem exists_trail (visits : List Visit) :
    ∀ s : Session, ∃ ts, s.points visits = s.trail ts := by
  induction visits with
  | nil =>
      intro s
      exact ⟨[], rfl⟩
  | cons v rest ih =>
      intro s
      obtain ⟨last, hvisit⟩ := s.exists_visit_eq_handle v
      obtain ⟨ts, hts, hsession⟩ := exists_trail_handle v.host last v.input.lines.1
        { session := s, out := { state := v.store } }
      rw [← hvisit] at hts hsession
      -- the next session goes on where this one ended
      obtain ⟨us, hus⟩ := ih (s.visit v).session
      refine ⟨ts ++ us, ?_⟩
      show _ ++ (s.visit v).session.points rest = _
      rw [hus, hts, hsession, trail_append]
      rfl

/-- The session at a point of a trail is the one after the lines up to there. -/
theorem eq_takeAll_of_trail {s s' : Session} {ts : List Turn} {before after : List (Turn × Session)}
    {t : Turn} (h : s.trail ts = before ++ (t, s') :: after) :
    s' = s.takeAll (before.map Prod.fst ++ [t]) := by
  induction ts generalizing s before with
  | nil => exact absurd h (by simp [trail])
  | cons u ts ih =>
      cases before with
      | nil =>
          obtain ⟨hhead, -⟩ := List.cons.inj h
          obtain ⟨rfl, rfl⟩ := Prod.mk.inj hhead
          rfl
      | cons first before =>
          obtain ⟨rfl, hrest⟩ := List.cons.inj h
          have hlater : s' = (s.takeTurn u).takeAll (before.map Prod.fst ++ [t]) := ih hrest
          exact hlater

end Session

/-- **The program of a session is what was accepted.**  Hold sessions one after the other, on any
inputs.  After every line that is handled, the code of the machine is a base and, behind it, the code
of the input lines accepted since, in order; base and data are those of the last file that was
loaded, or what the machine held at the start.  A line that is blank, refused or only shows something
leaves the machine as it is.  Runs and new starts leave the program alone.  Input that is accepted
counts one instruction at most, and a run no more than it may take. -/
theorem program_eq_accepted (s : Session) :
    (∀ visits before t s' after, s.points visits = before ++ (t, s') :: after →
      Session.ProgramAfter s.machine (before.map Prod.fst ++ [t]) s'.machine) ∧
    (∀ (t : Session.Turn) img, t.image? = some img ↔
      ∃ q, Session.request? t.line = some q ∧ Session.Loads t.host.openFile q img) ∧
    (∀ (t : Session.Turn) code, t.code? = some code ↔
      ∃ src, Session.request? t.line = some (.input src) ∧ Session.Accepts src code) ∧
    ∀ (host : Host) line,
      (Session.request? line = none → (s.reply host line).session = s) ∧
      ∀ q, Session.request? line = some q →
        (q.shows ∨ Session.Refuses host.openFile q →
          (s.reply host line).session.machine = s.machine) ∧
        (q = .run ∨ q = .reset →
          (s.reply host line).session.machine.code = s.machine.code ∧
            (s.reply host line).session.machine.data = s.machine.data) ∧
        (∀ src code, q = .input src → Session.Accepts src code →
          s.machine.count ≤ (s.reply host line).session.machine.count ∧
            (s.reply host line).session.machine.count ≤ s.machine.count + 1) ∧
        (q = .run →
          s.machine.count ≤ (s.reply host line).session.machine.count ∧
            (s.reply host line).session.machine.count ≤ s.machine.count + s.maxSteps.toNat) := by
  refine ⟨?_, fun t img => Session.Turn.image?_eq_some_iff,
    fun t code => Session.Turn.code?_eq_some_iff, ?_⟩
  · intro visits before t s' after hpoints
    obtain ⟨ts, hts⟩ := Session.exists_trail visits s
    rw [hts] at hpoints
    rw [Session.eq_takeAll_of_trail hpoints]
    exact s.programAfter_takeAll _
  · intro host line
    refine ⟨fun hnone => by rw [Session.reply_of_none hnone], ?_⟩
    intro q hq
    rw [Session.reply_of_some hq]
    refine ⟨?_, ?_, ?_, ?_⟩
    · rintro (hshows | hrefuses)
      · rw [Session.perform_of_shows _ hshows]
        rfl
      · rw [(Session.perform_of_refuses _ hrefuses).1]
        rfl
    · rintro (rfl | rfl)
      · rw [Session.machine_perform_run]
        exact ⟨Machine.code_runFor _ _, (Machine.indifferent_runFor _ _).data_eq⟩
      · exact ⟨rfl, rfl⟩
    · rintro src code rfl haccepts
      rw [(Session.perform_of_accepts _ haccepts).1]
      exact (s.machine.load code).count_step_bounds
    · rintro rfl
      rw [Session.machine_perform_run]
      exact Machine.count_runFor_bounds _ _

/-- A working directory with one file, `a`. -/
def acceptedFiles : Opener := fun name =>
  if name = ascii "a" then .ok ⟨ascii ".data x: .asciiz 'a' .code hlt", none⟩
  else .error ⟨.opening, name, .missing⟩

/-- This directory, and buffers shown as their bytes. -/
def acceptedHost : Host := ⟨acceptedFiles, fun _ b => [b.bytes.toList]⟩

/-- A session in which input is accepted, the file is loaded, a label and a missing file are refused
and bytes are accepted; and one more session with a run and an instruction. -/
def acceptedVisits : List Session.Visit :=
  [⟨acceptedHost, ⟨ascii "inc $1\n.load_file a\nx: hlt\n.load_file b\n11 1 0 0", none⟩, {}⟩,
    ⟨acceptedHost, ⟨ascii ".run\n\nload $2 #3\n", none⟩, {}⟩]

/-- The points of these sessions. -/
def acceptedPoints : List (Session.Turn × Session) := Session.points {} acceptedVisits

/-- Their lines. -/
def acceptedTurns : List Session.Turn := acceptedPoints.map Prod.fst

theorem program_eq_accepted_sample :
    acceptedTurns.map Session.Turn.line =
      ["inc $1", ".load_file a", "x: hlt", ".load_file b", "11 1 0 0", ".run", "", "load $2 #3"].map
        ascii ∧
    ∃ t s', acceptedPoints.getLast? = some (t, s') ∧
      s'.machine.code.toList = [0, 0, 0, 0] ++ ([17, 1, 0, 0] ++ [1, 2, 0, 3]) ∧
      s'.machine.data.bytes.toList = [97, 0] := by
  have hlines : acceptedTurns.map Session.Turn.line =
      ["inc $1", ".load_file a", "x: hlt", ".load_file b", "11 1 0 0", ".run", "", "load $2 #3"].map
        ascii := by decide +kernel
  have hne : acceptedPoints ≠ [] := by
    intro hnil
    rw [acceptedTurns, hnil] at hlines
    exact absurd hlines (by decide)
  have hlast : acceptedPoints = acceptedPoints.dropLast ++ [acceptedPoints.getLast hne] :=
    (List.dropLast_concat_getLast hne).symm
  have hturns : acceptedPoints.dropLast.map Prod.fst ++ [(acceptedPoints.getLast hne).1] =
      acceptedTurns := by
    calc acceptedPoints.dropLast.map Prod.fst ++ [(acceptedPoints.getLast hne).1]
        = (acceptedPoints.dropLast ++ [acceptedPoints.getLast hne]).map Prod.fst := by
          rw [List.map_append, List.map_singleton]
      _ = acceptedTurns := by rw [List.dropLast_concat_getLast, acceptedTurns]
  obtain ⟨hpoints, -⟩ := program_eq_accepted {}
  have hprogram := hpoints acceptedVisits acceptedPoints.dropLast (acceptedPoints.getLast hne).1
    (acceptedPoints.getLast hne).2 [] hlast
  rw [hturns] at hprogram
  -- the second line is the last that loads a file
  have hlt : 1 < acceptedTurns.length := by decide +kernel
  have hsplit : acceptedTurns =
      acceptedTurns.take 1 ++ acceptedTurns.get ⟨1, hlt⟩ :: acceptedTurns.drop 2 := by
    rw [List.get_eq_getElem, List.getElem_cons_drop, List.take_append_drop]
  have himage : (acceptedTurns.get ⟨1, hlt⟩).image? = some ⟨[97, 0], [0, 0, 0, 0]⟩ := by
    clear hsplit
    decide +kernel +revert
  obtain ⟨hcode, hdata⟩ := hprogram.loaded _ _ _ _ hsplit himage (by decide +kernel)
  have hadded : Session.addedCode (acceptedTurns.drop 2) = [17, 1, 0, 0] ++ [1, 2, 0, 3] := by
    decide +kernel
  rw [hadded] at hcode
  exact ⟨hlines, _, _, List.getLast?_eq_some_getLast hne, hcode, hdata⟩

end Quartet
