/-
  Quartet.Proofs.Session.Forgetting
  ─────────────────────────────────
  **LOADING A FILE FORGETS THE PAST.**

  A session has three memories: its history, and the memory behind the two buffers of its machine.
  Unless a line asks for one of them, what it leads to depends on nothing but what can be observed of
  the machine, and loading a file leaves nothing of that:

    • `Session.Alike.answer_perform`, `Session.Alike.reply` — sessions that are alike answer a line in
      the same way and are alike afterwards,
    • `Session.Alike.answers`, `Session.Alike.records` — so they answer any lines in the same way, and
      whole sessions go the same way,
    • `Session.alike_of_image?` — once a file is loaded, all sessions are alike,
    • `past_forgotten` — both together, and the same for a machine that starts over.
-/
import Quartet.Proofs.Session.Accepted

namespace Quartet

/-! ## §1. What is seen of a line. -/

/-- Whether a request shows a memory that outlives the program: the lines so far, or the memory behind
a buffer. -/
def Request.recalls : Request → Bool
  | .heap | .data | .history => true
  | .quit | .help | .program | .registers | .reset | .run | .loadFile _ | .input _ => false

/-- What is seen of a line that is handled. -/
structure Answer where
  /-- What is written. -/
  output : List Bytes
  /-- Whether the session ends. -/
  quit : Bool
  /-- What can be observed of the machine afterwards. -/
  view : Machine.View
deriving DecidableEq

/-- What is seen of a reply. -/
def Reply.answer (r : Reply) : Answer := ⟨r.output, r.quit, r.session.machine.view⟩

namespace Session

/-- Whether a line asks for such a memory. -/
def recalls (line : Bytes) : Bool := (request? line).any Request.recalls

/-- What is seen of lines that are handled one by one. -/
def answers : Session → List Turn → List Answer
  | _, [] => []
  | s, t :: ts => (s.reply t.host t.line).answer :: (s.takeTurn t).answers ts

/-! ## §2. Sessions that are alike. -/

/-- Sessions whose machines look the same, and that allow as many steps. -/
structure Alike (s s' : Session) : Prop where
  /-- The machines look the same. -/
  view : s.machine.view = s'.machine.view
  /-- Runs may be of the same length. -/
  maxSteps : s.maxSteps = s'.maxSteps

/-- The report on a machine depends on what can be observed of it. -/
theorem report_of_view {m m' : Machine} (h : m.view = m'.view) (signal : Signal) :
    report signal m = report signal m' := by
  have hpc : m.pc = m'.pc := congrArg Machine.View.pc h
  have hfault : m.fault = m'.fault := congrArg Machine.View.fault h
  unfold report
  rw [hpc, hfault]

theorem registerTable_of_view {m m' : Machine} (h : m.view = m'.view) :
    m.registerTable = m'.registerTable := by
  obtain ⟨hother, -, -⟩ := Machine.eq_backed_of_view h
  rw [hother]
  rfl

theorem maxSteps_perform (s : Session) (host : Host) (q : Request) :
    (s.perform host q).session.maxSteps = s.maxSteps := by
  cases q with
  | loadFile name =>
      rcases refuses_or_loads host.openFile name with hrefuses | ⟨img, hloads⟩
      · rw [(s.perform_of_refuses hrefuses).1]
      · rw [s.perform_of_loads hloads]
  | input src =>
      rcases refuses_or_accepts host.openFile src with hrefuses | ⟨code, haccepts⟩
      · rw [(s.perform_of_refuses hrefuses).1]
      · rw [(s.perform_of_accepts haccepts).1]
  | run =>
      show s.runMachine.session.maxSteps = _
      rw [runMachine_eq]
  | _ => rfl

/-- What loading a file shows depends on the file only. -/
theorem answer_perform_of_loads {host host' : Host} {q q' : Request} {img : Image}
    (h : Loads host.openFile q img) (h' : Loads host'.openFile q' img) (s s' : Session) :
    (s.perform host q).answer = (s'.perform host' q').answer := by
  cases h with
  | @file name input img hname hopen himg =>
      cases h' with
      | @file name' input' img hname' hopen' himg' =>
          show (s.loadFile host.openFile name).answer = (s'.loadFile host'.openFile name').answer
          simp only [loadFile_eq, if_neg hname, if_neg hname', hopen, hopen', himg, himg', Reply.answer]
          rfl

section Alike

variable {s s' : Session} (host : Host)

/-- Sessions that are alike refuse in the same way. -/
theorem Alike.answer_perform_of_refuses {host : Host} {q : Request} (h : s.Alike s')
    (hrefuses : Refuses host.openFile q) :
    (s.perform host q).answer = (s'.perform host q).answer := by
  obtain ⟨output, entries, hperform⟩ := exists_perform_of_refuses hrefuses
  rw [hperform s, hperform s']
  exact congrArg (Answer.mk _ _) h.view

/-- They accept input in the same way. -/
theorem Alike.answer_perform_of_accepts {src code : Bytes} (h : s.Alike s')
    (haccepts : Accepts src code) :
    (s.perform host (.input src)).answer = (s'.perform host (.input src)).answer := by
  obtain ⟨hsession, houtput, hquit⟩ := @perform_of_accepts s host src code haccepts
  obtain ⟨hsession', houtput', hquit'⟩ := @perform_of_accepts s' host src code haccepts
  have hload : (s.machine.load code).view = (s'.machine.load code).view :=
    (Machine.view_call h.view (.load code)).2
  obtain ⟨hsignal, hview⟩ := (s.machine.load code).indifferent_step.view_eq hload
  unfold Reply.answer
  rw [hsession, hsession', houtput, houtput', hquit, hquit', hsignal, hview, report_of_view hview]

/-- And they run in the same way. -/
theorem Alike.answer_runMachine (h : s.Alike s') : s.runMachine.answer = s'.runMachine.answer := by
  obtain ⟨hsignal, hview⟩ := (s.machine.indifferent_runFor s.maxSteps.toNat).view_eq h.view
  have hpc : (s.machine.runFor s.maxSteps.toNat).2.pc = (s'.machine.runFor s.maxSteps.toNat).2.pc :=
    congrArg Machine.View.pc hview
  unfold Reply.answer
  simp only [runMachine_eq, ← h.maxSteps, hsignal, hview, hpc, report_of_view hview]

/-- **Sessions that are alike answer a request in the same way**, unless it asks for a memory. -/
theorem Alike.answer_perform {q : Request} (h : s.Alike s') (hq : q.recalls = false) :
    (s.perform host q).answer = (s'.perform host q).answer := by
  cases q with
  | quit | help => exact congrArg (Answer.mk _ _) h.view
  | program =>
      have hcode : s.machine.code = s'.machine.code := congrArg Machine.View.code h.view
      rw [s.perform_of_pieces rfl, s'.perform_of_pieces rfl]
      show Answer.mk (Listing.pieces 0 s.machine.code.toList) false s.machine.view = _
      rw [hcode, h.view]
      rfl
  | registers =>
      rw [s.perform_of_pieces rfl, s'.perform_of_pieces rfl]
      show Answer.mk s.machine.registerTable false s.machine.view = _
      rw [registerTable_of_view h.view, h.view]
      rfl
  -- these three do ask for a memory
  | heap | data | history => exact absurd hq (by simp [Request.recalls])
  | reset => exact congrArg (Answer.mk _ _) (Machine.view_call h.view .reset).2
  | run => exact h.answer_runMachine
  | loadFile name =>
      rcases refuses_or_loads host.openFile name with hrefuses | ⟨img, hloads⟩
      · exact h.answer_perform_of_refuses hrefuses
      · exact answer_perform_of_loads hloads hloads s s'
  | input src =>
      rcases refuses_or_accepts host.openFile src with hrefuses | ⟨code, haccepts⟩
      · exact h.answer_perform_of_refuses hrefuses
      · exact h.answer_perform_of_accepts host haccepts

/-- **One line**: sessions that are alike answer it in the same way and are alike afterwards. -/
theorem Alike.reply {line : Bytes} (h : s.Alike s') (hline : recalls line = false) :
    (s.reply host line).answer = (s'.reply host line).answer ∧
      (s.reply host line).session.Alike (s'.reply host line).session := by
  cases hq : request? line with
  | none =>
      rw [reply_of_none hq, reply_of_none hq]
      exact ⟨congrArg (Answer.mk _ _) h.view, h⟩
  | some q =>
      have hrecalls : q.recalls = false := by
        rw [recalls, hq] at hline
        exact hline
      -- the histories may differ, but nothing looks at them
      have hnoted : (s.noting line).Alike (s'.noting line) := ⟨h.view, h.maxSteps⟩
      have hanswer := hnoted.answer_perform host hrecalls
      rw [reply_of_some hq, reply_of_some hq]
      refine ⟨hanswer, congrArg Answer.view hanswer, ?_⟩
      rw [maxSteps_perform, maxSteps_perform]
      exact h.maxSteps

end Alike

/-- **Any lines.** -/
theorem Alike.answers {ts : List Turn} (hts : ∀ t ∈ ts, recalls t.line = false) :
    ∀ {s s' : Session}, s.Alike s' → s.answers ts = s'.answers ts := by
  induction ts with
  | nil =>
      intro s s' h
      rfl
  | cons t ts ih =>
      intro s s' h
      obtain ⟨hanswer, hnext⟩ := h.reply t.host (hts t List.mem_cons_self)
      have hrest : (s.takeTurn t).answers ts = (s'.takeTurn t).answers ts :=
        ih (fun u hu => hts u (List.mem_cons_of_mem _ hu)) hnext
      show (s.reply t.host t.line).answer :: (s.takeTurn t).answers ts = _
      rw [hanswer, hrest]
      rfl

end Session

/-! ## §3. Whole sessions. -/

/-- What is seen of a whole session: the lines, each with what was written and what the machine looks
like after it, the storage written to and how the session ended. -/
structure Seen where
  /-- The lines. -/
  lines : Array (Bytes × Bytes × Machine.View)
  /-- The storage. -/
  store : Store
  /-- The ending. -/
  ending : Ending
deriving DecidableEq

namespace Transcript

/-- What is seen of a transcript. -/
def seen (t : Transcript) : Seen where
  lines := t.handled.map fun h => (h.line, h.output, h.after.machine.view)
  store := t.store
  ending := t.ending

/-- One line more on the same writer leaves the same writer behind. -/
theorem out_add {t t' : Transcript} (h : t.out = t'.out) {r r' : Reply} (hr : r.answer = r'.answer)
    (line : Bytes) : (t.add line r).out = (t'.add line r').out := by
  have houtput : r.output = r'.output := congrArg Answer.output hr
  show t.out.writeAll Store.device r.output = t'.out.writeAll Store.device r'.output
  rw [h, houtput]

/-- What is seen of it depends on what is seen of the line and of those before. -/
theorem seen_add {t t' : Transcript} (h : t.seen = t'.seen) (hout : t.out = t'.out) {r r' : Reply}
    (hr : r.answer = r'.answer) (line : Bytes) : (t.add line r).seen = (t'.add line r').seen := by
  have hlines : t.handled.map _ = t'.handled.map _ := congrArg Seen.lines h
  have houtput : r.output = r'.output := congrArg Answer.output hr
  have hview : r.session.machine.view = r'.session.machine.view := congrArg Answer.view hr
  simp only [seen, add, record, Console.after, console, store, Array.map_push, hlines, hout, houtput,
    hview]

/-- Transcripts of sessions that are alike go on in the same way. -/
theorem seen_handle (host : Host) (last : Ending) {lines : List Bytes}
    (hlines : ∀ line ∈ lines, Session.recalls line = false) :
    ∀ {t t' : Transcript}, t.seen = t'.seen → t.out = t'.out → t.session.Alike t'.session →
      (handle host last t lines).seen = (handle host last t' lines).seen ∧
        (handle host last t lines).session.Alike (handle host last t' lines).session := by
  induction lines with
  | nil =>
      intro t t' hseen _ h
      exact ⟨congrArg (fun k : Seen => { k with ending := last }) hseen, h⟩
  | cons line rest ih =>
      intro t t' hseen hout h
      obtain ⟨hanswer, hnext⟩ := h.reply host (hlines line List.mem_cons_self)
      have hadd := seen_add hseen hout hanswer line
      have hquit : (t.session.reply host line).quit = (t'.session.reply host line).quit :=
        congrArg Answer.quit hanswer
      have hending : (t.add line (t.session.reply host line)).ending =
          (t'.add line (t'.session.reply host line)).ending := congrArg Seen.ending hadd
      -- so both stop at this line, or both go on
      by_cases hstop : (t'.session.reply host line).quit ∨
          (t'.add line (t'.session.reply host line)).ending ≠ .done
      · rw [handle_of_stop (by rw [hquit, hending]; exact hstop), handle_of_stop hstop]
        exact ⟨hadd, hnext⟩
      · rw [handle_of_done (by rw [hquit, hending]; exact hstop), handle_of_done hstop]
        exact ih (fun l hl => hlines l (List.mem_cons_of_mem _ hl)) hadd (out_add hout hanswer line)
          hnext

end Transcript

namespace Session

/-- What is seen of sessions held one after the other. -/
def records : Session → List Visit → List Seen
  | _, [] => []
  | s, v :: rest => (s.visit v).seen :: (s.visit v).session.records rest

/-- **Any sessions.** -/
theorem Alike.records {visits : List Visit}
    (hvisits : ∀ v ∈ visits, ∀ line ∈ v.input.lines.1, recalls line = false) :
    ∀ {s s' : Session}, s.Alike s' → s.records visits = s'.records visits := by
  induction visits with
  | nil =>
      intro s s' h
      rfl
  | cons v rest ih =>
      intro s s' h
      obtain ⟨hseen, hnext⟩ : (s.visit v).seen = (s'.visit v).seen ∧
          (s.visit v).session.Alike (s'.visit v).session :=
        Transcript.seen_handle v.host _ (hvisits v List.mem_cons_self) rfl rfl h
      have hrest : (s.visit v).session.records rest = (s'.visit v).session.records rest :=
        ih (fun w hw => hvisits w (List.mem_cons_of_mem _ hw)) hnext
      show (s.visit v).seen :: (s.visit v).session.records rest = _
      rw [hseen, hrest]
      rfl

/-- **Once a file is loaded, all sessions are alike** that allow as many steps. -/
theorem alike_of_image? {s s' : Session} (hsteps : s.maxSteps = s'.maxSteps) {t t' : Turn} {img : Image}
    (ht : t.image? = some img) (ht' : t'.image? = some img) :
    (s.reply t.host t.line).answer = (s'.reply t'.host t'.line).answer ∧
      (s.takeTurn t).Alike (s'.takeTurn t') := by
  obtain ⟨q, hq, hloads⟩ := Turn.image?_eq_some_iff.mp ht
  obtain ⟨q', hq', hloads'⟩ := Turn.image?_eq_some_iff.mp ht'
  have hanswer := answer_perform_of_loads hloads hloads' (s.noting t.line) (s'.noting t'.line)
  unfold takeTurn
  rw [reply_of_some hq, reply_of_some hq']
  refine ⟨hanswer, congrArg Answer.view hanswer, ?_⟩
  rw [maxSteps_perform, maxSteps_perform]
  exact hsteps

/-- From then on they give the same answers. -/
theorem answers_of_image? {s s' : Session} (hsteps : s.maxSteps = s'.maxSteps) {t t' : Turn}
    {img : Image} (ht : t.image? = some img) (ht' : t'.image? = some img) {ts : List Turn}
    (hts : ∀ u ∈ ts, recalls u.line = false) : s.answers (t :: ts) = s'.answers (t' :: ts) := by
  obtain ⟨hanswer, halike⟩ := alike_of_image? hsteps ht ht'
  have hrest : (s.takeTurn t).answers ts = (s'.takeTurn t').answers ts := halike.answers hts
  show (s.reply t.host t.line).answer :: (s.takeTurn t).answers ts = _
  rw [hanswer, hrest]
  rfl

end Session

/-- **Loading a file or starting over forgets the past.**  Take sessions with any past that allow as
many steps, and let each load the same image.  To this and to any lines that follow, none of which
asks for a memory, they give the same answers, which are those of a new session; and any sessions held
from then on go the same way.  A machine that starts over behaves under any calls as a new one that is
loaded with its program.  If it was set up without a heap, and then loaded, its steps and runs can be
repeated after a new start, and lead to the same machine. -/
theorem past_forgotten :
    (∀ (s s' : Session) (t t' : Session.Turn) (img : Image), s.maxSteps = s'.maxSteps →
      t.image? = some img → t'.image? = some img →
      (∀ ts : List Session.Turn, (∀ u ∈ ts, Session.recalls u.line = false) →
        s.answers (t :: ts) = s'.answers (t' :: ts) ∧
          s.answers (t :: ts) = ({ maxSteps := s.maxSteps } : Session).answers (t :: ts)) ∧
      ∀ visits : List Session.Visit,
        (∀ v ∈ visits, ∀ line ∈ v.input.lines.1, Session.recalls line = false) →
        (s.takeTurn t).records visits = (s'.takeTurn t').records visits ∧
          (s.takeTurn t).records visits =
            (({ maxSteps := s.maxSteps } : Session).takeTurn t).records visits) ∧
    (∀ (m : Machine) (cs : List Machine.Call),
      (m.reset.callAll cs).1 = ((Machine.fresh.loadImage m.image).callAll cs).1 ∧
        (m.reset.callAll cs).2.view = ((Machine.fresh.loadImage m.image).callAll cs).2.view) ∧
    ∀ (settings : List Machine.Setting) (loads : List Machine.Call) (m : Machine),
      (∀ size, .heapSize size ∉ settings) → (∀ c ∈ loads, c.loads) →
      m = ((Machine.fresh.configureAll settings).1.callAll loads).2 →
      (∀ cs : List Machine.Call, (∀ c ∈ cs, c.signals) →
        (m.callAll cs).2.reset.callAll cs = m.callAll cs) ∧
      ∀ n, (m.runFor n).2.reset.runFor n = m.runFor n := by
  refine ⟨?_, fun m cs => Machine.view_callAll m.view_reset cs, ?_⟩
  · intro s s' t t' img hsteps ht ht'
    have hnew : s.maxSteps = ({ maxSteps := s.maxSteps } : Session).maxSteps := rfl
    refine ⟨?_, ?_⟩
    · intro ts hts
      exact ⟨Session.answers_of_image? hsteps ht ht' hts, Session.answers_of_image? hnew ht ht hts⟩
    · intro visits hvisits
      exact ⟨(Session.alike_of_image? hsteps ht ht').2.records hvisits,
        (Session.alike_of_image? hnew ht ht).2.records hvisits⟩
  · rintro settings loads m hsettings hloads rfl
    have hstart := Machine.reset_callAll hloads _ (Machine.reset_configureAll hsettings .fresh rfl)
    exact ⟨fun cs hcs => Machine.callAll_reset hstart hcs, Machine.runFor_reset hstart⟩

/-- A working directory with one file, `a`. -/
def forgettingFiles : Opener := fun name =>
  if name = ascii "a" then .ok ⟨ascii ".data x: .asciiz 'a' .code load $1 #7 aloc $1 hlt", none⟩
  else .error ⟨.opening, name, .missing⟩

/-- This directory, and buffers shown as their bytes. -/
def forgettingHost : Host := ⟨forgettingFiles, fun _ b => [b.bytes.toList]⟩

/-- A session that has a past: code, registers, a heap and a fault. -/
def forgettingPast : Session :=
  ({} : Session).takeAll
    [⟨forgettingHost, ascii "load $1 #9"⟩, ⟨forgettingHost, ascii "aloc $1"⟩,
      ⟨forgettingHost, ascii "ff 0 0 0"⟩]

theorem past_forgotten_sample :
    forgettingPast.machine.heap.bytes.size = 9 ∧ forgettingPast.machine.fault.isSome ∧
    (∀ loading : Session.Turn, loading = ⟨forgettingHost, ascii ".load_file a"⟩ →
      forgettingPast.answers [loading, ⟨forgettingHost, ascii ".run"⟩, ⟨forgettingHost, ascii "inc $2"⟩]
        = ({} : Session).answers
            [loading, ⟨forgettingHost, ascii ".run"⟩, ⟨forgettingHost, ascii "inc $2"⟩]) ∧
    (∀ m, m = ((Machine.fresh.configureAll [.code [1, 1, 0, 7]]).1.callAll [.load [16, 1, 0, 0]]).2 →
      (m.callAll [.step, .step]).2.reset.callAll [.step, .step] = m.callAll [.step, .step]) := by
  obtain ⟨hsessions, -, hmachines⟩ := past_forgotten
  refine ⟨by decide +kernel, by decide +kernel, ?_, ?_⟩
  · rintro loading rfl
    have himage : Session.Turn.image? ⟨forgettingHost, ascii ".load_file a"⟩ =
        some ⟨[97, 0], [1, 1, 0, 7, 16, 1, 0, 0, 0, 0, 0, 0]⟩ := by decide +kernel
    exact ((hsessions forgettingPast {} _ _ _ (by decide +kernel) himage himage).1 _
      (by decide +kernel)).1
  · intro m hm
    exact (hmachines _ _ m (by simp) (by decide) hm).1 _ (by decide)

end Quartet
