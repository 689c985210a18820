/-
  Quartet.Proofs.Session.Replies
  ──────────────────────────────
  **A LINE COMES DOWN TO THE SAME REPLY ON EVERY WRITER.**

  Commands work on a console, with the writer that they print to in their hands.  None of them looks
  at it: whatever the device and whether or not it has failed, a command leaves the session of its
  reply, and has printed the pieces of its reply.

    • `Session.runMachine_eq`, `Session.loadFile_eq`, `Session.enter_eq`, `Session.reply_eq` — what
      the commands reply,
    • `Console.after` — a console after a reply,
    • `Console.eval_eq` — **a line on any device** leaves the console after its reply,
    • `Transcript.handle_cons` — so a session on storage goes on from reply to reply.
-/
import Quartet.Session.Run

namespace Quartet

/-! ## §1. Replies. -/

/-- A tape keeps all pieces. -/
theorem writeAll_tape (pieces : List Bytes) :
    ∀ before : List Bytes, Writer.writeAll .tape ⟨before, none⟩ pieces = ⟨before ++ pieces, none⟩ := by
  induction pieces with
  | nil =>
      intro before
      rw [List.append_nil]
      rfl
  | cons piece rest ih =>
      intro before
      show Writer.writeAll .tape ⟨before ++ [piece], none⟩ rest = _
      rw [ih, List.append_assoc]
      rfl

namespace Session

variable (s : Session)

theorem ofConsole_printAll (pieces : List Bytes) (entries : List Entry) (quit : Bool) :
    Reply.ofConsole
        (({ Console.recording s with entries := entries } : Console _ _).printAll .tape pieces) quit =
      { session := s, output := pieces, quit := quit, entries := entries } := by
  unfold Reply.ofConsole Console.printAll Console.recording
  rw [writeAll_tape]
  rfl

theorem runMachine_eq :
    s.runMachine =
      { session := { s with machine := (s.machine.runFor s.maxSteps.toNat).2 }
        output :=
          if (s.machine.runFor s.maxSteps.toNat).1 = .proceed then
            [ascii "stopped after " ++ decimal s.maxSteps ++ ascii " steps at "
              ++ decimal (s.machine.runFor s.maxSteps.toNat).2.pc ++ ascii "\n"]
          else
            report (s.machine.runFor s.maxSteps.toNat).1 (s.machine.runFor s.maxSteps.toNat).2 } := by
  unfold runMachine Console.run Console.recording
  dsimp only
  cases s.machine.runFor s.maxSteps.toNat with
  | mk signal m =>
      by_cases hgo : signal = .proceed
      · simp only [if_pos hgo]
        rfl
      · -- a report is of no known length, so the tape does not compute it
        simp only [if_neg hgo]
        exact ofConsole_printAll { s with machine := m } _ [] false

theorem loadFile_eq (openFile : Opener) (name : Bytes) :
    s.loadFile openFile name =
      if name = [] then { session := s, output := [ascii "usage: .load_file <file>\n"] }
      else
        match openFile name with
        | .error e => { session := s, output := [e.message ++ ascii "\n"] }
        | .ok input =>
          match (assemble name input).result with
          | .error refusal =>
            { session := s, output := [refusal.message ++ ascii "\n"]
              entries := (assemble name input).entries }
          | .ok img =>
            { session := { s with machine := s.machine.clear.loadImage img }
              output :=
                [ascii "loaded " ++ decimalNat img.code.length ++ ascii " bytes of code, "
                  ++ decimalNat img.data.length ++ ascii " bytes of data\n"]
              entries := (assemble name input).entries } := by
  unfold loadFile Console.loadFile
  by_cases hname : name = []
  · rw [if_pos hname, if_pos hname]
    rfl
  · rw [if_neg hname, if_neg hname]
    cases openFile name with
    | error e => rfl
    | ok input =>
        dsimp only
        cases (assemble name input).result with
        | error refusal => rfl
        | ok img => rfl

theorem enter_eq (line : Bytes) :
    s.enter line =
      match inputCode line with
      | (.error problem, entries) =>
        { session := s, output := [problem.message ++ ascii "\n"], entries := entries }
      | (.ok code, entries) =>
        { session := { s with machine := (s.machine.load code).step.2 }
          output := report (s.machine.load code).step.1 (s.machine.load code).step.2
          entries := entries } := by
  unfold enter Console.input
  cases inputCode line with
  | mk result entries =>
      cases result with
      | error problem => rfl
      | ok code =>
          exact ofConsole_printAll { s with machine := (s.machine.load code).step.2 } _ entries false

/-- A request to show something gets that as its reply. -/
theorem perform_of_pieces {host : Host} {q : Request} {pieces : List Bytes} {quit : Bool}
    (h : (Console.recording s).perform .tape host q =
      ((Console.recording s).printAll .tape pieces, quit)) :
    s.perform host q = { session := s, output := pieces, quit := quit } := by
  unfold perform
  rw [h]
  exact s.ofConsole_printAll pieces [] quit

theorem reply_eq (host : Host) (line : Bytes) :
    s.reply host line =
      if trim line = [] then { session := s }
      else { s with history := s.history.push (trim line) }.perform host (.ofLine (trim line)) := by
  unfold reply Console.eval
  dsimp only
  by_cases hblank : trim line = []
  · simp only [if_pos hblank]
    rfl
  · simp only [if_neg hblank]
    rfl

end Session

/-! ## §2. Commands on any device. -/

namespace Console

variable {State Failure : Type} (d : Device State Failure) (c : Console State Failure)

/-- A console after a reply: what was to be written is printed, if that still goes. -/
def after (r : Reply) : Console State Failure where
  session := r.session
  out := c.out.writeAll d r.output
  entries := c.entries ++ r.entries

/-- After a reply without entries nothing more is noted. -/
theorem after_of_output (s : Session) (pieces : List Bytes) (quit : Bool) :
    c.after d { session := s, output := pieces, quit := quit } =
      { c with session := s, out := c.out.writeAll d pieces } := by
  unfold after
  rw [List.append_nil]

theorem run_eq : c.run d = c.after d c.session.runMachine := by
  rw [Session.runMachine_eq, after_of_output]
  unfold run
  cases c.session.machine.runFor c.session.maxSteps.toNat with
  | mk signal m =>
      by_cases hgo : signal = .proceed
      · simp only [if_pos hgo]
        rfl
      · simp only [if_neg hgo]
        rfl

theorem loadFile_eq (openFile : Opener) (name : Bytes) :
    c.loadFile d openFile name = c.after d (c.session.loadFile openFile name) := by
  rw [Session.loadFile_eq]
  unfold loadFile
  by_cases hname : name = []
  · rw [if_pos hname, if_pos hname, after_of_output]
    rfl
  · rw [if_neg hname, if_neg hname]
    cases openFile name with
    | error e =>
        rw [after_of_output]
        rfl
    | ok input =>
        dsimp only
        cases (assemble name input).result with
        | error refusal => rfl
        | ok img => rfl

theorem input_eq (line : Bytes) : c.input d line = c.after d (c.session.enter line) := by
  rw [Session.enter_eq]
  unfold input
  cases inputCode line with
  | mk result entries =>
      cases result with
      | error problem => rfl
      | ok code => rfl

/-- **Every command** leaves the session of its reply and prints what is written there. -/
theorem perform_eq (host : Host) (q : Request) :
    c.perform d host q =
      (c.after d (c.session.perform host q), (c.session.perform host q).quit) := by
  cases q with
  | run => exact congrArg (·, false) (c.run_eq d)
  | loadFile name => exact congrArg (·, false) (c.loadFile_eq d host.openFile name)
  | input line => exact congrArg (·, false) (c.input_eq d line)
  | reset =>
      show _ = (c.after d { session := { c.session with machine := c.session.machine.reset } }, false)
      rw [after_of_output]
      rfl
  | quit =>
      show _ = (c.after d { session := c.session, output := [_], quit := true }, true)
      rw [after_of_output]
      rfl
  | help =>
      show _ = (c.after d { session := c.session, output := [_] }, false)
      rw [after_of_output]
      rfl
  -- what may come in many pieces, the tape has to be asked for
  | program | registers | heap | data | history =>
      rw [c.session.perform_of_pieces rfl, after_of_output]
      rfl

/-- **A line on any device** comes down to its reply: neither the session after it nor what is printed
depends on what the writer is like. -/
theorem eval_eq (host : Host) (line : Bytes) :
    c.eval d host line = (c.after d (c.session.reply host line), (c.session.reply host line).quit) := by
  rw [Session.reply_eq]
  unfold eval
  by_cases hblank : trim line = []
  · simp only [if_pos hblank]
    rw [after_of_output]
    rfl
  · simp only [if_neg hblank]
    exact perform_eq d _ host _

end Console

/-! ## §3. Sessions on storage. -/

namespace Transcript

/-- The transcript with one more line and its reply. -/
def add (t : Transcript) (line : Bytes) (r : Reply) : Transcript :=
  t.record line (t.console.after Store.device r)

/-- **A session goes on from reply to reply**, until one ends it or something cannot be written. -/
theorem handle_cons (host : Host) (last : Ending) (t : Transcript) (line : Bytes) (rest : List Bytes) :
    handle host last t (line :: rest) =
      if (t.session.reply host line).quit ∨
          (t.add line (t.session.reply host line)).ending ≠ .done then
        t.add line (t.session.reply host line)
      else handle host last (t.add line (t.session.reply host line)) rest := by
  rw [handle, Console.eval_eq]
  rfl

section Cons

variable {host : Host} {last : Ending} {t : Transcript} {line : Bytes}

theorem handle_of_stop
    (h : (t.session.reply host line).quit ∨
      (t.add line (t.session.reply host line)).ending ≠ .done) (rest : List Bytes) :
    handle host last t (line :: rest) = t.add line (t.session.reply host line) := by
  rw [handle_cons, if_pos h]

theorem handle_of_done
    (h : ¬((t.session.reply host line).quit ∨
      (t.add line (t.session.reply host line)).ending ≠ .done)) (rest : List Bytes) :
    handle host last t (line :: rest) =
      handle host last (t.add line (t.session.reply host line)) rest := by
  rw [handle_cons, if_neg h]

end Cons

end Transcript

end Quartet
