/-
  Quartet.Session.Run
  ───────────────────
  **A WHOLE SESSION.**

  A session goes through the lines of an input until it is ended, until something cannot be written
  or until nothing more can be read.  All its lines print to one writer.

  Lines end with a newline, and one carriage return before it does not belong to the line.  What
  follows the last newline is a line unless it is empty.  A line must be shorter than 65536 bytes.

  What the definitions stand for: `Session.converse` and `Transcript.handle` for `REPL.Run`, and
  `Input.lines` for what `NewLineReader` reads.
-/
import Quartet.Session.Basic

namespace Quartet

/-! ## §1. Lines. -/

/-- Lines must be shorter than this. -/
def lineLimit : Nat := 65536

/-- A line without the carriage return at its end. -/
def withoutReturn (line : Bytes) : Bytes :=
  if line.getLast? = some (asciiByte '\r') then line.dropLast else line

/-- The lines of a text after those read before, up to the first that is too long; the flag tells
whether there is one. -/
def linesOf (text : Bytes) (before : Array Bytes) : List Bytes × Bool :=
  if text = [] then (before.toList, false)
  else
    let line := text.takeWhile (· ≠ asciiByte '\n')
    if lineLimit ≤ line.length then (before.toList, true)
    else
      linesOf ((text.dropWhile (· ≠ asciiByte '\n')).drop 1) (before.push (withoutReturn line))
termination_by text.length
decreasing_by
  have hpos : text.length ≠ 0 := by simpa using ‹¬text = []›
  have hle := (List.dropWhile_suffix (l := text) (· ≠ asciiByte '\n')).length_le
  simp only [List.length_drop]
  omega

/-- The lines of an input, and the failure that comes after them instead of an end. -/
def Input.lines (input : Input) : List Bytes × Option ReadFailure :=
  match linesOf input.text #[] with
  | (lines, true) => (lines, some .lineTooLong)
  | (lines, false) => (lines, input.failure)

/-! ## §2. Sessions. -/

/-- How a session ended. -/
inductive Ending where
  /-- At the end of the input, or because a line asked for it. -/
  | done
  /-- Something could not be written. -/
  | writeFailed (failure : StoreFailure)
  /-- Nothing more could be read. -/
  | readFailed (failure : ReadFailure)
deriving DecidableEq, Repr

/-- The wording of an ending that is a failure. -/
def Ending.message? : Ending → Option Bytes
  | .done => none
  | .writeFailed failure => some failure.report
  | .readFailed failure => some failure.report

/-- A line that was handled. -/
structure Handled where
  /-- The line as it was read. -/
  line : Bytes
  /-- What was written while handling it. -/
  output : Bytes
  /-- The session afterwards. -/
  after : Session

/-- A session that has ended. -/
structure Transcript where
  /-- The session at its end. -/
  session : Session
  /-- What it printed to. -/
  out : Writer Store StoreFailure
  /-- The lines that were handled. -/
  handled : Array Handled := #[]
  /-- What was noted. -/
  entries : Array Entry := #[]
  /-- How it ended. -/
  ending : Ending := .done

namespace Transcript

/-- The storage written to. -/
def store (t : Transcript) : Store := t.out.state

/-- The console on which the next line is handled. -/
def console (t : Transcript) : Console Store StoreFailure where
  session := t.session
  out := t.out

/-- The transcript with one more line, which left a console behind.  If something could not be written,
that is how the session ends. -/
def record (t : Transcript) (line : Bytes) (c : Console Store StoreFailure) : Transcript where
  session := c.session
  out := c.out
  handled := t.handled.push
    ⟨line, (c.out.state.stored.extract t.store.stored.size c.out.state.stored.size).toList,
      c.session⟩
  entries := t.entries ++ c.entries
  ending :=
    match c.out.failure with
    | some failure => .writeFailed failure
    | none => .done

/-- Handles lines, and ends with `last` if they all are. -/
def handle (host : Host) (last : Ending) : Transcript → List Bytes → Transcript
  | t, [] => { t with ending := last }
  | t, line :: rest =>
    let (c, quit) := t.console.eval Store.device host line
    let next := t.record line c
    if quit ∨ next.ending ≠ .done then next else handle host last next rest

end Transcript

/-- Runs a session on an input. -/
def Session.converse (s : Session) (host : Host) (input : Input) (store : Store) : Transcript :=
  let (lines, failure) := input.lines
  Transcript.handle host
    (match failure with
      | some failure => .readFailed failure
      | none => .done)
    { session := s, out := { state := store } } lines

end Quartet
