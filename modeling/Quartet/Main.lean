/-
  Quartet.Main
  ────────────
  **THE PROGRAM.**

  Reads the arguments, the files they name and the standard input, and passes them to
  `Quartet.CommandLine.Run` and `Quartet.Session.Basic`, which decide everything.
-/
import Quartet.CommandLine.Run

namespace Quartet

namespace Main

/-! ## §1. Files. -/

/-- The reason in an error of the system. -/
def reasonOf : IO.Error → FileReason
  | .noFileOrDirectory .. => .missing
  | .permissionDenied .. => .denied
  | .inappropriateType .. => .directory
  | .invalidArgument .. => .invalidName
  | _ => .missing

/-- A file name as the system takes it. -/
def pathOf (name : Bytes) : String := (String.fromUTF8? ⟨name.toArray⟩).getD ""

/-- Opens a file and reads what it holds. -/
def openFile (name : Bytes) : IO (Except FileError Input) := do
  match ← (IO.FS.Handle.mk (pathOf name) .read).toBaseIO with
  | .error e => return .error ⟨.opening, name, reasonOf e⟩
  | .ok handle =>
    match ← handle.readBinToEnd.toBaseIO with
    | .error e => return .ok ⟨[], some (.file ⟨.reading, name, reasonOf e⟩)⟩
    | .ok content => return .ok ⟨content.toList, none⟩

/-- Writes a file. -/
def writeFile (name content : Bytes) : IO (Except FileError Unit) := do
  match ← (IO.FS.writeBinFile (pathOf name) ⟨content.toArray⟩).toBaseIO with
  | .error e => return .error ⟨.opening, name, reasonOf e⟩
  | .ok _ => return .ok ()

/-! ## §2. Output. -/

/-- Writes bytes to a stream. -/
def put (stream : IO.FS.Stream) (bs : Bytes) : IO Unit := do
  stream.write ⟨bs.toArray⟩
  stream.flush

/-- A value of an entry as text. -/
def fieldText : Field → Bytes
  | .number n => decimal n
  | .text bs => quote bs
  | .bytes bs => hexSpaced bs

/-- An entry as a line of the log. -/
def entryText (e : Entry) : Bytes :=
  ascii e.level.name.toUpper ++ ascii "\t" ++ ascii e.source ++ ascii "\t" ++ e.message
    ++ e.fields.flatMap (fun f => ascii " " ++ ascii f.1 ++ ascii "=" ++ fieldText f.2)
    ++ ascii "\n"

/-- Writes the log to the standard error: all entries, or those of some weight. -/
def putLog (debug : Bool) (entries : List Entry) : IO Unit := do
  let kept := entries.filter fun e => e.level.atLeast (if debug then .debug else .warn)
  put (← IO.getStderr) (kept.flatMap entryText)

/-- Writes a failure to the standard error and gives the exit code. -/
def finish (failure : Option Bytes) : IO UInt32 := do
  match failure with
  | none => return 0
  | some message =>
    put (← IO.getStderr) (ascii "Error: " ++ message ++ ascii "\n")
    return 1

/-! ## §3. Sessions. -/

/-- Reads up to the end of a line.  Gives the line, what was read beyond it and whether a line end was
met. -/
partial def readLine (stdin : IO.FS.Stream) (buffered : Bytes) : IO (Bytes × Bytes × Bool) := do
  let line := buffered.takeWhile (· ≠ asciiByte '\n')
  if line.length < buffered.length then
    return (line, buffered.drop (line.length + 1), true)
  else if lineLimit ≤ line.length then return (line, [], false)
  else
    let chunk ← stdin.read 4096
    if chunk.isEmpty then return (line, [], false)
    else readLine stdin (buffered ++ chunk.toList)

/-- A buffer as its bytes in hexadecimal. -/
def dump : Dumper := fun _ b => [hexSpaced b.bytes.toList ++ ascii "\n"]

/-- Handles the lines of the standard input until the session ends. -/
partial def converse (debug : Bool) (stdin : IO.FS.Stream) (s : Session) (buffered : Bytes) :
    IO (Option Bytes) := do
  let (line, beyond, ended) ← readLine stdin buffered
  if lineLimit ≤ line.length then return some ReadFailure.lineTooLong.report
  else if line.isEmpty && !ended then return none
  else
    let line := withoutReturn line
    let opener : Opener ← do
      match Request.ofLine (trim line) with
      | .loadFile name =>
        let found ← openFile name
        pure fun _ => found
      | _ => pure fun name => .error ⟨.opening, name, .missing⟩
    let r := s.reply ⟨opener, dump⟩ line
    put (← IO.getStdout) r.output.flatten
    putLog debug r.entries
    if r.quit || !ended then return none else converse debug stdin r.session beyond

/-! ## §4. Commands. -/

/-- Carries out an invocation that is no session. -/
def act (debug : Bool) (inv : Invocation) : IO UInt32 := do
  let input ← match inv.file? with
    | some name => openFile name
    | none => pure (.ok ⟨[], none⟩)
  let a := inv.act input
  put (← IO.getStdout) a.output.flatten
  putLog debug a.entries
  match a.save with
  | none => finish a.failure
  | some (name, content) =>
    match ← writeFile name content with
    | .error e => finish (some (saveMessage e))
    | .ok _ => finish a.failure

end Main

end Quartet

open Quartet in
/-- Carries out the command that the arguments ask for. -/
def main (args : List String) : IO UInt32 := do
  match Invocation.read (args.map fun arg => arg.toUTF8.toList) with
  | .error problem => Main.finish (some problem)
  | .ok (.converse, debug) =>
    Main.put (← IO.getStdout) greeting
    Main.finish (← Main.converse debug (← IO.getStdin) {} [])
  | .ok (inv, debug) => Main.act debug inv
