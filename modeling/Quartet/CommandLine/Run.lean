/-
  Quartet.CommandLine.Run
  ───────────────────────
  **CARRYING OUT A COMMAND.**

  What a command does is computed from what its file holds: what it writes, the image it saves, what
  it notes and whether it fails.  Files and standard input are values, and how arguments are read and
  buffers are shown is given, so a whole invocation is a function; the program proper only moves the
  values in and out.

  What the definitions stand for: `Image.load` and `Image.save` for `Load` and `Save`,
  `imageOf` for `loadImage`, `assembleFile`, `runFile` and `listFile` for the commands of `newAsmCmd`,
  `newRunCmd` and `newDisasmCmd`, and `converseOn` for `startREPL`.
-/
import Quartet.CommandLine.Invocation
import Quartet.Files.Tree
import Quartet.Session.Run

namespace Quartet

/-! ## §1. Images from files. -/

/-- Why a file gives no image. -/
inductive LoadProblem where
  /-- It cannot be opened. -/
  | unopened (error : FileError)
  /-- It cannot be read. -/
  | unread (failure : ReadFailure)
  /-- It holds no image. -/
  | malformed (name : Bytes) (problem : Image.Problem)
deriving DecidableEq, Repr

/-- The wording of a problem. -/
def LoadProblem.message : LoadProblem → Bytes
  | .unopened error => ascii "open failed: " ++ error.message
  | .unread failure => failure.report
  | .malformed name problem => ascii "load " ++ name ++ ascii ": " ++ problem.message

/-- The image in a file. -/
def Image.load (openFile : Opener) (name : Bytes) (dataSize : Int) : Except LoadProblem Image :=
  match openFile name with
  | .error e => .error (.unopened e)
  | .ok input =>
    match input.failure with
    | some failure => .error (.unread failure)
    | none => (Image.decode input.text dataSize).mapError (.malformed name)

/-- The wording of an image that cannot be saved. -/
def saveMessage (e : FileError) : Bytes := ascii "create failed: " ++ e.message

/-- Writes an image to a file. -/
def Image.save (img : Image) (files : FileTree) (name : Bytes) : Except FileError FileTree :=
  files.writeFile name img.encode

/-! ## §2. What commands do. -/

/-- What a command does with its file. -/
structure Act where
  /-- What it writes. -/
  output : List Bytes := []
  /-- Why it fails, if it does. -/
  failure : Option Bytes := none
  /-- The file it writes at the end, and what goes into it. -/
  save : Option (Bytes × Bytes) := none
  /-- What it notes. -/
  entries : List Entry := []

/-- The image of a file that holds an image or a source text.  What starts with the mark of an image
is one. -/
def imageOf (name : Bytes) (dataSize : Int) (input : Except FileError Input) :
    Except Bytes Image × List Entry :=
  match input with
  | .error e => (.error (ascii "load failed: " ++ e.message), [])
  | .ok input =>
    match input.failure with
    | some failure => (.error (ascii "load failed: " ++ failure.message), [])
    | none =>
      if Image.hasMagic input.text then
        ((Image.decode input.text dataSize).mapError Image.Problem.message, [])
      else
        let done := assemble name input
        (done.result.mapError Refusal.message, done.entries)

/-- Runs a machine; a number of steps that is not positive is no bound. -/
def Machine.runWithin (m : Machine) (maxSteps : Int) : Signal × Machine :=
  if 0 < maxSteps then m.runFor maxSteps.toNat else m.run

/-- Why a run that ended with a signal has failed, if it has. -/
def runFailure? (maxSteps : Int) (signal : Signal) (m : Machine) : Option Bytes :=
  match signal with
  | .proceed =>
    some (ascii "step budget of " ++ decimal maxSteps ++ ascii " instructions exhausted at pc="
      ++ decimal m.pc)
  | .halted => none
  | .faulted => m.fault.map fun f => ascii "fault: " ++ f.message

/-- What the command to assemble does. -/
def assembleFile (name output : Bytes) (input : Except FileError Input) : Act :=
  match input with
  | .error e => { failure := some (ascii "open failed: " ++ e.message) }
  | .ok input =>
    let done := assemble name input
    match done.result with
    | .error refusal => { failure := some refusal.message, entries := done.entries }
    | .ok img => { save := some (output, img.encode), entries := done.entries }

/-- What the command to run does. -/
def runFile (name : Bytes) (dataSize maxSteps : Int) (dump : Bool)
    (input : Except FileError Input) : Act :=
  match imageOf name dataSize input with
  | (.error message, entries) => { failure := some message, entries := entries }
  | (.ok img, entries) =>
    let (signal, m) := (Machine.fresh.loadImage img).runWithin maxSteps
    { output := if dump then m.dump else []
      failure := runFailure? maxSteps signal m
      entries := entries }

/-- What the command to list does. -/
def listFile (name : Bytes) (dataSize : Int) (input : Except FileError Input) : Act :=
  match imageOf name dataSize input with
  | (.error message, entries) => { failure := some message, entries := entries }
  | (.ok img, entries) => { output := Listing.image img, entries := entries }

/-- What a session is opened with. -/
def greeting : Bytes := ascii "Welcome to Iridium! Type .help for a list of commands.\n"

/-- The commands and what they take. -/
def usageText : Bytes := ascii "Usage:
  iridium [--debug] asm sourceFile [-o filename]
  iridium [--debug] run file [--data size] [--max-steps count] [--dump]
  iridium [--debug] disasm file [--data size]
  iridium [--debug] repl
"

/-- What an invocation without session does with the file it has to read. -/
def Invocation.act (inv : Invocation) (input : Except FileError Input) : Act :=
  match inv with
  | .assemble file output => assembleFile file output input
  | .run file dataSize maxSteps dump => runFile file dataSize maxSteps dump input
  | .list file dataSize => listFile file dataSize input
  | .converse => {}
  | .explain => { output := [usageText] }

/-! ## §3. A whole invocation. -/

/-- What is left of an invocation. -/
structure Outcome where
  /-- What was written. -/
  output : Bytes := []
  /-- Why it failed, if it did. -/
  failure : Option Bytes := none
  /-- The files afterwards. -/
  files : FileTree
  /-- What was noted. -/
  entries : List Entry := []

/-- What is written about a failure. -/
def Outcome.complaint (o : Outcome) : Bytes :=
  match o.failure with
  | some message => ascii "Error: " ++ message ++ ascii "\n"
  | none => []

/-- How arguments are read: what they ask for and whether everything is to be noted, or what is wrong
with them. -/
abbrev ArgumentReader := List Bytes → Except Bytes (Invocation × Bool)

/-- Holds a session on the standard input. -/
def converseOn (dump : Dumper) (files : FileTree) (stdin : Input) : Outcome :=
  let store : Store := { stored := greeting.toArray }
  let t := ({} : Session).converse ⟨files.openFile, dump⟩ stdin store
  { output := t.store.stored.toList, failure := t.ending.message?, files := files
    entries := t.entries.toList }

/-- Carries out what an invocation does and saves what it saves. -/
def actOn (files : FileTree) (inv : Invocation) : Outcome :=
  let a := inv.act (match inv.file? with
    | some name => files.openFile name
    | none => .ok ⟨[], none⟩)
  match a.save with
  | none =>
    { output := a.output.flatten, failure := a.failure, files := files, entries := a.entries }
  | some (name, content) =>
    match files.writeFile name content with
    | .error e => { failure := some (saveMessage e), files := files, entries := a.entries }
    | .ok saved => { files := saved, entries := a.entries }

/-- Carries out the command that the arguments ask for. -/
def carryOut (read : ArgumentReader) (dump : Dumper) (files : FileTree) (stdin : Input)
    (args : List Bytes) : Outcome :=
  match read args with
  | .error problem => { failure := some problem, files := files }
  | .ok (.converse, _) => converseOn dump files stdin
  | .ok (inv, _) => actOn files inv

/-- The lines that entries of some weight leave in the log. -/
def logText (entries : List Entry) : Bytes :=
  (entries.filter fun e => e.level.atLeast .warn).flatMap fun e =>
    ascii "WARN\t" ++ ascii e.source ++ ascii "\t" ++ e.message ++ ascii "\n"

end Quartet
