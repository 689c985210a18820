/-
  Quartet.Session.Basic
  ─────────────────────
  **TALKING TO THE MACHINE.**

  A session holds a machine and the lines entered so far.  Its commands work on a console, which is a
  session together with the writer that they print to, whatever that writes to and whether it still
  does.  On a writer that keeps everything apart, a line comes down to a value: a reply.

  What the definitions stand for: `Console` for `REPL`, `Console.eval` for `REPL.eval` together with
  the trimming and the history of `REPL.Run`, `Console.run`, `Console.report`, `Console.loadFile` and
  `Console.input` for the methods of these names, and `Machine.registerTable` for `REPL.registers`.
-/
import Quartet.Listing
import Quartet.Machine.Basic
import Quartet.Machine.Run
import Quartet.Output.Writer
import Quartet.Session.Request

namespace Quartet

/-- The state of a session. -/
structure Session where
  /-- The machine. -/
  machine : Machine := .fresh
  /-- The most steps a run may take. -/
  maxSteps : Int := 1000000
  /-- The lines entered so far. -/
  history : Array Bytes := #[]
deriving DecidableEq

/-- How files are opened. -/
abbrev Opener := Bytes → Except FileError Input

/-- How a buffer is shown, in pieces.  That may tell of the memory behind the bytes, which depends on
all that was done before, so the session is known, too. -/
abbrev Dumper := Session → Buffer → List Bytes

/-- What a session needs from outside. -/
structure Host where
  /-- How files are opened. -/
  openFile : Opener
  /-- How buffers are shown. -/
  dump : Dumper

namespace Session

/-- The list of commands. -/
def helpText : Bytes := ascii "Commands:
  .program          list instructions in the program buffer
  .registers        list registers, flags and program counter
  .heap             dump the heap
  .ro               dump the read-only data segment
  .run              run until the VM halts or faults
  .load_file <file> assemble a file and replace the program with it
  .reset            reset the VM state, keeping the program
  .history          list previous input
  .quit             exit the REPL
Any other input is assembled, or decoded as space separated hex bytes, then
appended to the program and executed. Labels are not supported.
"

/-- The report on a machine that has signalled. -/
def report (signal : Signal) (m : Machine) : List Bytes :=
  match signal with
  | .proceed => []
  | .halted => [ascii "halted at " ++ decimal m.pc ++ ascii "\n"]
  | .faulted =>
    match m.fault with
    | some f => [ascii "fault: " ++ f.message ++ ascii "\n"]
    | none => []

end Session

/-! ## §1. Commands. -/

/-- A session at work. -/
structure Console (State Failure : Type) where
  /-- The session. -/
  session : Session
  /-- What is printed to. -/
  out : Writer State Failure
  /-- What is noted. -/
  entries : List Entry := []

namespace Console

variable {State Failure : Type} (d : Device State Failure) (c : Console State Failure)

/-- Prints a piece. -/
def print (piece : Bytes) : Console State Failure := { c with out := (c.out.write d piece).1 }

/-- Prints pieces in order. -/
def printAll (pieces : List Bytes) : Console State Failure := { c with out := c.out.writeAll d pieces }

/-- Notes entries. -/
def note (entries : List Entry) : Console State Failure := { c with entries := c.entries ++ entries }

/-- Goes on with the machine in another state. -/
def withMachine (m : Machine) : Console State Failure :=
  { c with session := { c.session with machine := m } }

/-- Reports on the machine after a signal. -/
def report (signal : Signal) : Console State Failure :=
  c.printAll d (Session.report signal c.session.machine)

/-- Runs the machine, for as many steps as the session allows. -/
def run : Console State Failure :=
  let (signal, m) := c.session.machine.runFor c.session.maxSteps.toNat
  let c := c.withMachine m
  if signal = .proceed then
    c.print d (ascii "stopped after " ++ decimal c.session.maxSteps ++ ascii " steps at "
      ++ decimal m.pc ++ ascii "\n")
  else c.report d signal

/-- Puts the program of a file in place of the present one. -/
def loadFile (openFile : Opener) (name : Bytes) : Console State Failure :=
  if name = [] then c.print d (ascii "usage: .load_file <file>\n")
  else
    match openFile name with
    | .error e => c.print d (e.message ++ ascii "\n")
    | .ok input =>
      let done := assemble name input
      let c := c.note done.entries
      match done.result with
      | .error refusal => c.print d (refusal.message ++ ascii "\n")
      | .ok img =>
        (c.withMachine (c.session.machine.clear.loadImage img)).print d
          (ascii "loaded " ++ decimalNat img.code.length ++ ascii " bytes of code, "
            ++ decimalNat img.data.length ++ ascii " bytes of data\n")

/-- Adds a line's code to the program and carries out one instruction. -/
def input (line : Bytes) : Console State Failure :=
  match inputCode line with
  | (.error problem, entries) => (c.note entries).print d (problem.message ++ ascii "\n")
  | (.ok code, entries) =>
    let (signal, m) := (c.session.machine.load code).step
    ((c.note entries).withMachine m).report d signal

/-- Does what is asked for; also tells whether the session ends. -/
def perform (host : Host) : Request → Console State Failure × Bool
  | .quit => (c.print d (ascii "Farewell!\n"), true)
  | .help => (c.print d Session.helpText, false)
  | .program => (c.printAll d (Listing.pieces 0 c.session.machine.code.toList), false)
  | .registers => (c.printAll d c.session.machine.registerTable, false)
  | .heap => (c.printAll d (host.dump c.session c.session.machine.heap), false)
  | .data => (c.printAll d (host.dump c.session c.session.machine.data), false)
  | .history => (c.printAll d (c.session.history.toList.map (· ++ ascii "\n")), false)
  | .reset => (c.withMachine c.session.machine.reset, false)
  | .run => (c.run d, false)
  | .loadFile name => (c.loadFile d host.openFile name, false)
  | .input line => (c.input d line, false)

/-- Handles a line.  White space around it does not matter, and a blank line asks for nothing. -/
def eval (host : Host) (line : Bytes) : Console State Failure × Bool :=
  let asked := trim line
  if asked = [] then (c, false)
  else
    { c with session := { c.session with history := c.session.history.push asked } }.perform d host
      (.ofLine asked)

end Console

/-! ## §2. Replies. -/

/-- What a line leads to. -/
structure Reply where
  /-- The session afterwards. -/
  session : Session
  /-- What is written. -/
  output : List Bytes := []
  /-- Whether the session ends. -/
  quit : Bool := false
  /-- What is noted. -/
  entries : List Entry := []

/-- A session whose output is kept. -/
def Console.recording (s : Session) : Console (List Bytes) Empty where
  session := s
  out := { state := [] }

/-- What was kept. -/
def Reply.ofConsole (c : Console (List Bytes) Empty) (quit : Bool) : Reply where
  session := c.session
  output := c.out.state
  quit := quit
  entries := c.entries

namespace Session

/-- The reply to a request to run the machine. -/
def runMachine (s : Session) : Reply := .ofConsole ((Console.recording s).run .tape) false

/-- The reply to a request to load a file. -/
def loadFile (s : Session) (openFile : Opener) (name : Bytes) : Reply :=
  .ofConsole ((Console.recording s).loadFile .tape openFile name) false

/-- The reply to input. -/
def enter (s : Session) (line : Bytes) : Reply :=
  .ofConsole ((Console.recording s).input .tape line) false

/-- The reply to a request. -/
def perform (s : Session) (host : Host) (asked : Request) : Reply :=
  let done := (Console.recording s).perform .tape host asked
  .ofConsole done.1 done.2

/-- The reply to a line. -/
def reply (s : Session) (host : Host) (line : Bytes) : Reply :=
  let done := (Console.recording s).eval .tape host line
  .ofConsole done.1 done.2

end Session

end Quartet
