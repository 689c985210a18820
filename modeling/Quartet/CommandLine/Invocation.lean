/-
  Quartet.CommandLine.Invocation
  ──────────────────────────────
  **WHAT THE ARGUMENTS ASK FOR.**

  The first argument that is neither a flag nor the value of one names the command; without one a
  session is held.  Flags are read before the other arguments are counted.

  What the definitions stand for: `Verb.flags` for the flags that `newRootCmd`, `newAsmCmd`,
  `newRunCmd` and `newDisasmCmd` declare.
-/
import Quartet.Bytes
import Quartet.CommandLine.Flags

namespace Quartet

/-! ## §1. Commands. -/

/-- The commands. -/
inductive Verb where
  /-- No command. -/
  | main
  /-- Assemble a file into an image. -/
  | assemble
  /-- Run a file. -/
  | run
  /-- List the code of a file. -/
  | list
  /-- Hold a session. -/
  | converse
  /-- Explain the commands. -/
  | explain
deriving DecidableEq, Repr

namespace Verb

/-- The command with a name. -/
def ofName? (name : Bytes) : Option Verb :=
  if name = ascii "asm" then some assemble
  else if name = ascii "run" then some run
  else if name = ascii "disasm" then some list
  else if name = ascii "repl" then some converse
  else if name = ascii "help" ∨ name = ascii "completion" then some explain
  else none

/-- A command as it is called. -/
def title : Verb → Bytes
  | main => ascii "iridium"
  | assemble => ascii "iridium asm"
  | run => ascii "iridium run"
  | list => ascii "iridium disasm"
  | converse => ascii "iridium repl"
  | explain => ascii "iridium help"

/-- The flags that go with every command. -/
def commonFlags : List Flag := [.debug]

/-- The flags of a command. -/
def flags : Verb → List Flag
  | assemble => [.output, .help] ++ commonFlags
  | run => [.data, .maxSteps, .dump, .help] ++ commonFlags
  | list => [.data, .help] ++ commonFlags
  | _ => [.help] ++ commonFlags

end Verb

/-! ## §2. Finding the command. -/

/-- Whether an argument, as far as the common flags tell, is a flag that takes the next argument as its
value. -/
def takesNext (arg : Bytes) : Bool :=
  let isSwitch := (Flag.named? Verb.commonFlags (arg.drop 2)).any fun f => f.kind = .switch
  asciiByte '=' ∉ arg ∧
    (((ascii "--").isPrefixOf arg ∧ !isSwitch) ∨ ((ascii "-").isPrefixOf arg ∧ arg.length = 2))

/-- The first argument that is neither a flag nor the value of one.  A flag that would take the last
argument ends the search. -/
def commandName? : List Bytes → Option Bytes
  | [] => none
  | arg :: rest =>
    if arg = ascii "--" then none
    else if takesNext arg then
      match rest with
      | _ :: next :: more => commandName? (next :: more)
      | _ => none
    else if arg ≠ [] ∧ !(ascii "-").isPrefixOf arg then some arg
    else commandName? rest

/-- The arguments without the command's name. -/
def withoutCommand (name : Bytes) : List Bytes → List Bytes
  | [] => []
  | arg :: rest =>
    if arg = ascii "--" then arg :: rest
    else if takesNext arg then
      match rest with
      | value :: more => arg :: value :: withoutCommand name more
      | [] => [arg]
    else if !(ascii "-").isPrefixOf arg ∧ arg = name then rest
    else arg :: withoutCommand name rest

/-- The command of the arguments, and the arguments without its name. -/
def findVerb (args : List Bytes) : Verb × List Bytes :=
  match commandName? args with
  | none => (.main, args)
  | some name =>
    match Verb.ofName? name with
    | none => (.main, args)
    | some verb => (verb, withoutCommand name args)

/-! ## §3. Invocations. -/

/-- What is wrong with the arguments. -/
inductive UsageProblem where
  /-- A flag is wrong. -/
  | flag (problem : FlagProblem)
  /-- An argument to a command that takes none. -/
  | unknownCommand (arg : Bytes) (verb : Verb)
  /-- Not as many arguments as the command takes. -/
  | argumentCount (received : Nat)
deriving DecidableEq, Repr

/-- The wording of a problem. -/
def UsageProblem.message : UsageProblem → Bytes
  | .flag problem => problem.message
  | .unknownCommand arg verb =>
    ascii "unknown command " ++ quote arg ++ ascii " for " ++ quote verb.title
  | .argumentCount received => ascii "accepts 1 arg(s), received " ++ decimalNat received

/-- What the arguments ask for. -/
inductive Invocation where
  /-- Assemble a file and write the image. -/
  | assemble (file output : Bytes)
  /-- Run a file. -/
  | run (file : Bytes) (dataSize maxSteps : Int) (dump : Bool)
  /-- List the code of a file. -/
  | list (file : Bytes) (dataSize : Int)
  /-- Hold a session. -/
  | converse
  /-- Explain the commands. -/
  | explain
deriving DecidableEq, Repr

/-- The name of a file without its extension, which is what follows the last point of the last part. -/
def withoutExtension (name : Bytes) : Bytes :=
  let tail := name.reverse.takeWhile fun b => b ≠ asciiByte '.' ∧ b ≠ asciiByte '/'
  match name.reverse.drop tail.length with
  | b :: stem => if b = asciiByte '.' then stem.reverse else name
  | [] => name

/-- The file an image goes to when no other is named. -/
def defaultOutput (source : Bytes) : Bytes := withoutExtension source ++ ascii ".pie"

namespace Invocation

/-- The invocation of a command with its flags and its other arguments. -/
def ofVerb (verb : Verb) (ch : Choices) (args : List Bytes) : Except UsageProblem Invocation :=
  match verb, args with
  | .explain, _ => .ok explain
  | .main, [] | .converse, [] => .ok converse
  | .main, arg :: _ | .converse, arg :: _ => .error (.unknownCommand arg verb)
  | .assemble, [file] =>
    .ok (assemble file (if ch.output = [] then defaultOutput file else ch.output))
  | .run, [file] => .ok (run file ch.data ch.maxSteps ch.dump)
  | .list, [file] => .ok (list file ch.data)
  | _, args => .error (.argumentCount args.length)

/-- What the arguments ask for, and whether everything is to be noted. -/
def ofArgs (args : List Bytes) : Except UsageProblem (Invocation × Bool) :=
  let (verb, args) := findVerb args
  match readFlags verb.flags args with
  | .error problem => .error (.flag problem)
  | .ok (ch, others) =>
    if ch.help then .ok (explain, ch.debug)
    else (ofVerb verb ch others).map (·, ch.debug)

/-- What the arguments ask for, or the wording of what is wrong with them. -/
def read (args : List Bytes) : Except Bytes (Invocation × Bool) :=
  (ofArgs args).mapError UsageProblem.message

/-- The file that has to be read. -/
def file? : Invocation → Option Bytes
  | assemble file _ | run file _ _ _ | list file _ => some file
  | converse | explain => none

end Invocation

end Quartet
