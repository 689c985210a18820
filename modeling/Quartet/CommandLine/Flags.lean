/-
  Quartet.CommandLine.Flags
  ─────────────────────────
  **FLAGS OF A COMMAND.**

  A flag is given as `--name value`, `--name=value`, `-x value` or `-xvalue`; a switch may be given
  without value.  Flags may stand anywhere among the arguments, up to `--`.  The last value given to
  a flag counts.
-/
import Quartet.Bytes
import Quartet.Text.Characters

namespace Quartet

/-! ## §1. Flags and their values. -/

/-- The flags. -/
inductive Flag where
  /-- The file to write. -/
  | output
  /-- The size of the data of an image. -/
  | data
  /-- The most instructions to carry out. -/
  | maxSteps
  /-- Show the state at the end. -/
  | dump
  /-- Note everything. -/
  | debug
  /-- Explain the command. -/
  | help
deriving DecidableEq, Repr

/-- What kind of value a flag takes. -/
inductive FlagKind where
  /-- Any text. -/
  | text
  /-- An integer. -/
  | number
  /-- A truth value. -/
  | switch
deriving DecidableEq, Repr

namespace Flag

/-- The name of a flag. -/
def name : Flag → String
  | output => "output"
  | data => "data"
  | maxSteps => "max-steps"
  | dump => "dump"
  | debug => "debug"
  | help => "help"

/-- The letter of a flag, if it has one. -/
def letter? : Flag → Option Char
  | output => some 'o'
  | help => some 'h'
  | _ => none

/-- The kind of value a flag takes. -/
def kind : Flag → FlagKind
  | output => .text
  | data | maxSteps => .number
  | dump | debug | help => .switch

/-- A flag in messages: its letter, if it has one, and its name. -/
def title (f : Flag) : Bytes :=
  (match f.letter? with
    | some c => ascii "-" ++ [asciiByte c] ++ ascii ", "
    | none => []) ++ ascii "--" ++ ascii f.name

/-- The flag with a name. -/
def named? (flags : List Flag) (name : Bytes) : Option Flag :=
  flags.find? fun f => ascii f.name = name

/-- The flag with a letter. -/
def lettered? (flags : List Flag) (letter : UInt8) : Option Flag :=
  flags.find? fun f => f.letter?.map asciiByte = some letter

end Flag

/-- The values of all flags. -/
structure Choices where
  /-- The file to write; empty if none was given. -/
  output : Bytes := []
  /-- The size of the data of an image. -/
  data : Int := 0
  /-- The most instructions to carry out. -/
  maxSteps : Int := 0
  /-- Whether to show the state at the end. -/
  dump : Bool := false
  /-- Whether to note everything. -/
  debug : Bool := false
  /-- Whether to explain the command. -/
  help : Bool := false
deriving DecidableEq, Repr

/-! ## §2. What can be wrong. -/

/-- What is wrong with the flags of a command. -/
inductive FlagProblem where
  /-- Two dashes without a name. -/
  | badSyntax (arg : Bytes)
  /-- No flag has this name. -/
  | unknownName (name : Bytes)
  /-- No flag has this letter. -/
  | unknownLetter (letter : UInt8) (letters : Bytes)
  /-- A flag at the end that needs a value. -/
  | noValue (arg : Bytes)
  /-- A letter at the end whose flag needs a value. -/
  | noValueAfterLetter (letter : UInt8) (letters : Bytes)
  /-- A value that is no integer in range. -/
  | badNumber (value : Bytes) (flag : Flag) (problem : Numeral.Problem)
  /-- A value that is no truth value. -/
  | badTruth (value : Bytes) (flag : Flag)
deriving DecidableEq, Repr

namespace FlagProblem

/-- The wording of a value that cannot be read. -/
def badValue (value : Bytes) (flag : Flag) (reader : String) (why : String) : Bytes :=
  ascii "invalid argument " ++ quote value ++ ascii " for " ++ quote flag.title ++ ascii " flag: "
    ++ ascii reader ++ ascii ": parsing " ++ quote value ++ ascii ": " ++ ascii why

/-- The wording of a problem. -/
def message : FlagProblem → Bytes
  | badSyntax arg => ascii "bad flag syntax: " ++ arg
  | unknownName name => ascii "unknown flag: --" ++ name
  | unknownLetter letter letters =>
    ascii "unknown shorthand flag: " ++ quoteNumber letter ++ ascii " in -" ++ letters
  | noValue arg => ascii "flag needs an argument: " ++ arg
  | noValueAfterLetter letter letters =>
    ascii "flag needs an argument: " ++ quoteNumber letter ++ ascii " in -" ++ letters
  | badNumber value flag .malformed => badValue value flag "strconv.ParseInt" "invalid syntax"
  | badNumber value flag .tooLarge => badValue value flag "strconv.ParseInt" "value out of range"
  | badTruth value flag => badValue value flag "strconv.ParseBool" "invalid syntax"

end FlagProblem

/-! ## §3. Reading flags. -/

namespace Choices

/-- Gives an integer to a flag. -/
def setNumber (ch : Choices) (flag : Flag) (n : Int) : Choices :=
  match flag with
  | .data => { ch with data := n }
  | .maxSteps => { ch with maxSteps := n }
  | _ => ch

/-- Gives a truth value to a flag. -/
def setSwitch (ch : Choices) (flag : Flag) (b : Bool) : Choices :=
  match flag with
  | .dump => { ch with dump := b }
  | .debug => { ch with debug := b }
  | .help => { ch with help := b }
  | _ => ch

/-- Gives a value to a flag. -/
def set (ch : Choices) (flag : Flag) (value : Bytes) : Except FlagProblem Choices :=
  match flag.kind with
  | .text => .ok { ch with output := value }
  | .number =>
    match Numeral.signedLiteral value with
    | .error problem => .error (.badNumber value flag problem)
    | .ok n => .ok (ch.setNumber flag n)
  | .switch =>
    match truthWord? value with
    | none => .error (.badTruth value flag)
    | some b => .ok (ch.setSwitch flag b)

end Choices

/-- The value of a switch that is given without one. -/
def switchedOn : Bytes := ascii "true"

/-- Reads an argument `--name` or `--name=value`; the value may also be the next argument.  Gives the
arguments that are left. -/
def readLong (flags : List Flag) (ch : Choices) (arg : Bytes) (rest : List Bytes) :
    Except FlagProblem (Choices × List Bytes) :=
  let body := arg.drop 2
  let name := body.takeWhile (· ≠ asciiByte '=')
  if body.head? = some (asciiByte '-') ∨ body.head? = some (asciiByte '=') then
    .error (.badSyntax arg)
  else
    match Flag.named? flags name with
    | none => .error (.unknownName name)
    | some flag =>
      if name ≠ body then (ch.set flag (body.drop (name.length + 1))).map (·, rest)
      else if flag.kind = .switch then (ch.set flag switchedOn).map (·, rest)
      else
        match rest with
        | value :: rest => (ch.set flag value).map (·, rest)
        | [] => .error (.noValue arg)

/-- Whether letters belong to a test run, which has flags of its own. -/
def areTestLetters (letters : Bytes) : Bool := (ascii "test.").isPrefixOf letters

/-- Reads the letters after a single dash.  A letter whose flag needs a value takes what follows it, or
the next argument.  The letters of a test run are passed over.  Gives the arguments that are left. -/
def readLetters (flags : List Flag) (ch : Choices) (letters : Bytes) (rest : List Bytes) :
    Except FlagProblem (Choices × List Bytes) :=
  match letters with
  | [] => .ok (ch, rest)
  | letter :: more =>
    if areTestLetters (letter :: more) then .ok (ch, rest)
    else
      match Flag.lettered? flags letter with
      | none => .error (.unknownLetter letter (letter :: more))
      | some flag =>
        if more.head? = some (asciiByte '=') ∧ more.length ≠ 1 then
          (ch.set flag (more.drop 1)).map (·, rest)
        else if flag.kind = .switch then
          match ch.set flag switchedOn with
          | .error problem => .error problem
          | .ok ch => readLetters flags ch more rest
        else if more ≠ [] then (ch.set flag more).map (·, rest)
        else
          match rest with
          | value :: rest => (ch.set flag value).map (·, rest)
          | [] => .error (.noValueAfterLetter letter (letter :: more))

/-- Reads one argument that is a flag. -/
def readFlag (flags : List Flag) (ch : Choices) (arg : Bytes) (rest : List Bytes) :
    Except FlagProblem (Choices × List Bytes) :=
  if (ascii "--").isPrefixOf arg then readLong flags ch arg rest
  else readLetters flags ch (arg.drop 1) rest

/-- Whether an argument is a flag: it starts with a dash and is longer than that. -/
def isFlag (arg : Bytes) : Bool := arg.head? = some (asciiByte '-') && arg.length ≠ 1

/-- The flags and the other arguments of a command, after those read before.  Every argument takes one
turn, and a flag may take the next argument with it. -/
def readFlagsIn (flags : List Flag) :
    Nat → Choices → Array Bytes → List Bytes → Except FlagProblem (Choices × List Bytes)
  | 0, ch, others, rest => .ok (ch, others.toList ++ rest)
  | _, ch, others, [] => .ok (ch, others.toList)
  | turns + 1, ch, others, arg :: rest =>
    if arg = ascii "--" then .ok (ch, others.toList ++ rest)
    else if isFlag arg then
      match readFlag flags ch arg rest with
      | .error problem => .error problem
      | .ok (ch, rest) => readFlagsIn flags turns ch others rest
    else readFlagsIn flags turns ch (others.push arg) rest

/-- The flags and the other arguments of a command. -/
def readFlags (flags : List Flag) (args : List Bytes) :
    Except FlagProblem (Choices × List Bytes) :=
  readFlagsIn flags args.length {} #[] args

end Quartet
