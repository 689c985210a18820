/-
  Quartet.Files.Error
  ───────────────────
  **WHEN FILES AND READERS FAIL.**
-/
import Quartet.Bytes

namespace Quartet

/-- What is wrong with the name of a file. -/
inductive FileReason where
  /-- Nothing has this name. -/
  | missing
  /-- It names a directory. -/
  | directory
  /-- It goes through something that is no directory. -/
  | notDirectory
  /-- It is longer than names may be. -/
  | nameTooLong
  /-- It holds a zero byte. -/
  | invalidName
  /-- Its owner does not allow it. -/
  | denied
deriving DecidableEq, Repr

/-- The wording of a reason. -/
def FileReason.message : FileReason → Bytes
  | .missing => ascii "no such file or directory"
  | .directory => ascii "is a directory"
  | .notDirectory => ascii "not a directory"
  | .nameTooLong => ascii "file name too long"
  | .invalidName => ascii "invalid argument"
  | .denied => ascii "permission denied"

/-- What was tried with a file. -/
inductive FileAction where
  /-- Opening or creating it. -/
  | opening
  /-- Reading what it holds. -/
  | reading
deriving DecidableEq, Repr

/-- A file operation that failed. -/
structure FileError where
  /-- What was tried. -/
  action : FileAction
  /-- The name of the file. -/
  name : Bytes
  /-- Why it failed. -/
  reason : FileReason
deriving DecidableEq, Repr

/-- The wording of a failed file operation. -/
def FileError.message (e : FileError) : Bytes :=
  (match e.action with
    | .opening => ascii "open "
    | .reading => ascii "read ") ++ e.name ++ ascii ": " ++ e.reason.message

/-- Why nothing more can be read. -/
inductive ReadFailure where
  /-- The device went away. -/
  | deviceGone
  /-- The file cannot be read. -/
  | file (e : FileError)
  /-- A line is longer than lines may be. -/
  | lineTooLong
deriving DecidableEq, Repr

/-- The wording of a reading failure. -/
def ReadFailure.message : ReadFailure → Bytes
  | .deviceGone => ascii "device gone"
  | .file e => e.message
  | .lineTooLong => ascii "bufio.Scanner: token too long"

/-- The wording of a reading failure where it ends the work. -/
def ReadFailure.report (f : ReadFailure) : Bytes := ascii "read failed: " ++ f.message

/-- What a reader delivers: a text, and the failure that comes after it instead of an end. -/
structure Input where
  /-- The text. -/
  text : Bytes
  /-- What comes instead of the end. -/
  failure : Option ReadFailure := none
deriving DecidableEq, Repr

end Quartet
