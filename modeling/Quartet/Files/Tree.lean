/-
  Quartet.Files.Tree
  ──────────────────
  **FILES AS A VALUE.**

  A tree of directories and files below a working directory.  Names are resolved from the working
  directory part by part; what lies above it is a directory of which nothing is known.
-/
import Quartet.Files.Error

namespace Quartet

/-- What a path leads to. -/
inductive FileNode where
  /-- A directory. -/
  | directory
  /-- A file and what it holds. -/
  | file (content : Bytes)
deriving DecidableEq, Repr

/-- The parts of a name between its slashes. -/
abbrev FilePath := List Bytes

/-- The files and directories below a working directory, each under its path. -/
structure FileTree where
  /-- The nodes by path, the latest first. -/
  nodes : List (FilePath × FileNode) := []
deriving DecidableEq, Repr

namespace FileTree

/-- Cuts a name at its slashes. -/
def split (name : Bytes) : FilePath :=
  name.foldr (fun b parts =>
    if b = asciiByte '/' then [] :: parts
    else match parts with
      | part :: more => (b :: part) :: more
      | [] => [[b]]) [[]]

/-- What a path leads to; the working directory is always there. -/
def at? (t : FileTree) (path : FilePath) : Option FileNode :=
  if path = [] then some .directory else t.nodes.lookup path

/-- Puts a node at a path. -/
def put (t : FileTree) (path : FilePath) (node : FileNode) : FileTree :=
  ⟨(path, node) :: t.nodes.filter fun entry => entry.1 ≠ path⟩

/-- Puts a node at a path and directories at all paths that lead to it. -/
def plant (t : FileTree) (path : FilePath) (node : FileNode) : FileTree :=
  ((List.range path.length).foldl (fun t n =>
    if (t.at? (path.take n)).isSome then t else t.put (path.take n) .directory) t).put path node

/-! ## §1. Resolving names. -/

/-- The longest part a name may have. -/
def maxPart : Nat := 255

/-- A name must be shorter than this. -/
def maxName : Nat := 4096

/-- Goes on from a place by one part of a name.  A place is a path, or `none` for the directories
above the tree.  No directory has an entry with too long a name, so that such a part is refused
before anything is looked up. -/
def enter (t : FileTree) (here : Option FilePath) (part : Bytes) :
    Except FileReason (Option FilePath) :=
  match here with
  | none =>
    if part = [] ∨ part = ascii "." ∨ part = ascii ".." then .ok none
    else if maxPart < part.length then .error .nameTooLong
    else .error .missing
  | some path =>
    match t.at? path with
    | none => .error .missing
    | some (.file _) => .error .notDirectory
    | some .directory =>
      if part = [] ∨ part = ascii "." then .ok here
      else if part = ascii ".." then .ok (if path = [] then none else some path.dropLast)
      else if maxPart < part.length then .error .nameTooLong
      else .ok (some (path ++ [part]))

/-- The place that parts lead to from a place. -/
def walk (t : FileTree) (here : Option FilePath) (parts : FilePath) :
    Except FileReason (Option FilePath) :=
  parts.foldlM t.enter here

/-- Where the walk along a name begins: at the working directory, or above the tree if the name
starts with a slash. -/
def origin (name : Bytes) : Option FilePath :=
  if name.head? = some (asciiByte '/') then none else some []

/-- Whether a name can be looked up at all. -/
def checkName (name : Bytes) : Except FileReason Unit :=
  if (0 : UInt8) ∈ name then .error .invalidName
  else if name = [] then .error .missing
  else if maxName ≤ name.length then .error .nameTooLong
  else .ok ()

/-- What a name leads to. -/
def resolve (t : FileTree) (name : Bytes) : Except FileReason FileNode := do
  checkName name
  match ← t.walk (origin name) (split name) with
  | none => .ok .directory
  | some path =>
    match t.at? path with
    | none => .error .missing
    | some node => .ok node

/-! ## §2. Reading and writing. -/

/-- Opens a file for reading.  A directory can be opened, but reading it fails. -/
def openFile (t : FileTree) (name : Bytes) : Except FileError Input :=
  match t.resolve name with
  | .error reason => .error ⟨.opening, name, reason⟩
  | .ok .directory => .ok ⟨[], some (.file ⟨.reading, name, .directory⟩)⟩
  | .ok (.file content) => .ok ⟨content, none⟩

/-- The parts of a name up to its last one that is not empty. -/
def partsToLast (name : Bytes) : FilePath :=
  ((split name).reverse.dropWhile (· = [])).reverse

/-- Whether a name ends in a slash, and so can only be that of a directory. -/
def namesDirectory (name : Bytes) : Bool := name.getLast? = some (asciiByte '/')

/-- Where a new file of the given name goes.  The directory it goes to comes first: the empty part
leads from a directory to itself and from nothing else.  After that a name that can only be that
of a directory is refused, whatever its last part is. -/
def newPath (t : FileTree) (name : Bytes) : Except FileReason FilePath := do
  checkName name
  let parts := partsToLast name
  let parent ← t.walk (origin name) (parts.dropLast ++ [[]])
  if namesDirectory name then .error .directory
  else
    match ← t.enter parent (parts.getLastD []) with
    | none => .error .directory
    | some path =>
      match t.at? path with
      | some .directory => .error .directory
      | _ => .ok path

/-- Writes a file, in place of one of the same name. -/
def writeFile (t : FileTree) (name content : Bytes) : Except FileError FileTree :=
  match t.newPath name with
  | .error reason => .error ⟨.opening, name, reason⟩
  | .ok path => .ok (t.put path (.file content))

end FileTree

end Quartet
