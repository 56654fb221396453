import StagedLoad.Text.Bytes

/-!
# Reading files

Files are read through a function, so that the same program reads those of a disk and
those of a tree in memory.

## Main definitions

* `FileFault` — why a file cannot be read.
* `FileReader` — a way to read files.
* `FilePath.join`, `FilePath.name?`, `FilePath.parent?` — paths as texts.
-/

namespace StagedLoad

/-- Why a file cannot be read. -/
inductive FileFault
  /-- There is nothing at the path. -/
  | notFound
  /-- A part of the path is no directory. -/
  | notADirectory
  /-- The path leads to a directory. -/
  | isADirectory
  /-- A part of the path is too long. -/
  | nameTooLong
  /-- The path has a character that no path has. -/
  | zeroInPath
  /-- Anything else, in the words of the system. -/
  | other (message : String)
  deriving DecidableEq, Repr, Inhabited

/-- The wording of a fault. -/
def FileFault.message : FileFault → String
  | notFound => "No such file or directory (os error 2)"
  | notADirectory => "Not a directory (os error 20)"
  | isADirectory => "Is a directory (os error 21)"
  | nameTooLong => "File name too long (os error 36)"
  | zeroInPath => "file name contained an unexpected NUL byte"
  | other message => message

/-- A way to read files. -/
abbrev FileReader (m : Type → Type) := String → m (Except FileFault Bytes)

namespace FilePath

/-- Splits a path at its slashes. -/
def components (path : List Char) : List (List Char) :=
  match path with
  | [] => [[]]
  | '/' :: rest => [] :: components rest
  | c :: rest =>
    match components rest with
    | [] => [[c]]
    | s :: more => (c :: s) :: more

/-- A path below a directory; a path that starts with a slash is where it says. -/
def join (directory path : String) : String :=
  match path.toList, directory.toList.getLast? with
  | '/' :: _, _ => path
  | _, none => path
  | _, some '/' => directory ++ path
  | _, _ => directory ++ "/" ++ path

/-- The parts of a path that lead somewhere. -/
def proper (path : String) : List (List Char) :=
  (components path.toList).filter fun s => s ≠ [] ∧ s ≠ ['.']

/-- The name that a path ends in, unless it ends in `..` or is empty. -/
def name? (path : String) : Option String :=
  match (proper path).getLast? with
  | none => none
  | some s => if s = ['.', '.'] then none else some (String.ofList s)

/-- Drops slashes and steps that lead nowhere from the end of a path; the path is given
backwards. -/
def trimBack : List Char → List Char
  | '/' :: rest => trimBack rest
  | '.' :: '/' :: rest => trimBack rest
  | other => other

/-- The path of the directory that holds what a path leads to; there is none for the root
and for the empty path. -/
def parent? (path : String) : Option String :=
  let back := trimBack path.toList.reverse
  if back.isEmpty then none
  else
    let front := back.dropWhile (· != '/')
    let parent := trimBack front
    some (String.ofList (if parent.isEmpty ∧ front ≠ [] then ['/'] else parent.reverse))

end FilePath

end StagedLoad
