import StagedLoad.Files.Basic

/-!
# Trees of files

A tree of directories and files in memory, and how paths lead through it.

## Main definitions

* `FileTree` — the trees.
* `FileTree.insert` — puts something at a path.
* `FileTree.read` — reads the file at a path.
-/

namespace StagedLoad

/-- A file, or a directory of named trees. -/
inductive FileTree
  /-- A file with its bytes. -/
  | file (data : Bytes)
  /-- A directory. -/
  | directory (entries : List (String × FileTree))
  deriving Inhabited

namespace FileTree

/-- A directory without anything in it. -/
def empty : FileTree := directory []

/-- The entry of a directory under a name. -/
def child? (name : String) : List (String × FileTree) → Option FileTree
  | [] => none
  | (n, t) :: rest => if n = name then some t else child? name rest

/-- Puts an entry under a name, in place of the one that may be there. -/
def putEntry (name : String) (t : FileTree) : List (String × FileTree) → List (String × FileTree)
  | [] => [(name, t)]
  | (n, u) :: rest => if n = name then (n, t) :: rest else (n, u) :: putEntry name t rest

/-- The entries of a directory; a file has none. -/
def entries : FileTree → List (String × FileTree)
  | file _ => []
  | directory es => es

/-- Puts a tree at the end of a list of names; directories on the way are made. -/
def insertAt (new : FileTree) : List String → FileTree → FileTree
  | [], _ => new
  | name :: rest, t =>
    let old := (child? name t.entries).getD empty
    directory (putEntry name (insertAt new rest old) t.entries)

/-- Puts a file at a path, or a directory at a path that ends in a slash. -/
def insert (t : FileTree) (path : String) (data : Bytes) : FileTree :=
  let names := (FilePath.proper path).map String.ofList
  insertAt (if path.toList.getLast? = some '/' then empty else file data) names t

/-- The greatest number of bytes in a name. -/
def greatestName : Nat := 255

/-- The tree that a list of names leads to from a tree; the trees above it are given, the
nearest first.  Above the root is the root. -/
def walk (above : List FileTree) (here : FileTree) : List String → Except FileFault FileTree
  | [] => .ok here
  | name :: rest =>
    match here with
    | file _ => .error .notADirectory
    | directory es =>
      if name = "" ∨ name = "." then walk above here rest
      else if name = ".." then
        match above with
        | [] => walk [] here rest
        | t :: more => walk more t rest
      else if greatestName < name.utf8ByteSize then .error .nameTooLong
      else match child? name es with
        | none => .error .notFound
        | some t => walk (here :: above) t rest

/-- Reads the file at a path. -/
def read (t : FileTree) (path : String) : Except FileFault Bytes :=
  if path.toList.contains '\x00' then .error .zeroInPath
  else if path.isEmpty then .error .notFound
  else
    match walk [] t ((FilePath.components path.toList).map String.ofList) with
    | .error f => .error f
    | .ok (file data) => .ok data
    | .ok (directory _) => .error .isADirectory

/-- A tree as a way to read files. -/
def reader (t : FileTree) : FileReader Id := t.read

end FileTree

end StagedLoad
