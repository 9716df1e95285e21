import Shading.FileSystem

/-!
# A tree of files

A tree holds directories and the content of files, each under the names that lead to it from the
root. Paths are followed name by name: only a directory can be walked into, and a step up leaves
the root where it is. The bytes of a name and of a whole path are limited.
-/
namespace Shading

/-- Directories and files, by the names on the way from the root. Relative paths begin at the
working directory. -/
structure FileTree where
  workingDirectory : List String
  directories : List (List String)
  files : List (List String × List UInt8)
  deriving Repr

namespace FileTree

/-- The most bytes that a name can have. -/
def maxNameBytes : Nat := 255

/-- The most bytes that a path can have. -/
def maxPathBytes : Nat := 4095

/-- Where a path leads. -/
inductive Place
  | directory (names : List String)
  | file (names : List String) (content : List UInt8)
  deriving Repr

/-- The directories on the way to a place, from the root to the place itself. -/
def wayTo (names : List String) : List (List String) :=
  (List.range (names.length + 1)).map names.take

/-- A tree with no files, and with no directories but those on the way to the working one. -/
def empty (workingDirectory : List String) : FileTree :=
  { workingDirectory, directories := wayTo workingDirectory, files := [] }

/-- The content of the file with these names. -/
def content? (t : FileTree) (names : List String) : Option (List UInt8) :=
  t.files.lookup names

/-- One step of a path, from the place reached so far. -/
def step (t : FileTree) (place : Place) (piece : List Char) : Except FileError Place :=
  match place with
  | .file _ _ => .error .notDirectory
  | .directory names =>
    if Path.isVoid piece then .ok place
    else if piece = ['.', '.'] then .ok (.directory names.dropLast)
    else if maxNameBytes < (String.ofList piece).utf8ByteSize then .error .nameTooLong
    else
      let below := names ++ [String.ofList piece]
      match t.content? below with
      | some content => .ok (.file below content)
      | none =>
        if t.directories.contains below then .ok (.directory below) else .error .notFound

/-- The place that pieces of a path lead to from the working directory or from the root. -/
def follow (t : FileTree) (isAbsolute : Bool) (pieces : List (List Char)) :
    Except FileError Place :=
  pieces.foldlM t.step (.directory (if isAbsolute then [] else t.workingDirectory))

/-- The place that a path leads to. The empty path leads nowhere. -/
def locate (t : FileTree) (p : Path) : Except FileError Place :=
  if p.text.toList.contains '\x00' then .error .nulInPath
  else if p.text = "" then .error .notFound
  else if maxPathBytes < p.text.utf8ByteSize then .error .nameTooLong
  else t.follow p.isAbsolute p.pieces

/-- Whether the path leads to a file or a directory. -/
def exists? (t : FileTree) (p : Path) : Bool :=
  (t.locate p).toBool

/-- The content of the file that the path leads to. -/
def read (t : FileTree) (p : Path) : Except FileError (List UInt8) := do
  match ← t.locate p with
  | .file _ content => return content
  | .directory _ => throw .isDirectory

/-- The path that names a place: relative to the working directory for what lies in it, and from
the root for all else. -/
def pathOf (t : FileTree) (names : List String) : Path :=
  if t.workingDirectory.isPrefixOf names then
    ⟨"/".intercalate (names.drop t.workingDirectory.length)⟩
  else ⟨"/" ++ "/".intercalate names⟩

/-- The one path that stands for all paths to the same place. -/
def canonical (t : FileTree) (p : Path) : Path :=
  match t.locate p with
  | .ok (.file names _) | .ok (.directory names) => t.pathOf names
  | .error _ => p

/-- The tree as a compilation sees it. -/
def toFileSystem (t : FileTree) : FileSystem :=
  { read := t.read, exists? := t.exists?, canonical := t.canonical }

/-- The tree with this content under the names. -/
def setContent (t : FileTree) (names : List String) (content : List UInt8) : FileTree :=
  { t with files := (names, content) :: t.files.filter (·.1 != names) }

/-- The tree after writing a file; `none` if no file can be written there. A new file needs a
directory to stand in, and a path without other faults than that it leads to nothing yet. -/
def write? (t : FileTree) (p : Path) (content : List UInt8) : Option FileTree :=
  match t.locate p with
  | .ok (.file names _) => some (t.setContent names content)
  | .error .notFound =>
    match p.pieces.getLast?, t.follow p.isAbsolute p.pieces.dropLast with
    | some name, .ok (.directory names) =>
      if Path.isVoid name then none
      else some (t.setContent (names ++ [String.ofList name]) content)
    | _, _ => none
  | _ => none

/-- The tree after deleting a file; `none` if the path leads to no file. -/
def delete? (t : FileTree) (p : Path) : Option FileTree :=
  match t.locate p with
  | .ok (.file names _) => some { t with files := t.files.filter (·.1 != names) }
  | _ => none

/-- The names of the place one piece of a path further. -/
def advance (names : List String) (piece : List Char) : List String :=
  if Path.isVoid piece then names
  else if piece = ['.', '.'] then names.dropLast
  else names ++ [String.ofList piece]

/-- The places that pieces of a path lead through, from the place where they begin to the last. -/
def places (names : List String) : List (List Char) → List (List String)
  | [] => [names]
  | piece :: rest => names :: places (advance names piece) rest

/-- The tree with a file at the path and all the directories that the path leads through, also
those that it leaves again by a step up. -/
def add (t : FileTree) (p : Path) (content : List UInt8) : FileTree :=
  let names := p.pieces.foldl advance t.workingDirectory
  let passed := places t.workingDirectory p.pieces.dropLast
  { t.setContent names content with directories := passed ++ t.directories }

end FileTree

end Shading
