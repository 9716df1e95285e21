import Shading.FileSystem
import Shading.Text.Quoted

/-!
# Sources

A source is a file or a list of bytes, under a name for its reader. A file is read when its
content is first needed; from then on the source keeps what was read.
-/
namespace Shading

/-- What a source is taken from. -/
inductive Backing
  | file (path : Path)
  | bytes (content : List UInt8)
  deriving DecidableEq, Repr

/-- A source of text with its display name and, once it has been read, its content. -/
structure Source where
  name : String
  backing : Backing
  loaded : Option (List UInt8) := none
  deriving DecidableEq, Repr

namespace Source

/-- The source in a file, named like the file without its directories. -/
def ofFile (path : Path) : Source :=
  { name := path.fileName?.getD path.text, backing := .file path }

/-- The source with this name and content. -/
def ofBytes (name : String) (content : List UInt8) : Source :=
  { name, backing := .bytes content }

/-- The path of a source in a file. -/
def path? (s : Source) : Option Path :=
  match s.backing with
  | .file path => some path
  | .bytes _ => none

/-- Whether the content has been read. -/
def isLoaded (s : Source) : Bool :=
  s.loaded.isSome

/-- The content of what the source is taken from. -/
def content (fs : FileSystem) (s : Source) : Except FileError (List UInt8) :=
  match s.backing with
  | .file path => fs.read path
  | .bytes content => .ok content

/-- The content of a source, and the source that keeps it. A source that could not be read stays
as it was. -/
def load (fs : FileSystem) (s : Source) : Except FileError (List UInt8) × Source :=
  match s.loaded with
  | some content => (.ok content, s)
  | none =>
    match s.content fs with
    | .ok content => (.ok content, { s with loaded := some content })
    | .error cause => (.error cause, s)

/-- The path that a name has seen from the source's directory. -/
def relativePath? (s : Source) (name : String) : Option Path :=
  s.path?.map fun path => (path.parent?.getD ⟨""⟩).join ⟨name⟩

/-- The source that an include of this name leads to from the source `base`. Only local names
can be resolved, and only from a file. -/
def resolveInclude (fs : FileSystem) (base : Source) (isLocal : Bool) (name : String) :
    Except CompileError Source :=
  if !isLocal then .error (.searchPathUnsupported name)
  else
    match base.relativePath? name with
    | none => .error (.noParentDirectory name)
    | some path =>
      match (ofFile path).load fs with
      | (.ok _, source) => .ok source
      | (.error cause, _) => .error (.includeNotFound name cause)

/-- A source in words: its name, where it is taken from, and whether it has been read. -/
def describe (s : Source) : String :=
  let origin := match s.backing with
    | .file path => "file: " ++ Text.quote path.text
    | .bytes content => "bytes: " ++ toString content.length
  "CodeSource \x7b name: " ++ Text.quote s.name ++ ", " ++ origin ++
    ", loaded: " ++ toString s.isLoaded ++ " \x7d"

end Source

end Shading
