import Shading.Error

/-!
# Files

A compilation sees files only through the content of a path and the path that stands for all
paths to the same file.
-/
namespace Shading

/-- What can be asked about files: the content of a path, whether it leads anywhere, and the one
path that every way to the same file leads to. -/
structure FileSystem where
  read : Path → Except FileError (List UInt8)
  exists? : Path → Bool
  canonical : Path → Path

/-- No path leads to a file. -/
def FileSystem.empty : FileSystem where
  read _ := .error .notFound
  exists? _ := false
  canonical p := p

end Shading
