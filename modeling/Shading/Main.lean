import Shading.CommandLine

/-!
# The program

Runs the command on the files of the machine. A run only sees files that have been looked at, so
it is repeated with the files that it asked for until it asks for no others.
-/
namespace Shading.CommandLine

/-- What was found at a path. -/
structure Finding where
  content : Except FileError (List UInt8)
  canonical : Path

/-- The cause of an error of the machine, for a path without NUL. An error without a file name
comes from a place that was opened and has no content to read. -/
def causeOf : IO.Error → FileError
  | .noFileOrDirectory .. => .notFound
  | .inappropriateType none .. => .isDirectory
  | .inappropriateType .. => .notDirectory
  | .invalidArgument .. => .nameTooLong
  | .permissionDenied .. => .other "Permission denied (os error 13)"
  | e => .other (toString e)

/-- What is at a path of the machine. -/
def look (path : Path) : IO Finding := do
  let canonical ← try pure ⟨(← IO.FS.realPath path.text).toString⟩ catch _ => pure path
  if path.text.toList.contains '\x00' then
    return { content := .error .nulInPath, canonical }
  try
    let content ← IO.FS.readBinFile path.text
    return { content := .ok content.toList, canonical }
  catch e => return { content := .error (causeOf e), canonical }

/-- The files that have been looked at. -/
def filesOf (findings : List (Path × Finding)) : FileSystem where
  read path :=
    match findings.lookup path with
    | some finding => finding.content
    | none => .error (.unread path)
  exists? path :=
    match findings.lookup path with
    | some { content := .ok _, .. } | some { content := .error .isDirectory, .. } => true
    | some _ => false
    | none => true
  canonical path := ((findings.lookup path).map (·.canonical)).getD path

/-- The outcome of a run on the files of the machine that began at a time of the clock. Nothing is
logged. -/
partial def runWith (findings : List (Path × Finding)) (stdin : List UInt8) (terminal : Bool)
    (start : Nat) (args : List String) : IO Outcome := do
  let env : Environment := { files := filesOf findings, stdin, terminal }
  let outcome := run env args
  if outcome.unread.isEmpty then
    let elapsed := .ofNanoseconds ((← IO.monoNanosNow) - start)
    return run { env with elapsed } args
  let more ← outcome.unread.mapM fun path => return (path, ← look path)
  runWith (more ++ findings) stdin terminal start args

end Shading.CommandLine

open Shading.CommandLine in
/-- Runs the command. The standard input is read only if it is compiled. -/
def main (args : List String) : IO UInt32 := do
  let stderr ← IO.getStderr
  let needsInput := match Arguments.ofList args with
    | .ok (input, a) => isStdin input && !a.has .dryRun
    | .error _ => false
  let stdin ← if needsInput then (← IO.getStdin).readBinToEnd else pure ByteArray.empty
  let outcome ← runWith [] stdin.toList (← stderr.isTty) (← IO.monoNanosNow) args
  IO.print outcome.stdout
  IO.eprint outcome.stderr
  return outcome.exitCode.toUInt32
