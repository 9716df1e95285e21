import Shading.Compiler

/-!
# Compilers behind a handle

Programs in other languages hold a compiler by a handle, which may be null, and pass texts that
end at their first NUL. Calls never fail in another way than by their result.
-/
namespace Shading

/-- A compiler as a foreign program holds it. -/
abbrev Handle := Option Compiler

namespace Handle

/-- The settings that a foreign program passes. -/
structure Settings where
  expansionLimit : Nat
  includeDepth : Nat
  listening : Bool
  deriving DecidableEq, Repr

/-- The greatest limit that a foreign program may ask for. -/
def greatestLimit : Nat := 10000

/-- The settings of a compiler, if the limits are in range. -/
def Settings.config? (s : Settings) : Option Config :=
  if s.expansionLimit = 0 || greatestLimit < s.expansionLimit || greatestLimit < s.includeDepth
  then none
  else some
    { limits := { expansion := s.expansionLimit, includeDepth := s.includeDepth }
      listening := s.listening }

/-- A new compiler; the handle is null if the settings are out of range. -/
def create (settings : Option Settings) : Handle :=
  match settings with
  | none => some {}
  | some s => s.config?.map fun config => { config }

/-- The text that bytes hold in front of their first NUL, if it is well-formed. -/
def text? (bytes : List UInt8) : Option String :=
  Text.decode? (bytes.takeWhile (· != 0))

/-- The handle after a definition, and whether it succeeded. A null body stands for a missing
one. -/
def addDefine (h : Handle) (name body : Option (List UInt8)) : Handle × Bool :=
  match h, name.bind text?, body with
  | some c, some name, none =>
    match c.addDefine name none with
    | .ok c => (some c, true)
    | .error _ => (h, false)
  | some c, some name, some bytes =>
    match text? bytes with
    | none => (h, false)
    | some body =>
      match c.addDefine name (some body) with
      | .ok c => (some c, true)
      | .error _ => (h, false)
  | _, _, _ => (h, false)

/-- The handle after a definition is removed. -/
def removeDefine (h : Handle) (name : Option (List UInt8)) : Handle :=
  match name.bind text? with
  | none => h
  | some name => h.map (·.removeDefine name)

/-- A buffer of a foreign program: bytes, or a null pointer with a length. -/
inductive Buffer
  | null (length : Nat)
  | bytes (content : List UInt8)
  deriving DecidableEq, Repr

/-- The bytes of a buffer. A null pointer holds none. -/
def Buffer.content? : Buffer → Option (List UInt8)
  | null length => if length = 0 then some [] else none
  | bytes content => some content

/-- A message for the foreign listener: its text, and whether it is fatal. -/
structure Message where
  text : String
  isFatal : Bool
  deriving DecidableEq, Repr

/-- The message of a diagnostic. A text with a NUL in it cannot be passed. -/
def Message.of? (d : Diagnostic) : Option Message :=
  let text := d.source ++ ": " ++ d.text
  if text.toList.contains '\x00' then none else some { text, isFatal := d.isFatal }

/-- The number of declarations in a buffer, or -1, and the messages for the listener. A foreign
program never compiles files, and bytes have no includes that could be found. -/
def compile (fs : FileSystem) (h : Handle) (buffer : Buffer) : Int × List Message :=
  match h, buffer.content? with
  | some c, some content =>
    let compilation := c.compileBytes fs content
    let count : Int := match compilation.program with
      | some program => program.declarations.length
      | none => -1
    (count, (c.heard compilation.diagnostics).filterMap Message.of?)
  | _, _ => (-1, [])

end Handle

end Shading
