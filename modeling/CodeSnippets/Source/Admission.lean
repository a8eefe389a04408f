import CodeSnippets.Machine.Resolution
import CodeSnippets.Text.Case

/-!
# Admission of paths

A path that a user gives is admitted only if no part of it is a link, if it leads to a place below a base
directory, and if there is the right kind of thing at that place.

* `Machine.admitFile`: the resolved path of a source file.
* `Machine.admitDirectory`: the resolved path of a directory.
-/

namespace CodeSnippets

open Text

/-- Why a path is not admitted. -/
inductive AdmissionError where
  | throughLink (path : Path)
  | missing (path : Path)
  | unresolved (path : Path) (e : SystemError)
  | outside (path base : Path)
  | notRegular (path : Path)
  | notSource (path : Path) (extensions : List Text)
  | notDirectory (path : Path)
  | fault (f : Fault)
deriving DecidableEq, Repr

/-- Why the path is not admitted, in words. -/
def AdmissionError.message : AdmissionError → String
  | .throughLink path => s!"Symlinks are not supported for security reasons: {str path.text}"
  | .missing path => s!"{str path.text} does not exist."
  | .unresolved path e => s!"Error resolving {str path.text}: {e.message}"
  | .outside path base => s!"{str path.text} is outside of the working directory {str base.text}."
  | .notRegular path => s!"{str path.text} is not a regular file."
  | .notSource path extensions =>
    s!"{str path.text} is not a snippet source file.\n" ++
      s!"Supported extensions are: {listed extensions}"
  | .notDirectory path => s!"{str path.text} is not a directory."
  | .fault f => f.message

namespace Machine

/-- The resolved path of a text that a user gives, if it lies below a base directory. -/
def admitPath (m : Machine) (raw : Text) (base : Path) : Except AdmissionError Path := do
  let path ← (m.expandHome (.ofText raw)).mapError .fault
  if m.passesLink path then .error (.throughLink path)
  let resolved ← match m.resolveStrict path with
    | .ok resolved => .ok resolved
    | .error (.system e) => .error (if e.errno = .noEntry then .missing path else .unresolved path e)
    | .error e => .error (.fault e.fault)
  match resolved.relativeTo? base with
  | some _ => return resolved
  | none => .error (.outside resolved base)

/-- The file name of a path has one of the extensions. -/
def hasExtension (extensions : List Text) (p : Path) : Bool := extensions.contains (lower p.suffix)

/-- The resolved path of a source file that a user names. -/
def admitFile (m : Machine) (raw : Text) (base : Path) (extensions : List Text) :
    Except AdmissionError Path := do
  let resolved ← m.admitPath raw base
  if !(← (m.isRegular resolved).mapError (.fault ∘ .system)) then .error (.notRegular resolved)
  if !hasExtension extensions resolved then .error (.notSource resolved extensions)
  return resolved

/-- The resolved path of a directory that a user names. -/
def admitDirectory (m : Machine) (raw : Text) (base : Path) : Except AdmissionError Path := do
  let resolved ← m.admitPath raw base
  if !(← (m.isDirectory resolved).mapError (.fault ∘ .system)) then .error (.notDirectory resolved)
  return resolved

end Machine
end CodeSnippets
