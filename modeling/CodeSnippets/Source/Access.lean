import CodeSnippets.Machine.Basic
import CodeSnippets.Text.LineEnds

/-!
# Access to files

Looking at a file, its size, and its text. Links are refused, and so is everything that is no regular file.

* `Machine.inspect`: the file at a path.
* `checkSize`: a file is not larger than allowed.
* `Machine.readText`: the text of a file, its line ends unified.
-/

namespace CodeSnippets

open Text

/-- Why a file or directory cannot be used. -/
inductive AccessError where
  | inaccessible (path : Path) (e : SystemError)
  | link (path : Path)
  | notRegular (path : Path)
  | tooLarge (path : Path) (maxSize : Int)
  | unlistable (path : Path) (e : SystemError)
  | unwritable (path : Path) (e : SystemError)
  | fault (f : Fault)
deriving DecidableEq, Repr

/-- Why it cannot be used, in words. -/
def AccessError.message : AccessError → String
  | .inaccessible path e => s!"Error accessing {str path.text}: {e.message}"
  | .link path => s!"Symlinks are not supported: {str path.text}."
  | .notRegular path => s!"{str path.text} is not a regular file."
  | .tooLarge path maxSize => s!"{str path.text} exceeds the maximum allowed size of {str (ofInt maxSize)} bytes."
  | .unlistable path e => s!"Error listing {str path.text}: {e.message}"
  | .unwritable path e => s!"Error writing {str path.text}: {e.message}"
  | .fault f => f.message

/-- The error is one of the system, or one that is reported in its place. -/
def AccessError.isSystem : AccessError → Bool
  | .fault (.system _) => true
  | .fault _ => false
  | _ => true

/-- A file is not larger than allowed. -/
def checkSize (n : Node) (maxSize : Int) (p : Path) : Except AccessError Unit :=
  if maxSize < n.bytes.length then .error (.tooLarge p maxSize) else .ok ()

namespace Machine

/-- The file at a path; a link there is not followed but refused. -/
def inspect (m : Machine) (p : Path) : Except AccessError Node := do
  match m.status p.text false with
  | .error .nullCharacter => .error (.fault .nullCharacter)
  | .error (.system errno) => .error (.inaccessible p { errno, path := p.text })
  | .ok n =>
    if n.isLink then .error (.link p)
    else if n.isRegular then .ok n
    else .error (.notRegular p)

/-- The bytes of the file that a path leads to. A path that leads nowhere or to a directory is
inaccessible; a name that is too long and a loop of links are faults. -/
def readBytes (m : Machine) (p : Path) : Except AccessError (List UInt8) :=
  match m.status p.text true with
  | .error .nullCharacter => .error (.fault .nullCharacter)
  | .error (.system errno) =>
    let e : SystemError := { errno, path := p.text }
    if errno = .noEntry ∨ errno = .denied ∨ errno = .isDirectory ∨ errno = .notDirectory then
      .error (.inaccessible p e)
    else .error (.fault (.system e))
  | .ok n =>
    if !n.mayRead then .error (.inaccessible p { errno := .denied, path := p.text })
    else if n.isDirectory then .error (.inaccessible p { errno := .isDirectory, path := p.text })
    else .ok n.bytes

/-- The text of bytes, the line ends unified. -/
def textOfBytes (bytes : List UInt8) : Except Utf8.Fault Text := (Utf8.decode bytes).map unifyLineEnds

/-- The text of the file that a path leads to. -/
def readText (m : Machine) (p : Path) : Except AccessError Text := do
  (textOfBytes (← m.readBytes p)).mapError (.fault ∘ .undecodable)

/-- The nodes in the directory that a path leads to, by name and in order of names. -/
def list (m : Machine) (p : Path) : Except AccessError (Named Node) :=
  match m.status p.text true with
  | .error .nullCharacter => .error (.fault .nullCharacter)
  | .error (.system errno) => .error (.unlistable p { errno, path := p.text })
  | .ok n =>
    if !n.isDirectory then .error (.unlistable p { errno := .notDirectory, path := p.text })
    else if !n.mayRead then .error (.unlistable p { errno := .denied, path := p.text })
    else .ok n.entries.sorted

end Machine
end CodeSnippets
