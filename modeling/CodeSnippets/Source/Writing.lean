import CodeSnippets.Source.Access

/-!
# Writing a file in one step

A text is written to a new file beside its target, which then takes the target's place. Either the target
holds the whole text afterwards, or nothing has changed.

* `Machine.writeText`: writes a text to the file at a path.
-/

namespace CodeSnippets

open Text

/-- The permission bits of files before the mask is taken off. -/
def newFileMode : Nat := 0o666

/-- The bits of a mode that a mask leaves. -/
def maskedMode (mode mask : Nat) : Nat := mode ^^^ (mode &&& mask)

/-- How many names are drawn for a new file at most. -/
def maxDraws : Nat := 10000

/-- The digits and letters of the names of new files. -/
def nameLetters : Text := "abcdefghijklmnopqrstuvwxyz0123456789_".toList

/-- The eight letters that stand for a number. -/
def lettersOf (n : Nat) : Text :=
  (List.range 8).map fun i => nameLetters.getD (n / nameLetters.length.pow i % nameLetters.length) 'a'

/-- The name of a new file. -/
def temporaryName (n : Nat) : Text := ['t', 'm', 'p'] ++ lettersOf n

namespace Machine

/-- The first name that is drawn, from number `i` on, and that no node of a directory has. -/
def drawName (m : Machine) (entries : Named Node) : (tries i : Nat) → Option Text
  | 0, _ => none
  | tries + 1, i =>
    let name := temporaryName (m.draws i)
    if entries.names.contains name then drawName m entries tries (i + 1) else some name

/-- The name of a new file in a directory. -/
def freshName? (m : Machine) (entries : Named Node) : Option Text := m.drawName entries maxDraws 0

/-- The system takes a step of writing that names a path or none, or refuses it. -/
def attempt (m : Machine) (step : WriteStep) (path : Option Text) : Except SystemError Unit :=
  match m.refusal step with
  | some errno => .error { errno, path }
  | none => .ok ()

/-- The location of the directory that a path leads to, in which names may be put; an error is told about another
path. -/
def locateDirectory (m : Machine) (raw about : Text) : Except (SystemError ⊕ Fault) Location :=
  let refuse (errno : Errno) : Except (SystemError ⊕ Fault) Location := .error (.inl { errno, path := about })
  match m.locate raw true with
  | .error .nullCharacter => .error (.inr .nullCharacter)
  | .error (.system errno) => refuse errno
  | .ok position =>
    match m.nodeAt? position with
    | none => refuse .noEntry
    | some n =>
      if !n.isDirectory then refuse .notDirectory
      else if position.removed ≠ 0 then refuse .noEntry
      else if !n.mayRun || !n.mayWrite then refuse .denied
      else .ok position.location

/-- The nodes in the directory that a path leads to; none where there is no such directory. -/
def entriesAt (m : Machine) (directory : Path) : Named Node :=
  match m.status directory.text true with
  | .ok n => n.entries
  | .error _ => []

/-- Creates an empty file with a fresh name in a directory; gives its path, its location and the machine. -/
def createTemporary (m : Machine) (folder : Path) : Except (SystemError ⊕ Fault) (Path × Location × Machine) := do
  -- A null character is found before parts of the path can be worked out by name.
  if folder.text.contains '\x00' then .error (.inr .nullCharacter)
  let directory ← (m.absolute folder).mapError .inl
  match m.freshName? (m.entriesAt directory) with
  | none => .error (.inl { errno := .noFreshName, path := none })
  | some name =>
    let path := directory.child name
    if maxPathSize < Utf8.size path.text then .error (.inl { errno := .nameTooLong, path := path.text })
    let parent ← m.locateDirectory directory.text path.text
    (m.attempt .create path.text).mapError .inl
    let location := parent ++ [name]
    return (path, location, m.place location (.file [] 0o600))

/-- The location at which a new file takes the place of a path. -/
def targetLocation (m : Machine) (source target : Path) : Except (SystemError ⊕ Fault) Location :=
  if target.text.contains '\x00' then .error (.inr .nullCharacter)
  else
    match m.locateDirectory target.parent.text source.text with
    | .error (.inl e) => .error (.inl { e with target := some target.text })
    | .error (.inr f) => .error (.inr f)
    | .ok directory => .ok (directory ++ [target.name])

/-- The permission bits of a new file. The mask can only be read by setting it, and is set back at once. -/
def newMode (m : Machine) : Nat × Machine :=
  let (umask, unmasked) := m.swapUmask 0
  let (_, restored) := unmasked.swapUmask umask
  (maskedMode newFileMode umask, restored)

/-- The permission bits that a file gets when a text is written to it: those it has, or those of a new
file. -/
def modeForWriting (m : Machine) (p : Path) : Except AccessError (Nat × Machine) := do
  if ← (m.isLink p).mapError (.fault ∘ .system) then .error (.link p)
  if ← (m.isThere p).mapError (.fault ∘ .system) then return ((← m.inspect p).mode, m)
  else return m.newMode

/-- Fills a new file. -/
def fill (m : Machine) (source : Path) (location : Location) (bytes : List UInt8) (mode : Nat) :
    Machine × Except SystemError Unit :=
  match m.attempt .write none with
  | .error e => (m, .error e)
  | .ok () =>
    let written := m.place location (.file bytes 0o600)
    match written.attempt .sync none, written.attempt .setMode source.text with
    | .error e, _ => (written, .error e)
    | .ok (), .error e => (written, .error e)
    | .ok (), .ok () => (written.place location (.file bytes mode), .ok ())

/-- Puts the node at a location in the place of a path. -/
def replace (m : Machine) (source target : Path) (location : Location) : Machine × Except (SystemError ⊕ Fault) Unit :=
  match m.targetLocation source target with
  | .error e => (m, .error e)
  | .ok destination =>
    match m.refusal .replace, m.root.get? location with
    | some errno, _ => (m, .error (.inl { errno, path := source.text, target := some target.text }))
    | none, none => (m, .error (.inl { errno := .noEntry, path := source.text, target := some target.text }))
    | none, some n => ({ m with root := (m.root.remove location).put n destination }, .ok ())

/-- The machine without the node at a location. -/
def discard (m : Machine) (location : Location) : Machine := { m with root := m.root.remove location }

/-- Why a step of writing to a path has failed. -/
def writingError (p : Path) : SystemError ⊕ Fault → AccessError
  | .inl e => .unwritable p e
  | .inr f => .fault f

/-- Fills a new file and puts it in the place of a path. -/
def install (m : Machine) (source target : Path) (location : Location) (bytes : List UInt8) (mode : Nat) :
    Machine × Except AccessError Unit :=
  match m.fill source location bytes mode with
  | (filled, .error e) => (filled, .error (.unwritable target e))
  | (filled, .ok ()) =>
    match filled.replace source target location with
    | (kept, .error e) => (kept, .error (writingError target e))
    | (replaced, .ok ()) => (replaced, .ok ())

/-- Writes a text to the file at a path. -/
def writeText (m : Machine) (p : Path) (t : Text) : Machine × Except AccessError Unit :=
  -- Nothing is changed before it is known that the target may be written.
  match m.modeForWriting p with
  | .error e => (m, .error e)
  | .ok (mode, m) =>
    match m.createTemporary p.parent with
    | .error e => (m, .error (writingError p e))
    | .ok (source, location, created) =>
      -- What is left under the name of the new file is taken away, whether a step has failed or none.
      let (after, result) := created.install source p location (Utf8.encode t) mode
      (after.discard location, result)

end Machine
end CodeSnippets
