import CodeSnippets.Settings.Basic
import CodeSnippets.Snippet.Extraction
import CodeSnippets.Source.Discovery

/-!
# Reading sources

The snippet of a source file, and the snippets of all sources in a directory.

* `Machine.readSnippet`: the snippet of a file.
* `Machine.readDirectory`: the snippets of a directory with what is known of their files.
-/

namespace CodeSnippets

open Text

/-- Why a source cannot be read. -/
inductive SourceError where
  | settings (e : SettingsError)
  | access (e : AccessError)
  | notUtf8 (path : Path) (fault : Utf8.Fault)
  | fault (f : Fault)
deriving DecidableEq, Repr

/-- Why it cannot be read, in words. -/
def SourceError.message : SourceError → String
  | .settings e => e.message
  | .access e => e.message
  | .notUtf8 path e => s!"Invalid UTF-8 sequence in {str path.text}: {e.message}"
  | .fault f => f.message

/-- A failed access while a source is read. A fault of the system is reported as a failed access too; no
other fault is. -/
def SourceError.ofAccess : AccessError → SourceError
  | .fault (.system e) => .access (.fault (.system e))
  | .fault f => .fault f
  | e => .access e

/-- A snippet with what is known of the file that it comes from. -/
structure SourceSnippet where
  /-- The name of the file without its suffix. -/
  identifier : Text
  group : Option Text
  path : Path
  snippet : Snippet
deriving DecidableEq, Repr

namespace Machine

/-- The snippet of a file of at most `maxSize` bytes. -/
def readSnippetUpTo (m : Machine) (maxSize : Int) (p : Path) : Except SourceError Snippet := do
  let n ← (m.inspect p).mapError .ofAccess
  (checkSize n maxSize p).mapError .ofAccess
  let bytes ← (m.readBytes p).mapError .ofAccess
  match textOfBytes bytes with
  | .ok source => return .extract source
  | .error fault => .error (.notUtf8 p fault)

/-- The snippet of a file; the settings are checked first. -/
def readSnippet (m : Machine) (draft : Draft) (p : Path) : Except SourceError Snippet := do
  let settings ← draft.checked.mapError .settings
  m.readSnippetUpTo settings.maxFileSize p

/-- The test for extensions that a value of the setting stands for: its members, as they are written. -/
def acceptedBy (extensions : Value) : Except Fault (Text → Bool) :=
  match extensions.members? with
  | some xs => .ok fun suffix => (xs.filterMap Value.asText?).contains suffix
  | none => .error (.notIterable extensions.kindName)

/-- The snippets of all sources in a directory, in the order in which the sources are discovered. -/
def readDirectory (m : Machine) (draft : Draft) (p : Path) : Except SourceError (List SourceSnippet) := do
  let accepts ← (acceptedBy draft.extensions).mapError .fault
  let sources ← (m.discoverBy accepts p).mapError .ofAccess
  sources.mapM fun source => do
    return {
      identifier := source.path.stem
      group := source.group
      path := source.path
      snippet := ← m.readSnippet draft source.path }

end Machine
end CodeSnippets
