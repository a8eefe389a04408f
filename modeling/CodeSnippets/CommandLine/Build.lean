import CodeSnippets.CommandLine.Outcome

/-!
# The command that builds an index

The index of all snippets in a directory, printed or written to a file.
-/

namespace CodeSnippets.CommandLine

open Text

/-- What the user asks for. -/
structure BuildRequest where
  directory : Option Text := none
  output : Option Text := none
  jsonIndent : Option Int := none
deriving DecidableEq, Repr

/-- The snippets of the directory that is asked for, and the text of their index. An empty directory name
counts as none. -/
def indexText (m : Machine) (r : BuildRequest) : Except CommandError (List SourceSnippet × Text) := do
  let base ← baseDirectory m
  let settings ← loadSettings m base r.jsonIndent
  let raw := (r.directory.filter (!·.isEmpty)).getD settings.snippetsDir
  let directory ← (m.admitDirectory raw base).mapError .ofAdmission
  let sources ← (m.readDirectory settings.draft directory).mapError .ofSource
  return (sources, ← settledDocument settings (indexOf directory sources))

/-- What is said when an index has been written. -/
def writtenNotice (count : Nat) (output : Text) : Text :=
  outputLine ("Extracted ".toList ++ ofNat count ++ " snippet(s) to '".toList ++ output ++ ['\''])

/-- Prints the index or writes it to a file. -/
def build (m : Machine) (r : BuildRequest) : Outcome :=
  match indexText m r with
  | .error e => .failed m e
  | .ok (sources, text) =>
    match r.output with
    | none => { machine := m, stdout := text }
    | some output =>
      match m.writeText (.ofText output) text with
      | (after, .error e) => .failed after (.ofOutput e)
      | (after, .ok ()) => { machine := after, stderr := writtenNotice sources.length output }

end CodeSnippets.CommandLine
