import CodeSnippets.CommandLine.Outcome

/-!
# The command that prints a snippet

The code of a source file or of one of its slices, as it is or as JSON.
-/

namespace CodeSnippets.CommandLine

open Text

/-- How a snippet is printed. -/
inductive Format where
  | text
  | json
deriving DecidableEq, Repr

/-- What the user asks for. -/
structure ExtractRequest where
  file : Text
  slice : Option Text := none
  format : Format := .text
  jsonIndent : Option Int := none
deriving DecidableEq, Repr

/-- The lines of a snippet or of one of its slices. -/
def requestedLines (s : Snippet) : Option Text → Except CommandError (List Text)
  | none => .ok s.code
  | some name => (s.sliceLines name).mapError .slice

/-- What is printed of a snippet: its lines, a slice as JSON, or the whole snippet as JSON. Of no lines
nothing is printed. JSON text is printed as it is: it holds no escape character. -/
def printed (s : Snippet) (r : ExtractRequest) (lines : List Text) (settings : Settings) : Except CommandError Text :=
  match r.format, r.slice with
  | .text, _ => .ok (if lines.isEmpty then [] else outputLine (Text.ofLines lines))
  | .json, none => settledDocument settings s.json
  | .json, some name =>
    settledDocument settings (.object [("slice".toList, .text name), ("code".toList, .ofTexts lines)])

/-- What the command prints. -/
def extract (m : Machine) (r : ExtractRequest) : Except CommandError Text := do
  let base ← baseDirectory m
  let settings ← loadSettings m base r.jsonIndent
  let path ← (m.admitFile r.file base settings.extensions).mapError .ofAdmission
  let snippet ← (m.readSnippet settings.draft path).mapError .ofSource
  let lines ← requestedLines snippet r.slice
  printed snippet r lines settings

end CodeSnippets.CommandLine
