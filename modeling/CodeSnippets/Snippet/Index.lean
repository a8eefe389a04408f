import CodeSnippets.Json.Basic
import CodeSnippets.Source.Reading

/-!
# Snippets as JSON

* `writeJson`: the text of a value, as it is printed and written to files.
* `Snippet.json`: explanation, code and slices of a snippet, the slices in order of their names.
* `SourceSnippet.json`: the same, after what is known of the source file.
* `indexOf`: the index of the snippets of a directory.
-/

namespace CodeSnippets

open Text

/-- The text of a value and a line feed after it. -/
def documentText (layout : Json.Layout) (x : Json) : Text := x.render layout ++ ['\n']

/-- The text of a value with a level of nesting indented by a number of spaces, however long its integers are. -/
def jsonDocument (indent : Int) (x : Json) : Except Json.WidthError Text := do
  return documentText (← Json.Layout.ofIndent indent) x

/-- The text of a value with a level of nesting indented by a number of spaces, if none of its integers is too long. -/
def writeJson (indent : Int) (x : Json) : Except Json.WriteError Text := do
  let text ← (jsonDocument indent x).mapError .width
  if x.integers.any Json.isLong then .error .longInteger else return text

/-- Start and end of a span. -/
def Span.json (s : Span) : Json := .array [.number s.start, .number s.stop]

/-- The slices in order of their names. -/
def slicesJson (slices : Named Span) : Json := .object (slices.sorted.map fun (name, span) => (name, span.json))

/-- Explanation, code and slices. -/
def Snippet.fields (s : Snippet) : Named Json :=
  [("explanation".toList, .ofTexts s.explanation), ("code".toList, .ofTexts s.code),
   ("slices".toList, slicesJson s.slices)]

/-- Explanation, code and slices as an object. -/
def Snippet.json (s : Snippet) : Json := .object s.fields

/-- The file of a snippet, under a path, and the snippet. -/
def SourceSnippet.jsonAt (s : SourceSnippet) (path : Path) : Json :=
  .object ([("identifier".toList, .text s.identifier), ("group".toList, (s.group.map .text).getD .null),
    ("path".toList, .text path.text)] ++ s.snippet.fields)

/-- The file of a snippet, under its own path, and the snippet. -/
def SourceSnippet.json (s : SourceSnippet) : Json := s.jsonAt s.path

/-- The index of the snippets of a directory, whose paths start at the directory. -/
def indexOf (directory : Path) (sources : List SourceSnippet) : Json :=
  .object [("snippets".toList, .array (sources.map fun s => s.jsonAt ((s.path.relativeTo? directory).getD s.path)))]

end CodeSnippets
