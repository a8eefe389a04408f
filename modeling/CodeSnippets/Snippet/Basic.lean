import CodeSnippets.Snippet.Span
import CodeSnippets.Text.LineEnds

/-!
# Snippets

A snippet is an explanation, lines of code, and named spans of these lines, its slices.

* `Snippet.sliceLines`: the code of a slice.
* `Snippet.same`: equal snippets; the order of their slices does not matter.
-/

namespace CodeSnippets

open Text

/-- An explanation, code, and named spans of the code. -/
structure Snippet where
  explanation : List Text := []
  code : List Text := []
  slices : Named Span := []
deriving DecidableEq, Repr

/-- No slice has the name that was asked for. -/
structure UnknownSlice where
  name : Text
  /-- The names of the slices that there are, in order. -/
  available : List Text
deriving DecidableEq, Repr

/-- The failed request in words. -/
def UnknownSlice.message (e : UnknownSlice) : String :=
  if e.available.isEmpty then s!"No slice named '{str e.name}' (snippet defines no slices)"
  else s!"No slice named '{str e.name}' (available: {listed e.available})"

namespace Snippet

/-- The code of a slice. -/
def sliceLines (s : Snippet) (name : Text) : Except UnknownSlice (List Text) :=
  match s.slices.get? name with
  | some span => .ok (span.cut s.code)
  | none => .error ⟨name, Text.sorted s.slices.names⟩

/-- The explanation as one text. -/
def explanationText (s : Snippet) : Text := Text.ofLines s.explanation

/-- The code as one text. -/
def codeText (s : Snippet) : Text := Text.ofLines s.code

/-- Tables with the same names, and for each name spans through the same positions. -/
def sameSlices (s t : Named Span) : Bool :=
  s.length == t.length && s.all fun (name, span) => (t.get? name).any (span.same ·)

/-- Snippets with the same lines and the same slices, whatever their order. -/
def same (s t : Snippet) : Bool :=
  s.explanation == t.explanation && s.code == t.code && sameSlices s.slices t.slices

end Snippet
end CodeSnippets
