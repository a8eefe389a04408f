import CodeSnippets.Snippet.Basic
import CodeSnippets.Snippet.Explanation
import CodeSnippets.Snippet.Outline

/-!
# Extraction

The snippet of a source text. Leading blank lines are dropped, the comment block that follows is the
explanation, and the outline of the remaining lines gives code and slices. The code loses the spaces
that its lines share and the blank lines at its end, and every slice the blank lines at its ends.
-/

namespace CodeSnippets.Snippet

open Text

/-- The span of a slice among the final `count` lines of code, where `code` are the lines before they
lost their margin. -/
def finalSpan (code : List Text) (count : Nat) (span : Span) : Span :=
  ((span.trimmed code).toOption.getD span).clamped count

/-- The snippet with an explanation and the code and slices of an outline. -/
def ofOutline (explanation : List Text) (outline : Outline) : Snippet :=
  let code := Margin.dropBlankEnd (Margin.dedent outline.code)
  { explanation
    code
    slices := outline.slices.map fun (name, span) => (name, finalSpan outline.code code.length span) }

/-- The snippet of the lines of a source text. -/
def ofLines (lines : List Text) : Snippet :=
  let (explanation, rest) := Explanation.split (Margin.dropBlankStart lines)
  ofOutline explanation (Outline.ofLines rest)

/-- The snippet of a source text, whose lines end with line feeds. -/
def extract (source : Text) : Snippet := ofLines (Text.lines source)

end CodeSnippets.Snippet
