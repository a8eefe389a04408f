import CodeSnippets.Snippet.Margin
import CodeSnippets.Snippet.Marker

/-!
# Explanations

The comment block at the start of a source text explains the snippet. It ends before the first line
that is blank, a marker, or no comment.

* `commentBlock`: the texts of the comments of the block and the lines after it.
* `split`: the explanation and the lines after it.
-/

namespace CodeSnippets.Explanation

open Text

/-- The text of a line of the comment block. -/
def lineText? (line : Text) : Option Text :=
  if isBlank line || (Marker.ofLine? line).isSome then none else commentText? line

/-- The texts of the leading comment lines, and the lines after them. -/
def commentBlock : List Text → List Text × List Text
  | [] => ([], [])
  | line :: rest =>
    match lineText? line with
    | none => ([], line :: rest)
    | some content => ((content :: (commentBlock rest).1), (commentBlock rest).2)

/-- The explanation and the lines after it. The comment texts lose the white space that those that are
not blank share, and the blank ones at both ends. -/
def split (lines : List Text) : List Text × List Text :=
  let (texts, rest) := commentBlock lines
  (Margin.dropBlankEnds (Margin.dedentBy leadingBlanks texts), rest)

/-- The block has one text for each line that does not come after it. -/
theorem length_commentBlock (lines : List Text) :
    (commentBlock lines).1.length + (commentBlock lines).2.length = lines.length := by
  induction lines with
  | nil => rfl
  | cons line rest ih =>
    unfold commentBlock
    split
    · simp
    · simp only [List.length_cons]
      omega

end CodeSnippets.Explanation
