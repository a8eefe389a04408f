import CodeSnippets.Proofs.Body
import CodeSnippets.Proofs.ExplanationEnd

/-!
# Skipped lines

Documentation is left out of the code wherever it stands: a comment that starts with three slashes, or an
attribute that concerns documentation alone. The comment block at the start of a source text does not ask
whether a comment is documentation. Its lines are code, apart from such comments, which it takes into the
explanation as well.

* `kind_of_mem_block`: which lines of the comment block are skipped lines.
* `Outline.ofLines_filter_not_skipped`: an outline is read from the lines that are not skipped.
* `extract_without_skipped`: what has a part in the snippet of a source text.
* `not_forall_mem_explanationLines_kind_code`: not every line of an explanation is code.
-/

namespace CodeSnippets

open Text Margin

/-! ### Comments that are documentation -/

/-- A comment is documentation if it starts with three slashes; no attribute is a comment. -/
theorem isDocumentation_of_commentText? {line content : Text} (h : commentText? line = some content) :
    isDocumentation line = startsWith (trim line) docCommentStart := by
  have hstart : trimStart line = '/' :: '/' :: content := dropStart?_eq_some_iff.1 h
  have htrim : trim line = '/' :: trimEnd ('/' :: content) := by
    rw [trim, hstart, trimEnd_cons (by decide)]
  have hattribute : startsWith (trim line) docAttributeStart = false := by
    have hat : docAttributeStart = '@' :: docAttributeStart.tail := by decide
    rw [htrim, hat]
    rfl
  simp [isDocumentation, hattribute]

namespace Explanation

/-- Of the lines of the comment block those that start with three slashes are skipped lines, and all others are
code. -/
theorem kind_of_mem_block {lines : List Text} {line : Text} (h : line ∈ block lines) :
    LineKind.ofLine line = if startsWith (trim line) docCommentStart then .skipped else .code := by
  have hline : (lineText? line).isSome := List.mem_takeWhile_imp (p := fun l => (lineText? l).isSome) h
  obtain ⟨content, hcontent⟩ := Option.isSome_iff_exists.1 hline
  obtain ⟨-, hmarker, hcomment⟩ := lineText?_eq_some_iff.1 hcontent
  rw [LineKind.ofLine, hmarker, isDocumentation_of_commentText? hcomment]

end Explanation

namespace Outline

/-! ### Skipped lines and the outline -/

theorem read_of_skipped (o : Outline) {line : Text} (h : LineKind.ofLine line = .skipped) : o.read line = o := by
  rw [read, h]

/-- Skipped lines do nothing to an outline, so that it may be read from the other lines. -/
theorem foldl_read_filter_not_skipped (o : Outline) (lines : List Text) :
    (lines.filter (LineKind.ofLine · ≠ .skipped)).foldl read o = lines.foldl read o := by
  induction lines generalizing o with
  | nil => rfl
  | cons line lines ih =>
    by_cases h : LineKind.ofLine line = .skipped
    · rw [List.filter_cons_of_neg (by simpa using h), List.foldl_cons, read_of_skipped o h, ih]
    · rw [List.filter_cons_of_pos (by simpa using h), List.foldl_cons, List.foldl_cons, ih]

theorem ofLines_filter_not_skipped (lines : List Text) :
    ofLines (lines.filter (LineKind.ofLine · ≠ .skipped)) = ofLines lines := by
  rw [ofLines, ofLines, foldl_read_filter_not_skipped]

end Outline

namespace Snippet

/-! ### Skipped lines and the snippet -/

/-- The lines of a source text that its explanation is read from. -/
def explanationLines (source : Text) : List Text := Explanation.block (dropBlankStart (lines source))

/-- A source text is blank lines, the lines of its explanation, and the lines after them. Code and slices are read
from the last of these without the skipped lines among them. The lines of the explanation are code as well, apart
from those that start with three slashes. -/
theorem extract_without_skipped (source : Text) :
    let before := explanationLines source
    let rest := linesAfterExplanation source
    dropBlankStart (lines source) = before ++ rest ∧
      extract source = ofOutline (dropBlankEnds (dedentBy leadingBlanks (before.filterMap commentText?)))
        (Outline.ofLines (rest.filter (LineKind.ofLine · ≠ .skipped))) ∧
      ∀ l ∈ before, LineKind.ofLine l = if startsWith (trim l) docCommentStart then .skipped else .code := by
  intro before rest
  obtain ⟨htexts, hlines⟩ := Explanation.block_append_commentBlock (dropBlankStart (lines source))
  have hexplanation : (Explanation.split (dropBlankStart (lines source))).1 =
      dropBlankEnds (dedentBy leadingBlanks (before.filterMap commentText?)) :=
    congrArg (fun texts => dropBlankEnds (dedentBy leadingBlanks texts)) htexts
  refine ⟨hlines.symm, ?_, fun l hl => Explanation.kind_of_mem_block hl⟩
  rw [extract_eq, Outline.ofLines_filter_not_skipped, hexplanation]

/-- A comment for the documentation that comes first is a skipped line, and becomes the explanation. -/
theorem not_forall_mem_explanationLines_kind_code :
    ¬ ∀ source, ∀ l ∈ explanationLines source, LineKind.ofLine l = .code := by
  intro h
  exact absurd (h "/// Doc\nx".toList "/// Doc".toList (by decide)) (by decide)

/-- The same comment is left out where it comes after the explanation. -/
example : extract "/// Doc\nx".toList = ⟨["/ Doc".toList], ["x".toList], []⟩ ∧
    extract "// Intro\n\n/// Doc\nx".toList = ⟨["Intro".toList], ["x".toList], []⟩ := by
  decide

end Snippet
end CodeSnippets
