import CodeSnippets.Proofs.Margin
import CodeSnippets.Snippet.Extraction

/-!
# Where the explanation ends

The explanation ends before the first line that is blank, a marker, or no comment, and no line after that
one has a say in it. A source text that has such a line therefore falls into what the explanation is read
from and what the outline is read from.

* `block`, `block_append_commentBlock`: the lines of the comment block.
* `commentBlock_append`, `split_append`: lines that come after the end of the explanation leave it alone.
* `commentBlock_append_cons`, `split_append_cons`: lines after a marker change neither the explanation nor
  what comes between it and the marker.
* `ofLines_of_head`: a source text whose first line belongs to no explanation has none.
* `extract_ofLines`, `extract_eq_ofLines`: the lines of a text determine its snippet, and lines that are
  joined come back as they were.
-/

namespace CodeSnippets

open Text

theorem Marker.isBlank_of_ofLine? {line : Text} {m : Marker} (h : ofLine? line = some m) : isBlank line = false := by
  rw [ofLine?] at h
  obtain ⟨content, hcontent, -⟩ := Option.bind_eq_some_iff.1 h
  by_contra hblank
  -- Of a blank line nothing is left at which a comment could start.
  rw [commentText?, trimStart_eq_nil_iff.2 (by simpa using hblank)] at hcontent
  cases hcontent

namespace Explanation

theorem lineText?_of_marker {line : Text} {m : Marker} (h : Marker.ofLine? line = some m) : lineText? line = none := by
  rw [lineText?, h]
  simp

theorem lineText?_of_not_comment {line : Text} (h : commentText? line = none) : lineText? line = none := by
  rw [lineText?, h]
  split <;> rfl

/-- The comment block goes on in the lines that come later if it takes up all lines, and else has nothing to do
with them. -/
theorem commentBlock_append (xs ys : List Text) : commentBlock (xs ++ ys) =
    if (commentBlock xs).2 = [] then ((commentBlock xs).1 ++ (commentBlock ys).1, (commentBlock ys).2)
    else ((commentBlock xs).1, (commentBlock xs).2 ++ ys) := by
  induction xs with
  | nil => simp [commentBlock]
  | cons x xs ih =>
    rw [List.cons_append, commentBlock, commentBlock, ih]
    cases lineText? x with
    | none => simp
    | some content =>
      -- The first line belongs to the block, and the rest of the block is that of the other lines.
      by_cases hend : (commentBlock xs).2 = [] <;> simp [hend]

/-- The comment block ends at the first line that is none of it, whatever comes after this line. -/
theorem commentBlock_append_cons (xs ys : List Text) {line : Text} (h : lineText? line = none) :
    commentBlock (xs ++ line :: ys) = ((commentBlock xs).1, (commentBlock xs).2 ++ line :: ys) := by
  have hline : commentBlock (line :: ys) = ([], line :: ys) := by simp [commentBlock, h]
  rw [commentBlock_append, hline]
  -- At the latest the block ends at `line`, before anything that comes later is looked at.
  split
  · rename_i hend
    simp [hend]
  · rfl

/-- The lines of the comment block. -/
def block (lines : List Text) : List Text := lines.takeWhile fun l => (lineText? l).isSome

theorem lineText?_eq_some_iff {line content : Text} : lineText? line = some content ↔
    isBlank line = false ∧ Marker.ofLine? line = none ∧ commentText? line = some content := by
  rw [lineText?]
  cases isBlank line <;> cases Marker.ofLine? line <;> simp

/-- The comment block and the lines after it are all lines, and the block is known by its texts. -/
theorem block_append_commentBlock (lines : List Text) :
    (commentBlock lines).1 = (block lines).filterMap commentText? ∧ block lines ++ (commentBlock lines).2 = lines := by
  induction lines with
  | nil => exact ⟨rfl, rfl⟩
  | cons line rest ih =>
    rw [commentBlock, block, List.takeWhile_cons]
    cases hline : lineText? line with
    | none => exact ⟨rfl, rfl⟩
    | some content =>
      -- The line belongs to the block, and the rest of the block is that of the lines after it.
      obtain ⟨-, -, hcontent⟩ := lineText?_eq_some_iff.1 hline
      refine ⟨?_, ?_⟩
      · exact (congrArg (content :: ·) ih.1).trans (by simp [block, hcontent])
      · exact congrArg (line :: ·) ih.2

theorem commentBlock_suffix (lines : List Text) : (commentBlock lines).2 <:+ lines :=
  ⟨block lines, (block_append_commentBlock lines).2⟩

theorem split_append_cons (xs ys : List Text) {line : Text} {m : Marker} (h : Marker.ofLine? line = some m) :
    split (Margin.dropBlankStart (xs ++ line :: ys)) =
      ((split (Margin.dropBlankStart xs)).1, (split (Margin.dropBlankStart xs)).2 ++ line :: ys) := by
  rw [Margin.dropBlankStart_append_cons xs ys (Marker.isBlank_of_ofLine? h), split,
    commentBlock_append_cons _ ys (lineText?_of_marker h)]
  rfl

/-- Lines that come later leave the explanation alone if it ends before them. -/
theorem split_append {xs : List Text} (h : (split (Margin.dropBlankStart xs)).2 ≠ []) (ys : List Text) :
    split (Margin.dropBlankStart (xs ++ ys)) =
      ((split (Margin.dropBlankStart xs)).1, (split (Margin.dropBlankStart xs)).2 ++ ys) := by
  have hstart : Margin.dropBlankStart xs ≠ [] := by
    intro hnil
    rw [hnil] at h
    exact h rfl
  have hend : (commentBlock (Margin.dropBlankStart xs)).2 ≠ [] := h
  rw [Margin.dropBlankStart_append hstart, split, commentBlock_append, if_neg hend]
  rfl

end Explanation

namespace Snippet

/-- The snippet of lines in which a marker follows `xs`: the explanation and what comes before the marker
are read from `xs` alone. -/
theorem ofLines_append_cons (xs ys : List Text) {line : Text} {m : Marker} (h : Marker.ofLine? line = some m) :
    ofLines (xs ++ line :: ys) = ofOutline (Explanation.split (Margin.dropBlankStart xs)).1
      (Outline.ofLines ((Explanation.split (Margin.dropBlankStart xs)).2 ++ line :: ys)) := by
  rw [ofLines, Explanation.split_append_cons xs ys h]

theorem ofLines_append (xs : List Text) {ys : List Text} (hys : ∀ l ∈ ys.head?, ∃ m, Marker.ofLine? l = some m) :
    ofLines (xs ++ ys) = ofOutline (Explanation.split (Margin.dropBlankStart xs)).1
      (Outline.ofLines ((Explanation.split (Margin.dropBlankStart xs)).2 ++ ys)) := by
  cases ys with
  | nil => rw [List.append_nil, List.append_nil]; rfl
  | cons line ys =>
    obtain ⟨m, hm⟩ := hys line rfl
    exact ofLines_append_cons xs ys hm

/-- Where the explanation has ended, the lines that come later are read after those that are left. -/
theorem ofLines_append_of_ne_nil {ls : List Text} (h : (Explanation.split (Margin.dropBlankStart ls)).2 ≠ [])
    (more : List Text) : ofLines (ls ++ more) = ofOutline (Explanation.split (Margin.dropBlankStart ls)).1
      (Outline.ofLines ((Explanation.split (Margin.dropBlankStart ls)).2 ++ more)) := by
  rw [ofLines, Explanation.split_append h more]

/-- Lines whose first one is solid and belongs to no comment block have no explanation. -/
theorem ofLines_of_head {ls : List Text}
    (h : ∀ l ∈ ls.head?, isBlank l = false ∧ Explanation.lineText? l = none) :
    ofLines ls = ofOutline [] (Outline.ofLines ls) := by
  rw [ofLines, Margin.dropBlankStart_eq_self fun l hl => (h l hl).1]
  -- There is nothing to drop before the first line, and the comment block ends before it.
  cases ls with
  | nil => rfl
  | cons l ls =>
    rw [Explanation.split, Explanation.commentBlock, (h l rfl).2]
    rfl

/-- Lines that are joined to a text come back as its lines, and their snippet is that of the text. -/
theorem extract_ofLines {ls : List Text} (h : ∀ l ∈ ls, '\n' ∉ l) : extract (Text.ofLines ls) = ofLines ls := by
  cases ls with
  | nil => rfl
  | cons l ls =>
    rw [extract, lines_ofLines (List.cons_ne_nil l ls) h]

theorem extract_eq_ofLines {source : Text} {ls : List Text} (h : lines source = ls) : extract source = ofLines ls := by
  rw [extract, h]

theorem newline_notMem_lines (source : Text) : ∀ l ∈ lines source, '\n' ∉ l := fun _ => not_mem_of_mem_pieces

end Snippet
end CodeSnippets
