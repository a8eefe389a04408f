import CodeSnippets.Proofs.Body
import CodeSnippets.Proofs.ExplanationEnd
import CodeSnippets.Proofs.Extension

/-!
# Extracting once more

The code of a snippet is a source text again. Its lines are code, it begins and ends with a solid line and has
no margin, so that extraction has nothing left to do: it gives back the same code, unless the code begins with
a comment, which would become an explanation.

* `IsFinal`: lines of code on which extraction has nothing to do.
* `isFinal_code_extract`: the code of every snippet is of this kind.
* `extract_ofLines_of_isFinal`: extraction leaves such lines as they are.
* `extract_codeText`: extracting from the code of a snippet gives this code.
-/

namespace CodeSnippets

open Text Margin Body

namespace Body

theorem mem_body {lines : List Text} {l : Text} (h : l ∈ body lines) : l ∈ lines ∧ LineKind.ofLine l = .code := by
  obtain ⟨⟨line, n⟩, hmem, rfl⟩ := List.mem_map.1 h
  obtain ⟨hline, hkind, -⟩ := mem_shownLines.1 ((List.dropWhile_sublist _).subset hmem)
  exact ⟨List.mem_of_getElem? hline, hkind⟩

end Body

namespace Snippet

theorem linesAfterExplanation_subset (source : Text) : linesAfterExplanation source ⊆ lines source :=
  fun _ hl => (List.dropWhile_suffix isBlank).subset ((Explanation.commentBlock_suffix _).subset hl)

/-- Lines of code on which extraction has nothing to do. -/
structure IsFinal (ls : List Text) : Prop where
  kind : ∀ l ∈ ls, LineKind.ofLine l = .code
  newline_notMem : ∀ l ∈ ls, '\n' ∉ l
  first : ∀ l ∈ ls.head?, isBlank l = false
  last : ∀ l ∈ ls.getLast?, isBlank l = false
  margin : shared leadingSpaces ls = 0

theorem isFinal_code_extract (source : Text) : IsFinal (extract source).code := by
  rw [code_extract_eq_body]
  -- Every line of the final code is a line of the body that may have lost some indentation.
  have hmem : ∀ l ∈ dropBlankEnd (dedent (body (linesAfterExplanation source))),
      ∃ k ∈ body (linesAfterExplanation source), ∃ n, unindent leadingSpaces n k = l := by
    intro l hl
    rw [dropBlankEnd_eq_take] at hl
    obtain ⟨k, hk, rfl⟩ := List.mem_map.1 (List.mem_of_mem_take hl)
    exact ⟨k, hk, _, rfl⟩
  refine ⟨fun l hl => ?_, fun l hl => ?_, fun l hl => ?_, isBlank_getLast?_dropBlankEnd _, ?_⟩
  · obtain ⟨k, hk, n, rfl⟩ := hmem l hl
    rw [LineKind.ofLine_congr (trimStart_unindent n k)]
    exact (mem_body hk).2
  · obtain ⟨k, hk, n, rfl⟩ := hmem l hl
    have hnewline := newline_notMem_lines source k (linesAfterExplanation_subset source (mem_body hk).1)
    exact fun h => hnewline (List.mem_of_mem_drop h)
  · -- The body begins with a solid line, and taking the margin off keeps it solid.
    have hhead := head?_dropBlankEnd hl
    rw [dedent, dedentBy, List.head?_map, Option.mem_def, Option.map_eq_some_iff] at hhead
    obtain ⟨k, hk, rfl⟩ := hhead
    rw [body_eq] at hk
    rw [isBlank_unindent]
    exact isBlank_head?_dropBlankStart _ k hk
  · -- Blank lines have no say in the margin, and taken off once it is gone.
    rw [shared_dropBlankEnd, shared_dedent]

/-- Final lines of code that do not begin with a comment are the code of their text, and its snippet has nothing
else. -/
theorem extract_ofLines_of_isFinal {ls : List Text} (h : IsFinal ls)
    (hcomment : ∀ l ∈ ls.head?, commentText? l = none) : extract (Text.ofLines ls) = ⟨[], ls, []⟩ := by
  -- No line is a marker, so that no slice opens and the end of the lines has nothing to close.
  have houtline : Outline.ofLines ls = { code := ls, count := ls.length } := by
    rw [Outline.ofLines, Outline.foldl_read_code rfl h.kind fun _ => h.first]
    simp [Outline.extend, Outline.close_eq]
  have hcode : dropBlankEnd (dedent ls) = ls := by
    rw [dedent_eq_self h.margin, dropBlankEnd_eq_self h.last]
  rw [extract_ofLines h.newline_notMem,
    ofLines_of_head fun l hl => ⟨h.first l hl, Explanation.lineText?_of_not_comment (hcomment l hl)⟩, houtline,
    ofOutline, hcode]
  rfl

/-- Every line of the code of a snippet is code, and the first and the last one are not blank. If the first one
is no comment, extraction from the code gives the same code, no explanation and no slices. -/
theorem extract_codeText (source : Text) :
    let snippet := extract source
    (∀ l ∈ snippet.code, LineKind.ofLine l = .code) ∧
      (∀ l ∈ snippet.code.head?, isBlank l = false) ∧ (∀ l ∈ snippet.code.getLast?, isBlank l = false) ∧
      ((∀ l ∈ snippet.code.head?, startsWith (trimStart l) commentStart = false) →
        extract snippet.codeText = ⟨[], snippet.code, []⟩) := by
  intro snippet
  have hfinal := isFinal_code_extract source
  refine ⟨hfinal.kind, hfinal.first, hfinal.last, fun hcomment => extract_ofLines_of_isFinal hfinal fun l hl => ?_⟩
  simpa [startsWith, commentText?] using hcomment l hl

/-- Code that has lost its margin, a marker and a comment for the documentation. -/
theorem extract_codeText_indented :
    let snippet := extract "// Intro.\n\n    f()\n  // snippet.a\n    /// doc\n\n      // g\n".toList
    snippet.code = ["f()".toList, [], "  // g".toList] ∧ extract snippet.codeText = ⟨[], snippet.code, []⟩ := by
  intro snippet
  have hcode : snippet.code = ["f()".toList, [], "  // g".toList] := by decide
  obtain ⟨-, -, -, hagain⟩ := extract_codeText
    "// Intro.\n\n    f()\n  // snippet.a\n    /// doc\n\n      // g\n".toList
  exact ⟨hcode, hagain (by rw [hcode]; decide)⟩

/-- Code that begins with a comment becomes an explanation. -/
example : extract (extract "\n// snippet.a\n// f\ng()".toList).codeText = ⟨["f".toList], ["g()".toList], []⟩ := by
  decide

end Snippet
end CodeSnippets
