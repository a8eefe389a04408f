import CodeSnippets.Proofs.Body
import CodeSnippets.Proofs.ExplanationEnd
import CodeSnippets.Proofs.OutlineSteps

/-!
# Indented source texts

A source text whose lines all have the same number of spaces put before them, the blank ones included, has the
same snippet. Spaces before a line change neither what the line is nor, for a comment, its text, so that the
outline sees the same lines with more indentation; and this indentation is part of the margin that the code
loses.

* `indented`: a line with spaces before it.
* `dedent_map_indented`: the spaces go with the margin.
* `commentBlock_map_indented`: the comment block keeps its texts.
* `Outline.indented`, `Outline.foldl_read_indented`: every line does to the outline what it did without the
  spaces.
* `Span.trimmed_map`: trimming a span asks of lines only whether they are blank.
* `extract_indented`: the snippets are equal.
-/

namespace CodeSnippets

open Text Margin

/-! ### Spaces before a line -/

/-- The line with `k` spaces before it. -/
def Text.indented (k : ℕ) (l : Text) : Text := List.replicate k ' ' ++ l

section Indented

variable (k : ℕ)

@[simp]
theorem Text.trimStart_indented (l : Text) : trimStart (indented k l) = trimStart l := by
  apply List.dropWhile_append_of_pos
  intro c hc
  rw [List.eq_of_mem_replicate hc]
  decide

@[simp]
theorem Text.isBlank_indented (l : Text) : isBlank (indented k l) = isBlank l := by
  rw [Bool.eq_iff_iff, ← trimStart_eq_nil_iff, ← trimStart_eq_nil_iff, trimStart_indented]

@[simp]
theorem Text.leadingSpaces_indented (l : Text) : leadingSpaces (indented k l) = k + leadingSpaces l := by
  induction k with
  | zero => simp [indented]
  | succ k ih =>
    show leadingSpaces (' ' :: indented k l) = _
    rw [leadingSpaces_cons, if_pos rfl, ih]
    omega

theorem Text.newline_notMem_indented {l : Text} (h : '\n' ∉ l) : '\n' ∉ indented k l := by
  simp [indented, h]

@[simp]
theorem commentText?_indented (l : Text) : commentText? (indented k l) = commentText? l := by
  rw [commentText?, commentText?, trimStart_indented]

@[simp]
theorem Marker.ofLine?_indented (l : Text) : Marker.ofLine? (indented k l) = Marker.ofLine? l :=
  Marker.ofLine?_congr (trimStart_indented k l)

@[simp]
theorem LineKind.ofLine_indented (l : Text) : LineKind.ofLine (indented k l) = LineKind.ofLine l :=
  LineKind.ofLine_congr (trimStart_indented k l)

namespace Margin

theorem unindent_indented (n : ℕ) (l : Text) :
    unindent leadingSpaces (k + n) (indented k l) = unindent leadingSpaces n l := by
  rw [unindent, unindent, leadingSpaces_indented, Nat.add_min_add_left, indented, ← List.drop_drop]
  simp

theorem shared_map_indented {ls : List Text} (hsolid : ∃ l ∈ ls, isBlank l = false) :
    shared leadingSpaces (ls.map (indented k)) = k + shared leadingSpaces ls := by
  apply shared_eq
  · intro l hl hb
    obtain ⟨m, hm, rfl⟩ := List.mem_map.1 hl
    rw [isBlank_indented] at hb
    rw [leadingSpaces_indented]
    exact Nat.add_le_add_left (shared_le hm hb) k
  · -- The line that had the least indentation still has the least.
    obtain ⟨l, hl, hb, hshared⟩ := exists_mem_eq_shared leadingSpaces hsolid
    exact ⟨_, List.mem_map_of_mem hl, by rwa [isBlank_indented], by rw [leadingSpaces_indented, hshared]⟩

/-- Lines that begin with a solid one lose the spaces before them with their margin. -/
theorem dedent_map_indented {ls : List Text} (hfirst : ∀ l ∈ ls.head?, isBlank l = false) :
    dedent (ls.map (indented k)) = dedent ls := by
  cases ls with
  | nil => rfl
  | cons l ls =>
    have hsolid : ∃ m ∈ l :: ls, isBlank m = false := ⟨l, List.mem_cons_self, hfirst l rfl⟩
    rw [dedent, dedentBy, shared_map_indented k hsolid, List.map_map, dedent, dedentBy]
    exact List.map_congr_left fun m _ => unindent_indented k _ m

end Margin

/-! ### The comment block -/

namespace Explanation

@[simp]
theorem lineText?_indented (l : Text) : lineText? (indented k l) = lineText? l := by simp [lineText?]

/-- The comment block ends at the same line, and its texts are the same. -/
theorem commentBlock_map_indented (ls : List Text) : commentBlock (ls.map (indented k)) =
    ((commentBlock ls).1, (commentBlock ls).2.map (indented k)) := by
  induction ls with
  | nil => rfl
  | cons l ls ih =>
    rw [List.map_cons, commentBlock, commentBlock, lineText?_indented, ih]
    cases lineText? l <;> rfl

theorem split_map_indented (ls : List Text) :
    split (ls.map (indented k)) = ((split ls).1, (split ls).2.map (indented k)) := by
  rw [split, split, commentBlock_map_indented]

end Explanation

/-! ### The outline -/

namespace Outline

/-- The outline with spaces before every line of code. -/
def indented (o : Outline) : Outline := { o with code := o.code.map (Text.indented k) }

theorem append_indented (o : Outline) (l : Text) :
    (o.indented k).append (Text.indented k l) = (o.append l).indented k := by
  have hkept : (!(o.indented k).visible || ((o.indented k).code.isEmpty && isBlank (Text.indented k l))) =
      (!o.visible || (o.code.isEmpty && isBlank l)) := by
    simp [indented]
  rw [append, append, hkept]
  -- Either both lines are left out, or both are kept.
  split
  · rfl
  · simp [indented]

theorem read_indented (o : Outline) (l : Text) :
    (o.indented k).read (Text.indented k l) = (o.read l).indented k := by
  rw [read, read, LineKind.ofLine_indented]
  cases LineKind.ofLine l with
  | marker m => cases m <;> rfl
  | code => exact append_indented k o l
  | skipped => rfl

theorem foldl_read_indented (o : Outline) (ls : List Text) :
    (ls.map (Text.indented k)).foldl read (o.indented k) = (ls.foldl read o).indented k := by
  induction ls generalizing o with
  | nil => rfl
  | cons l ls ih => rw [List.map_cons, List.foldl_cons, List.foldl_cons, read_indented, ih]

theorem ofLines_map_indented (ls : List Text) : ofLines (ls.map (Text.indented k)) = (ofLines ls).indented k := by
  have hrun : (ls.map (Text.indented k)).foldl read {} = (ls.foldl read {}).indented k := foldl_read_indented k {} ls
  rw [ofLines, ofLines, hrun]
  rfl

end Outline
end Indented

/-! ### Spans -/

namespace Span

section Map

variable {f : Text → Text} (hf : ∀ l, isBlank (f l) = isBlank l)

theorem lineAt_map (f : Text → Text) (ls : List Text) (position : ℤ) :
    lineAt (ls.map f) position = (lineAt ls position).map f := by
  simp only [lineAt, List.length_map, List.getElem?_map]
  generalize (if position < 0 then position + (ls.length : ℤ) else position) = place
  by_cases h : 0 ≤ place
  · simp only [if_pos h]
    cases ls[place.toNat]? <;> rfl
  · simp only [if_neg h]
    rfl

include hf

theorem firstSolid_map (look : ℤ → Except PositionError Text) (n : ℕ) (start : ℤ) :
    firstSolid (fun p => (look p).map f) n start = firstSolid look n start := by
  induction n generalizing start with
  | zero => rfl
  | succ n ih =>
    rw [firstSolid, firstSolid]
    cases look start with
    | error e => rfl
    | ok l =>
      show (if isBlank (f l) then _ else _) = if isBlank l then _ else _
      rw [hf, ih]

theorem lastSolid_map (look : ℤ → Except PositionError Text) (n : ℕ) (stop : ℤ) :
    lastSolid (fun p => (look p).map f) n stop = lastSolid look n stop := by
  induction n generalizing stop with
  | zero => rfl
  | succ n ih =>
    rw [lastSolid, lastSolid]
    cases look (stop - 1) with
    | error e => rfl
    | ok l =>
      show (if isBlank (f l) then _ else _) = if isBlank l then _ else _
      rw [hf, ih]

/-- Trimming a span asks of the lines only whether they are blank. -/
theorem trimmed_map (ls : List Text) (s : Span) : s.trimmed (ls.map f) = s.trimmed ls := by
  have hlook : lineAt (ls.map f) = fun p => (lineAt ls p).map f := funext (lineAt_map f ls)
  rw [trimmed, trimmed, hlook, trimmedBy, trimmedBy, firstSolid_map hf]
  simp only [lastSolid_map hf]

end Map
end Span

/-! ### The snippet -/

namespace Snippet

/-- Spaces before all lines of code make no difference to the snippet of an outline. -/
theorem ofOutline_indented (k : ℕ) (explanation : List Text) {o : Outline} (h : o.WellFormed) :
    ofOutline explanation (o.indented k) = ofOutline explanation o := by
  have hcode : dedent (o.indented k).code = dedent o.code := dedent_map_indented k h.first_solid
  have hspan : ∀ count span, finalSpan (o.indented k).code count span = finalSpan o.code count span := by
    intro count span
    rw [finalSpan, finalSpan, Outline.indented, Span.trimmed_map (isBlank_indented k)]
  rw [ofOutline, ofOutline, hcode]
  simp only [hspan]
  rfl

/-- Lines with the same number of spaces before each of them, the blank ones included, have the snippet that
they have without these spaces. -/
theorem extract_indented (source : Text) (k : ℕ) :
    extract (Text.ofLines ((lines source).map (Text.indented k))) = extract source := by
  have hclean : ∀ l ∈ (lines source).map (Text.indented k), '\n' ∉ l := by
    intro l hl
    obtain ⟨m, hm, rfl⟩ := List.mem_map.1 hl
    exact newline_notMem_indented k (newline_notMem_lines source m hm)
  have hwell := (Outline.wellFormed_start.foldl_read (linesAfterExplanation source)).close 0
  rw [extract_ofLines hclean, ofLines, dropBlankStart_map (isBlank_indented k), Explanation.split_map_indented]
  -- What is left after the explanation are the same lines, with the spaces before them.
  show ofOutline _ (Outline.ofLines ((linesAfterExplanation source).map (Text.indented k))) = _
  rw [Outline.ofLines_map_indented]
  exact ofOutline_indented k _ hwell

/-- A tab is no indentation, so that the code has a margin of four spaces in the one text and none in the other. -/
example : extract "    // snippet.a\n    \tx\n      y".toList = extract "// snippet.a\n\tx\n  y".toList := by
  decide +kernel

end Snippet
end CodeSnippets
