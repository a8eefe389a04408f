import CodeSnippets.Proofs.ExplanationEnd

/-!
# Written explanations

An explanation is written line by line, each line after two slashes and a space, and is read from the comment block
at the start of lines. Lines come back from their comments if the first and the last of them are solid, if they have no
indentation in common, and if none of them makes its comment a marker. No other lines are ever read.

* `IsCommentLine`: the lines of which a comment block is made.
* `IsExplanation`: the lines that come back from their comments.
* `split_map_commentLine`: reading undoes writing.
* `isExplanation_split`, `reads_split`: what is read from any lines.
-/

namespace CodeSnippets

open Text Margin

/-- The white space around the text of a comment does not matter for the marker that it holds. -/
theorem Marker.ofLine?_congr_comment {k l s t : Text} (hk : commentText? k = some s) (hl : commentText? l = some t)
    (h : trim s = trim t) : ofLine? k = ofLine? l := by
  rw [ofLine?, ofLine?, hk, hl]
  simp only [Option.bind_eq_bind, Option.bind_some, h]

namespace Explanation

/-- A comment that is no marker. -/
structure IsCommentLine (line : Text) : Prop where
  solid : isBlank line = false
  not_marker : Marker.ofLine? line = none
  comment : startsWith (trimStart line) commentStart = true

theorem isSome_lineText?_iff {line : Text} : (lineText? line).isSome = true ↔ IsCommentLine line := by
  rw [Option.isSome_iff_exists]
  constructor
  · rintro ⟨content, h⟩
    obtain ⟨hsolid, hmarker, hcontent⟩ := lineText?_eq_some_iff.1 h
    exact ⟨hsolid, hmarker, Option.isSome_iff_exists.2 ⟨content, hcontent⟩⟩
  · intro h
    obtain ⟨content, hcontent⟩ := Option.isSome_iff_exists.1 h.comment
    exact ⟨content, lineText?_eq_some_iff.2 ⟨h.solid, h.not_marker, hcontent⟩⟩

instance (line : Text) : Decidable (IsCommentLine line) := decidable_of_iff _ isSome_lineText?_iff

/-- The comment that a line is written as. -/
def commentLine (l : Text) : Text := commentStart ++ ' ' :: l

/-- Lines that come back from their comments. -/
structure IsExplanation (ls : List Text) : Prop where
  newline_notMem : ∀ l ∈ ls, '\n' ∉ l
  first : ∀ l ∈ ls.head?, isBlank l = false
  last : ∀ l ∈ ls.getLast?, isBlank l = false
  margin : shared leadingBlanks ls = 0
  not_marker : ∀ l ∈ ls, Marker.ofLine? (commentLine l) = none

instance (ls : List Text) : Decidable (IsExplanation ls) :=
  decidable_of_iff ((∀ l ∈ ls, '\n' ∉ l) ∧ (∀ l ∈ ls.head?, isBlank l = false) ∧ (∀ l ∈ ls.getLast?, isBlank l = false) ∧
      shared leadingBlanks ls = 0 ∧ ∀ l ∈ ls, Marker.ofLine? (commentLine l) = none)
    ⟨fun ⟨hnewline, hfirst, hlast, hmargin, hmarker⟩ => ⟨hnewline, hfirst, hlast, hmargin, hmarker⟩,
      fun ⟨hnewline, hfirst, hlast, hmargin, hmarker⟩ => ⟨hnewline, hfirst, hlast, hmargin, hmarker⟩⟩

/-! ### Reading what has been written -/

theorem lineText?_commentLine {l : Text} (h : Marker.ofLine? (commentLine l) = none) :
    lineText? (commentLine l) = some (' ' :: l) := lineText?_eq_some_iff.2 ⟨rfl, h, rfl⟩

/-- The comment block of written lines has each of them behind a space, and ends where they end. -/
theorem commentBlock_map_commentLine {ls rest : List Text} (hmarker : ∀ l ∈ ls, Marker.ofLine? (commentLine l) = none)
    (hrest : ∀ l ∈ rest.head?, ¬ IsCommentLine l) :
    commentBlock (ls.map commentLine ++ rest) = (ls.map (' ' :: ·), rest) := by
  induction ls with
  | nil =>
    cases rest with
    | nil => rfl
    | cons l rest =>
      have hl : lineText? l = none := by simpa [← isSome_lineText?_iff] using hrest l rfl
      simp [commentBlock, hl]
  | cons l ls ih =>
    obtain ⟨hl, hls⟩ := List.forall_mem_cons.1 hmarker
    simp only [List.map_cons, List.cons_append, commentBlock, lineText?_commentLine hl, ih hls]

/-- The space that stands before each line is all that the lines share. -/
theorem dedentBy_map_space {ls : List Text} (h : IsExplanation ls) : dedentBy leadingBlanks (ls.map (' ' :: ·)) = ls := by
  have hspace (l : Text) : leadingBlanks (' ' :: l) = leadingBlanks l + 1 := rfl
  cases hls : ls with
  | nil => rfl
  | cons first rest =>
    have hshared : shared leadingBlanks (ls.map (' ' :: ·)) = 1 := by
      have hsolid : ∃ l ∈ ls, isBlank l = false :=
        ⟨first, by rw [hls]; exact List.mem_cons_self, h.first first (by rw [hls]; rfl)⟩
      obtain ⟨l, hl, hb, hmargin⟩ := exists_mem_eq_shared leadingBlanks hsolid
      rw [h.margin] at hmargin
      apply shared_eq
      · intro k hk _
        obtain ⟨l, -, rfl⟩ := List.mem_map.1 hk
        exact Nat.succ_le_succ (Nat.zero_le _)
      · exact ⟨_, List.mem_map_of_mem hl, hb, by rw [hspace, hmargin]⟩
    rw [← hls, dedentBy, hshared, List.map_map]
    refine (List.map_congr_left fun l _ => ?_).trans (List.map_id ls)
    rw [Function.comp_apply, unindent, hspace, Nat.min_eq_right (Nat.succ_le_succ (Nat.zero_le _))]
    rfl

/-- An explanation that has been written comes back, with the lines after it. -/
theorem split_map_commentLine {ls rest : List Text} (h : IsExplanation ls)
    (hrest : ∀ l ∈ rest.head?, ¬ IsCommentLine l) : split (ls.map commentLine ++ rest) = (ls, rest) := by
  have hends : dropBlankEnds ([] ++ ls ++ []) = ls :=
    dropBlankEnds_append_append (by simp) (by simp) h.first h.last
  rw [List.nil_append, List.append_nil] at hends
  rw [split, commentBlock_map_commentLine h.not_marker hrest]
  show (dropBlankEnds (dedentBy leadingBlanks (ls.map (' ' :: ·))), rest) = (ls, rest)
  rw [dedentBy_map_space h, hends]

/-! ### What is read -/

/-- An explanation and the lines after it are read from lines: the longest block of comments that they begin with has
the texts `contents`, and the explanation is these texts without `n` characters of white space, and without the blank
ones at both ends. -/
structure Reads (lines explanation rest block contents : List Text) (n : ℕ) : Prop where
  lines_eq : block ++ rest = lines
  comments : ∀ l ∈ block, IsCommentLine l
  longest : ∀ ls, ls <+: lines → (∀ l ∈ ls, IsCommentLine l) → ls <+: block
  contents_eq : block.map commentText? = contents.map some
  le_leadingBlanks : ∀ content ∈ contents, isBlank content = false → n ≤ leadingBlanks content
  trimmed : ∃ before after, contents.map (·.drop n) = before ++ explanation ++ after ∧
    ∀ l ∈ before ++ after, isBlank l = true

theorem isCommentLine_of_mem_block {lines : List Text} {l : Text} (h : l ∈ block lines) : IsCommentLine l :=
  isSome_lineText?_iff.1 (List.mem_takeWhile_imp (p := fun l => (lineText? l).isSome) h)

/-- No longer beginning of the lines is made of comments. -/
theorem prefix_block {lines ls : List Text} (hls : ls <+: lines) (h : ∀ l ∈ ls, IsCommentLine l) : ls <+: block lines := by
  obtain ⟨rest, rfl⟩ := hls
  rw [block, List.takeWhile_append_of_pos fun l hl => isSome_lineText?_iff.2 (h l hl)]
  exact List.prefix_append _ _

theorem map_commentText?_block (lines : List Text) : (block lines).map commentText? = (commentBlock lines).1.map some := by
  rw [(block_append_commentBlock lines).1]
  have h : ∀ l ∈ block lines, (commentText? l).isSome = true := fun l hl => (isCommentLine_of_mem_block hl).comment
  generalize block lines = ls at h
  induction ls with
  | nil => rfl
  | cons l ls ih =>
    obtain ⟨hl, hls⟩ := List.forall_mem_cons.1 h
    obtain ⟨content, hcontent⟩ := Option.isSome_iff_exists.1 hl
    rw [List.map_cons, ih hls, List.filterMap_cons_some hcontent, List.map_cons, hcontent]

/-- A text of the comment block is behind the slashes of one of its lines. -/
theorem exists_of_mem_commentBlock {lines : List Text} {content : Text} (h : content ∈ (commentBlock lines).1) :
    ∃ l ∈ lines, IsCommentLine l ∧ commentText? l = some content := by
  obtain ⟨htexts, hlines⟩ := block_append_commentBlock lines
  rw [htexts, List.mem_filterMap] at h
  obtain ⟨l, hl, hcontent⟩ := h
  exact ⟨l, hlines ▸ List.mem_append_left _ hl, isCommentLine_of_mem_block hl, hcontent⟩

/-- What is taken off a line is the same amount of white space for all lines that are not blank. -/
theorem unindent_eq_drop {n : ℕ} {l : Text} (h : isBlank l = false → n ≤ leadingBlanks l) :
    unindent leadingBlanks n l = l.drop n := by
  cases hb : isBlank l with
  | false => rw [unindent, Nat.min_eq_right (h hb)]
  | true =>
    have hall : leadingBlanks l = l.length := by
      rw [leadingBlanks, List.takeWhile_eq_self_iff.2 (List.all_eq_true.1 hb)]
    rw [unindent, hall]
    -- Of a blank line nothing is left, however much is taken off.
    rcases Nat.le_total n l.length with hn | hn
    · rw [Nat.min_eq_right hn]
    · rw [Nat.min_eq_left hn, List.drop_of_length_le hn, List.drop_length]

theorem reads_split (lines : List Text) : Reads lines (split lines).1 (split lines).2 (block lines)
    (commentBlock lines).1 (shared leadingBlanks (commentBlock lines).1) where
  lines_eq := (block_append_commentBlock lines).2
  comments _ := isCommentLine_of_mem_block
  longest _ := prefix_block
  contents_eq := map_commentText?_block lines
  le_leadingBlanks _ := shared_le
  trimmed := by
    obtain ⟨before, after, h, hblank⟩ := exists_eq_append_dropBlankEnds (dedentBy leadingBlanks (commentBlock lines).1)
    refine ⟨before, after, ?_, hblank⟩
    rw [split, ← h, dedentBy]
    exact List.map_congr_left fun content hcontent => (unindent_eq_drop (shared_le hcontent)).symm

/-- The white space that a text loses does not make its comment a marker. -/
theorem ofLine?_commentLine_unindent {line content : Text} (h : commentText? line = some content) (n : ℕ) :
    Marker.ofLine? (commentLine (unindent leadingBlanks n content)) = Marker.ofLine? line := by
  have htrim : trim (' ' :: unindent leadingBlanks n content) = trim content := by
    rw [trim, trim, ← isIndentation_leadingBlanks.trimStart_unindent n content]
    rfl
  exact Marker.ofLine?_congr_comment rfl h htrim

/-- Whatever lines it is read from, an explanation comes back from its comments. -/
theorem isExplanation_split {lines : List Text} (h : ∀ l ∈ lines, '\n' ∉ l) : IsExplanation (split lines).1 := by
  have hmem : ∀ l ∈ (split lines).1, ∃ line ∈ lines, ∃ content, IsCommentLine line ∧ commentText? line = some content ∧
      l = unindent leadingBlanks (shared leadingBlanks (commentBlock lines).1) content := by
    intro l hl
    obtain ⟨content, hcontent, rfl⟩ := List.mem_map.1 (dropBlankEnds_subset _ hl)
    obtain ⟨line, hline, hcomment, htext⟩ := exists_of_mem_commentBlock hcontent
    exact ⟨line, hline, content, hcomment, htext, rfl⟩
  refine ⟨fun l hl => ?_, isBlank_head?_dropBlankStart _, isBlank_getLast?_dropBlankEnds _, ?_, fun l hl => ?_⟩
  · obtain ⟨line, hline, content, -, htext, rfl⟩ := hmem l hl
    have hstart : trimStart line = commentStart ++ content := dropStart?_eq_some_iff.1 htext
    intro hnewline
    have hcontent : '\n' ∈ trimStart line := hstart ▸ List.mem_append_right _ (List.mem_of_mem_drop hnewline)
    exact h line hline ((List.dropWhile_sublist _).subset hcontent)
  · exact (shared_dropBlankEnds leadingBlanks _).trans (isIndentation_leadingBlanks.shared_dedentBy _)
  · obtain ⟨line, -, content, hcomment, htext, rfl⟩ := hmem l hl
    rw [ofLine?_commentLine_unindent htext]
    exact hcomment.not_marker

/-- Reading an explanation undoes writing it, whatever lines come after it that do not go on with it. Every explanation
that is read could have been written, and is that of the longest block of comments that the lines begin with. -/
theorem split_undoes_writing :
    (∀ ls rest, IsExplanation ls → (∀ l ∈ rest.head?, ¬ IsCommentLine l) →
      split (ls.map commentLine ++ rest) = (ls, rest)) ∧
    ∀ lines, (∀ l ∈ lines, '\n' ∉ l) → IsExplanation (split lines).1 ∧
      ∃ block contents n, Reads lines (split lines).1 (split lines).2 block contents n :=
  ⟨fun _ _ => split_map_commentLine, fun lines h => ⟨isExplanation_split h, _, _, _, reads_split lines⟩⟩

/-- An explanation with a blank line and wide white space in it, and a block of comments with a blank one that is
shorter than what the others share. -/
theorem split_undoes_writing_sample :
    let explanation := ["Adds.".toList, "\t".toList, "\u3000more".toList]
    let lines := ["//".toList, "  //\t a".toList, "// ".toList, "//   b".toList, "// snippet.b".toList, "// c".toList]
    (IsExplanation explanation ∧ split (explanation.map commentLine ++ [[], "// f".toList]) =
        (explanation, [[], "// f".toList])) ∧
      (∀ l ∈ lines, '\n' ∉ l) ∧ split lines = (["a".toList, [], " b".toList], lines.drop 4) ∧
        IsExplanation ["a".toList, [], " b".toList] := by
  intro explanation lines
  have hexplanation : IsExplanation explanation := by decide
  have hnewline : ∀ l ∈ lines, '\n' ∉ l := by decide
  have hlines : split lines = (["a".toList, [], " b".toList], lines.drop 4) := by decide
  have hread := (split_undoes_writing.2 lines hnewline).1
  rw [hlines] at hread
  exact ⟨⟨hexplanation, split_undoes_writing.1 _ _ hexplanation (by decide)⟩, hnewline, hlines, hread⟩

end Explanation
end CodeSnippets
