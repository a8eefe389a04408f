import CodeSnippets.Proofs.ExplanationEnd
import CodeSnippets.Proofs.OutlineSteps
import CodeSnippets.Proofs.SliceSpans

/-!
# Source texts that go on

Lines that are put after a source text leave what has been extracted from it alone. The explanation has ended,
a slice that has closed keeps its span unless a later marker opens it again, and the code keeps its lines, of
which the margin of the longer code may have left some indentation.

* `Outline.Settled`: a slice has closed with a span.
* `Settled.read`, `Settled.foldl_read`: lines that do not open the slice again keep it so.
* `finalSpan_longer`: later code has no say in the span of a slice that is not empty in the end.
* `code_ofOutline_longer`: the code is the beginning of the longer code, without what is left of its margin.
* `get?_slices_ofOutline_append`: such a slice keeps its span if it has closed.
* `extract_append`: all of this for source texts.
-/

namespace CodeSnippets

open Text Margin

/-! ### Slices that have closed -/

namespace Outline

/-- The slice has closed with a span, and has not been opened again. -/
structure Settled (name : Text) (span : Span) (o : Outline) : Prop where
  noted : o.slices.get? name = some span
  not_open : ∀ e ∈ o.opened, e.2.name ≠ name

/-- Closing notes nothing under the names of other slices. -/
theorem get?_slices_close {o : Outline} {name : Text} (h : ∀ e ∈ o.opened, e.2.name ≠ name) (depth : ℤ) :
    (o.close depth).slices.get? name = o.slices.get? name :=
  get?_foldl_record_of_not_filled fun e he hfilled => h e (List.mem_filter.1 he).1 hfilled.2

namespace Settled

variable {name : Text} {span : Span} {o : Outline}

theorem close (h : o.Settled name span) (depth : ℤ) : (o.close depth).Settled name span :=
  ⟨(get?_slices_close h.not_open depth).trans h.noted, fun e he => h.not_open e (List.mem_filter.1 he).1⟩

theorem openSlice (h : o.Settled name span) {path : List Text} (hname : joined ['.'] path ≠ name) :
    (o.openSlice path).Settled name span := by
  refine ⟨(h.close _).noted, fun e he => ?_⟩
  rw [openSlice_opened, List.mem_append, List.mem_singleton] at he
  rcases he with he | rfl
  · exact (h.close _).not_open e he
  · exact hname

/-- A line leaves the slice alone unless it opens it again. -/
theorem read (h : o.Settled name span) {line : Text}
    (hline : ∀ path, Marker.ofLine? line = some (.opening path) → joined ['.'] path ≠ name) :
    (o.read line).Settled name span := by
  rw [Outline.read]
  cases hkind : LineKind.ofLine line with
  | marker m =>
    cases m with
    | visibility shown => exact ⟨h.noted, h.not_open⟩
    | opening path =>
      have hopen := h.openSlice (hline path (LineKind.ofLine_eq_marker_iff.1 hkind))
      exact ⟨hopen.noted, hopen.not_open⟩
    | closing depth => exact h.close depth
  | code => exact ⟨by rw [append_slices]; exact h.noted, by rw [append_opened]; exact h.not_open⟩
  | skipped => exact h

theorem foldl_read (h : o.Settled name span) {lines : List Text}
    (hlines : ∀ line ∈ lines, ∀ path, Marker.ofLine? line = some (.opening path) → joined ['.'] path ≠ name) :
    (lines.foldl Outline.read o).Settled name span := by
  induction lines generalizing o with
  | nil => exact h
  | cons line lines ih =>
    obtain ⟨hline, hrest⟩ := List.forall_mem_cons.1 hlines
    exact ih (h.read hline) hrest

end Settled

/-- A slice that is not open before the end of the lines, and not opened in later ones, has the span with which
it has closed. -/
theorem get?_slices_ofLines_append {lines more : List Text} {name : Text} {span : Span}
    (hspan : (ofLines lines).slices.get? name = some span)
    (hopen : ∀ e ∈ (lines.foldl read {}).opened, e.2.name ≠ name)
    (hmore : ∀ line ∈ more, ∀ path, Marker.ofLine? line = some (.opening path) → joined ['.'] path ≠ name) :
    (ofLines (lines ++ more)).slices.get? name = some span := by
  rw [ofLines, get?_slices_close hopen] at hspan
  have hsettled : (lines.foldl read {}).Settled name span := ⟨hspan, hopen⟩
  rw [ofLines, List.foldl_append]
  exact ((hsettled.foldl_read hmore).close 0).noted

theorem code_prefix_ofLines (lines more : List Text) : (ofLines lines).code <+: (ofLines (lines ++ more)).code := by
  show (lines.foldl read {}).code <+: ((lines ++ more).foldl read {}).code
  rw [List.foldl_append]
  exact code_prefix_foldl_read _ more

end Outline

/-! ### Code that goes on -/

namespace Snippet

section Longer

variable {code longer : List Text}

/-- Later lines of code have no say in the span of a slice that is not empty in the end. -/
theorem finalSpan_longer (hcode : code <+: longer) {a b : ℕ} (hab : a ≤ b) (hb : b ≤ code.length)
    (hlt : (finalSpan code (dropBlankEnd (dedent code)).length ⟨a, b⟩).start <
      (finalSpan code (dropBlankEnd (dedent code)).length ⟨a, b⟩).stop) :
    finalSpan longer (dropBlankEnd (dedent longer)).length ⟨a, b⟩ =
      finalSpan code (dropBlankEnd (dedent code)).length ⟨a, b⟩ := by
  have hshrinks := shrinksTo_finalSpan hab hb
  have hlonger := shrinksTo_finalSpan hab (hb.trans hcode.length_le)
  obtain ⟨more, rfl⟩ := hcode
  generalize finalSpan code (dropBlankEnd (dedent code)).length ⟨a, b⟩ = span at hshrinks hlt ⊢
  cases hshrinks with
  | solid hlo h =>
    -- The slice ends in the code, and the solid lines up to its end are the same in both.
    exact hlonger.unique (.solid hlo (h.congr fun i hi => solidAt_append (Nat.lt_of_lt_of_le hi hb)))
  | blank => exact absurd hlt (Int.lt_irrefl _)

/-- The final code of code that goes on begins with the lines of its own final code, but for what is left of their
margin. -/
theorem code_ofOutline_longer (hcode : code <+: longer) :
    (dropBlankEnd (dedent code)).length ≤ (dropBlankEnd (dedent longer)).length ∧
      dedent ((dropBlankEnd (dedent longer)).take (dropBlankEnd (dedent code)).length) = dropBlankEnd (dedent code) := by
  have hbegin := dropBlankEnd_mono hcode
  rw [dropBlankEnd_dedent, dropBlankEnd_dedent, Margin.length_dedent, Margin.length_dedent]
  refine ⟨hbegin.length_le, ?_⟩
  rcases List.eq_nil_or_concat' (dropBlankEnd code) with hnil | ⟨init, last, hlast⟩
  · -- Nothing is left of the shorter code.
    simp [hnil, dedent, dedentBy]
  · refine dedent_take_dedent hbegin ⟨last, by simp [hlast], ?_⟩
    exact isBlank_getLast?_dropBlankEnd code last (by simp [hlast])

end Longer

/-- A slice that has closed, and is not empty in the end, keeps its span when more lines come. -/
theorem get?_slices_ofOutline_append {lines more : List Text} {explanation : List Text} {name : Text} {span : Span}
    (hspan : (ofOutline explanation (Outline.ofLines lines)).slices.get? name = some span)
    (hlt : span.start < span.stop) (hopen : ∀ e ∈ (lines.foldl Outline.read {}).opened, e.2.name ≠ name)
    (hmore : ∀ line ∈ more, ∀ path, Marker.ofLine? line = some (.opening path) → joined ['.'] path ≠ name) :
    (ofOutline explanation (Outline.ofLines (lines ++ more))).slices.get? name = some span := by
  rw [ofOutline, Named.get?_map, Option.map_eq_some_iff] at hspan ⊢
  obtain ⟨raw, hraw, rfl⟩ := hspan
  have hwell := (Outline.wellFormed_start.foldl_read lines).close 0
  obtain ⟨a, b, rfl, hab, hb⟩ := hwell.exists_span hraw
  -- The span in the outline is the same, and so is what is left of it in the end.
  refine ⟨⟨a, b⟩, Outline.get?_slices_ofLines_append hraw hopen hmore, ?_⟩
  exact finalSpan_longer (Outline.code_prefix_ofLines lines more) hab.le hb hlt

/-! ### Source texts that go on -/

/-- Lines that come later leave what has been extracted alone. The explanation is the same if lines are left after
it. A slice that is not empty, has closed and is not opened again has the same span. And there are at least as
many lines of code, of which the first ones, without the margin that they share, are those that there were. -/
theorem extract_append {before after : List Text} (hne : before ≠ []) (hbefore : ∀ l ∈ before, '\n' ∉ l)
    (hafter : ∀ l ∈ after, '\n' ∉ l) :
    let source := Text.ofLines before
    let longer := Text.ofLines (before ++ after)
    let rest := linesAfterExplanation source
    (rest ≠ [] → (extract longer).explanation = (extract source).explanation) ∧
      (∀ name span, (extract source).slices.get? name = some span → span.start < span.stop →
        (∀ e ∈ (rest.foldl Outline.read {}).opened, e.2.name ≠ name) →
        (∀ line ∈ after, ∀ path, Marker.ofLine? line = some (.opening path) → joined ['.'] path ≠ name) →
        (extract longer).slices.get? name = some span) ∧
      (extract source).code.length ≤ (extract longer).code.length ∧
      dedent ((extract longer).code.take (extract source).code.length) = (extract source).code := by
  intro source longer rest
  have hrest : rest = (Explanation.split (dropBlankStart before)).2 := by
    show (Explanation.split (dropBlankStart (lines source))).2 = _
    rw [lines_ofLines hne hbefore]
  have hsource : extract source = ofOutline (Explanation.split (dropBlankStart before)).1 (Outline.ofLines rest) := by
    rw [extract_ofLines hbefore, hrest]
    rfl
  by_cases hempty : rest = []
  · -- Nothing is left after the explanation, so that there are neither slices nor code.
    have hnone : extract source = ⟨(Explanation.split (dropBlankStart before)).1, [], []⟩ := by
      rw [hsource, hempty]
      rfl
    rw [hnone]
    refine ⟨fun h => absurd hempty h, fun name span hspan => ?_, Nat.zero_le _, rfl⟩
    cases hspan
  · have hlonger : extract longer =
        ofOutline (Explanation.split (dropBlankStart before)).1 (Outline.ofLines (rest ++ after)) := by
      rw [hrest] at hempty
      rw [extract_ofLines (List.forall_mem_append.2 ⟨hbefore, hafter⟩), ofLines_append_of_ne_nil hempty, hrest]
    rw [hlonger, hsource]
    exact ⟨fun _ => rfl, fun _ _ => get?_slices_ofOutline_append,
      code_ofOutline_longer (Outline.code_prefix_ofLines rest after)⟩

/-- The slice `a` ends before a blank line and a marker, and more code follows with half of its margin. -/
theorem extract_append_sample :
    let before := ["// Intro.", "// snippet.a", "    x", "  ", "// snippet.b", "      y"].map String.toList
    let after := ["  z", "// snippet.c"].map String.toList
    let source := Text.ofLines before
    let longer := Text.ofLines (before ++ after)
    before ≠ [] ∧ (∀ l ∈ before, '\n' ∉ l) ∧ (∀ l ∈ after, '\n' ∉ l) ∧ linesAfterExplanation source ≠ [] ∧
      (extract longer).explanation = ["Intro.".toList] ∧ (extract longer).slices.get? "a".toList = some ⟨0, 1⟩ ∧
      (extract longer).code = ["  x", "", "    y", "z"].map String.toList ∧
      dedent ((extract longer).code.take 3) = ["x", "", "  y"].map String.toList := by
  intro before after source longer
  have hne : before ≠ [] := by decide
  have hbefore : ∀ l ∈ before, '\n' ∉ l := by decide
  have hafter : ∀ l ∈ after, '\n' ∉ l := by decide
  have hrest : linesAfterExplanation source ≠ [] := by decide
  obtain ⟨hexplanation, hslice, -, hcode⟩ := extract_append hne hbefore hafter
  refine ⟨hne, hbefore, hafter, hrest, (hexplanation hrest).trans (by decide), ?_, by decide, hcode.trans (by decide)⟩
  refine hslice "a".toList ⟨0, 1⟩ (by decide) (by decide) (by decide) fun line hline path hpath => ?_
  -- Of the later lines only the last one opens a slice.
  rcases List.mem_pair.1 hline with rfl | rfl
  · have hnone : Marker.ofLine? "  z".toList = none := by decide
    cases hnone.symm.trans hpath
  · have hopening : Marker.ofLine? "// snippet.c".toList = some (.opening ["c".toList]) := by decide
    cases hopening.symm.trans hpath
    decide

end Snippet
end CodeSnippets
