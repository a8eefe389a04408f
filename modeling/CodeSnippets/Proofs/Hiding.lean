import CodeSnippets.Proofs.Body
import CodeSnippets.Proofs.ExplanationEnd

/-!
# Hidden lines

Lines that are left out of the code after a marker that hides them say nothing: whatever they hold, and
whether they are there at all, the snippet is the same.

* `Hides`: after these lines code is left out.
* `visible_read`, `visible_foldl_read_of_hides`: the outline then leaves code out as well.
* `read_of_hidden`: a line that is left out does nothing to the outline.
* `extract_hidden`: hidden lines have no part in the snippet.
-/

namespace CodeSnippets

open Text Body

/-- After these lines code is left out: one of them hides it, and no later one shows it or opens a slice. -/
def Body.Hides (lines : List Text) : Prop :=
  ∃ xs line ys, lines = xs ++ line :: ys ∧ Marker.ofLine? line = some (.visibility false) ∧
    ∀ l ∈ ys, Marker.ofLine? l ≠ some (.visibility true) ∧ ∀ path, Marker.ofLine? l ≠ some (.opening path)

theorem Body.decision?_eq_some_true_iff {line : Text} : decision? line = some true ↔
    Marker.ofLine? line = some (.visibility true) ∨ ∃ path, Marker.ofLine? line = some (.opening path) := by
  rw [decision?]
  cases Marker.ofLine? line with
  | none => simp
  | some m => cases m <;> simp

namespace Outline

theorem append_visible (o : Outline) (line : Text) : (o.append line).visible = o.visible := by
  rw [append]
  split <;> rfl

/-- Code is kept after a line if the line says so, or if it says nothing and code was kept before it. -/
theorem visible_read (o : Outline) (line : Text) : (o.read line).visible = (decision? line).getD o.visible := by
  have hnone (hm : Marker.ofLine? line = none) : (decision? line).getD o.visible = o.visible := by
    rw [decision?, hm]
    rfl
  -- Only markers decide. Code and documentation leave the outline as visible as it was.
  cases hkind : LineKind.ofLine line with
  | marker m =>
    rw [read, hkind, decision?, LineKind.ofLine_eq_marker_iff.1 hkind]
    cases m <;> rfl
  | code =>
    rw [hnone (LineKind.ofLine?_eq_none fun m => by simp [hkind]), read, hkind]
    exact append_visible o line
  | skipped =>
    rw [hnone (LineKind.ofLine?_eq_none fun m => by simp [hkind]), read, hkind]

theorem visible_foldl_read_of_hidden {o : Outline} {lines : List Text} (ho : o.visible = false)
    (h : ∀ l ∈ lines, decision? l ≠ some true) : (lines.foldl read o).visible = false := by
  induction lines generalizing o with
  | nil => exact ho
  | cons line lines ih =>
    refine ih ?_ fun l hl => h l (List.mem_cons_of_mem line hl)
    have hline := h line List.mem_cons_self
    rw [visible_read]
    cases hd : decision? line with
    | none => exact ho
    | some shown =>
      cases shown with
      | false => rfl
      | true => exact absurd hd hline

theorem visible_foldl_read_of_hides {lines : List Text} (h : Hides lines) (o : Outline) :
    (lines.foldl read o).visible = false := by
  obtain ⟨xs, line, ys, rfl, hline, hys⟩ := h
  rw [List.foldl_append, List.foldl_cons]
  refine visible_foldl_read_of_hidden ?_ fun l hl hshown => ?_
  · -- The line that hides what follows does so whatever came before it.
    rw [visible_read, decision?, hline]
    rfl
  · rcases decision?_eq_some_true_iff.1 hshown with hm | ⟨path, hm⟩
    · exact (hys l hl).1 hm
    · exact (hys l hl).2 path hm

/-- A line without a marker does nothing to an outline that leaves code out. -/
theorem read_of_hidden {o : Outline} {line : Text} (ho : o.visible = false) (hm : Marker.ofLine? line = none) :
    o.read line = o := by
  rw [read, LineKind.ofLine, hm]
  -- The line is code, which is left out, or documentation, which always is.
  by_cases hdoc : isDocumentation line
  · simp [hdoc]
  · simp [hdoc, append, ho]

theorem ofLines_hidden {before : List Text} (h : Hides before) {line : Text} (hm : Marker.ofLine? line = none)
    (after : List Text) : ofLines (before ++ line :: after) = ofLines (before ++ after) := by
  rw [ofLines, ofLines, List.foldl_append, List.foldl_append, List.foldl_cons,
    read_of_hidden (visible_foldl_read_of_hides h {}) hm]

end Outline

namespace Snippet

theorem ofLines_hidden {before : List Text} (h : Hides before) {line : Text} (hm : Marker.ofLine? line = none)
    (after : List Text) : ofLines (before ++ line :: after) = ofLines (before ++ after) := by
  obtain ⟨xs, marker, ys, rfl, hmarker, hys⟩ := h
  -- The marker that hides the line ends the explanation, so the line is one of those the outline is read from.
  have hhides : Hides ((Explanation.split (Margin.dropBlankStart xs)).2 ++ marker :: ys) :=
    ⟨_, marker, ys, rfl, hmarker, hys⟩
  have houtline := Outline.ofLines_hidden hhides hm after
  rw [List.append_assoc, List.append_assoc, List.cons_append, List.cons_append] at houtline
  rw [List.append_assoc, List.append_assoc, List.cons_append, List.cons_append, ofLines_append_cons xs _ hmarker,
    ofLines_append_cons xs _ hmarker, houtline]

/-- Hidden lines have no part in the snippet. A line without a marker that comes where code is left out may
be deleted, or replaced by any other line without a marker: explanation, code and slices stay the same. -/
theorem extract_hidden {source line : Text} {before after : List Text}
    (hsource : lines source = before ++ line :: after) (hhides : Hides before)
    (hline : Marker.ofLine? line = none) :
    extract (Text.ofLines (before ++ after)) = extract source ∧
      ∀ other, '\n' ∉ other → Marker.ofLine? other = none →
        extract (Text.ofLines (before ++ other :: after)) = extract source := by
  have hclean : ∀ l ∈ before ++ line :: after, '\n' ∉ l := hsource ▸ newline_notMem_lines source
  rw [List.forall_mem_append, List.forall_mem_cons] at hclean
  obtain ⟨hbefore, -, hafter⟩ := hclean
  have hdeleted : extract source = ofLines (before ++ after) := by
    rw [extract_eq_ofLines hsource, ofLines_hidden hhides hline]
  -- A line that takes the place of a hidden one is hidden, so both texts have the snippet of the lines without it.
  rw [hdeleted]
  refine ⟨extract_ofLines (List.forall_mem_append.2 ⟨hbefore, hafter⟩), fun other hnewline hother => ?_⟩
  have hreplaced : ∀ l ∈ before ++ other :: after, '\n' ∉ l :=
    List.forall_mem_append.2 ⟨hbefore, List.forall_mem_cons.2 ⟨hnewline, hafter⟩⟩
  rw [extract_ofLines hreplaced, ofLines_hidden hhides hother]

/-- A hidden line in an open slice, with a closing marker between it and the marker that hides it. -/
theorem extract_hidden_in_slice :
    let before := ["// Intro.".toList, "// snippet.a".toList, "x".toList, "// snippet.hide".toList,
      "// snippet.a.b.end".toList]
    let after := ["// snippet.show".toList, "  y".toList]
    Hides before ∧ Marker.ofLine? "secret".toList = none ∧ Marker.ofLine? "/// other".toList = none ∧
      extract (Text.ofLines (before ++ after)) = extract (Text.ofLines (before ++ "secret".toList :: after)) ∧
      extract (Text.ofLines (before ++ "/// other".toList :: after)) =
        extract (Text.ofLines (before ++ "secret".toList :: after)) := by
  intro before after
  have hend : Marker.ofLine? "// snippet.a.b.end".toList = some (.closing 1) := by decide
  have hhides : Hides before :=
    ⟨["// Intro.".toList, "// snippet.a".toList, "x".toList], "// snippet.hide".toList,
      ["// snippet.a.b.end".toList], rfl, by decide, fun l hl => by
        rw [List.mem_singleton.1 hl, hend]
        simp⟩
  have hsource : lines (Text.ofLines (before ++ "secret".toList :: after)) = before ++ "secret".toList :: after := rfl
  have hline : Marker.ofLine? "secret".toList = none := by decide
  have hother : Marker.ofLine? "/// other".toList = none := by decide
  obtain ⟨hdeleted, hreplaced⟩ := extract_hidden hsource hhides hline
  exact ⟨hhides, hline, hother, hdeleted, hreplaced _ (by decide) hother⟩

end Snippet
end CodeSnippets
