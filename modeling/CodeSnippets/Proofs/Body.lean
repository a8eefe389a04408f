import CodeSnippets.Proofs.Margin
import CodeSnippets.Snippet.Extraction

/-!
# The body of a source text

Which lines of code the outline keeps can be said without reading the lines one by one: a line of code
is shown if the nearest line before it that decides about visibility shows code, or if there is no such
line, and the blank lines before the first solid one are left out.

* `shownLines`, `bodyLines`: the lines of code that are shown, and those of the body, with their
  positions.
* `bodyLinesBefore_succ`: when a line joins the body.
* `HoldsBody.read`, `code_ofLines`: the outline keeps exactly the body.
* `code_ofLines_closing`: markers that close slices leave the body alone.
* `code_extract`: the code of a snippet is the body without its margin and the blank lines at its end.
-/

namespace CodeSnippets

open Text Margin

namespace Body

/-! ### The body without a working state -/

/-- What a line says about the visibility of the code after it. -/
def decision? (line : Text) : Option Bool :=
  match Marker.ofLine? line with
  | some (.visibility shown) => some shown
  | some (.opening _) => some true
  | some (.closing _) => none
  | none => none

/-- Code at position `n` is shown: the nearest line before it that decides about visibility does not hide
code. -/
def shownAt (lines : List Text) (n : ℕ) : Bool :=
  (lines.take n).reverse.findSome? decision? != some false

/-- The lines of code that are shown, with their positions. -/
def shownLines (lines : List Text) : List (Text × ℕ) :=
  lines.zipIdx.filter fun (line, n) => LineKind.ofLine line = .code ∧ shownAt lines n

/-- The lines of code that are shown from the first solid one, with their positions. -/
def bodyLines (lines : List Text) : List (Text × ℕ) := (shownLines lines).dropWhile fun (line, _) => isBlank line

/-- The lines of code that are shown from the first solid one. -/
def body (lines : List Text) : List Text := (bodyLines lines).map Prod.fst

/-- The lines of the body before position `n`, with their positions. -/
def bodyLinesBefore (lines : List Text) (n : ℕ) : List (Text × ℕ) := (bodyLines lines).filter (·.2 < n)

/-- How many lines of the body come before position `n`. -/
def countBefore (lines : List Text) (n : ℕ) : ℕ := (bodyLinesBefore lines n).length

/-- The body is what is shown without the blank lines at its start. -/
theorem body_eq (lines : List Text) : body lines = dropBlankStart ((shownLines lines).map Prod.fst) := by
  rw [body, bodyLines, dropBlankStart, List.dropWhile_map]
  rfl

/-- What is shown is code that no line before it hides. -/
theorem mem_shownLines {lines : List Text} {line : Text} {n : ℕ} :
    (line, n) ∈ shownLines lines ↔ lines[n]? = some line ∧ LineKind.ofLine line = .code ∧
      (lines.take n).reverse.findSome? decision? ≠ some false := by
  rw [shownLines, List.mem_filter, List.mem_zipIdx_iff_getElem?]
  simp [shownAt]

/-- What is shown is shown in order. -/
theorem pairwise_shownLines (lines : List Text) : (shownLines lines).Pairwise fun e f => e.2 < f.2 := by
  refine List.Pairwise.filter _ ?_
  rw [← List.pairwise_map (f := Prod.snd), List.zipIdx_map_snd]
  exact List.pairwise_lt_range'

/-! ### One line more -/

section Step

variable {lines : List Text} {n : ℕ}

theorem shownAt_zero (lines : List Text) : shownAt lines 0 = true := by simp [shownAt]

/-- A line decides about the visibility of what follows, or leaves it as it was. -/
theorem shownAt_succ (hn : n < lines.length) :
    shownAt lines (n + 1) = (decision? lines[n]).getD (shownAt lines n) := by
  rw [shownAt, List.take_succ_eq_append_getElem hn, List.reverse_append, List.reverse_singleton,
    List.singleton_append, List.findSome?_cons]
  cases decision? lines[n] with
  | none => rfl
  | some shown => cases shown <;> rfl

/-- The lines of code before position `n` that are shown, with their positions. -/
private def shownLinesBefore (lines : List Text) (n : ℕ) : List (Text × ℕ) :=
  (lines.take n).zipIdx.filter fun (line, m) => LineKind.ofLine line = .code ∧ shownAt lines m

private theorem shownLines_eq_append (hn : n ≤ lines.length) :
    shownLines lines = shownLinesBefore lines n ++
      ((lines.drop n).zipIdx n).filter fun (line, m) => LineKind.ofLine line = .code ∧ shownAt lines m := by
  rw [shownLines, shownLinesBefore, ← List.filter_append]
  conv_lhs => rw [← List.take_append_drop n lines, List.zipIdx_append, List.length_take_of_le hn]
  rw [Nat.zero_add, List.take_append_drop]

private theorem shownLinesBefore_succ (hn : n < lines.length) :
    shownLinesBefore lines (n + 1) = shownLinesBefore lines n ++
      if LineKind.ofLine lines[n] = .code ∧ shownAt lines n then [(lines[n], n)] else [] := by
  rw [shownLinesBefore, List.take_succ_eq_append_getElem hn, List.zipIdx_append, List.filter_append,
    List.length_take_of_le hn.le]
  by_cases h : LineKind.ofLine lines[n] = .code ∧ shownAt lines n <;> simp [shownLinesBefore, h]

/-- The body before position `n` depends on what is shown before position `n` alone. -/
private theorem bodyLinesBefore_eq (hn : n ≤ lines.length) :
    bodyLinesBefore lines n = (shownLinesBefore lines n).dropWhile fun (line, _) => isBlank line := by
  have hbefore : ∀ e ∈ shownLinesBefore lines n, e.2 < n := by
    intro e he
    have := List.snd_lt_of_mem_zipIdx (List.mem_filter.1 he).1
    rw [List.length_take_of_le hn] at this
    omega
  have hafter : ∀ xs : List (Text × ℕ), (∀ e ∈ xs, n ≤ e.2) → xs.filter (·.2 < n) = [] := by
    intro xs hxs
    rw [List.filter_eq_nil_iff]
    intro e he
    simpa using hxs e he
  have hge : ∀ e ∈ ((lines.drop n).zipIdx n).filter
      fun (line, m) => LineKind.ofLine line = .code ∧ shownAt lines m, n ≤ e.2 :=
    fun e he => List.le_snd_of_mem_zipIdx (List.mem_filter.1 he).1
  rw [bodyLinesBefore, bodyLines, shownLines_eq_append hn, List.dropWhile_append]
  split
  · -- Only blank lines are shown before `n`, so the body begins at `n` or later.
    rename_i hempty
    rw [List.isEmpty_iff.1 hempty]
    exact hafter _ fun e he => hge e ((List.dropWhile_sublist _).subset he)
  · -- The body has begun, and what is shown from `n` on is filtered out again.
    rw [List.filter_append, hafter _ hge, List.append_nil, List.filter_eq_self]
    intro e he
    simpa using hbefore e ((List.dropWhile_sublist _).subset he)

theorem bodyLinesBefore_zero (lines : List Text) : bodyLinesBefore lines 0 = [] := by
  simp [bodyLinesBefore]

private theorem dropWhile_append_singleton {α : Type} (p : α → Bool) (xs : List α) (x : α) :
    (xs ++ [x]).dropWhile p = if xs.dropWhile p = [] ∧ p x then [] else xs.dropWhile p ++ [x] := by
  rw [List.dropWhile_append]
  by_cases hxs : xs.dropWhile p = []
  · by_cases hx : p x = true <;> simp [hxs, hx]
  · simp [hxs]

/-- A line joins the body if it is code, shown, and not blank or not the first. -/
theorem bodyLinesBefore_succ (hn : n < lines.length) :
    bodyLinesBefore lines (n + 1) =
      if LineKind.ofLine lines[n] = .code ∧ shownAt lines n ∧
          ¬ (bodyLinesBefore lines n = [] ∧ isBlank lines[n]) then
        bodyLinesBefore lines n ++ [(lines[n], n)]
      else bodyLinesBefore lines n := by
  rw [bodyLinesBefore_eq hn, shownLinesBefore_succ hn]
  by_cases hshown : LineKind.ofLine lines[n] = .code ∧ shownAt lines n
  · rw [if_pos hshown, dropWhile_append_singleton, ← bodyLinesBefore_eq hn.le]
    -- A line that is shown is left out only if it is blank and the body has not begun.
    by_cases hfirst : bodyLinesBefore lines n = [] ∧ isBlank lines[n]
    · rw [if_pos hfirst, if_neg fun h => h.2.2 hfirst, hfirst.1]
    · rw [if_neg hfirst, if_pos ⟨hshown.1, hshown.2, hfirst⟩]
  · rw [if_neg hshown, if_neg fun h => hshown ⟨h.1, h.2.1⟩, List.append_nil, ← bodyLinesBefore_eq hn.le]

theorem bodyLinesBefore_length (lines : List Text) : bodyLinesBefore lines lines.length = bodyLines lines := by
  rw [bodyLinesBefore, List.filter_eq_self]
  intro e he
  have hmem := (List.mem_filter.1 ((List.dropWhile_sublist _).subset he)).1
  simpa using List.snd_lt_of_mem_zipIdx hmem

theorem countBefore_mono (lines : List Text) {m n : ℕ} (h : m ≤ n) : countBefore lines m ≤ countBefore lines n := by
  refine (List.monotone_filter_right (bodyLines lines) fun e he => ?_).length_le
  simp only [decide_eq_true_eq] at he ⊢
  omega

theorem countBefore_le (lines : List Text) (n : ℕ) : countBefore lines n ≤ (body lines).length := by
  rw [countBefore, bodyLinesBefore, body, List.length_map]
  exact List.length_filter_le _ _

end Step

end Body

/-! ### The outline keeps the body -/

namespace Outline

open Body

/-- The outline is the one after the lines before position `n`, as far as code is concerned. -/
structure HoldsBody (lines : List Text) (n : ℕ) (o : Outline) : Prop where
  visible : o.visible = shownAt lines n
  code : o.code = (bodyLinesBefore lines n).map Prod.fst
  count : o.count = countBefore lines n

namespace HoldsBody

variable {lines : List Text} {n : ℕ} {o p : Outline}

/-- A line that is not code adds nothing to the body. -/
private theorem next_of_ne_code (h : o.HoldsBody lines n) (hn : n < lines.length)
    (hkind : LineKind.ofLine lines[n] ≠ .code) (hvisible : p.visible = shownAt lines (n + 1))
    (hcode : p.code = o.code) (hcount : p.count = o.count) : p.HoldsBody lines (n + 1) := by
  have hsucc : bodyLinesBefore lines (n + 1) = bodyLinesBefore lines n := by
    rw [bodyLinesBefore_succ hn, if_neg fun hc => hkind hc.1]
  refine ⟨hvisible, ?_, ?_⟩
  · rw [hcode, h.code, hsucc]
  · rw [hcount, h.count, countBefore, countBefore, hsucc]

private theorem mark (h : o.HoldsBody lines n) (hn : n < lines.length) {m : Marker}
    (hm : Marker.ofLine? lines[n] = some m) : (o.mark m).HoldsBody lines (n + 1) := by
  have hkind : LineKind.ofLine lines[n] ≠ .code := by
    rw [LineKind.ofLine_eq_marker_iff.2 hm]
    exact LineKind.noConfusion
  have hshown := shownAt_succ hn
  cases m with
  | visibility shown =>
    refine h.next_of_ne_code hn hkind ?_ rfl rfl
    rw [hshown, decision?, hm]
    rfl
  | opening path =>
    refine h.next_of_ne_code hn hkind ?_ rfl rfl
    rw [hshown, decision?, hm]
    rfl
  | closing depth =>
    -- The one marker that decides nothing: what was shown before is shown after it.
    refine h.next_of_ne_code hn hkind ?_ rfl rfl
    rw [hshown, decision?, hm]
    exact h.visible

private theorem append (h : o.HoldsBody lines n) (hn : n < lines.length)
    (hkind : LineKind.ofLine lines[n] = .code) (hshown : shownAt lines (n + 1) = shownAt lines n) :
    (o.append lines[n]).HoldsBody lines (n + 1) := by
  have hempty : o.code.isEmpty = true ↔ bodyLinesBefore lines n = [] := by
    rw [h.code, List.isEmpty_iff, List.map_eq_nil_iff]
  have hsucc := bodyLinesBefore_succ hn
  by_cases hleft : (!o.visible || (o.code.isEmpty && isBlank lines[n])) = true
  · -- The outline leaves the line out, and so does the body.
    have hnot : ¬ (LineKind.ofLine lines[n] = .code ∧ shownAt lines n ∧
        ¬ (bodyLinesBefore lines n = [] ∧ isBlank lines[n])) := by
      rw [← hempty, ← h.visible]
      intro hc
      simp_all
    rw [if_neg hnot] at hsucc
    rw [Outline.append, if_pos hleft]
    exact ⟨h.visible.trans hshown.symm, by rw [h.code, hsucc],
      by rw [h.count, countBefore, countBefore, hsucc]⟩
  · -- The line joins both, and both grow by one.
    have hjoins : LineKind.ofLine lines[n] = .code ∧ shownAt lines n ∧
        ¬ (bodyLinesBefore lines n = [] ∧ isBlank lines[n]) := by
      rw [← hempty, ← h.visible]
      simp_all
    rw [if_pos hjoins] at hsucc
    rw [Outline.append, if_neg hleft]
    refine ⟨h.visible.trans hshown.symm, ?_, ?_⟩
    · rw [h.code, hsucc, List.map_append]
      rfl
    · rw [h.count, countBefore, countBefore, hsucc, List.length_append]
      rfl

/-- Reading the line at position `n`. -/
theorem read (h : o.HoldsBody lines n) (hn : n < lines.length) :
    (o.read lines[n]).HoldsBody lines (n + 1) := by
  -- Lines that are not markers decide nothing about visibility.
  have hshown (hm : Marker.ofLine? lines[n] = none) : shownAt lines (n + 1) = shownAt lines n := by
    rw [shownAt_succ hn, decision?, hm]
    rfl
  cases hkind : LineKind.ofLine lines[n] with
  | marker m =>
    rw [Outline.read, hkind]
    exact h.mark hn (LineKind.ofLine_eq_marker_iff.1 hkind)
  | code =>
    rw [Outline.read, hkind]
    exact h.append hn hkind (hshown (LineKind.ofLine?_eq_none fun m => by simp [hkind]))
  | skipped =>
    rw [Outline.read, hkind]
    refine h.next_of_ne_code hn (by simp [hkind]) ?_ rfl rfl
    rw [hshown (LineKind.ofLine?_eq_none fun m => by simp [hkind])]
    exact h.visible

end HoldsBody

theorem holdsBody_start (lines : List Text) : HoldsBody lines 0 {} :=
  ⟨(shownAt_zero lines).symm, by rw [bodyLinesBefore_zero]; rfl, by rw [countBefore, bodyLinesBefore_zero]; rfl⟩

/-- After all lines the outline holds the body. -/
theorem holdsBody_foldl_read (lines : List Text) : (lines.foldl Outline.read {}).HoldsBody lines lines.length :=
  foldl_read_induction lines (holdsBody_start lines) fun _ hn _ h => h.read hn

theorem code_ofLines (lines : List Text) : (ofLines lines).code = body lines := by
  rw [ofLines, close_code, (holdsBody_foldl_read lines).code, bodyLinesBefore_length, body]

/-! ### What the body does not depend on -/

/-- The outlines agree on the code kept so far and on whether code is kept; their slices may differ. -/
structure SameCode (o p : Outline) : Prop where
  visible : o.visible = p.visible
  code : o.code = p.code

namespace SameCode

variable {o p : Outline}

/-- What a line does to the code does not depend on the slices. -/
theorem read (h : SameCode o p) (line : Text) : SameCode (o.read line) (p.read line) := by
  rw [Outline.read, Outline.read]
  cases LineKind.ofLine line with
  | marker m =>
    cases m with
    | visibility shown => exact ⟨rfl, h.code⟩
    | opening path => exact ⟨rfl, h.code⟩
    | closing depth => exact ⟨h.visible, h.code⟩
  | code =>
    simp only [Outline.append, h.visible, h.code]
    split
    · exact h
    · exact ⟨rfl, rfl⟩
  | skipped => exact h

theorem foldl_read (h : SameCode o p) (lines : List Text) :
    SameCode (lines.foldl Outline.read o) (lines.foldl Outline.read p) := by
  induction lines generalizing o p with
  | nil => exact h
  | cons line lines ih => exact ih (h.read line)

end SameCode

/-- A marker that closes slices leaves the code alone, and so do all lines after it. -/
theorem code_ofLines_closing (before after : List Text) {line : Text} {depth : ℕ}
    (hline : Marker.ofLine? line = some (.closing depth)) :
    (ofLines (before ++ line :: after)).code = (ofLines (before ++ after)).code := by
  rw [ofLines, ofLines, close_code, close_code, List.foldl_append, List.foldl_append, List.foldl_cons]
  -- The outlines differ in their slices alone once the marker has been read.
  have hsame : SameCode ((before.foldl Outline.read {}).read line) (before.foldl Outline.read {}) := by
    rw [Outline.read, LineKind.ofLine_eq_marker_iff.2 hline]
    exact ⟨rfl, rfl⟩
  exact (hsame.foldl_read after).code

end Outline

/-! ### The code of a snippet -/

namespace Snippet

open Body

/-- The lines of a source text after its explanation. -/
def linesAfterExplanation (source : Text) : List Text :=
  (Explanation.split (dropBlankStart (lines source))).2

theorem extract_eq (source : Text) :
    extract source = ofOutline (Explanation.split (dropBlankStart (lines source))).1
      (Outline.ofLines (linesAfterExplanation source)) := rfl

theorem code_extract_eq_body (source : Text) :
    (extract source).code = dropBlankEnd (dedent (body (linesAfterExplanation source))) := by
  rw [extract_eq, ofOutline, Outline.code_ofLines]

/-- The code of a snippet has no more lines than the source text. -/
theorem length_code_extract_le (source : Text) : (extract source).code.length ≤ (lines source).length := by
  have hblock := Explanation.length_commentBlock (dropBlankStart (lines source))
  have hstart : (dropBlankStart (lines source)).length ≤ (lines source).length := List.length_dropWhile_le _ _
  have hrest : (linesAfterExplanation source).length ≤ (lines source).length :=
    ((Nat.le_add_left _ _).trans_eq hblock).trans hstart
  have hshown : (shownLines (linesAfterExplanation source)).length ≤ (linesAfterExplanation source).length :=
    (List.length_filter_le _ _).trans_eq List.length_zipIdx
  have hbody : (body (linesAfterExplanation source)).length ≤ (shownLines (linesAfterExplanation source)).length := by
    rw [body, List.length_map]
    exact List.length_dropWhile_le _ _
  calc (extract source).code.length
      = (dropBlankEnd (dedent (body (linesAfterExplanation source)))).length := by rw [code_extract_eq_body]
    _ ≤ (dedent (body (linesAfterExplanation source))).length := by
      rw [dropBlankEnd_eq_take]
      exact List.length_take_le' _ _
    _ = (body (linesAfterExplanation source)).length := length_dedent _
    _ ≤ (lines source).length := hbody.trans (hshown.trans hrest)

/-- The code of a snippet is what is shown of the lines after the explanation, from the first solid line
on, without its margin and without the blank lines at its end. What is shown are the lines of code for
which the nearest line before them that decides about visibility does not hide code, each once and in
order. Markers that close slices have no say in it. -/
theorem code_extract (source : Text) :
    let rest := linesAfterExplanation source
    (extract source).code = dropBlankEnd (dedent (dropBlankStart ((shownLines rest).map Prod.fst))) ∧
      (∀ line n, (line, n) ∈ shownLines rest ↔ rest[n]? = some line ∧ LineKind.ofLine line = .code ∧
        (rest.take n).reverse.findSome? decision? ≠ some false) ∧
      (shownLines rest).Pairwise (fun e f => e.2 < f.2) ∧
      ∀ before line after depth, rest = before ++ line :: after →
        Marker.ofLine? line = some (.closing depth) →
        (ofOutline (extract source).explanation (Outline.ofLines (before ++ after))).code =
          (extract source).code := by
  intro rest
  refine ⟨?_, fun line n => mem_shownLines, pairwise_shownLines rest, ?_⟩
  · rw [code_extract_eq_body, body_eq]
  · intro before line after depth hrest hline
    rw [extract_eq, ofOutline, ofOutline, ← Outline.code_ofLines_closing before after hline, ← hrest]

end Snippet
end CodeSnippets
