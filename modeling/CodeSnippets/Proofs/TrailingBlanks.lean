import CodeSnippets.Proofs.Appending

/-!
# Blank lines at the end of a source text

Blank lines that are put after a source text change neither the explanation nor the code, because the blank lines
at the end of the code are dropped. Until then they are lines of code all the same. A slice that is still open
covers them, even if it has no other lines, and then takes the place of a slice with its name that has closed
before. That slice loses its lines.

* `foldl_read_of_blank`: blank lines are kept where code is kept and has begun.
* `AwaitsCode`: a slice has been opened that no line of code has followed yet.
* `get?_slices_close_extend`: what lines at the end add to the span of a slice.
* `sliceLines_ofOutline`: the lines of a slice are those of its span in the outline.
* `extract_append_blanks`: what blank lines at the end do to the snippet.
-/

namespace CodeSnippets

open Text Margin

/-! ### Slices at the end of the code -/

namespace Outline

/-- Blank lines are kept where code is kept and has begun. -/
theorem foldl_read_of_blank (o : Outline) {blanks : List Text} (h : ∀ l ∈ blanks, isBlank l = true) :
    blanks.foldl read o = if o.visible = true ∧ o.code ≠ [] then o.extend blanks [] else o := by
  split
  · rename_i hkept
    exact foldl_read_code hkept.1 (fun l hl => LineKind.ofLine_of_isBlank (h l hl)) fun hnil => absurd hnil hkept.2
  · rename_i hleft
    -- None of the lines is kept, so that the next one finds the outline as it was.
    induction blanks with
    | nil => rfl
    | cons l blanks ih =>
      obtain ⟨hl, hrest⟩ := List.forall_mem_cons.1 h
      have hread : o.read l = o := by
        rw [read, LineKind.ofLine_of_isBlank hl]
        show o.append l = o
        rw [append, if_pos]
        cases hvisible : o.visible <;> simp_all
      rw [List.foldl_cons, hread, ih hrest]

/-- The next line of code will be the first one of a slice with this name. -/
structure AwaitsCode (name : Text) (o : Outline) : Prop where
  visible : o.visible = true
  opened : ∃ e ∈ o.opened, e.2.name = name ∧ e.2.start = o.count

instance (name : Text) (o : Outline) : Decidable (o.AwaitsCode name) :=
  decidable_of_iff (o.visible = true ∧ ∃ e ∈ o.opened, e.2.name = name ∧ e.2.start = o.count)
    ⟨fun h => ⟨h.1, h.2⟩, fun h => ⟨h.visible, h.opened⟩⟩

namespace WellFormed

variable {o : Outline}

theorem depth_nonneg (h : o.WellFormed) {e : ℤ × OpenSlice} (he : e ∈ o.opened) : 0 ≤ e.1 := by
  have hname := h.length_name e he
  have hparts : 0 < (pieces '.' e.2.name).length := List.length_pos_iff.2 (pieces_ne_nil '.' e.2.name)
  omega

/-- When all slices close, an open one is noted unless no line has followed it. -/
theorem get?_slices_close_of_mem (h : o.WellFormed) {e : ℤ × OpenSlice} (he : e ∈ o.opened) :
    (o.close 0).slices.get? e.2.name =
      if e.2.start < o.count then some ⟨e.2.start, o.count⟩ else o.slices.get? e.2.name := by
  have hclosed : ∀ f ∈ o.opened.filter (fun f => 0 ≤ f.1), f ∈ o.opened := fun f hf => (List.mem_filter.1 hf).1
  rw [close_eq]
  split
  · rename_i hlt
    refine (get?_foldl_record fun f hf g hg => h.eq_of_name_eq (hclosed f hf) (hclosed g hg)).2 (.inl ?_)
    exact ⟨e, List.mem_filter.2 ⟨he, by simpa using h.depth_nonneg he⟩, hlt, rfl, rfl⟩
  · rename_i hge
    refine get?_foldl_record_of_not_filled fun f hf hfilled => hge ?_
    -- The only open slice with the name is the one that no line has followed.
    rw [← h.eq_of_name_eq (hclosed f hf) he hfilled.2]
    exact hfilled.1

/-- Lines at the end leave the span of a slice alone or make it longer, unless the next line of code is the first
one of a slice with the same name. Then they are all that the slice has. -/
theorem get?_slices_close_extend (h : o.WellFormed) {more : List Text} (hlonger : (o.extend more []).WellFormed)
    (hne : more ≠ []) (hvisible : o.visible = true) {name : Text} {raw : Span}
    (hraw : (o.close 0).slices.get? name = some raw) :
    (o.AwaitsCode name → ((o.extend more []).close 0).slices.get? name = some ⟨o.count, o.count + more.length⟩) ∧
      (¬ o.AwaitsCode name → ((o.extend more []).close 0).slices.get? name = some raw ∨
        raw.stop = o.count ∧
          ((o.extend more []).close 0).slices.get? name = some ⟨raw.start, o.count + more.length⟩) := by
  have hmore : 0 < more.length := List.length_pos_iff.2 hne
  -- A slice that is open at the end gets all of the lines.
  have hgets : ∀ e ∈ o.opened, ((o.extend more []).close 0).slices.get? e.2.name =
      some ⟨e.2.start, o.count + more.length⟩ := by
    intro e he
    have hle := h.start_le e he
    refine (hlonger.get?_slices_close_of_mem he).trans (if_pos ?_)
    show e.2.start < o.count + more.length
    omega
  constructor
  · rintro ⟨-, e, he, rfl, hstart⟩
    rw [hgets e he, hstart]
  · intro hawaits
    by_cases hopen : ∃ e ∈ o.opened, e.2.name = name
    · obtain ⟨e, he, rfl⟩ := hopen
      have hlt : e.2.start < o.count :=
        Int.lt_iff_le_and_ne.2 ⟨h.start_le e he, fun heq => hawaits ⟨hvisible, e, he, rfl, heq⟩⟩
      rw [h.get?_slices_close_of_mem he, if_pos hlt, Option.some.injEq] at hraw
      subst hraw
      exact .inr ⟨rfl, hgets e he⟩
    · -- No slice with the name is open, and what has been noted stays.
      have hnot : ∀ e ∈ o.opened, e.2.name ≠ name := fun e he heq => hopen ⟨e, he, heq⟩
      rw [get?_slices_close hnot] at hraw
      exact .inl ((get?_slices_close (o := o.extend more []) hnot 0).trans hraw)

end WellFormed
end Outline

/-! ### The lines of a slice -/

section Cuts

variable {ls blanks : List Text} {a b : ℕ}

/-- Blank lines at the end are no lines of a span that ends before them. -/
theorem cut_dedent_append_of_blank (hblank : ∀ l ∈ blanks, isBlank l = true) (hb : b ≤ ls.length) :
    (Span.mk a b).cut (dedent (ls ++ blanks)) = (Span.mk a b).cut (dedent ls) := by
  obtain ⟨blanks', -, -, hdedent⟩ := dedent_append_of_blank ls hblank
  have hb' : b ≤ (dedent ls).length := by rwa [Margin.length_dedent]
  rw [hdedent, Span.cut_natCast hb', Span.cut_natCast (hb'.trans (by simp)), List.take_append_of_le_length hb']

/-- Blank lines at the end of a span make no difference to what is left without them. -/
theorem dropBlankEnds_cut_dedent_append (hblank : ∀ l ∈ blanks, isBlank l = true) (ha : a ≤ ls.length) :
    dropBlankEnds ((Span.mk a (ls.length + blanks.length : ℕ)).cut (dedent (ls ++ blanks))) =
      dropBlankEnds ((Span.mk a ls.length).cut (dedent ls)) := by
  obtain ⟨blanks', hblank', hlength, hdedent⟩ := dedent_append_of_blank ls hblank
  rw [hdedent, ← hlength, ← Margin.length_dedent ls] at *
  rw [Span.cut_natCast List.length_append.ge, Span.cut_natCast le_rfl, List.take_length, ← List.length_append,
    List.take_length, List.drop_append_of_le_length ha, dropBlankEnds_append_of_blank _ hblank']

end Cuts

namespace Snippet

/-- A snippet has a slice exactly if it has lines for its name. -/
theorem mem_names_iff_sliceLines {s : Snippet} {name : Text} :
    name ∈ s.slices.names ↔ ∃ ls, s.sliceLines name = .ok ls := by
  rw [Named.mem_names_iff, sliceLines]
  cases s.slices.get? name with
  | some span => simp
  | none => simp

/-- The lines of a slice are those of its span in the outline, without their margin and without the blank ones at
both ends. -/
theorem sliceLines_ofOutline {o : Outline} (h : o.WellFormed) {name : Text} {raw : Span}
    (hraw : o.slices.get? name = some raw) (explanation : List Text) :
    (ofOutline explanation o).sliceLines name = .ok (dropBlankEnds (raw.cut (dedent o.code))) := by
  obtain ⟨a, b, rfl, hab, hb⟩ := h.exists_span hraw
  rw [sliceLines, ofOutline, Named.get?_map, hraw]
  show Except.ok ((finalSpan o.code (dropBlankEnd (dedent o.code)).length ⟨a, b⟩).cut _) = _
  rw [(shrinksTo_finalSpan hab.le hb).cut_eq hb, Span.cut_natCast (by rwa [Margin.length_dedent])]

section Blanks

variable {o : Outline} {blanks : List Text}

/-- The blank lines at the end are dropped from the code, whether or not they have been kept. -/
theorem code_ofOutline_of_blank (hblank : ∀ l ∈ blanks, isBlank l = true) (explanation : List Text) :
    (ofOutline explanation ((blanks.foldl Outline.read o).close 0)).code = (ofOutline explanation (o.close 0)).code := by
  show dropBlankEnd (dedent (blanks.foldl Outline.read o).code) = dropBlankEnd (dedent o.code)
  rw [Outline.foldl_read_of_blank o hblank]
  split
  · show dropBlankEnd (dedent (o.code ++ blanks)) = _
    rw [dropBlankEnd_dedent, dropBlankEnd_append_of_blank _ hblank, dropBlankEnd_dedent]
  · rfl

/-- Blank lines at the end change the lines of no slice, unless it takes the place of one that has closed. -/
theorem sliceLines_ofOutline_of_blank (h : o.WellFormed) (hne : blanks ≠ [])
    (hblank : ∀ l ∈ blanks, isBlank l = true) (explanation : List Text) {name : Text}
    (hname : name ∈ (ofOutline explanation (o.close 0)).slices.names) :
    (¬ o.AwaitsCode name → (ofOutline explanation ((blanks.foldl Outline.read o).close 0)).sliceLines name =
        (ofOutline explanation (o.close 0)).sliceLines name) ∧
      (o.AwaitsCode name →
        (ofOutline explanation ((blanks.foldl Outline.read o).close 0)).sliceLines name = .ok []) := by
  rw [ofOutline, Named.names_map, Named.mem_names_iff] at hname
  obtain ⟨raw, hraw⟩ := hname
  obtain ⟨a, b, rfl, hab, hb⟩ := (h.close 0).exists_span hraw
  have hb : b ≤ o.code.length := hb
  have hlines := sliceLines_ofOutline (h.close 0) hraw explanation
  have hlonger := h.foldl_read blanks
  have hcount : o.count + blanks.length = (o.code.length + blanks.length : ℕ) := by
    rw [h.count_eq]
    rfl
  rw [Outline.foldl_read_of_blank o hblank] at hlonger ⊢
  by_cases hvisible : o.visible = true
  · -- A slice has closed, so that code has begun and the blank lines are kept.
    have hkept : o.visible = true ∧ o.code ≠ [] := ⟨hvisible, List.ne_nil_of_length_pos (by omega)⟩
    rw [if_pos hkept] at hlonger ⊢
    obtain ⟨hawaits, hstays⟩ := h.get?_slices_close_extend hlonger hne hvisible hraw
    refine ⟨fun hnot => ?_, fun hawait => ?_⟩
    · rcases hstays hnot with hsame | ⟨hstop, hmore⟩
      · rw [hlines, sliceLines_ofOutline (hlonger.close 0) hsame explanation]
        exact congrArg (fun ls => Except.ok (dropBlankEnds ls)) (cut_dedent_append_of_blank hblank hb)
      · -- The slice ends with the code, and gets the blank lines.
        obtain rfl : b = o.code.length := Int.ofNat_inj.1 (hstop.trans h.count_eq)
        rw [hcount] at hmore
        rw [hlines, sliceLines_ofOutline (hlonger.close 0) hmore explanation]
        exact congrArg Except.ok (dropBlankEnds_cut_dedent_append hblank hab.le)
    · -- The slice begins where the code has ended, and has the blank lines alone.
      have hmore := hawaits hawait
      rw [hcount, h.count_eq] at hmore
      rw [sliceLines_ofOutline (hlonger.close 0) hmore explanation]
      refine congrArg Except.ok ((dropBlankEnds_cut_dedent_append hblank le_rfl).trans ?_)
      rw [Span.cut_natCast (Margin.length_dedent _).ge, List.drop_of_length_le (List.length_take_le _ _)]
      rfl
  · -- The blank lines are hidden, and nothing changes.
    rw [if_neg fun hkept => hvisible hkept.1]
    exact ⟨fun _ => rfl, fun hawaits => absurd hawaits.visible hvisible⟩

end Blanks

/-! ### Blank lines after a source text -/

/-- Blank lines at the end belong to no explanation, and are read after the lines that are left. -/
theorem ofLines_append_of_blank (ls : List Text) {blanks : List Text} (h : ∀ l ∈ blanks, isBlank l = true) :
    ofLines (ls ++ blanks) = ofOutline (Explanation.split (dropBlankStart ls)).1
      (Outline.ofLines ((Explanation.split (dropBlankStart ls)).2 ++ blanks)) := by
  cases blanks with
  | nil =>
    rw [List.append_nil, List.append_nil]
    rfl
  | cons blank blanks =>
    have hblank : Explanation.lineText? blank = none := by
      rw [Explanation.lineText?, h blank List.mem_cons_self]
      rfl
    by_cases hstart : dropBlankStart ls = []
    · -- There are blank lines only. All of them are dropped from the start, and none of them would be kept.
      have hall : dropBlankStart (ls ++ blank :: blanks) = [] := by
        rw [dropBlankStart, List.dropWhile_append_of_pos (List.dropWhile_eq_nil_iff.1 hstart)]
        exact List.dropWhile_eq_nil_iff.2 h
      rw [ofLines, hall, hstart, Outline.ofLines, List.foldl_append]
      show _ = ofOutline _ (((blank :: blanks).foldl Outline.read {}).close 0)
      rw [Outline.foldl_read_of_blank {} h, if_neg (by simp)]
      rfl
    · -- The comment block ends at the first of the blank lines at the latest.
      rw [ofLines, dropBlankStart_append hstart, Explanation.split, Explanation.commentBlock_append_cons _ _ hblank]
      rfl

/-- Blank lines at the end of a source text change neither its explanation nor its code. Every slice stays, with
the same lines, unless the next line of code would have been the first one of a slice with the same name. Such a
slice takes the place of the one that has closed before, and has no lines. -/
theorem extract_append_blanks (source : Text) {blanks : List Text} (hne : blanks ≠ [])
    (hblank : ∀ l ∈ blanks, isBlank l = true) (hnewline : ∀ l ∈ blanks, '\n' ∉ l) :
    let longer := source ++ blanks.flatMap ('\n' :: ·)
    let o := (linesAfterExplanation source).foldl Outline.read {}
    (extract longer).explanation = (extract source).explanation ∧ (extract longer).code = (extract source).code ∧
      ∀ name ∈ (extract source).slices.names, name ∈ (extract longer).slices.names ∧
        (¬ o.AwaitsCode name → (extract longer).sliceLines name = (extract source).sliceLines name) ∧
        (o.AwaitsCode name → (extract longer).sliceLines name = .ok []) := by
  intro longer o
  have hsource : extract source = ofOutline (extract source).explanation (o.close 0) := rfl
  have hlonger : extract longer = ofOutline (extract source).explanation ((blanks.foldl Outline.read o).close 0) := by
    rw [extract, lines_append_flatMap source hnewline, ofLines_append_of_blank _ hblank, Outline.ofLines,
      List.foldl_append]
    rfl
  have hwell : o.WellFormed := Outline.wellFormed_start.foldl_read _
  refine ⟨by rw [hlonger]; rfl, by rw [hlonger, hsource]; exact code_ofOutline_of_blank hblank _, fun name hname => ?_⟩
  rw [hsource] at hname
  obtain ⟨hstays, hawaits⟩ := sliceLines_ofOutline_of_blank hwell hne hblank _ hname
  rw [← hsource, ← hlonger] at hstays
  rw [← hlonger] at hawaits
  refine ⟨mem_names_iff_sliceLines.2 ?_, hstays, hawaits⟩
  -- In both cases there are lines of the name, so that the slice is there.
  by_cases h : o.AwaitsCode name
  · exact ⟨[], hawaits h⟩
  · rw [hstays h]
    exact mem_names_iff_sliceLines.1 hname

/-- Of two slices that have closed, `a` is opened again right before the blank lines. -/
theorem extract_append_blanks_sample :
    let source := "// snippet.b\nw\n// snippet.a\nx\n// snippet.a".toList
    let blanks := ["  ".toList, []]
    let longer := source ++ blanks.flatMap ('\n' :: ·)
    blanks ≠ [] ∧ (∀ l ∈ blanks, isBlank l = true) ∧ (∀ l ∈ blanks, '\n' ∉ l) ∧
      (extract longer).code = ["w".toList, "x".toList] ∧ (extract longer).sliceLines "b".toList = .ok ["w".toList] ∧
      (extract source).sliceLines "a".toList = .ok ["x".toList] ∧ (extract longer).sliceLines "a".toList = .ok [] := by
  intro source blanks longer
  have hne : blanks ≠ [] := by decide
  have hblank : ∀ l ∈ blanks, isBlank l = true := by decide
  have hnewline : ∀ l ∈ blanks, '\n' ∉ l := by decide
  obtain ⟨-, hcode, hslices⟩ := extract_append_blanks source hne hblank hnewline
  obtain ⟨-, hstays, -⟩ := hslices "b".toList (by decide)
  obtain ⟨-, -, hawaits⟩ := hslices "a".toList (by decide)
  exact ⟨hne, hblank, hnewline, hcode.trans (by decide), (hstays (by decide)).trans (by decide), by decide,
    hawaits (by decide)⟩

/-- Blank lines at the end do not leave the lines of every slice alone. -/
theorem not_forall_sliceLines_append_blanks :
    ¬ ∀ (source : Text) (blanks : List Text), blanks ≠ [] → (∀ l ∈ blanks, isBlank l = true) →
      (∀ l ∈ blanks, '\n' ∉ l) →
      let longer := source ++ blanks.flatMap ('\n' :: ·)
      (extract longer).explanation = (extract source).explanation ∧ (extract longer).code = (extract source).code ∧
        ∀ name ∈ (extract source).slices.names, name ∈ (extract longer).slices.names ∧
          (extract longer).sliceLines name = (extract source).sliceLines name := by
  intro h
  -- The slice is opened again after its only line, and the one that takes its place is empty.
  obtain ⟨-, -, hslices⟩ := h "// snippet.a\nx\n// snippet.a".toList [[]] (by decide) (by decide) (by decide)
  exact absurd (hslices "a".toList (by decide)).2 (by decide)

end Snippet
end CodeSnippets
