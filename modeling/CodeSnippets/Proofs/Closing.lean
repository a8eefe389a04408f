import CodeSnippets.Proofs.ExplanationEnd
import CodeSnippets.Proofs.OutlineSlices

/-!
# Closing slices twice

A slice that a later marker, or the end of the lines, closes anyway may as well be closed by a marker of its
own just before. The two outlines have noted their slices in different orders and agree in all else, and no
later line tells them apart.

* `SameUpToOrder`: outlines that differ in the order of the slices that have closed alone.
* `SameUpToOrder.read`, `SameUpToOrder.foldl_read`: every line keeps them so.
* `close_close`: closing at a depth and then above it is closing above it, if no two open slices share a
  name.
* `extract_insert_closing`: a closing marker where all it closes is closed next leaves the snippet alone.
-/

namespace CodeSnippets

open Text Layout

namespace Outline

/-! ### Outlines that differ in the order of their slices -/

/-- The outlines agree, but may have noted the slices that have closed in different orders. -/
structure SameUpToOrder (o p : Outline) : Prop where
  visible : o.visible = p.visible
  opened : o.opened = p.opened
  code : o.code = p.code
  count : o.count = p.count
  slices : ∀ name, o.slices.get? name = p.slices.get? name

/-- What is noted of closing slices under a name depends on what was noted under this name before. -/
theorem get?_foldl_record_of_get? {count : ℤ} {slices slices' : Named Span} (closed : List (ℤ × OpenSlice))
    (h : ∀ name, slices.get? name = slices'.get? name) (name : Text) :
    (closed.foldl (fun t e => record count t e.2) slices).get? name =
      (closed.foldl (fun t e => record count t e.2) slices').get? name := by
  induction closed generalizing slices slices' with
  | nil => exact h name
  | cons e closed ih =>
    refine ih fun name => ?_
    rw [get?_record, get?_record, h name]

namespace SameUpToOrder

variable {o p : Outline}

theorem close (h : SameUpToOrder o p) (depth : ℤ) : SameUpToOrder (o.close depth) (p.close depth) := by
  refine ⟨h.visible, ?_, h.code, h.count, fun name => ?_⟩
  · rw [Outline.close, Outline.close, h.opened]
  · rw [Outline.close, Outline.close, h.opened, h.count]
    exact get?_foldl_record_of_get? _ h.slices name

/-- Outlines that agree once the slices at the depth of a path are closed agree after the slice is opened. -/
theorem openSlice {path : List Text} (hcount : o.count = p.count)
    (h : SameUpToOrder (o.close ((path.length : ℤ) - 1)) (p.close ((path.length : ℤ) - 1))) :
    SameUpToOrder (o.openSlice path) (p.openSlice path) := by
  refine ⟨h.visible, ?_, h.code, h.count, h.slices⟩
  -- The slice itself starts at the number of lines of the outline in which it opens.
  show insertOpened _ ⟨_, o.count⟩ (o.close _).opened = insertOpened _ ⟨_, p.count⟩ (p.close _).opened
  rw [h.opened, hcount]

theorem mark (h : SameUpToOrder o p) (m : Marker) : SameUpToOrder (o.mark m) (p.mark m) := by
  cases m with
  | visibility shown => exact ⟨rfl, h.opened, h.code, h.count, h.slices⟩
  | opening path =>
    have hopen := openSlice h.count (h.close ((path.length : ℤ) - 1))
    exact ⟨rfl, hopen.opened, hopen.code, hopen.count, hopen.slices⟩
  | closing depth => exact h.close depth

theorem append (h : SameUpToOrder o p) (line : Text) : SameUpToOrder (o.append line) (p.append line) := by
  rw [Outline.append, Outline.append, h.visible, h.code]
  -- Both outlines keep the line, or neither does.
  split
  · exact h
  · exact ⟨rfl, h.opened, rfl, congrArg (· + 1) h.count, h.slices⟩

theorem read (h : SameUpToOrder o p) (line : Text) : SameUpToOrder (o.read line) (p.read line) := by
  rw [Outline.read, Outline.read]
  cases LineKind.ofLine line with
  | marker m => exact h.mark m
  | code => exact h.append line
  | skipped => exact h

theorem foldl_read (h : SameUpToOrder o p) (lines : List Text) :
    SameUpToOrder (lines.foldl Outline.read o) (lines.foldl Outline.read p) := by
  induction lines generalizing o p with
  | nil => exact h
  | cons line lines ih => exact ih (h.read line)

end SameUpToOrder

/-! ### Closing twice -/

/-- Of slices with different names it does not matter in which order, or how often, they are noted. -/
theorem get?_foldl_record_congr {count : ℤ} {slices : Named Span} {closed closed' : List (ℤ × OpenSlice)}
    (hmem : ∀ e, e ∈ closed' ↔ e ∈ closed)
    (hnames : ∀ e ∈ closed, ∀ f ∈ closed, e.2.name = f.2.name → e = f) (name : Text) :
    (closed'.foldl (fun t e => record count t e.2) slices).get? name =
      (closed.foldl (fun t e => record count t e.2) slices).get? name := by
  have hnames' : ∀ e ∈ closed', ∀ f ∈ closed', e.2.name = f.2.name → e = f :=
    fun e he f hf => hnames e ((hmem e).1 he) f ((hmem f).1 hf)
  -- Under a name the slice of this name is noted, and there is no other one.
  apply Option.ext
  intro span
  rw [get?_foldl_record hnames', get?_foldl_record hnames]
  simp only [hmem]

/-- The entries that are closed at a depth, and of the others those that are closed at a smaller one, are all
from the smaller depth on. -/
theorem mem_closed_twice_iff {opened : List (ℤ × OpenSlice)} {depth lower : ℤ} (hle : depth ≤ lower)
    {e : ℤ × OpenSlice} :
    e ∈ opened.filter (fun e => lower ≤ e.1) ++ (opened.filter fun e => e.1 < lower).filter (fun e => depth ≤ e.1) ↔
      e ∈ opened.filter fun e => depth ≤ e.1 := by
  simp only [List.mem_append, List.mem_filter, decide_eq_true_eq]
  constructor
  · rintro (⟨he, hlower⟩ | ⟨⟨he, -⟩, hdepth⟩)
    · exact ⟨he, Int.le_trans hle hlower⟩
    · exact ⟨he, hdepth⟩
  · rintro ⟨he, hdepth⟩
    by_cases hlower : lower ≤ e.1
    · exact .inl ⟨he, hlower⟩
    · exact .inr ⟨⟨he, Int.not_le.1 hlower⟩, hdepth⟩

/-- Closing at a depth and then at a smaller one closes what closing at the smaller one does, if no two open
slices have the same name. -/
theorem close_close {o : Outline} {depth lower : ℤ} (hle : depth ≤ lower)
    (hnames : ∀ e ∈ o.opened, ∀ f ∈ o.opened, e.2.name = f.2.name → e = f) :
    SameUpToOrder ((o.close lower).close depth) (o.close depth) := by
  rw [close_eq (o.close lower), close_eq o, close_eq o]
  refine ⟨rfl, ?_, rfl, rfl, fun name => ?_⟩
  · -- What lies above the smaller depth lies above both.
    rw [List.filter_filter]
    refine List.filter_congr fun e _ => ?_
    rw [← Bool.decide_and]
    exact decide_eq_decide.2 ⟨fun h => h.1, fun h => ⟨h, Int.lt_of_lt_of_le h hle⟩⟩
  · -- The deeper slices are noted first, then the others; together they are all from the smaller depth on.
    rw [← List.foldl_append]
    exact get?_foldl_record_congr (fun e => mem_closed_twice_iff hle)
      (fun e he f hf => hnames e (List.mem_filter.1 he).1 f (List.mem_filter.1 hf).1) name

theorem eq_of_name_eq_of_mem_opened (lines : List Text) :
    ∀ e ∈ (lines.foldl read {}).opened, ∀ f ∈ (lines.foldl read {}).opened, e.2.name = f.2.name → e = f :=
  fun _ he _ hf => (holdsSlices_foldl_read lines).eq_of_name_eq he hf

end Outline

/-! ### Closing markers that close nothing else -/

/-- The first of the lines opens a slice with at most `depth + 1` names, or there is none: every open slice
at this depth and below is closed there. -/
def Layout.ClosesNext (depth : ℕ) (after : List Text) : Prop :=
  after = [] ∨ ∃ line rest path, after = line :: rest ∧ Marker.ofLine? line = some (.opening path) ∧
    path.length ≤ depth + 1

/-- A closing marker where all it closes is closed next leaves the outline alone, but for the order of the
slices. -/
theorem Outline.ofLines_insert_closing (before : List Text) {after : List Text} {line : Text} {depth : ℕ}
    (hline : Marker.ofLine? line = some (.closing depth)) (hafter : ClosesNext depth after) :
    SameUpToOrder (ofLines (before ++ line :: after)) (ofLines (before ++ after)) := by
  have hnames := eq_of_name_eq_of_mem_opened before
  rw [ofLines, ofLines, List.foldl_append, List.foldl_append, List.foldl_cons]
  generalize before.foldl read {} = o at hnames
  have hclose : o.read line = o.close depth := by
    rw [read, LineKind.ofLine_eq_marker_iff.2 hline]
    rfl
  rw [hclose]
  rcases hafter with rfl | ⟨next, rest, path, rfl, hnext, hlength⟩
  · -- The end of the lines closes everything.
    exact close_close (Int.natCast_nonneg depth) hnames
  · rw [List.foldl_cons, List.foldl_cons, read, read, LineKind.ofLine_eq_marker_iff.2 hnext]
    -- The slice that opens closes what lies at its depth, and the marker before it has closed less.
    have hopen : SameUpToOrder ((o.close depth).openSlice path) (o.openSlice path) :=
      SameUpToOrder.openSlice rfl (close_close (by omega) hnames)
    have hmark : SameUpToOrder ((o.close depth).mark (.opening path)) (o.mark (.opening path)) :=
      ⟨rfl, hopen.opened, hopen.code, hopen.count, hopen.slices⟩
    exact (hmark.foldl_read rest).close 0

namespace Snippet

theorem get?_slices_ofOutline {o p : Outline} (h : o.SameUpToOrder p) (explanation : List Text) (name : Text) :
    (ofOutline explanation o).slices.get? name = (ofOutline explanation p).slices.get? name := by
  rw [ofOutline, ofOutline, h.code]
  show Named.get? (o.slices.map _) name = Named.get? (p.slices.map _) name
  rw [Named.get?_map, Named.get?_map, h.slices]

/-- A closing marker may stand before a marker that opens a slice, or at the end, if what it closes is
closed there anyway. The snippet is the same with it and without it: the explanation, the code, and for each
name the span of the slice. -/
theorem extract_insert_closing {source line : Text} {before after : List Text} {depth : ℕ}
    (hsource : lines source = before ++ after) (hafter : ClosesNext depth after)
    (hline : Marker.ofLine? line = some (.closing depth)) (hnewline : '\n' ∉ line) :
    let inserted := extract (Text.ofLines (before ++ line :: after))
    inserted.explanation = (extract source).explanation ∧ inserted.code = (extract source).code ∧
      ∀ name, inserted.slices.get? name = (extract source).slices.get? name := by
  have hclean : ∀ l ∈ before ++ after, '\n' ∉ l := hsource ▸ newline_notMem_lines source
  rw [List.forall_mem_append] at hclean
  have hinserted : ∀ l ∈ before ++ line :: after, '\n' ∉ l :=
    List.forall_mem_append.2 ⟨hclean.1, List.forall_mem_cons.2 ⟨hnewline, hclean.2⟩⟩
  have hmarker : ∀ l ∈ after.head?, ∃ m, Marker.ofLine? l = some m := by
    rcases hafter with rfl | ⟨next, rest, path, rfl, hnext, -⟩
    · simp
    · simpa using ⟨_, hnext⟩
  -- Both texts have the explanation of what comes before the marker.
  rw [extract_ofLines hinserted, extract_eq_ofLines hsource, ofLines_append_cons before after hline,
    ofLines_append before hmarker]
  have hsame := Outline.ofLines_insert_closing (Explanation.split (Margin.dropBlankStart before)).2 hline hafter
  refine ⟨rfl, ?_, get?_slices_ofOutline hsame _⟩
  rw [ofOutline, ofOutline, hsame.code]

/-- A marker that closes the inner one of two slices, before another slice closes both. -/
theorem extract_insert_closing_inner :
    let before := ["// snippet.a".toList, "// snippet.a.b".toList, "x".toList]
    let after := ["// snippet.c".toList, "y".toList]
    let inserted := extract (Text.ofLines (before ++ "// snippet.a.b.end".toList :: after))
    ClosesNext 1 after ∧ Marker.ofLine? "// snippet.a.b.end".toList = some (.closing 1) ∧
      inserted.explanation = (extract (Text.ofLines (before ++ after))).explanation ∧
      inserted.code = (extract (Text.ofLines (before ++ after))).code ∧
      ∀ name, inserted.slices.get? name = (extract (Text.ofLines (before ++ after))).slices.get? name := by
  intro before after inserted
  have hafter : ClosesNext 1 after :=
    .inr ⟨"// snippet.c".toList, ["y".toList], ["c".toList], rfl, by decide, by decide⟩
  have hline : Marker.ofLine? "// snippet.a.b.end".toList = some (.closing 1) := by decide
  exact ⟨hafter, hline, extract_insert_closing rfl hafter hline (by decide)⟩

/-- The slices are the same, but the inner one has been noted first. -/
example : (extract "// snippet.a\n// snippet.a.b\nx\n// snippet.c\ny".toList).slices.names =
      ["a".toList, "a.b".toList, "c".toList] ∧
    (extract "// snippet.a\n// snippet.a.b\nx\n// snippet.a.b.end\n// snippet.c\ny".toList).slices.names =
      ["a.b".toList, "a".toList, "c".toList] := by decide

end Snippet
end CodeSnippets
