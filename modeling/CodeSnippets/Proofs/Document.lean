import CodeSnippets.Proofs.ExplanationEnd
import CodeSnippets.Proofs.Extension
import CodeSnippets.Proofs.MarkerPath
import CodeSnippets.Proofs.SliceSpans
import Mathlib.Data.List.Nodup

/-!
# Written documents

A document is a list of items, each a line of code or a slice with a name and items of its own. It is written
line by line, every slice between the marker that opens it and the marker that closes it. Reading what has
been written gives back the code of the document and the slices that are not empty.

* `Document`: its lines, its code, and the spans of its slices.
* `WellFormed`: the documents that can be written.
* `Outline.foldl_read_lines`: reading the lines of a document after any others, at any depth of nesting.
* `extract_lines`: reading undoes writing.
-/

namespace CodeSnippets

open Text

/-- A list of items, each a line of code or a slice with a name and a list of items of its own. -/
inductive Document where
  | empty
  /-- A line of code, and the items after it. -/
  | line (text : Text) (rest : Document)
  /-- A slice with its items, and the items after it. -/
  | slice (name : Text) (inner rest : Document)
deriving DecidableEq, Repr

namespace Document

/-- The lines of items inside the slice with the path `parent`. -/
def lines (parent : List Text) : Document → List Text
  | empty => []
  | line text rest => text :: rest.lines parent
  | slice name inner rest =>
    Marker.written (parent ++ [name]) :: inner.lines (parent ++ [name]) ++
      Marker.written (parent ++ [name] ++ [Marker.endKeyword]) :: rest.lines parent

/-- The lines of code, those inside slices included. -/
def code : Document → List Text
  | empty => []
  | line text rest => text :: rest.code
  | slice _ inner rest => inner.code ++ rest.code

/-- The paths of the slices, in the order in which they end, each with the number of lines of code before the
slice and the number of those before its end. The items are inside the slice with the path `parent` and come
after `before` lines of code. -/
def spans (parent : List Text) (before : ℕ) : Document → List (List Text × Span)
  | empty => []
  | line _ rest => rest.spans parent (before + 1)
  | slice name inner rest =>
    inner.spans (parent ++ [name]) before ++
      (parent ++ [name], ⟨before, (before + inner.code.length : ℕ)⟩) ::
        rest.spans parent (before + inner.code.length)

/-- The slices that have a line of code. -/
def slices (d : Document) : Named Span :=
  ((d.spans [] 0).filter fun e => e.2.start < e.2.stop).map fun e => (joined ['.'] e.1, e.2)

/-- A line of text that is code and not blank. -/
structure IsCodeLine (text : Text) : Prop where
  solid : isBlank text = false
  newline_notMem : '\n' ∉ text
  kind : LineKind.ofLine text = .code

instance (text : Text) : Decidable (IsCodeLine text) :=
  decidable_of_iff (isBlank text = false ∧ '\n' ∉ text ∧ LineKind.ofLine text = .code)
    ⟨fun ⟨hsolid, hnewline, hkind⟩ => ⟨hsolid, hnewline, hkind⟩,
      fun ⟨hsolid, hnewline, hkind⟩ => ⟨hsolid, hnewline, hkind⟩⟩

/-- Lines of code and names of slices of the items inside the slice with the path `parent` can be written as
they are. -/
structure Writable (d : Document) (parent : List Text) (before : ℕ) : Prop where
  code : ∀ text ∈ d.code, IsCodeLine text
  names : ∀ e ∈ d.spans parent before, ∀ name ∈ e.1, Marker.IsSliceName name

/-- The document can be written, and no two of its slices have the same path. -/
structure WellFormed (d : Document) : Prop extends Writable d [] 0 where
  nodup : ((d.spans [] 0).map Prod.fst).Nodup

namespace Writable

variable {parent : List Text} {before : ℕ} {rest : Document}

theorem line {text : Text} (h : (line text rest).Writable parent before) :
    IsCodeLine text ∧ rest.Writable parent (before + 1) := by
  obtain ⟨htext, hrest⟩ := List.forall_mem_cons.1 h.code
  exact ⟨htext, hrest, h.names⟩

theorem slice {name : Text} {inner : Document} (h : (slice name inner rest).Writable parent before) :
    (∀ n ∈ parent ++ [name], Marker.IsSliceName n) ∧ inner.Writable (parent ++ [name]) before ∧
      rest.Writable parent (before + inner.code.length) := by
  obtain ⟨hinnerCode, hrestCode⟩ := List.forall_mem_append.1 h.code
  obtain ⟨hinnerNames, hrestNames⟩ := List.forall_mem_append.1 h.names
  obtain ⟨hpath, hrestNames⟩ := List.forall_mem_cons.1 hrestNames
  exact ⟨hpath, ⟨hinnerCode, hinnerNames⟩, hrestCode, hrestNames⟩

end Writable

end Document

/-! ### Reading the lines of a document -/

namespace Outline

/-- Reading the lines of a document, at any depth and after any other lines, adds its code and the spans of its
slices to the outline and leaves the slices open that were open. -/
theorem foldl_read_lines {d : Document} {parent : List Text} {before : ℕ} {o : Outline}
    (ho : o.ReadyAt parent.length before) (h : d.Writable parent before) :
    (d.lines parent).foldl read o = o.extend d.code (d.spans parent before) := by
  -- By induction on the items. The outline in which an item is read has the code and the slices before it, so
  -- it is taken at any path and after any number of lines.
  induction d generalizing parent before o with
  | empty => rw [Document.lines, Document.code, Document.spans, extend_nil]; rfl
  | line text rest ih =>
    obtain ⟨htext, hrest⟩ := h.line
    rw [Document.lines, List.foldl_cons, Outline.read_code ho.visible htext.kind fun _ => htext.solid,
      ih (ho.extend [text] []) hrest, extend_extend]
    rfl
  | slice name inner rest ihInner ihRest =>
    obtain ⟨hpath, hinner, hrest⟩ := h.slice
    have hne : parent ++ [name] ≠ [] := by simp
    have hopening := Marker.ofLine?_written_opening hne hpath
    have hclosing := Marker.ofLine?_written_closing hne hpath
    rw [List.length_append, List.length_singleton, Nat.add_sub_cancel] at hclosing
    have hinside : (o.enter parent.length (parent ++ [name])).ReadyAt (parent ++ [name]).length before := by
      rw [List.length_append, List.length_singleton]
      exact ho.enter (parent ++ [name])
    -- The slice opens, its items are read one level deeper, and it closes before the items after it are read.
    rw [Document.lines, List.foldl_append, List.foldl_cons, List.foldl_cons, ho.read_opening rfl hopening,
      ihInner hinside hinner, ho.read_closing hclosing, ihRest (ho.extend _ _) hrest, extend_extend,
      List.append_assoc]
    rfl

/-- Of slices with different names those are noted that are not empty, one after the other. -/
theorem foldl_note {spans : List (List Text × Span)} {slices : Named Span}
    (hnodup : (spans.map fun e => joined ['.'] e.1).Nodup)
    (hnew : ∀ e ∈ spans, joined ['.'] e.1 ∉ slices.names) :
    spans.foldl note slices =
      slices ++ (spans.filter fun e => e.2.start < e.2.stop).map fun e => (joined ['.'] e.1, e.2) := by
  induction spans generalizing slices with
  | nil => simp
  | cons e spans ih =>
    obtain ⟨hother, hrest⟩ := List.nodup_cons.1 hnodup
    obtain ⟨he, hspans⟩ := List.forall_mem_cons.1 hnew
    by_cases hempty : e.2.stop ≤ e.2.start
    · -- A slice without code is forgotten.
      have hnote : note slices e = slices := if_pos hempty
      rw [List.foldl_cons, hnote, ih hrest hspans, List.filter_cons_of_neg (by simpa using hempty)]
    · -- The name of any other slice is new, so it is noted last and does not take the place of another one.
      have hnote : note slices e = slices ++ [(joined ['.'] e.1, e.2)] :=
        (if_neg hempty).trans (Named.put_of_notMem he _)
      have hlater : ∀ f ∈ spans, joined ['.'] f.1 ∉ (slices ++ [(joined ['.'] e.1, e.2)] : Named Span).names := by
        intro f hf hmem
        rw [Named.names, List.map_append, List.mem_append] at hmem
        rcases hmem with hmem | hmem
        · exact hspans f hf hmem
        · exact hother (List.mem_map.2 ⟨f, hf, List.mem_singleton.1 hmem⟩)
      rw [List.foldl_cons, hnote, ih hrest hlater, List.filter_cons_of_pos (by simpa using hempty), List.map_cons,
        List.append_assoc, List.singleton_append]

end Outline

namespace Document

section Spans

variable {d : Document} {parent : List Text} {before : ℕ}

theorem path_ne_nil {e : List Text × Span} (he : e ∈ d.spans parent before) : e.1 ≠ [] := by
  induction d generalizing parent before with
  | empty => cases he
  | line text rest ih => exact ih he
  | slice name inner rest ihInner ihRest =>
    rcases List.mem_append.1 he with he | he
    · exact ihInner he
    · rcases List.mem_cons.1 he with rfl | he
      · simp
      · exact ihRest he

/-- A slice ends at a line of code of the document or after the last one. -/
theorem exists_of_mem_spans {e : List Text × Span} (he : e ∈ d.spans parent before) :
    ∃ a b : ℕ, e.2 = ⟨a, b⟩ ∧ b ≤ before + d.code.length := by
  induction d generalizing parent before with
  | empty => cases he
  | line text rest ih =>
    obtain ⟨a, b, heq, hb⟩ := ih he
    exact ⟨a, b, heq, by rw [code, List.length_cons]; omega⟩
  | slice name inner rest ihInner ihRest =>
    rw [code, List.length_append]
    -- The slice is one of the inner ones, the slice itself, or one of those after it.
    rcases List.mem_append.1 he with he | he
    · obtain ⟨a, b, heq, hb⟩ := ihInner he
      exact ⟨a, b, heq, by omega⟩
    · rcases List.mem_cons.1 he with rfl | he
      · exact ⟨before, before + inner.code.length, rfl, by omega⟩
      · obtain ⟨a, b, heq, hb⟩ := ihRest he
        exact ⟨a, b, heq, by omega⟩

theorem exists_of_mem_slices {e : Text × Span} (he : e ∈ d.slices) :
    ∃ a b : ℕ, e.2 = ⟨a, b⟩ ∧ a < b ∧ b ≤ d.code.length := by
  obtain ⟨f, hf, rfl⟩ := List.mem_map.1 he
  obtain ⟨hf, hlt⟩ := List.mem_filter.1 hf
  obtain ⟨a, b, heq, hb⟩ := exists_of_mem_spans hf
  rw [decide_eq_true_eq, heq] at hlt
  exact ⟨a, b, heq, Int.ofNat_lt.1 hlt, by omega⟩

theorem newline_notMem_lines (h : d.Writable parent before) : ∀ l ∈ d.lines parent, '\n' ∉ l := by
  induction d generalizing parent before with
  | empty => simp [lines]
  | line text rest ih =>
    obtain ⟨htext, hrest⟩ := h.line
    exact List.forall_mem_cons.2 ⟨htext.newline_notMem, ih hrest⟩
  | slice name inner rest ihInner ihRest =>
    obtain ⟨hpath, hinner, hrest⟩ := h.slice
    have hsolid : ∀ n ∈ parent ++ [name], n.any isBlankChar = false := fun n hn => (hpath n hn).solid
    have hclosing : ∀ n ∈ parent ++ [name] ++ [Marker.endKeyword], n.any isBlankChar = false :=
      List.forall_mem_append.2 ⟨hsolid, by decide⟩
    refine List.forall_mem_append.2 ⟨?_, ?_⟩
    · exact List.forall_mem_cons.2 ⟨Marker.newline_notMem_written hsolid, ihInner hinner⟩
    · exact List.forall_mem_cons.2 ⟨Marker.newline_notMem_written hclosing, ihRest hrest⟩

end Spans

namespace WellFormed

variable {d : Document}

theorem nodup_names (h : d.WellFormed) : ((d.spans [] 0).map fun e => joined ['.'] e.1).Nodup := by
  have hpath : ∀ e ∈ d.spans [] 0, Marker.IsPath e.1 :=
    fun e he => Marker.isPath_of_isSliceName (path_ne_nil he) (h.names e he)
  have hmap : (d.spans [] 0).map (fun e => joined ['.'] e.1) = ((d.spans [] 0).map Prod.fst).map (joined ['.']) := by
    rw [List.map_map]
    rfl
  rw [hmap]
  refine h.nodup.map_on fun p hp q hq heq => ?_
  obtain ⟨e, he, rfl⟩ := List.mem_map.1 hp
  obtain ⟨f, hf, rfl⟩ := List.mem_map.1 hq
  exact (hpath e he).joined_inj (hpath f hf) heq

theorem outline_ofLines (h : d.WellFormed) : Outline.ofLines (d.lines []) =
    { code := d.code, count := d.code.length, slices := d.slices } := by
  have hstart : ({} : Outline).ReadyAt ([] : List Text).length 0 := ⟨rfl, rfl, fun e he => by cases he⟩
  have hslices : (d.spans [] 0).foldl Outline.note [] = d.slices :=
    Outline.foldl_note h.nodup_names fun e _ he => by cases he
  rw [Outline.ofLines, Outline.foldl_read_lines hstart h.toWritable,
    Outline.close_of_forall_lt fun e he => by cases he]
  simp [Outline.extend, hslices]

end WellFormed

end Document

namespace Snippet

open Margin CodeSnippets.Span

/-- A span among solid lines is moved nowhere. -/
theorem finalSpan_of_solid {code : List Text} (hsolid : ∀ l ∈ code, isBlank l = false) {a b : ℕ} (hab : a < b)
    (hb : b ≤ code.length) : finalSpan code (dropBlankEnd (dedent code)).length ⟨a, b⟩ = ⟨a, b⟩ := by
  have hat : ∀ i < code.length, SolidAt code i :=
    fun i hi => ⟨code[i], List.getElem?_eq_getElem hi, hsolid _ (List.getElem_mem hi)⟩
  have hshrinks : Shrinks code a b a b :=
    ⟨Nat.le_refl a, hab.le, Nat.le_refl b, fun i hai hib _ => ⟨hai, hib⟩, fun _ => hat a (by omega),
      fun _ => hat (b - 1) (by omega)⟩
  exact (shrinksTo_finalSpan hab.le hb).unique (.solid hab hshrinks)

end Snippet

namespace Document

/-- The first line of a document is solid, and it belongs to a comment block only if it is a line of code that
is a comment. -/
theorem head?_lines {d : Document} (h : d.WellFormed)
    (hfirst : ∀ text rest, d = line text rest → startsWith (trimStart text) commentStart = false) :
    ∀ l ∈ (d.lines []).head?, isBlank l = false ∧ Explanation.lineText? l = none := by
  cases d with
  | empty => simp [lines]
  | line text rest =>
    have hcomment : commentText? text = none := by simpa [startsWith, commentText?] using hfirst text rest rfl
    simpa [lines] using ⟨(h.code text List.mem_cons_self).solid, Explanation.lineText?_of_not_comment hcomment⟩
  | slice name inner rest =>
    -- The first line is the marker that opens the slice, and no marker belongs to a comment block.
    have hpath : ∀ n ∈ [name], Marker.IsSliceName n := by
      refine h.names ([name], ⟨(0 : ℕ), (0 + inner.code.length : ℕ)⟩) ?_
      exact List.mem_append_right _ List.mem_cons_self
    have hmarker := Marker.ofLine?_written_opening (List.cons_ne_nil name []) hpath
    simpa [lines] using ⟨Marker.isBlank_of_ofLine? hmarker, Explanation.lineText?_of_marker hmarker⟩

/-- Reading undoes writing. The snippet of a written document that does not start with a comment has no
explanation; its code is that of the document without the margin, and its slices are those of the document
that have a line of code, from the number of lines of code before the slice up to the number before its
end. -/
theorem extract_lines {d : Document} (h : d.WellFormed)
    (hfirst : ∀ text rest, d = line text rest → startsWith (trimStart text) commentStart = false) :
    let snippet := Snippet.extract (Text.ofLines (d.lines []))
    snippet.explanation = [] ∧ snippet.code = Margin.dedent d.code ∧ snippet.slices = d.slices := by
  intro snippet
  have hsolid : ∀ l ∈ d.code, isBlank l = false := fun l hl => (h.code l hl).solid
  have hcode : Margin.dropBlankEnd (Margin.dedent d.code) = Margin.dedent d.code :=
    Margin.dropBlankEnd_eq_self fun l hl => Margin.forall_solid_dedent hsolid l (List.mem_of_mem_getLast? hl)
  -- Without blank lines nothing is trimmed at the ends of the code or of a slice.
  have hspans : d.slices.map (fun e =>
      (e.1, Snippet.finalSpan d.code (Margin.dropBlankEnd (Margin.dedent d.code)).length e.2)) = d.slices := by
    have hkeep : ∀ e ∈ d.slices,
        (e.1, Snippet.finalSpan d.code (Margin.dropBlankEnd (Margin.dedent d.code)).length e.2) = e := by
      intro e he
      obtain ⟨a, b, heq, hab, hb⟩ := exists_of_mem_slices he
      rw [heq, Snippet.finalSpan_of_solid hsolid hab hb, ← heq]
    exact (List.map_congr_left hkeep).trans (List.map_id _)
  have hsnippet : snippet = ⟨[], Margin.dedent d.code, d.slices⟩ := by
    show Snippet.extract _ = _
    rw [Snippet.extract_ofLines (newline_notMem_lines h.toWritable), Snippet.ofLines_of_head (head?_lines h hfirst),
      h.outline_ofLines, Snippet.ofOutline, hspans, hcode]
  rw [hsnippet]
  exact ⟨rfl, rfl, rfl⟩

/-- A document with a slice inside another one, a slice without code, and a line after both. -/
def sample : Document :=
  slice "Outer".toList
    (line "    let a = 1".toList
      (slice "inner".toList (line "      a + 1 // two".toList empty) (slice "empty".toList empty empty)))
    (line "    done()".toList empty)

theorem extract_lines_sample : sample.WellFormed ∧
    (∀ text rest, sample = line text rest → startsWith (trimStart text) commentStart = false) ∧
      (Snippet.extract (Text.ofLines (sample.lines []))).explanation = [] ∧
      (Snippet.extract (Text.ofLines (sample.lines []))).code =
        ["let a = 1".toList, "  a + 1 // two".toList, "done()".toList] ∧
      (Snippet.extract (Text.ofLines (sample.lines []))).slices =
        [("Outer.inner".toList, ⟨1, 2⟩), ("Outer".toList, ⟨0, 2⟩)] := by
  have h : sample.WellFormed := ⟨⟨by decide, by decide⟩, by decide⟩
  have hfirst : ∀ text rest, sample = line text rest → startsWith (trimStart text) commentStart = false :=
    fun _ _ heq => by cases heq
  obtain ⟨hexplanation, hcode, hslices⟩ := extract_lines h hfirst
  exact ⟨h, hfirst, hexplanation, hcode.trans (by decide), hslices.trans (by decide)⟩

end Document
end CodeSnippets
