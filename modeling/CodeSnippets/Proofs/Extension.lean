import CodeSnippets.Snippet.Outline
import Mathlib.Data.Int.Notation
import Mathlib.Data.List.Basic

/-!
# Outlines with more code and more slices

What lines add to an outline while code is kept. A slice that opens below all others, and closes before
anything above it does, leaves behind its lines of code and its span, and nothing else.

* `extend`: the outline with more lines of code, among which slices have closed.
* `ReadyAt`: the outlines below which a slice can be opened at a depth.
* `read_code`, `ReadyAt.read_opening`, `ReadyAt.read_closing`: what the lines do to such an outline.
* `foldl_read_code`: lines of code are kept as they are.
-/

namespace CodeSnippets.Outline

open Text

/-- The span of a slice with a path is noted as when the slice closes. -/
def note (slices : Named Span) (e : List Text × Span) : Named Span :=
  record e.2.stop slices ⟨joined ['.'] e.1, e.2.start⟩

/-- The outline with more lines of code, among which slices have closed. -/
def extend (o : Outline) (code : List Text) (spans : List (List Text × Span)) : Outline :=
  { o with code := o.code ++ code, count := o.count + code.length, slices := spans.foldl note o.slices }

/-- The outline keeps code, has kept `before` lines of it, and has open slices above `depth` alone. -/
structure ReadyAt (depth before : ℕ) (o : Outline) : Prop where
  visible : o.visible = true
  count : o.count = before
  opened : ∀ e ∈ o.opened, e.1 < (depth : ℤ)

section Extend

variable {o : Outline} {depth before : ℕ}

@[simp]
theorem extend_nil (o : Outline) : o.extend [] [] = o := by simp [extend]

theorem extend_extend (o : Outline) (code code' : List Text) (spans spans' : List (List Text × Span)) :
    (o.extend code spans).extend code' spans' = o.extend (code ++ code') (spans ++ spans') := by
  simp [extend, Int.add_assoc]

theorem ReadyAt.extend (h : o.ReadyAt depth before) (code : List Text) (spans : List (List Text × Span)) :
    (o.extend code spans).ReadyAt depth (before + code.length) :=
  ⟨h.visible, by simp [Outline.extend, h.count], h.opened⟩

/-- A line of code is kept, unless it is the first one and blank. -/
theorem read_code (hvisible : o.visible = true) {text : Text} (hkind : LineKind.ofLine text = .code)
    (hfirst : o.code = [] → isBlank text = false) : o.read text = o.extend [text] [] := by
  -- A line is left out where code is hidden, or before all code if it is blank; neither is the case.
  have hkept : (!o.visible || (o.code.isEmpty && isBlank text)) = false := by
    cases hcode : o.code with
    | nil => simp [hvisible, hfirst hcode]
    | cons => simp [hvisible]
  rw [read, hkind]
  show o.append text = _
  rw [append, hkept]
  simp [Outline.extend]

theorem foldl_read_code {ls : List Text} (hvisible : o.visible = true) (hkind : ∀ l ∈ ls, LineKind.ofLine l = .code)
    (hfirst : o.code = [] → ∀ l ∈ ls.head?, isBlank l = false) : ls.foldl read o = o.extend ls [] := by
  induction ls generalizing o with
  | nil => rw [extend_nil]; rfl
  | cons l ls ih =>
    obtain ⟨hl, hls⟩ := List.forall_mem_cons.1 hkind
    have hvisible' : (o.extend [l] []).visible = true := hvisible
    -- The lines that follow come after code, so that none of them is the first.
    have hne : (o.extend [l] []).code ≠ [] := by simp [Outline.extend]
    rw [List.foldl_cons, read_code hvisible hl fun hcode => hfirst hcode l rfl,
      ih hvisible' hls fun hcode => absurd hcode hne, extend_extend]
    rfl

/-- Nothing is closed from a depth on above which all open slices lie. -/
theorem close_of_forall_lt {depth : ℤ} (h : ∀ e ∈ o.opened, e.1 < depth) : o.close depth = o := by
  have hstay : o.opened.filter (fun e => e.1 < depth) = o.opened := by simpa using h
  have hnone : o.opened.filter (fun e => depth ≤ e.1) = [] := by simpa using h
  rw [close_eq, hstay, hnone]
  rfl

theorem insertOpened_of_forall_lt {depth : ℤ} {opened : List (ℤ × OpenSlice)} (h : ∀ e ∈ opened, e.1 < depth)
    (slice : OpenSlice) : insertOpened depth slice opened = opened ++ [(depth, slice)] := by
  induction opened with
  | nil => rfl
  | cons e opened ih =>
    obtain ⟨d, s⟩ := e
    obtain ⟨hd, hrest⟩ := List.forall_mem_cons.1 h
    rw [insertOpened, if_neg (Int.not_lt.2 (Int.le_of_lt hd)), if_neg (Int.ne_of_gt hd), ih hrest, List.cons_append]

/-- The outline with one more slice open, below all others. -/
def enter (o : Outline) (depth : ℕ) (path : List Text) : Outline :=
  { o with opened := o.opened ++ [((depth : ℤ), ⟨joined ['.'] path, o.count⟩)] }

/-- The marker before the items of a slice opens it below all others. -/
theorem ReadyAt.read_opening (h : o.ReadyAt depth before) {parent : List Text} {name : Text} {line : Text}
    (hdepth : parent.length = depth) (hline : Marker.ofLine? line = some (.opening (parent ++ [name]))) :
    o.read line = o.enter depth (parent ++ [name]) := by
  have hlast : ((parent ++ [name]).length : ℤ) - 1 = depth := by
    rw [List.length_append, hdepth]
    simp
  rw [read, LineKind.ofLine_eq_marker_iff.2 hline]
  -- A slice that opens closes those at its depth and below first. There are none.
  show { o.openSlice (parent ++ [name]) with visible := true } = _
  rw [openSlice, hlast, close_of_forall_lt h.opened, insertOpened_of_forall_lt h.opened, enter, ← h.visible]

theorem ReadyAt.enter (h : o.ReadyAt depth before) (path : List Text) :
    (o.enter depth path).ReadyAt (depth + 1) before := by
  refine ⟨h.visible, h.count, fun e he => ?_⟩
  rcases List.mem_append.1 he with he | he
  · have := h.opened e he
    omega
  · rw [List.mem_singleton.1 he]
    show (depth : ℤ) < _
    omega

/-- A slice below all others is closed alone. -/
theorem close_concat {depth : ℤ} {opened : List (ℤ × OpenSlice)} {slice : OpenSlice}
    (ho : o.opened = opened ++ [(depth, slice)]) (h : ∀ e ∈ opened, e.1 < depth) :
    o.close depth = { o with opened, slices := record o.count o.slices slice } := by
  have hstay : o.opened.filter (fun e => e.1 < depth) = opened := by
    rw [ho, List.filter_append, List.filter_eq_self.2 (by simpa using h)]
    simp
  have hclose : o.opened.filter (fun e => depth ≤ e.1) = [(depth, slice)] := by
    rw [ho, List.filter_append, List.filter_eq_nil_iff.2 (by simpa using h)]
    simp
  rw [close_eq, hstay, hclose]
  rfl

/-- The marker after the items of a slice closes this slice alone. -/
theorem ReadyAt.read_closing (h : o.ReadyAt depth before) {path : List Text} {line : Text}
    (hline : Marker.ofLine? line = some (.closing depth)) (code : List Text) (spans : List (List Text × Span)) :
    ((o.enter depth path).extend code spans).read line =
      o.extend code (spans ++ [(path, ⟨before, (before + code.length : ℕ)⟩)]) := by
  rw [read, LineKind.ofLine_eq_marker_iff.2 hline]
  show close _ (depth : ℤ) = _
  rw [close_concat rfl h.opened]
  simp [Outline.extend, Outline.enter, note, h.count]

end Extend

end CodeSnippets.Outline
