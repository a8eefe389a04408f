import CodeSnippets.Snippet.Span
import CodeSnippets.Snippet.Marker

/-!
# Outlines

The outline of a source text while its lines are read one by one: the code kept so far, the slices that
are open, by depth, and the spans of those that have been closed.

* `Outline.close`: closes the slices at a depth and below.
* `Outline.openSlice`: opens a slice; those at its depth and below are closed first.
* `Outline.append`: keeps a line of code.
* `Outline.read`: what a line of a source text does to the outline.
-/

namespace CodeSnippets

open Text

/-- A slice that has been opened and not yet closed. -/
structure OpenSlice where
  name : Text
  start : Int
deriving DecidableEq, Repr

/-- The outline of the lines read so far. -/
structure Outline where
  /-- Code is kept. -/
  visible : Bool := true
  /-- The open slices with their depths, the least deep first. -/
  opened : List (Int × OpenSlice) := []
  /-- The code kept so far. -/
  code : List Text := []
  /-- The closed slices with their spans. -/
  slices : Named Span := []
  /-- Number of lines of code kept so far. -/
  count : Int := 0
deriving DecidableEq, Repr

namespace Outline

/-- Open slices with one more, in the place of one at the same depth. -/
def insertOpened (depth : Int) (slice : OpenSlice) : List (Int × OpenSlice) → List (Int × OpenSlice)
  | [] => [(depth, slice)]
  | (d, s) :: rest =>
    if depth < d then (depth, slice) :: (d, s) :: rest
    else if depth = d then (depth, slice) :: rest
    else (d, s) :: insertOpened depth slice rest

/-- Notes the span of a slice that closes after `count` lines; one that no line followed is forgotten. -/
def record (count : Int) (slices : Named Span) (slice : OpenSlice) : Named Span :=
  if slice.start ≥ count then slices else slices.put slice.name ⟨slice.start, count⟩

/-- Closes every open slice at a depth and below, the least deep first. -/
def close (o : Outline) (depth : Int) : Outline :=
  { o with
    opened := o.opened.filter fun (d, _) => d < depth
    slices := (o.opened.filter fun (d, _) => depth ≤ d).foldl (fun t (_, s) => record o.count t s) o.slices }

/-- Opens a slice at the depth of its path, below all slices that are less deep. -/
def openSlice (o : Outline) (path : List Text) : Outline :=
  -- A path of one name has depth zero, and the empty path lies above it.
  let depth : Int := (path.length : Int) - 1
  let closed := o.close depth
  { closed with opened := insertOpened depth ⟨joined ['.'] path, o.count⟩ closed.opened }

/-- Keeps a line of code, unless code is left out or the line is blank and no code came before it. -/
def append (o : Outline) (line : Text) : Outline :=
  if !o.visible || (o.code.isEmpty && isBlank line) then o
  else { o with code := o.code ++ [line], count := o.count + 1 }

/-- What a marker does to the outline. Opening a slice also makes code visible. -/
def mark (o : Outline) : Marker → Outline
  | .visibility shown => { o with visible := shown }
  | .opening path => { o.openSlice path with visible := true }
  | .closing depth => o.close depth

/-- What a line of a source text does to the outline. -/
def read (o : Outline) (line : Text) : Outline :=
  match LineKind.ofLine line with
  | .marker m => o.mark m
  | .code => o.append line
  | .skipped => o

/-- The outline of lines, every slice closed at their end. -/
def ofLines (lines : List Text) : Outline := (lines.foldl read {}).close 0

/-- Closing in terms of the entries of the open slices. -/
theorem close_eq (o : Outline) (depth : Int) : o.close depth =
    { o with
      opened := o.opened.filter fun e => e.1 < depth
      slices := (o.opened.filter fun e => depth ≤ e.1).foldl (fun t e => record o.count t e.2) o.slices } := rfl

@[simp] theorem close_visible (o : Outline) (depth : Int) : (o.close depth).visible = o.visible := rfl

@[simp] theorem close_code (o : Outline) (depth : Int) : (o.close depth).code = o.code := rfl

@[simp] theorem close_count (o : Outline) (depth : Int) : (o.close depth).count = o.count := rfl

@[simp] theorem openSlice_code (o : Outline) (path : List Text) : (o.openSlice path).code = o.code := rfl

@[simp] theorem openSlice_count (o : Outline) (path : List Text) : (o.openSlice path).count = o.count := rfl

@[simp] theorem append_opened (o : Outline) (line : Text) : (o.append line).opened = o.opened := by
  rw [append]
  split <;> rfl

@[simp] theorem append_slices (o : Outline) (line : Text) : (o.append line).slices = o.slices := by
  rw [append]
  split <;> rfl

/-- What holds at the start and is kept by every line holds after all lines. -/
theorem foldl_read_induction (lines : List Text) {P : Nat → Outline → Prop} (start : P 0 {})
    (step : ∀ n (h : n < lines.length) o, P n o → P (n + 1) (o.read lines[n])) :
    P lines.length (lines.foldl read {}) := by
  have hrun : ∀ n, n ≤ lines.length → P n ((lines.take n).foldl read {}) := by
    intro n
    induction n with
    | zero => exact fun _ => start
    | succ n ih =>
      intro hn
      rw [List.take_succ_eq_append_getElem hn, List.foldl_append]
      exact step n hn _ (ih (Nat.le_of_lt hn))
  have h := hrun lines.length (Nat.le_refl _)
  rwa [List.take_length] at h

end Outline
end CodeSnippets
