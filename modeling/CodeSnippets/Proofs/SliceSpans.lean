import CodeSnippets.Proofs.OutlineSlices
import CodeSnippets.Proofs.Trimming
import Mathlib.Order.Bounds.Defs

/-!
# The slices of a snippet

The slices of a snippet are those of its outline, with spans that have lost the blank lines at their ends
and have been moved into the lines of code that are left in the end.

* `ShrinksTo`: the span of a slice in the end, said without the loops.
* `shrinksTo_finalSpan`, `ShrinksTo.cut_eq`: this is the span that is found, and its lines.
* `get?_slices_extract`: the slices of a snippet by the positions of its markers.
* `slices_extract`: the same with what the spans are.
* `slices_within_code`: every slice lies in the code, and begins and ends with a solid line.
-/

namespace CodeSnippets.Snippet

open Text Margin Body Layout CodeSnippets.Span

/-! ### Spans in the end -/

/-- What is left in the end of a span that covers the lines of code from `a` up to `b`, when the final
code has `count` lines. -/
inductive ShrinksTo (code : List Text) (count a b : ℕ) : Span → Prop
  /-- The blank lines at both ends are left out. -/
  | solid {lo hi : ℕ} (hlt : lo < hi) (h : Shrinks code a b lo hi) : ShrinksTo code count a b ⟨lo, hi⟩
  /-- Of blank lines an empty span is left, where they end or where the final code ends. -/
  | blank (h : ∀ i, a ≤ i → i < b → ¬ SolidAt code i) :
    ShrinksTo code count a b ⟨(min b count : ℕ), (min b count : ℕ)⟩

theorem ShrinksTo.unique {code : List Text} {count a b : ℕ} {s t : Span} (hs : ShrinksTo code count a b s)
    (ht : ShrinksTo code count a b t) : s = t := by
  cases hs with
  | solid hlt h =>
    cases ht with
    | solid hlt' h' =>
      obtain ⟨rfl, rfl⟩ := h.unique h' hlt hlt'
      rfl
    | blank hblank => exact absurd (h.eq_iff.2 hblank) hlt.ne
  | blank hblank =>
    cases ht with
    | solid hlt h => exact absurd (h.eq_iff.2 hblank) hlt.ne
    | blank => rfl

section FinalSpan

variable {code : List Text} {a b : ℕ}

/-- Trimming the span of a slice looks at lines of the code alone, and moving the trimmed span into the
final code leaves it alone unless it is empty. -/
theorem exists_trimmed (hab : a ≤ b) (hb : b ≤ code.length) :
    ∃ lo hi : ℕ, Shrinks code a b lo hi ∧ trimmed code ⟨a, b⟩ = .ok ⟨lo, hi⟩ ∧
      trimmedBy (lineInside code) ⟨a, b⟩ = .ok ⟨lo, hi⟩ ∧
      (lo < hi → hi ≤ (dropBlankEnd (dedent code)).length) ∧ (lo = hi → hi = b) := by
  obtain ⟨lo, hi, hrun, hshrinks, hempty⟩ := exists_trimmedBy hab hb
  refine ⟨lo, hi, hshrinks, hrun _ (finds_lineAt code a b), hrun _ (finds_lineInside code a b), ?_, hempty⟩
  intro hlt
  -- The last line that is left is solid, and solid lines stay in the final code.
  have hlast := (solidAt_dedent.2 (hshrinks.last hlt)).lt_length_dropBlankEnd
  omega

theorem clamped_of_le {count : ℕ} {lo hi : ℕ} (h : hi ≤ count) : clamped count ⟨lo, hi⟩ = ⟨lo, hi⟩ := by
  rw [clamped, if_pos (Int.ofNat_le.2 h)]

theorem clamped_self (count p : ℕ) : clamped count ⟨p, p⟩ = ⟨(min p count : ℕ), (min p count : ℕ)⟩ := by
  have hmin : min (p : ℤ) (count : ℤ) = ((min p count : ℕ) : ℤ) := by omega
  rw [clamped]
  split
  · rename_i h
    rw [Nat.min_eq_left (Int.ofNat_le.1 h)]
  · show (⟨min (p : ℤ) (count : ℤ), min (p : ℤ) (count : ℤ)⟩ : Span) = _
    rw [hmin]

theorem shrinksTo_finalSpan (hab : a ≤ b) (hb : b ≤ code.length) :
    ShrinksTo code (dropBlankEnd (dedent code)).length a b
      (finalSpan code (dropBlankEnd (dedent code)).length ⟨a, b⟩) := by
  obtain ⟨lo, hi, hshrinks, htrimmed, -, hcount, hempty⟩ := exists_trimmed hab hb
  rw [finalSpan, htrimmed]
  show ShrinksTo _ _ _ _ (clamped _ ⟨lo, hi⟩)
  rcases hshrinks.lo_le_hi.lt_or_eq with hlt | heq
  · rw [clamped_of_le (hcount hlt)]
    exact .solid hlt hshrinks
  · rw [heq, clamped_self, hempty heq]
    exact .blank (hshrinks.eq_iff.1 heq)

/-- The lines of a span in the end are those that it covers, without their margin and without the blank
ones at both ends. -/
theorem ShrinksTo.cut_eq {s : Span} (h : ShrinksTo code (dropBlankEnd (dedent code)).length a b s)
    (hb : b ≤ code.length) :
    s.cut (dropBlankEnd (dedent code)) = dropBlankEnds (((dedent code).take b).drop a) := by
  cases h with
  | @solid lo hi hlt h =>
    -- The margin does not move solid lines, so the same positions are left of the lines without it.
    have hhi := (solidAt_dedent.2 (h.last hlt)).lt_length_dropBlankEnd
    have hshrinks : Shrinks (dedent code) a b lo hi := h.congr fun i _ => solidAt_dedent
    rw [hshrinks.dropBlankEnds_eq (by rwa [length_dedent]), cut_natCast (by omega), dropBlankEnd_eq_take,
      List.take_take, Nat.min_eq_left (by omega)]
  | blank hblank =>
    have hlines : ∀ l ∈ ((dedent code).take b).drop a, isBlank l = true :=
      forall_isBlank_drop_take.2 fun i hai hib hs => hblank i hai hib (solidAt_dedent.1 hs)
    rw [dropBlankEnds_of_blank hlines, cut_natCast (Nat.min_le_right _ _)]
    exact List.drop_eq_nil_of_le (List.length_take_le _ _)

end FinalSpan

/-! ### Slices by the positions of markers -/

section Slices

variable {source : Text} {name : Text} {span : Span}

theorem slices_extract_eq (source : Text) :
    (extract source).slices = (Outline.ofLines (linesAfterExplanation source)).slices.map fun e =>
      (e.1, finalSpan (body (linesAfterExplanation source)) (extract source).code.length e.2) := by
  rw [← Outline.code_ofLines]
  rfl

/-- The slices of a snippet are those that some marker opens so that they are not empty, each with what is
left of the lines of the body that the last such marker covers. -/
theorem get?_slices_extract : (extract source).slices.get? name = some span ↔
    ∃ j path, FillsLast (linesAfterExplanation source) name j path ∧
      ShrinksTo (body (linesAfterExplanation source)) (extract source).code.length
        (countBefore (linesAfterExplanation source) j)
        (closeCount (linesAfterExplanation source) j path) span := by
  rw [slices_extract_eq, Named.get?_map, Option.map_eq_some_iff, code_extract_eq_body]
  constructor
  · rintro ⟨raw, hraw, rfl⟩
    obtain ⟨j, path, hlast, rfl⟩ := Outline.get?_slices_ofLines.1 hraw
    exact ⟨j, path, hlast, shrinksTo_finalSpan hlast.filled.le (countBefore_le _ _)⟩
  · rintro ⟨j, path, hlast, hspan⟩
    refine ⟨_, Outline.get?_slices_ofLines.2 ⟨j, path, hlast, rfl⟩, ?_⟩
    -- Both spans are left of the same lines, and only one span can be.
    exact (shrinksTo_finalSpan hlast.filled.le (countBefore_le _ _)).unique hspan

theorem nodup_names_extract (source : Text) : (extract source).slices.names.Nodup := by
  rw [slices_extract_eq, Named.names_map]
  exact Outline.nodup_names_ofLines _

theorem mem_names_extract :
    name ∈ (extract source).slices.names ↔ ∃ j path, Fills (linesAfterExplanation source) name j path := by
  rw [slices_extract_eq, Named.names_map, Named.mem_names_iff]
  simp only [Outline.get?_slices_ofLines]
  constructor
  · rintro ⟨_, j, path, hlast, -⟩
    exact ⟨j, path, hlast.toFills⟩
  · rintro ⟨j, path, hfills⟩
    obtain ⟨i, other, hlast⟩ := exists_fillsLast hfills
    exact ⟨_, i, other, hlast, rfl⟩

end Slices

/-- The slices of a snippet, without a working state. A marker at position `j` of the lines after the
explanation opens a slice, which covers the lines of the body from position `j` up to where it closes. The
names of the slices are those that some marker opens so that a line of the body is covered, each once, and
the span of a slice is what is left, without the blank lines at both ends, of what the last such marker
covers. -/
theorem slices_extract (source : Text) :
    let rest := linesAfterExplanation source
    let snippet := extract source
    snippet.slices.names.Nodup ∧
      (∀ name, name ∈ snippet.slices.names ↔ ∃ j path, OpensAt rest j path ∧ joined ['.'] path = name ∧
        countBefore rest j < closeCount rest j path) ∧
      ∀ name span, snippet.slices.get? name = some span ↔ ∃ j path,
        IsGreatest {i | ∃ other, Fills rest name i other} j ∧ OpensAt rest j path ∧
          ShrinksTo (body rest) snippet.code.length (countBefore rest j) (closeCount rest j path) span := by
  intro rest snippet
  refine ⟨nodup_names_extract source, fun name => ?_, fun name span => ?_⟩
  · rw [mem_names_extract]
    refine exists_congr fun j => exists_congr fun path => ?_
    exact ⟨fun h => ⟨h.opens, h.name_eq, h.filled⟩, fun h => ⟨h.1, h.2.1, h.2.2⟩⟩
  · rw [get?_slices_extract]
    refine exists_congr fun j => exists_congr fun path => ?_
    rw [← and_assoc]
    refine and_congr_left fun _ => ?_
    constructor
    · exact fun h => ⟨⟨⟨path, h.toFills⟩, fun i ⟨other, hi⟩ => h.last i other hi⟩, h.opens⟩
    · -- One marker stands at `j`, so it is the one that fills the slice.
      rintro ⟨⟨⟨other, hfills⟩, hlast⟩, hopens⟩
      obtain rfl := hfills.opens.unique hopens
      exact ⟨hfills, fun i p hi => hlast ⟨p, hi⟩⟩

/-! ### Slices inside the code -/

/-- What is left of a span lies in the final code, and begins and ends with a solid line. -/
theorem ShrinksTo.bounds {code : List Text} {a b : ℕ} {s : Span}
    (h : ShrinksTo code (dropBlankEnd (dedent code)).length a b s) :
    0 ≤ s.start ∧ s.start ≤ s.stop ∧ s.stop ≤ (dropBlankEnd (dedent code)).length ∧
      (s.start < s.stop → SolidAt (dropBlankEnd (dedent code)) s.start.toNat ∧
        SolidAt (dropBlankEnd (dedent code)) (s.stop - 1).toNat) := by
  cases h with
  | @solid lo hi hlt h =>
    have hfirst := solidAt_dropBlankEnd.2 (solidAt_dedent.2 (h.first hlt))
    have hlast := solidAt_dropBlankEnd.2 (solidAt_dedent.2 (h.last hlt))
    have hlen := hlast.lt_length
    have hpos : ((hi : ℤ) - 1).toNat = hi - 1 := by omega
    refine ⟨Int.natCast_nonneg lo, Int.ofNat_le.2 hlt.le, ?_, fun _ => ⟨?_, ?_⟩⟩
    · show (hi : ℤ) ≤ _
      omega
    · simpa using hfirst
    · rw [hpos]
      exact hlast
  | blank =>
    refine ⟨Int.natCast_nonneg _, Int.le_refl _, ?_, fun hlt => absurd hlt (Int.lt_irrefl _)⟩
    exact Int.ofNat_le.2 (Nat.min_le_right _ _)

theorem bounds_of_mem_slices {source : Text} {e : Text × Span} (he : e ∈ (extract source).slices) :
    0 ≤ e.2.start ∧ e.2.start ≤ e.2.stop ∧ e.2.stop ≤ (extract source).code.length ∧
      (e.2.start < e.2.stop → SolidAt (extract source).code e.2.start.toNat ∧
        SolidAt (extract source).code (e.2.stop - 1).toNat) := by
  obtain ⟨j, path, -, hshrinks⟩ :=
    get?_slices_extract.1 ((Named.get?_eq_some_iff_mem (nodup_names_extract source)).2 he)
  rw [code_extract_eq_body] at hshrinks ⊢
  exact hshrinks.bounds

/-- Trimming the span of a slice of the outline looks at lines of its code alone, and moving what is left
into the final code leaves it alone unless it is empty. -/
theorem exists_trimmed_of_mem {source : Text} {e : Text × Span}
    (he : e ∈ (Outline.ofLines (linesAfterExplanation source)).slices) :
    ∃ t : Span, e.2.trimmed (body (linesAfterExplanation source)) = .ok t ∧
      e.2.trimmedBy (lineInside (body (linesAfterExplanation source))) = .ok t ∧
      (t.start < t.stop → t.clamped (extract source).code.length = t) := by
  obtain ⟨j, path, hlast, hspan⟩ :=
    Outline.get?_slices_ofLines.1 ((Named.get?_eq_some_iff_mem (Outline.nodup_names_ofLines _)).2 he)
  obtain ⟨lo, hi, -, htrimmed, hinside, hcount, -⟩ := exists_trimmed hlast.filled.le (countBefore_le _ _)
  rw [hspan, code_extract_eq_body]
  exact ⟨⟨lo, hi⟩, htrimmed, hinside, fun hlt => clamped_of_le (hcount (Int.ofNat_lt.1 hlt))⟩

/-- No slice leads out of the code. Trimming its span looks at lines of the body alone; its span lies in
the final code and, if it is not empty, begins and ends with a solid line; moving a span that is not empty
into the final code leaves it alone; and its lines are those of the body, without their margin, from where
it opens up to where it closes, without the blank ones at both ends. -/
theorem slices_within_code (source : Text) :
    let rest := linesAfterExplanation source
    let outline := Outline.ofLines rest
    let snippet := extract source
    (∀ e ∈ outline.slices, ∃ t : Span, e.2.trimmed outline.code = .ok t ∧
      e.2.trimmedBy (lineInside outline.code) = .ok t ∧
        (t.start < t.stop → t.clamped snippet.code.length = t)) ∧
      (∀ e ∈ snippet.slices, 0 ≤ e.2.start ∧ e.2.start ≤ e.2.stop ∧ e.2.stop ≤ snippet.code.length ∧
        (e.2.start < e.2.stop →
          SolidAt snippet.code e.2.start.toNat ∧ SolidAt snippet.code (e.2.stop - 1).toNat)) ∧
      ∀ name ∈ snippet.slices.names, ∃ j path, FillsLast rest name j path ∧
        snippet.sliceLines name = .ok (dropBlankEnds
          (((dedent (body rest)).take (closeCount rest j path)).drop (countBefore rest j))) := by
  intro rest outline snippet
  have hcode : snippet.code = dropBlankEnd (dedent (body rest)) := code_extract_eq_body source
  refine ⟨fun e he => ?_, fun e he => bounds_of_mem_slices he, fun name hname => ?_⟩
  · rw [Outline.code_ofLines]
    exact exists_trimmed_of_mem he
  · obtain ⟨span, hspan⟩ := Named.mem_names_iff.1 hname
    obtain ⟨j, path, hlast, hshrinks⟩ := get?_slices_extract.1 hspan
    rw [code_extract_eq_body] at hshrinks
    refine ⟨j, path, hlast, ?_⟩
    rw [sliceLines, hspan, hcode, ← hshrinks.cut_eq (countBefore_le _ _)]

end CodeSnippets.Snippet
