import CodeSnippets.Proofs.SliceSpans

/-!
# Nesting of slices

The slices of a snippet are nested by the number of names in their paths. Two slices that share a line of
code have paths of different lengths, and the one with the shorter path contains the other one, whether or
not one path begins with the other.

* `contains_of_lt`: of two slices that share a line the one opened first contains the other.
* `slices_nested`: slices that share a line are nested by depth.
-/

namespace CodeSnippets

open Text Margin Body Layout

namespace Span

/-- The line at position `p` belongs to the span. -/
def Covers (s : Span) (p : ℤ) : Prop := s.start ≤ p ∧ p < s.stop

/-- Every line of the span `t` belongs to the span `s`. -/
def Contains (s t : Span) : Prop := s.start ≤ t.start ∧ t.stop ≤ s.stop

end Span

namespace Snippet

open CodeSnippets.Span

/-- What is left of a span that covers a line is solid at both ends. -/
theorem ShrinksTo.exists_shrinks {code : List Text} {count a b : ℕ} {s : Span} {p : ℤ}
    (h : ShrinksTo code count a b s) (hp : s.Covers p) :
    ∃ lo hi : ℕ, s = ⟨lo, hi⟩ ∧ lo < hi ∧ Shrinks code a b lo hi := by
  cases h with
  | solid hlt h => exact ⟨_, _, rfl, hlt, h⟩
  | blank => exact absurd (Int.lt_of_le_of_lt hp.1 hp.2) (Int.lt_irrefl _)

section Nesting

variable {lines : List Text} {i j : ℕ} {p q : List Text} {count : ℕ} {s t : Span}

/-- Of two slices that share a line the one opened first has the shorter path and contains the other. -/
theorem contains_of_lt (hi : OpensAt lines i q) (hji : j < i)
    (hs : ShrinksTo (body lines) count (countBefore lines j) (closeCount lines j p) s)
    (ht : ShrinksTo (body lines) count (countBefore lines i) (closeCount lines i q) t)
    {n : ℤ} (hsn : s.Covers n) (htn : t.Covers n) : p.length < q.length ∧ s.Contains t := by
  obtain ⟨lo, hi', rfl, hlt, hshrinks⟩ := hs.exists_shrinks hsn
  obtain ⟨lo', hi'', rfl, hlt', hshrinks'⟩ := ht.exists_shrinks htn
  have hopen := hshrinks'.le_lo
  have hclose := hshrinks.hi_le
  -- The shared line comes after the second slice opens and before the first one closes.
  have hshare : countBefore lines i < closeCount lines j p := by
    have h1 : (lo' : ℤ) ≤ n := htn.1
    have h2 : n < (hi' : ℤ) := hsn.2
    omega
  obtain ⟨hdeeper, hle⟩ := hi.nested hji hshare
  have hfirst := countBefore_mono lines hji.le
  have hlast : closeCount lines i q ≤ closeCount lines j p := countBefore_mono lines hle
  have hhi'' := hshrinks'.hi_le
  -- The first and the last line of the inner slice are solid, so the outer one has not lost them.
  have hlo := hshrinks.covers lo' (by omega) (by omega) (hshrinks'.first hlt')
  have hhi := hshrinks.covers (hi'' - 1) (by omega) (by omega) (hshrinks'.last hlt')
  refine ⟨hdeeper, ?_, ?_⟩
  · exact Int.ofNat_le.2 hlo.1
  · exact Int.ofNat_le.2 (by omega)

end Nesting

/-- Of two slices with different names that share a line, one has fewer names in its path and contains
the other. -/
theorem nested_of_covers {source : Text} {e f : Text × Span} (he : e ∈ (extract source).slices)
    (hf : f ∈ (extract source).slices) (hne : e.1 ≠ f.1) {n : ℤ} (hen : e.2.Covers n) (hfn : f.2.Covers n) :
    ((pieces '.' e.1).length < (pieces '.' f.1).length ∧ e.2.Contains f.2) ∨
      ((pieces '.' f.1).length < (pieces '.' e.1).length ∧ f.2.Contains e.2) := by
  have hnodup := nodup_names_extract source
  obtain ⟨j, p, hj, hs⟩ := get?_slices_extract.1 ((Named.get?_eq_some_iff_mem hnodup).2 he)
  obtain ⟨i, q, hi, ht⟩ := get?_slices_extract.1 ((Named.get?_eq_some_iff_mem hnodup).2 hf)
  have hp : pieces '.' e.1 = p := by rw [← hj.name_eq, hj.opens.isPath.pieces_joined]
  have hq : pieces '.' f.1 = q := by rw [← hi.name_eq, hi.opens.isPath.pieces_joined]
  rw [hp, hq]
  rcases Nat.lt_trichotomy j i with hlt | rfl | hlt
  · exact .inl (contains_of_lt hi.opens hlt hs ht hen hfn)
  · -- Opened by one marker, they would have one name.
    obtain rfl := hj.opens.unique hi.opens
    exact absurd (hj.name_eq.symm.trans hi.name_eq) hne
  · exact .inr (contains_of_lt hj.opens hlt ht hs hfn hen)

/-- The slices of a snippet are nested by depth. Two slices with different names that share a line have
names with different numbers of parts between dots, and the one with fewer parts contains the other.
Slices that are not empty are therefore disjoint or one contains the other. -/
theorem slices_nested (source : Text) :
    let slices := (extract source).slices
    (∀ e ∈ slices, ∀ f ∈ slices, e.1 ≠ f.1 → ∀ n, e.2.Covers n → f.2.Covers n →
      (pieces '.' e.1).length ≠ (pieces '.' f.1).length ∧
        ((pieces '.' e.1).length < (pieces '.' f.1).length → e.2.Contains f.2)) ∧
      ∀ e ∈ slices, ∀ f ∈ slices, e.2.start < e.2.stop → f.2.start < f.2.stop →
        (∀ n, ¬ (e.2.Covers n ∧ f.2.Covers n)) ∨ e.2.Contains f.2 ∨ f.2.Contains e.2 := by
  intro slices
  constructor
  · intro e he f hf hne n hen hfn
    rcases nested_of_covers he hf hne hen hfn with ⟨hlt, hcontains⟩ | ⟨hlt, -⟩
    · exact ⟨hlt.ne, fun _ => hcontains⟩
    · exact ⟨hlt.ne', fun h => absurd h hlt.asymm⟩
  · intro e he f hf _ _
    by_cases hshare : ∃ n, e.2.Covers n ∧ f.2.Covers n
    · obtain ⟨n, hen, hfn⟩ := hshare
      by_cases hname : e.1 = f.1
      · -- Slices of one name are one slice.
        have hnodup := nodup_names_extract source
        have hspan := (Named.get?_eq_some_iff_mem hnodup).2 he
        rw [hname, (Named.get?_eq_some_iff_mem hnodup).2 hf, Option.some.injEq] at hspan
        rw [hspan]
        exact .inr (.inl ⟨Int.le_refl _, Int.le_refl _⟩)
      · rcases nested_of_covers he hf hname hen hfn with ⟨-, h⟩ | ⟨-, h⟩
        · exact .inr (.inl h)
        · exact .inr (.inr h)
    · exact .inl fun n hn => hshare ⟨n, hn⟩

/-- Depth decides, not the names before it: a slice may lie inside one whose path it does not continue. -/
example : (extract "// snippet.outer\nx\n// snippet.other.inner\ny\n".toList).slices =
    [("outer".toList, ⟨0, 2⟩), ("other.inner".toList, ⟨1, 2⟩)] := by decide

end Snippet
end CodeSnippets
