import CodeSnippets.Proofs.Margin
import Mathlib.Data.List.Forall2

/-!
# The margin that lines lose

Lines that are not blank lose the same number of spaces, all that they share; a blank line loses as many of its own. Nothing
but spaces is taken off, no line comes or goes, and what is left has no margin to lose.

* `eq_replicate_append_unindent`: what is taken off a line are spaces.
* `exists_unindented_mem_dedent`: a line that is left without indentation.
* `dedent_dedent`: lines lose their margin once.
* `dedent_uniform`: all of it, for every list of lines.
-/

namespace CodeSnippets.Margin

open Text

variable {n : ℕ} {l : Text} {ls : List Text}

/-- A line starts with spaces, as many as are counted at its start. -/
theorem eq_replicate_append_drop (h : n ≤ leadingSpaces l) : l = List.replicate n ' ' ++ l.drop n := by
  induction l generalizing n with
  | nil =>
    obtain rfl : n = 0 := Nat.le_zero.1 h
    rfl
  | cons c l ih =>
    cases n with
    | zero => rfl
    | succ n =>
      rw [leadingSpaces_cons] at h
      split at h
      · rename_i hspace
        rw [hspace, List.replicate_succ, List.cons_append, List.drop_succ_cons, ← ih (Nat.le_of_succ_le_succ h)]
      · exact absurd h (Nat.not_succ_le_zero n)

/-- A line is what is left of it with spaces before it, as many as there were but no more than `n`. -/
theorem eq_replicate_append_unindent (n : ℕ) (l : Text) :
    l = List.replicate (min n (leadingSpaces l)) ' ' ++ unindent leadingSpaces n l := by
  rw [unindent, Nat.min_comm (leadingSpaces l)]
  exact eq_replicate_append_drop (Nat.min_le_right n (leadingSpaces l))

/-- A line that is neither blank nor indented starts with something else than a space. -/
theorem exists_cons_of_leadingSpaces_eq_zero (hsolid : isBlank l = false) (h : leadingSpaces l = 0) :
    ∃ c t, l = c :: t ∧ c ≠ ' ' := by
  cases l with
  | nil => cases hsolid
  | cons c t =>
    refine ⟨c, t, rfl, ?_⟩
    rintro rfl
    rw [leadingSpaces_cons, if_pos rfl] at h
    cases h

/-- Where not all lines are blank, one that is not blank is left without indentation. -/
theorem exists_unindented_mem_dedent (h : ∃ l ∈ ls, isBlank l = false) :
    ∃ l ∈ dedent ls, isBlank l = false ∧ leadingSpaces l = 0 := by
  -- The line with the least indentation loses all of it.
  obtain ⟨l, hl, hsolid, hleast⟩ := exists_mem_eq_shared leadingSpaces h
  refine ⟨_, List.mem_map_of_mem hl, by rwa [isBlank_unindent], ?_⟩
  rw [isIndentation_leadingSpaces.unindent_eq, hleast, Nat.sub_self]

theorem dedent_dedent (ls : List Text) : dedent (dedent ls) = dedent ls := dedent_eq_self (shared_dedent ls)

/-- Lines keep their number and their order when they lose their margin, and the blank ones among them stay the blank
ones. There is one number of spaces that every line loses that is not blank, while a blank line loses no more than it has.
If not all lines are blank, some line that is not blank then starts with another character; and what is left loses
nothing more. -/
theorem dedent_uniform (ls : List Text) :
    (dedent ls).length = ls.length ∧
    (∃ n, List.Forall₂ (fun l left => isBlank left = isBlank l ∧
      l = List.replicate (if isBlank l then min n (leadingSpaces l) else n) ' ' ++ left) ls (dedent ls)) ∧
    ((∃ l ∈ ls, isBlank l = false) → ∃ c t, c :: t ∈ dedent ls ∧ isBlank (c :: t) = false ∧ c ≠ ' ') ∧
    dedent (dedent ls) = dedent ls := by
  refine ⟨length_dedent ls, ⟨shared leadingSpaces ls, ?_⟩, fun hsolid => ?_, dedent_dedent ls⟩
  · rw [dedent, dedentBy, List.forall₂_map_right_iff, List.forall₂_same]
    intro l hl
    refine ⟨isBlank_unindent _ l, ?_⟩
    cases hb : isBlank l with
    | true => exact eq_replicate_append_unindent _ l
    | false =>
      -- A line that is not blank has all that is shared.
      have hall : min (shared leadingSpaces ls) (leadingSpaces l) = shared leadingSpaces ls :=
        Nat.min_eq_left (shared_le hl hb)
      have hline := eq_replicate_append_unindent (shared leadingSpaces ls) l
      rwa [hall] at hline
  · obtain ⟨l, hl, hleft, hzero⟩ := exists_unindented_mem_dedent hsolid
    obtain ⟨c, t, rfl, hc⟩ := exists_cons_of_leadingSpaces_eq_zero hleft hzero
    exact ⟨c, t, hl, hleft, hc⟩

/-- A blank line that is shorter than the margin is left empty, and a tab is no indentation. -/
example : dedent ["    a".toList, " ".toList, "     ".toList, "  \tb".toList] =
    ["  a".toList, [], "   ".toList, "\tb".toList] := by decide

end CodeSnippets.Margin
