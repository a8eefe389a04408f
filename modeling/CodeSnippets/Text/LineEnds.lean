import CodeSnippets.Text.Basic

/-!
# Line ends

A file may end its lines with a line feed, with a carriage return, or with both. A text in memory has
line feeds only.
-/

namespace CodeSnippets.Text

/-- Every carriage return, with the line feed that may follow it, becomes a line feed. -/
def unifyLineEnds : Text → Text
  | [] => []
  | '\r' :: '\n' :: t => '\n' :: unifyLineEnds t
  | '\r' :: t => '\n' :: unifyLineEnds t
  | c :: t => c :: unifyLineEnds t

/-- A carriage return before a line feed is dropped; one that stands alone is kept. -/
def foldLineEnds : Text → Text
  | [] => []
  | '\r' :: '\n' :: t => '\n' :: foldLineEnds t
  | c :: t => c :: foldLineEnds t

/-- The lines of a text: the pieces between its line feeds. -/
abbrev lines (t : Text) : List Text := pieces '\n' t

/-- The text of lines with a line feed between each two. -/
abbrev ofLines (ls : List Text) : Text := joined ['\n'] ls

/-- Lines that are joined come back as they were. -/
theorem lines_ofLines {ls : List Text} (hne : ls ≠ []) (h : ∀ l ∈ ls, '\n' ∉ l) : lines (ofLines ls) = ls :=
  pieces_joined hne h

/-- Lines that are put after a text come after its lines. -/
theorem lines_append_flatMap (t : Text) {ls : List Text} (h : ∀ l ∈ ls, '\n' ∉ l) :
    lines (t ++ ls.flatMap ('\n' :: ·)) = lines t ++ ls := by
  induction ls generalizing t with
  | nil => simp
  | cons l ls ih =>
    obtain ⟨hl, hrest⟩ := List.forall_mem_cons.1 h
    have hsplit : t ++ (l :: ls).flatMap ('\n' :: ·) = (t ++ '\n' :: l) ++ ls.flatMap ('\n' :: ·) := by simp
    rw [hsplit, ih _ hrest, lines, pieces_append, pieces_eq_singleton hl, List.append_assoc, List.singleton_append]

/-- A text without carriage returns is kept as it is. -/
theorem unifyLineEnds_eq_self {t : Text} (h : '\r' ∉ t) : unifyLineEnds t = t := by
  fun_induction unifyLineEnds t with
  | case1 => rfl
  | case2 t => simp at h
  | case3 t => simp at h
  | case4 c t _ _ ih => rw [ih (by simp_all)]

end CodeSnippets.Text
