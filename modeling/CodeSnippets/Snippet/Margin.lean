import CodeSnippets.Text.Blank

/-!
# Blank ends and margins of lines

Lines lose the blank lines at their ends and the indentation that they share. Blank lines have no say
in how much is shared, and no line loses more than its own indentation.

* `dropBlankEnd`, `dropBlankEnds`: lines without the blank ones at the end, or at both ends.
* `dedent`: lines without the indentation shared by those that are not blank.
-/

namespace CodeSnippets.Margin

open Text

/-- The lines from the first one that is not blank. -/
def dropBlankStart (ls : List Text) : List Text := ls.dropWhile isBlank

/-- The lines up to the last one that is not blank. -/
def dropBlankEnd (ls : List Text) : List Text := (ls.reverse.dropWhile isBlank).reverse

/-- The lines from the first to the last one that is not blank. -/
def dropBlankEnds (ls : List Text) : List Text := dropBlankStart (dropBlankEnd ls)

/-- The smallest indentation of a line that is not blank, by a measure of indentation; zero if every
line is blank. -/
def shared (indentation : Text → Nat) (ls : List Text) : Nat :=
  (((ls.filter fun l => !isBlank l).map indentation).min?).getD 0

/-- Takes at most `n` characters of indentation off a line. -/
def unindent (indentation : Text → Nat) (n : Nat) (l : Text) : Text := l.drop (min (indentation l) n)

/-- The lines without the indentation that the ones that are not blank share. -/
def dedentBy (indentation : Text → Nat) (ls : List Text) : List Text :=
  ls.map (unindent indentation (shared indentation ls))

/-- The lines without the leading spaces that the ones that are not blank share. -/
def dedent (ls : List Text) : List Text := dedentBy leadingSpaces ls

@[simp] theorem length_dedentBy (indentation : Text → Nat) (ls : List Text) :
    (dedentBy indentation ls).length = ls.length := by
  simp [dedentBy]

@[simp] theorem dropBlankEnd_nil : dropBlankEnd [] = [] := rfl

/-- What is dropped at the end is blank, and nothing else is lost. -/
theorem dropBlankEnd_append (ls : List Text) :
    ∃ blanks, (∀ l ∈ blanks, isBlank l = true) ∧ ls = dropBlankEnd ls ++ blanks := by
  refine ⟨(ls.reverse.takeWhile isBlank).reverse, fun l hl => ?_, ?_⟩
  · exact List.all_eq_true.1 (List.all_takeWhile (p := isBlank) (l := ls.reverse)) l (List.mem_reverse.1 hl)
  · rw [dropBlankEnd, ← List.reverse_append, List.takeWhile_append_dropWhile, List.reverse_reverse]

end CodeSnippets.Margin
