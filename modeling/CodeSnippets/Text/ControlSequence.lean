import CodeSnippets.Text.Basic

/-!
# Control sequences of terminals

A control sequence is an escape character, an opening bracket, parameters, intermediate characters and one final
character, each of a range of its own. Terminals take it as a command, for instance to change a colour; where
output is no terminal it is left out.

* `withoutControls`: a text without its control sequences.
-/

namespace CodeSnippets.Text

/-- A character that may stand among the parameters of a control sequence: digits and `: ; < = > ?`. -/
def isParameter (c : Char) : Bool := '0' ≤ c && c ≤ '?'

/-- A character that may stand between the parameters of a control sequence and its end: a space and the marks up to
the slash. -/
def isIntermediate (c : Char) : Bool := ' ' ≤ c && c ≤ '/'

/-- A character that ends a control sequence: a letter, or a mark between the at sign and the tilde. -/
def isFinal (c : Char) : Bool := '@' ≤ c && c ≤ '~'

/-- What follows the control sequence that a text starts with. -/
def dropControl? : Text → Option Text
  | '\x1b' :: '[' :: t =>
    match (t.dropWhile isParameter).dropWhile isIntermediate with
    | c :: rest => if isFinal c then some rest else none
    | [] => none
  | _ => none

/-- A control sequence is not empty: what follows it is shorter. -/
theorem length_lt_of_dropControl? {t rest : Text} (h : dropControl? t = some rest) :
    rest.length < t.length := by
  unfold dropControl? at h
  split at h
  · rename_i t
    have hle : ((t.dropWhile isParameter).dropWhile isIntermediate).length ≤ t.length :=
      ((List.dropWhile_sublist isIntermediate).trans (List.dropWhile_sublist isParameter)).length_le
    split at h
    · rename_i c r hr
      split at h
      · rw [hr] at hle
        obtain rfl := Option.some.inj h
        simp only [List.length_cons] at hle ⊢
        omega
      · simp at h
    · simp at h
  · simp at h

/-- The text without its control sequences. -/
def withoutControls : Text → Text
  | [] => []
  | c :: t =>
    match _h : dropControl? (c :: t) with
    | some rest => withoutControls rest
    | none => c :: withoutControls t
termination_by t => t.length
decreasing_by
  · exact length_lt_of_dropControl? _h
  · simp

end CodeSnippets.Text
