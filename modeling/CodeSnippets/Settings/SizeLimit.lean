import CodeSnippets.Text.Digit

/-!
# The largest size of a source file

A variable of the environment may set the largest size of a source file; otherwise a default holds.
-/

namespace CodeSnippets

open Text

/-- The variable that sets the largest size. -/
def sizeLimitVariable : Text := "DOCC_SNIPPETS_MAX_FILE_SIZE".toList

/-- What is wrong with the value of the variable. -/
inductive SizeLimitError where
  | notInteger (value : Text)
  | notPositive (n : Int)
deriving DecidableEq, Repr

/-- What is wrong, in words. -/
def SizeLimitError.message : SizeLimitError → String
  | .notInteger value =>
    s!"Invalid value for {str sizeLimitVariable}: {str value} (expected positive integer)"
  | .notPositive n => s!"{str sizeLimitVariable} must be a positive integer, got {str (ofInt n)}."

/-- The largest size in bytes for a value of the variable, if it is set. -/
def sizeLimit (value : Option Text) (default : Int) : Except SizeLimitError Int :=
  match value with
  | none => .ok default
  | some t =>
    match toInteger? t with
    | none => .error (.notInteger t)
    | some n => if n ≤ 0 then .error (.notPositive n) else .ok n

end CodeSnippets
