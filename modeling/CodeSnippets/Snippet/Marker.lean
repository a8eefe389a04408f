import CodeSnippets.Text.Case
import CodeSnippets.Text.Blank

/-!
# Markers and the kinds of lines

A marker is a line comment whose text is a path of dotted names that starts with the keyword. Its last
name says what it does: `show` and `hide` set what is kept, `end` closes slices, any other name opens
one. All other lines are code, or documentation that is left out.

* `commentText?`: the text of a line comment.
* `Marker.ofLine?`: the marker that a line holds.
* `LineKind.ofLine`: what a line is.
-/

namespace CodeSnippets

open Text

/-- What starts a line comment. -/
def commentStart : Text := ['/', '/']

/-- What starts a documentation comment. -/
def docCommentStart : Text := ['/', '/', '/']

/-- What starts an attribute that concerns documentation alone. -/
def docAttributeStart : Text := "@_documentation(visibility:".toList

/-- The text of a line comment, the white space before the comment and its two slashes left out. -/
def commentText? (line : Text) : Option Text := dropStart? commentStart (trimStart line)

/-- A marker in the comments of a source text. -/
inductive Marker where
  /-- From here on code is kept, or left out. -/
  | visibility (shown : Bool)
  /-- A slice with this path opens. -/
  | opening (path : List Text)
  /-- Slices at this depth and below close. -/
  | closing (depth : Nat)
deriving DecidableEq, Repr

namespace Marker

/-- The first name of every marker. -/
def keyword : Text := ['s', 'n', 'i', 'p', 'p', 'e', 't']

/-- The last name of a marker from which code is kept. -/
def showKeyword : Text := ['s', 'h', 'o', 'w']

/-- The last name of a marker from which code is left out. -/
def hideKeyword : Text := ['h', 'i', 'd', 'e']

/-- The last name of a marker that closes. -/
def endKeyword : Text := ['e', 'n', 'd']

/-- The names of a dotted path; dots that follow one another count as one. -/
def names (t : Text) : List Text := (pieces '.' t).filter (!·.isEmpty)

/-- The marker whose names after the keyword are `path`. A closing marker closes at the depth of the path
before its last name. -/
def ofPath? (path : List Text) : Option Marker :=
  path.getLast?.map fun last =>
    if lower last = showKeyword then .visibility true
    else if lower last = hideKeyword then .visibility false
    else if lower last = endKeyword then .closing (path.length - 2)
    else .opening path

/-- The marker that a line holds. -/
def ofLine? (line : Text) : Option Marker := do
  let content ← commentText? line
  match names (trim content) with
  | [] => none
  | first :: path => if lower first = keyword then ofPath? path else none

/-- The marker of a line does not depend on the white space before it. -/
theorem ofLine?_congr {k l : Text} (h : trimStart k = trimStart l) : ofLine? k = ofLine? l := by
  rw [ofLine?, ofLine?, commentText?, commentText?, h]

end Marker

/-- What a line of a source text is. -/
inductive LineKind where
  | marker (m : Marker)
  | code
  | skipped
deriving DecidableEq, Repr

/-- Documentation comments and documentation attributes are left out of the code. -/
def isDocumentation (line : Text) : Bool :=
  let content := trim line
  startsWith content docCommentStart || startsWith content docAttributeStart

/-- The kind of a line; a marker goes before documentation. -/
def LineKind.ofLine (line : Text) : LineKind :=
  match Marker.ofLine? line with
  | some m => .marker m
  | none => if isDocumentation line then .skipped else .code

namespace LineKind

theorem ofLine_eq_marker_iff {line : Text} {m : Marker} : ofLine line = .marker m ↔ Marker.ofLine? line = some m := by
  rw [ofLine]
  split
  · rename_i h
    simp [h]
  · rename_i h
    split <;> simp [h]

/-- What a line is does not depend on the white space before it. -/
theorem ofLine_congr {k l : Text} (h : trimStart k = trimStart l) : ofLine k = ofLine l := by
  have hdocumentation : isDocumentation k = isDocumentation l := by
    rw [isDocumentation, isDocumentation, trim, trim, h]
  rw [ofLine, ofLine, Marker.ofLine?_congr h, hdocumentation]

/-- Blank lines are code. -/
theorem ofLine_of_isBlank {line : Text} (h : isBlank line = true) : ofLine line = .code := by
  have hempty : ofLine line = ofLine [] := ofLine_congr (trimStart_eq_nil_iff.2 h)
  exact hempty.trans (by decide)

theorem ofLine?_eq_none {line : Text} (h : ∀ m, ofLine line ≠ .marker m) : Marker.ofLine? line = none := by
  cases hm : Marker.ofLine? line with
  | none => rfl
  | some m => exact absurd (ofLine_eq_marker_iff.2 hm) (h m)

end LineKind
end CodeSnippets
