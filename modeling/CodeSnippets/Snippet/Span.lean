import CodeSnippets.Text.Blank
import CodeSnippets.Named

/-!
# Spans

A span is a half-open interval of line positions. Positions are integers: a negative position counts
from the end of the lines.

* `Span.cut`: the lines of a span.
* `Span.trimmed`: the span without blank lines at its ends.
* `Span.clamped`: an empty span moved inside a shorter list of lines.
-/

namespace CodeSnippets

open Text

/-- Why there is nothing at a position. -/
inductive PositionError where
  | noLine
  /-- The position is no number of 64 bits. -/
  | tooLarge
deriving DecidableEq, Repr

/-- Why there is nothing at a position, in words. -/
def PositionError.message : PositionError → String
  | .noLine => "list index out of range"
  | .tooLarge => "cannot fit 'int' into an index-sized integer"

/-- A half-open interval of line positions. -/
structure Span where
  start : Int
  stop : Int
deriving DecidableEq, Repr

namespace Span

/-- Number of lines of a span. -/
def length (s : Span) : Nat := (s.stop - s.start).toNat

/-- Spans that run through the same positions; all empty spans do. -/
def same (s t : Span) : Bool := s.length == t.length && (s.length == 0 || s.start == t.start)

/-- The place in `0 … count` that a position means; a negative one counts from the end. -/
def place (count : Nat) (position : Int) : Nat :=
  min (if position < 0 then position + count else position).toNat count

/-- The lines of a span. -/
def cut (s : Span) (lines : List Text) : List Text :=
  (lines.take (place lines.length s.stop)).drop (place lines.length s.start)

/-- Bound of the positions that can be looked at: they are numbers of 64 bits with a sign. -/
def positionBound : Int := 0x8000000000000000

/-- The line at a position, which may count from the end. -/
def lineAt (lines : List Text) (position : Int) : Except PositionError Text :=
  let place := if position < 0 then position + lines.length else position
  match if 0 ≤ place then lines[place.toNat]? else none with
  | some line => .ok line
  | none => .error (if position < -positionBound ∨ positionBound ≤ position then .tooLarge else .noLine)

/-- The first of `n` positions from `start` whose line is not blank, or the position after them. Lines are
looked up with `look`. -/
def firstSolid (look : Int → Except PositionError Text) : (n : Nat) → (start : Int) → Except PositionError Int
  | 0, start => .ok start
  | n + 1, start => do
    if isBlank (← look start) then firstSolid look n (start + 1) else .ok start

/-- The position after the last of the `n` positions before `stop` whose line is not blank, or the first
of them. -/
def lastSolid (look : Int → Except PositionError Text) : (n : Nat) → (stop : Int) → Except PositionError Int
  | 0, stop => .ok stop
  | n + 1, stop => do
    if isBlank (← look (stop - 1)) then lastSolid look n (stop - 1) else .ok stop

/-- The span without the blank lines at its ends, first those at its start, where lines are looked up with
`look`. -/
def trimmedBy (look : Int → Except PositionError Text) (s : Span) : Except PositionError Span := do
  let start ← firstSolid look s.length s.start
  let stop ← lastSolid look (Span.mk start s.stop).length s.stop
  return ⟨start, stop⟩

/-- The span without the blank lines at its ends. -/
def trimmed (lines : List Text) (s : Span) : Except PositionError Span := s.trimmedBy (lineAt lines)

/-- A span that ends past the last of `count` lines becomes an empty one inside them. -/
def clamped (count : Int) (s : Span) : Span :=
  if s.stop ≤ count then s
  else
    let position := min s.start count
    ⟨position, position⟩

end Span
end CodeSnippets
