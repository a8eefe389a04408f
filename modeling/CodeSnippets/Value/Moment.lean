import CodeSnippets.Text.Basic

/-!
# Dates and times

Days of the calendar, times of day and both together, with an offset from universal time or without.
-/

namespace CodeSnippets

open Text

/-- A day of the calendar. -/
structure Date where
  year : Nat
  month : Nat
  day : Nat
deriving DecidableEq, Repr

/-- A time of day to the millionth of a second. -/
structure TimeOfDay where
  hour : Nat
  minute : Nat
  second : Nat
  microsecond : Nat
deriving DecidableEq, Repr

/-- A day, a time of day, or both; then perhaps with an offset from universal time in minutes. -/
inductive Moment where
  | date (d : Date)
  | time (t : TimeOfDay)
  | dateTime (d : Date) (t : TimeOfDay) (offset : Option Int)
deriving DecidableEq, Repr

/-- The year has a 29th of February. -/
def isLeapYear (year : Nat) : Bool := year % 4 == 0 && (year % 100 != 0 || year % 400 == 0)

/-- Number of days of a month. -/
def daysInMonth (year month : Nat) : Nat :=
  if month = 2 then (if isLeapYear year then 29 else 28)
  else if month = 4 ∨ month = 6 ∨ month = 9 ∨ month = 11 then 30
  else 31

/-- The day exists; years start with 1. -/
def Date.isValid (d : Date) : Bool :=
  1 ≤ d.year && 1 ≤ d.month && d.month ≤ 12 && 1 ≤ d.day && d.day ≤ daysInMonth d.year d.month

/-- Year, month and day with dashes between. -/
def Date.text (d : Date) : Text :=
  padded 4 d.year ++ '-' :: padded 2 d.month ++ '-' :: padded 2 d.day

/-- Hour, minute and second with colons between, and the fraction of a second if there is one. -/
def TimeOfDay.text (t : TimeOfDay) : Text :=
  padded 2 t.hour ++ ':' :: padded 2 t.minute ++ ':' :: padded 2 t.second ++
    (if t.microsecond = 0 then [] else '.' :: padded 6 t.microsecond)

/-- Sign, hours and minutes of an offset. -/
def offsetText (minutes : Int) : Text :=
  (if minutes < 0 then '-' else '+') :: padded 2 (minutes.natAbs / 60) ++ ':' :: padded 2 (minutes.natAbs % 60)

/-- Date and time with a space between, and the offset after them. -/
def Moment.text : Moment → Text
  | .date d => d.text
  | .time t => t.text
  | .dateTime d t offset => d.text ++ ' ' :: t.text ++ (offset.map offsetText).getD []

end CodeSnippets
