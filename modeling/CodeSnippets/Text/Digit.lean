import CodeSnippets.Text.Blank

/-!
# Decimal digits and integers

The decimal digits of Unicode 14 and the integers that a user may write with them: white space around,
a sign, and single underscores between digits.
-/

namespace CodeSnippets.Text

/-- The zeros of the scripts that have decimal digits; the other nine digits follow each of them. -/
def zeros : List Nat :=
  [0x30, 0x660, 0x6F0, 0x7C0, 0x966, 0x9E6, 0xA66, 0xAE6, 0xB66, 0xBE6,
   0xC66, 0xCE6, 0xD66, 0xDE6, 0xE50, 0xED0, 0xF20, 0x1040, 0x1090, 0x17E0,
   0x1810, 0x1946, 0x19D0, 0x1A80, 0x1A90, 0x1B50, 0x1BB0, 0x1C40, 0x1C50, 0xA620,
   0xA8D0, 0xA900, 0xA9D0, 0xA9F0, 0xAA50, 0xABF0, 0xFF10, 0x104A0, 0x10D30, 0x11066,
   0x110F0, 0x11136, 0x111D0, 0x112F0, 0x11450, 0x114D0, 0x11650, 0x116C0, 0x11730, 0x118E0,
   0x11950, 0x11C50, 0x11D50, 0x11DA0, 0x16A60, 0x16AC0, 0x16B50, 0x1D7CE, 0x1D7D8, 0x1D7E2,
   0x1D7EC, 0x1D7F6, 0x1E140, 0x1E2F0, 0x1E950, 0x1FBF0]

/-- The value of a decimal digit of any script. -/
def digitValue? (c : Char) : Option Nat :=
  let n := c.toNat
  if n < 0x80 then (if 48 ≤ n ∧ n ≤ 57 then some (n - 48) else none)
  else (zeros.find? fun z => z ≤ n && n < z + 10).map (n - ·)

/-- The value of a digit in base sixteen. -/
def hexDigit? (c : Char) : Option Nat :=
  let n := c.toNat
  if 48 ≤ n ∧ n ≤ 57 then some (n - 48)
  else if 97 ≤ n ∧ n ≤ 102 then some (n - 87)
  else if 65 ≤ n ∧ n ≤ 70 then some (n - 55)
  else none

/-- The values of digits among which single underscores may stand, none first and none last. -/
def digitValues? : Text → Option (List Nat)
  | [] => none
  | [c] => (digitValue? c).map ([·])
  | c :: '_' :: d :: t => do return (← digitValue? c) :: (← digitValues? (d :: t))
  | c :: d :: t => do return (← digitValue? c) :: (← digitValues? (d :: t))

/-- The number with these digits in a base, the first digit worth most. -/
def ofDigits (base : Nat) (digits : List Nat) : Nat := digits.foldl (fun n d => base * n + d) 0

/-- The largest number of digits of an integer that is read, or written in JSON. -/
def maxDigits : Nat := 4300

/-- White space that may stand around a number; the information separators U+001C to U+001F may not. -/
def isBlankAroundNumber (c : Char) : Bool := isBlankChar c && !(28 ≤ c.toNat && c.toNat ≤ 31)

/-- The text without the white space around a number. -/
def trimAroundNumber (t : Text) : Text :=
  ((t.dropWhile isBlankAroundNumber).reverse.dropWhile isBlankAroundNumber).reverse

/-- The integer that a text writes. -/
def toInteger? (t : Text) : Option Int := do
  let inner := trimAroundNumber t
  let (negative, digits) :=
    match inner with
    | '-' :: r => (true, r)
    | '+' :: r => (false, r)
    | r => (false, r)
  let values ← digitValues? digits
  if values.length > maxDigits then none
  else
    let n : Int := ofDigits 10 values
    some (if negative then -n else n)

end CodeSnippets.Text
