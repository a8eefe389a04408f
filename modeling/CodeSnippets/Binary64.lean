import CodeSnippets.Text.Digit
import CodeSnippets.Text.Quoted

/-!
# Binary floating-point numbers

Numbers of 53 significant bits with exponents from -1074, not-a-number and the infinities, in exact
integer arithmetic.

* `Binary64.ofDecimal`: the number nearest to a decimal one; a tie goes to the even neighbour.
* `Binary64.shortest`: the fewest decimal digits that read back as the number, and of these the nearest.
* `Binary64.shown`: the text of a number. The point is written for exponents from -4 to 15.
-/

namespace CodeSnippets

open Text

/-- A binary floating-point number. The finite number `finite s m e` is `m * 2 ^ e`, negative if `s`. -/
inductive Binary64 where
  | notANumber
  | infinite (negative : Bool)
  | finite (negative : Bool) (mantissa : Nat) (exponent : Int)
deriving DecidableEq, Repr

namespace Binary64

/-- The smallest mantissa of 53 bits. -/
def minMantissa : Nat := 0x10000000000000

/-- The exponent of the smallest numbers. -/
def minExponent : Int := -1074

/-- The exponent of the largest numbers. -/
def maxExponent : Int := 971

/-- The quotient rounded to the nearest whole number; a tie goes to the even one. -/
def roundDiv (num den : Nat) : Nat :=
  let q := num / den
  let r := num % den
  if 2 * r < den then q
  else if 2 * r > den then q + 1
  else if q % 2 = 0 then q else q + 1

/-- Numerator and denominator of `n / d * b ^ k`. -/
def scaled (b : Nat) (n d : Nat) (k : Int) : Nat × Nat :=
  if 0 ≤ k then (n * b.pow k.toNat, d) else (n, d * b.pow (-k).toNat)

/-- The exponent at which a positive fraction has a mantissa of 53 bits, or the smallest exponent. -/
def exponentOf (num den : Nat) : Int :=
  -- The fraction lies between the powers of two before and after `d`.
  let d : Int := (Nat.log2 num : Int) - Nat.log2 den
  let (n, m) := scaled 2 num den (-d)
  max (if n < m then d - 53 else d - 52) minExponent

/-- The number nearest to a fraction. -/
def ofFraction (negative : Bool) (num den : Nat) : Binary64 :=
  if num = 0 then .finite negative 0 minExponent
  else
    let e := exponentOf num den
    let (n, d) := scaled 2 num den (-e)
    let m := roundDiv n d
    -- Rounding up may give a mantissa of 54 bits, which is a power of two.
    let (m, e) := if m = 2 * minMantissa then (minMantissa, e + 1) else (m, e)
    if maxExponent < e then .infinite negative else .finite negative m e

/-- The number nearest to `digits * 10 ^ exponent`. Beyond 10^400 it is infinite, below 10^-400 zero. -/
def ofDecimal (negative : Bool) (digits : Nat) (exponent : Int) : Binary64 :=
  let size : Int := (ofNat digits).length + exponent
  if digits = 0 ∨ size < -400 then .finite negative 0 minExponent
  else if 400 < size then .infinite negative
  else
    let (n, d) := scaled 10 digits 1 exponent
    ofFraction negative n d

/-- A positive number as a fraction over a common denominator: four times its value, and four times the
ends of the interval of the numbers that round to it. -/
structure Interval where
  value : Nat
  low : Nat
  high : Nat
  /-- Four times the common denominator. -/
  den : Nat
  /-- The ends belong to the interval. -/
  closed : Bool

/-- The interval of the numbers that round to `m * 2 ^ e`. Below a power of two it is half as wide. -/
def interval (m : Nat) (e : Int) : Interval :=
  let (unit, den) := scaled 2 1 1 e
  let below := if m = minMantissa ∧ minExponent < e then 1 else 2
  { value := 4 * m * unit
    low := (4 * m - below) * unit
    high := (4 * m + 2) * unit
    den := 4 * den
    closed := m % 2 = 0 }

/-- The fraction `n / d` lies in the interval. -/
def Interval.contains (i : Interval) (n d : Nat) : Bool :=
  let low := i.low * d
  let high := i.high * d
  let x := n * i.den
  if i.closed then low ≤ x && x ≤ high else low < x && x < high

/-- The number of digits before the point of a positive fraction; zero and less where it is below one and
digits after the point are zeros. -/
def pointPlace (num den : Nat) : Int :=
  if den ≤ num then (ofNat (num / den)).length
  else go 400 num 0
where
  /-- Counts the zeros after the point, at most `n` of them. -/
  go : Nat → Nat → Int → Int
    | 0, _, k => k
    | n + 1, num, k => if den ≤ num * 10 then k else go n (num * 10) (k - 1)

/-- The digits `n` on the grid of `10 ^ scale`, if one of the two neighbours of the value on it lies in the
interval. -/
def onGrid? (i : Interval) (scale : Int) : Option Nat :=
  let (num, den) := scaled 10 i.value i.den (-scale)
  let below := num / den
  let inside (n : Nat) : Bool :=
    let (a, b) := scaled 10 n 1 scale
    0 < n && i.contains a b
  match inside below, inside (below + 1) with
  | true, true => some (roundDiv num den)
  | true, false => some below
  | false, true => some (below + 1)
  | false, false => none

/-- The first of the grids with `count`, `count + 1`, … digits on which a value can be written. -/
def firstGrid (i : Interval) (place : Int) : (fuel : Nat) → (count : Nat) → Nat × Int
  | 0, _ => (0, place)
  | fuel + 1, count =>
    match onGrid? i (place - count) with
    | some n => (n, place - count)
    | none => firstGrid i place fuel (count + 1)

/-- The fewest digits that read back as `m * 2 ^ e`, and the power of ten of the last of them. -/
def shortest (m : Nat) (e : Int) : Nat × Int :=
  let i := interval m e
  firstGrid i (pointPlace i.value i.den) 18 1

/-- The digits without the zeros at their end. -/
def significant (digits : Text) : Text :=
  match (digits.reverse.dropWhile (· == '0')).reverse with
  | [] => ['0']
  | ds => ds

/-- The text of digits whose point stands after the first `place` of them. -/
def layOut (digits : Text) (place : Int) : Text :=
  if -4 < place ∧ place ≤ 16 then
    if place ≤ 0 then ['0', '.'] ++ List.replicate (-place).toNat '0' ++ digits
    else
      let n := place.toNat
      let fraction := digits.drop n
      digits.take n ++ List.replicate (n - digits.length) '0' ++
        '.' :: (if fraction.isEmpty then ['0'] else fraction)
  else
    let power := place - 1
    digits.take 1 ++ (if digits.length = 1 then [] else '.' :: digits.drop 1) ++
      'e' :: (if power < 0 then '-' else '+') :: padded 2 power.natAbs

/-- The text of a number. -/
def shown : Binary64 → Text
  | .notANumber => ['n', 'a', 'n']
  | .infinite negative => (if negative then ['-'] else []) ++ ['i', 'n', 'f']
  | .finite negative m e =>
    let body :=
      if m = 0 then ['0', '.', '0']
      else
        let (n, scale) := shortest m e
        let digits := ofNat n
        layOut (significant digits) (scale + digits.length)
    (if negative then ['-'] else []) ++ body

/-- Decimal digits of any script, among which single underscores may stand, at the start of a text. -/
def digitsAt (t : Text) : Text × Text :=
  let run := t.takeWhile fun c => (digitValue? c).isSome || c == '_'
  (run, t.drop run.length)

/-- The digits of a run with underscores in allowed places; an empty run has none. -/
def runDigits? (run : Text) : Option (List Nat) :=
  if run.isEmpty then some [] else digitValues? run

/-- The number that a text writes in decimal: digits, a point and more digits, and an exponent. -/
def ofDecimalText? (negative : Bool) (t : Text) : Option Binary64 := do
  let (whole, rest) := digitsAt t
  let whole ← runDigits? whole
  let (fraction, rest) := match rest with
    | '.' :: rest => digitsAt rest
    | rest => ([], rest)
  let fraction ← runDigits? fraction
  if whole.isEmpty && fraction.isEmpty then none
  let power ← match rest with
    | [] => some (0 : Int)
    | c :: rest =>
      if c = 'e' ∨ c = 'E' then
        match rest with
        | '-' :: ds => (digitValues? ds).map fun d => -(ofDigits 10 d : Int)
        | '+' :: ds => (digitValues? ds).map fun d => (ofDigits 10 d : Int)
        | ds => (digitValues? ds).map fun d => (ofDigits 10 d : Int)
      else none
  return ofDecimal negative (ofDigits 10 (whole ++ fraction)) (power - fraction.length)

/-- The number that a text writes: a decimal number or the name of an infinity or of not-a-number, with a
sign, in either case, white space around it as around an integer. -/
def ofText? (t : Text) : Option Binary64 :=
  let inner := trimAroundNumber t
  let (negative, body) :=
    match inner with
    | '-' :: r => (true, r)
    | '+' :: r => (false, r)
    | r => (false, r)
  let word := body.map Char.toLower
  if word = "inf".toList ∨ word = "infinity".toList then some (.infinite negative)
  else if word = "nan".toList then some .notANumber
  else ofDecimalText? negative body

/-- What is said of a text that writes no number. -/
def unreadableMessage (t : Text) : String := s!"could not convert string to float: {str (quoted t)}"

end Binary64
end CodeSnippets
