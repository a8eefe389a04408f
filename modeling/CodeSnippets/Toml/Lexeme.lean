import CodeSnippets.Text.Digit
import CodeSnippets.Value.Basic

/-!
# Keys and simple values of TOML

The parts of a TOML document that hold no other parts: blanks and comments, keys, the four kinds of
strings, numbers, truth values, dates and times. Every reader takes a text and gives what it read and
the text after it.
-/

namespace CodeSnippets.Toml

open Text

/-- Why a document is refused. -/
inductive Fault where
  /-- The text is not a TOML document. -/
  | malformed
  /-- An integer is written with more digits than can be read. -/
  | integerTooLong (digits : Nat)
  /-- Arrays and tables hold one another more deeply than can be read. -/
  | tooDeep
deriving DecidableEq, Repr

/-- A dotted key. -/
abbrev Key := List Text

/-- A control character other than the tab. -/
def isControl (c : Char) : Bool := (c.toNat < 32 && c != '\t') || c.toNat == 127

/-- A space or a tab. -/
def isSpace (c : Char) : Bool := c == ' ' || c == '\t'

/-- A space, a tab or a line feed. -/
def isSpaceOrLine (c : Char) : Bool := isSpace c || c == '\n'

/-- The text without spaces and tabs at its start. -/
def skipSpaces (t : Text) : Text := t.dropWhile isSpace

/-- The text after a comment, if it starts with one; the line feed is left. -/
def skipComment : Text → Except Fault Text
  | '#' :: rest =>
    if (rest.takeWhile (· ≠ '\n')).any isControl then .error .malformed
    else .ok (rest.dropWhile (· ≠ '\n'))
  | t => .ok t

/-- The text after blanks, line feeds and comments; at most `fuel` comments. -/
def skipFiller : (fuel : Nat) → Text → Except Fault Text
  | 0, t => .ok t
  | fuel + 1, t =>
    match t.dropWhile isSpaceOrLine with
    | '#' :: rest => do skipFiller fuel (← skipComment ('#' :: rest))
    | rest => .ok rest

/-! ### Strings -/

/-- The text before the first occurrence of `stop`, and the text after it. -/
def cutAtText? (stop : Text) : Text → Option (Text × Text)
  | [] => if stop.isEmpty then some ([], []) else none
  | c :: t =>
    match dropStart? stop (c :: t) with
    | some rest => some ([], rest)
    | none => (cutAtText? stop t).map fun (a, b) => (c :: a, b)

/-- A string between single quotes, the first of them read already. -/
def readLiteral (t : Text) : Except Fault (Text × Text) :=
  match cutAt? '\'' t with
  | none => .error .malformed
  | some (s, rest) => if s.any isControl then .error .malformed else .ok (s, rest)

/-- The character whose number is written by the next `count` digits in base sixteen. -/
def readNumbered (count : Nat) (t : Text) : Except Fault (Char × Text) :=
  let digits := t.take count
  match digits.mapM hexDigit? with
  | none => .error .malformed
  | some values =>
    let n := ofDigits 16 values
    if digits.length = count ∧ (n < 0xD800 ∨ (0xE000 ≤ n ∧ n ≤ 0x10FFFF)) then
      .ok (Char.ofNat n, t.drop count)
    else .error .malformed

/-- The character of an escape of one letter. -/
def simpleEscape? : Char → Option Char
  | 'b' => some '\x08'
  | 't' => some '\t'
  | 'n' => some '\n'
  | 'f' => some '\x0c'
  | 'r' => some '\r'
  | '"' => some '"'
  | '\\' => some '\\'
  | _ => none

/-- The text after a backslash at the end of a line: blanks up to the line feed, then all blanks and line
feeds. Blanks up to the end of the document also count. -/
def skipFoldedLine (t : Text) : Except Fault Text :=
  match skipSpaces t with
  | [] => .ok []
  | '\n' :: rest => .ok (rest.dropWhile isSpaceOrLine)
  | _ => .error .malformed

/-- What an escape stands for, its backslash read already. In a string of several lines a backslash also
folds a line. -/
def readEscape (multiline : Bool) (t : Text) : Except Fault (Text × Text) :=
  match t with
  | [] => .error .malformed
  | c :: rest =>
    if multiline && (isSpaceOrLine c) then do return ([], ← skipFoldedLine t)
    else if c = 'u' then do
      let (d, rest) ← readNumbered 4 rest
      return ([d], rest)
    else if c = 'U' then do
      let (d, rest) ← readNumbered 8 rest
      return ([d], rest)
    else
      match simpleEscape? c with
      | some d => .ok ([d], rest)
      | none => .error .malformed

/-- A string up to its closing quotes, the opening ones read already; at most `fuel` steps. -/
def readBasic (multiline : Bool) : (fuel : Nat) → Text → Except Fault (Text × Text)
  | 0, _ => .error .malformed
  | _ + 1, [] => .error .malformed
  | fuel + 1, c :: rest =>
    if c = '"' && !multiline then .ok ([], rest)
    else if c = '"' && startsWith rest ['"', '"'] then .ok ([], rest.drop 2)
    else if c = '\\' then do
      let (s, rest) ← readEscape multiline rest
      let (t, rest) ← readBasic multiline fuel rest
      return (s ++ t, rest)
    else if isControl c && !(multiline && c == '\n') then .error .malformed
    else do
      let (t, rest) ← readBasic multiline fuel rest
      return (c :: t, rest)

/-- A string and at most two more quotes that stand directly after its closing ones. -/
def withTrailingQuotes (quote : Char) (s rest : Text) : Text × Text :=
  match rest with
  | c :: d :: rest' =>
    if c = quote then (if d = quote then (s ++ [quote, quote], rest') else (s ++ [quote], d :: rest'))
    else (s, rest)
  | [c] => if c = quote then (s ++ [quote], []) else (s, rest)
  | [] => (s, rest)

/-- The text without one line feed at its start. -/
def dropLineFeed : Text → Text
  | '\n' :: rest => rest
  | t => t

/-- A string of any of the four kinds. -/
def readString (t : Text) : Except Fault (Text × Text) :=
  match t with
  | '"' :: '"' :: '"' :: rest => do
    let (s, rest) ← readBasic true (rest.length + 1) (dropLineFeed rest)
    return withTrailingQuotes '"' s rest
  | '"' :: rest => readBasic false (rest.length + 1) rest
  | '\'' :: '\'' :: '\'' :: rest =>
    match cutAtText? ['\'', '\'', '\''] (dropLineFeed rest) with
    | none => .error .malformed
    | some (s, rest) =>
      if s.any fun c => isControl c && c != '\n' then .error .malformed
      else .ok (withTrailingQuotes '\'' s rest)
  | '\'' :: rest => readLiteral rest
  | _ => .error .malformed

/-! ### Keys -/

/-- A character that may stand in a key without quotes. -/
def isBareKeyChar (c : Char) : Bool := c.isAlphanum || c == '-' || c == '_'

/-- One part of a key. -/
def readKeyPart (t : Text) : Except Fault (Text × Text) :=
  match t with
  | [] => .error .malformed
  | c :: rest =>
    if isBareKeyChar c then .ok (t.takeWhile isBareKeyChar, t.dropWhile isBareKeyChar)
    else if c = '\'' then readLiteral rest
    else if c = '"' then readBasic false (rest.length + 1) rest
    else .error .malformed

/-- The parts of a key that follow its first part; at most `fuel` of them. -/
def readKeyRest : (fuel : Nat) → Text → Except Fault (Key × Text)
  | 0, _ => .error .malformed
  | fuel + 1, t =>
    match t with
    | '.' :: rest => do
      let (part, rest) ← readKeyPart (skipSpaces rest)
      let (parts, rest) ← readKeyRest fuel (skipSpaces rest)
      return (part :: parts, rest)
    | _ => .ok ([], t)

/-- A key, and the text after the blanks behind it. -/
def readKey (t : Text) : Except Fault (Key × Text) := do
  let (part, rest) ← readKeyPart t
  let (parts, rest) ← readKeyRest (rest.length + 1) (skipSpaces rest)
  return (part :: parts, rest)

/-! ### Numbers -/

/-- The digits that follow a first digit, single underscores between them left out. -/
def moreDigits (isDigit : Char → Bool) : Text → Text × Text
  | [] => ([], [])
  | '_' :: c :: t =>
    if isDigit c then
      let (ds, rest) := moreDigits isDigit t
      (c :: ds, rest)
    else ([], '_' :: c :: t)
  | c :: t =>
    if isDigit c then
      let (ds, rest) := moreDigits isDigit t
      (c :: ds, rest)
    else ([], c :: t)

/-- Digits, single underscores between them left out. -/
def readDigits? (isDigit : Char → Bool) : Text → Option (Text × Text)
  | [] => none
  | c :: t =>
    if isDigit c then
      let (ds, rest) := moreDigits isDigit t
      some (c :: ds, rest)
    else none

/-- The number with these digits in a base up to sixteen. -/
def numberOf (base : Nat) (digits : Text) : Nat := ofDigits base (digits.map fun c => (hexDigit? c).getD 0)

/-- A whole number in base sixteen, eight or two, after its leading zero and letter. -/
def readBased? (t : Text) : Option (Int × Text) :=
  let read (base : Nat) (rest : Text) : Option (Int × Text) :=
    (readDigits? (fun c => (hexDigit? c).any (· < base)) rest).map fun (ds, rest) => (numberOf base ds, rest)
  match t with
  | '0' :: 'x' :: rest => read 16 rest
  | '0' :: 'b' :: rest => read 2 rest
  | '0' :: 'o' :: rest => read 8 rest
  | _ => none

/-- The whole part of a decimal number: a zero, or digits of which the first is none. -/
def readWhole? (t : Text) : Option (Text × Text) :=
  match t with
  | '0' :: rest => some (['0'], rest)
  | _ => readDigits? Char.isDigit t

/-- The digits after a point, if a point and digits follow. -/
def readFraction (t : Text) : Option Text × Text :=
  match t with
  | '.' :: rest =>
    match readDigits? Char.isDigit rest with
    | some (ds, rest) => (some ds, rest)
    | none => (none, t)
  | _ => (none, t)

/-- The exponent, if one follows. -/
def readExponent (t : Text) : Option Int × Text :=
  match t with
  | c :: rest =>
    if c = 'e' ∨ c = 'E' then
      let (negative, rest) := match rest with
        | '-' :: r => (true, r)
        | '+' :: r => (false, r)
        | r => (false, r)
      match readDigits? Char.isDigit rest with
      | some (ds, rest) =>
        let n : Int := numberOf 10 ds
        (some (if negative then -n else n), rest)
      | none => (none, t)
    else (none, t)
  | [] => (none, t)

/-- A decimal integer or a number with a fraction or an exponent. -/
def readDecimal? (t : Text) : Option (Except Fault (Value × Text)) := do
  let (negative, body) := match t with
    | '-' :: r => (true, r)
    | '+' :: r => (false, r)
    | r => (false, r)
  let (whole, rest) ← readWhole? body
  let (fraction, rest) := readFraction rest
  let (exponent, rest) := readExponent rest
  match fraction, exponent with
  | none, none =>
    if whole.length > maxDigits then return .error (.integerTooLong whole.length)
    let n : Int := numberOf 10 whole
    return .ok (.integer (if negative then -n else n), rest)
  | _, _ =>
    let digits := fraction.getD []
    return .ok (.real (.ofDecimal negative (numberOf 10 (whole ++ digits)) (exponent.getD 0 - digits.length)), rest)

/-- The names of the infinities and of not-a-number. -/
def readSpecial? (t : Text) : Option (Value × Text) :=
  match t with
  | 'i' :: 'n' :: 'f' :: rest => some (.real (.infinite false), rest)
  | '+' :: 'i' :: 'n' :: 'f' :: rest => some (.real (.infinite false), rest)
  | '-' :: 'i' :: 'n' :: 'f' :: rest => some (.real (.infinite true), rest)
  | 'n' :: 'a' :: 'n' :: rest => some (.real .notANumber, rest)
  | '+' :: 'n' :: 'a' :: 'n' :: rest => some (.real .notANumber, rest)
  | '-' :: 'n' :: 'a' :: 'n' :: rest => some (.real .notANumber, rest)
  | _ => none

/-! ### Dates and times -/

/-- The number of exactly `count` decimal digits between two bounds. -/
def readField? (count low high : Nat) (t : Text) : Option (Nat × Text) :=
  let digits := t.take count
  let n := numberOf 10 digits
  if digits.length = count ∧ digits.all Char.isDigit ∧ low ≤ n ∧ n ≤ high then some (n, t.drop count)
  else none

/-- The millionths of a second after a point, if a point and digits follow; further digits are dropped. -/
def readMicroseconds (t : Text) : Nat × Text :=
  match t with
  | '.' :: rest =>
    let digits := rest.takeWhile Char.isDigit
    if digits.isEmpty then (0, t)
    else
      let kept := digits.take 6
      (numberOf 10 kept * Nat.pow 10 (6 - kept.length), rest.drop digits.length)
  | _ => (0, t)

/-- A time of day. -/
def readTime? (t : Text) : Option (TimeOfDay × Text) := do
  let (hour, rest) ← readField? 2 0 23 t
  let rest ← dropStart? [':'] rest
  let (minute, rest) ← readField? 2 0 59 rest
  let rest ← dropStart? [':'] rest
  let (second, rest) ← readField? 2 0 59 rest
  let (micro, rest) := readMicroseconds rest
  return (⟨hour, minute, second, micro⟩, rest)

/-- An offset from universal time, if one follows. -/
def readOffset (t : Text) : Option Int × Text :=
  let signed (sign : Int) (rest : Text) : Option (Int × Text) := do
    let (hour, rest) ← readField? 2 0 23 rest
    let rest ← dropStart? [':'] rest
    let (minute, rest) ← readField? 2 0 59 rest
    return (sign * (60 * hour + minute : Nat), rest)
  match t with
  | 'Z' :: rest | 'z' :: rest => (some 0, rest)
  | '+' :: rest =>
    match signed 1 rest with
    | some (o, rest) => (some o, rest)
    | none => (none, t)
  | '-' :: rest =>
    match signed (-1) rest with
    | some (o, rest) => (some o, rest)
    | none => (none, t)
  | _ => (none, t)

/-- The digits of a day of the calendar, which may not exist. -/
def readDate? (t : Text) : Option (Date × Text) := do
  let (year, rest) ← readField? 4 0 9999 t
  let rest ← dropStart? ['-'] rest
  let (month, rest) ← readField? 2 1 12 rest
  let rest ← dropStart? ['-'] rest
  let (day, rest) ← readField? 2 1 31 rest
  return (⟨year, month, day⟩, rest)

/-- A day, with a time of day and an offset if they follow, or a time of day alone. -/
def readMoment? (t : Text) : Option (Except Fault (Moment × Text)) :=
  match readDate? t with
  | some (d, rest) =>
    let found : Moment × Text :=
      match rest with
      | c :: after =>
        if c = 'T' ∨ c = 't' ∨ c = ' ' then
          match readTime? after with
          | some (time, rest) =>
            let (offset, rest) := readOffset rest
            (.dateTime d time offset, rest)
          | none => (.date d, rest)
        else (.date d, rest)
      | [] => (.date d, rest)
    some (if d.isValid then .ok found else .error .malformed)
  | none => (readTime? t).map fun (time, rest) => .ok (.time time, rest)

end CodeSnippets.Toml
