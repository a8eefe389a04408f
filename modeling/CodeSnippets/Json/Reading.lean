import CodeSnippets.Json.Basic
import CodeSnippets.Text.Digit

/-!
# Reading JSON

The value that a JSON text writes. Numbers with a fraction or an exponent are refused, and so are
escapes of surrogates that do not come in pairs.
-/

namespace CodeSnippets.Json

open Text

/-- The text without the white space that JSON allows between tokens. -/
def skipBlanks (t : Text) : Text :=
  t.dropWhile fun c => c == ' ' || c == '\t' || c == '\n' || c == '\r'

/-- The number of four digits in base sixteen. -/
def hexUnit? (a b c d : Char) : Option Nat := do
  return ofDigits 16 [← hexDigit? a, ← hexDigit? b, ← hexDigit? c, ← hexDigit? d]

/-- The unit is the first of a surrogate pair. -/
def isHighSurrogate (n : Nat) : Bool := 0xD800 ≤ n && n < 0xDC00

/-- The unit is the second of a surrogate pair. -/
def isLowSurrogate (n : Nat) : Bool := 0xDC00 ≤ n && n < 0xE000

/-- The character of an escape of one letter. -/
def simpleEscape? : Char → Option Char
  | '"' => some '"'
  | '\\' => some '\\'
  | '/' => some '/'
  | 'b' => some '\x08'
  | 'f' => some '\x0c'
  | 'n' => some '\n'
  | 'r' => some '\r'
  | 't' => some '\t'
  | _ => none

/-- The text up to the closing quote, and what follows the quote. -/
def readText? : Text → Option (Text × Text)
  | [] => none
  | '"' :: rest => some ([], rest)
  | '\\' :: 'u' :: a :: b :: c :: d :: rest => do
    let unit ← hexUnit? a b c d
    if isLowSurrogate unit then none
    else if isHighSurrogate unit then
      match rest with
      | '\\' :: 'u' :: e :: f :: g :: h :: rest =>
        let second ← hexUnit? e f g h
        if isLowSurrogate second then
          let (t, rest) ← readText? rest
          return (Char.ofNat (0x10000 + (unit - 0xD800) * 0x400 + (second - 0xDC00)) :: t, rest)
        else none
      | _ => none
    else
      let (t, rest) ← readText? rest
      return (Char.ofNat unit :: t, rest)
  | '\\' :: c :: rest => do
    let c ← simpleEscape? c
    let (t, rest) ← readText? rest
    return (c :: t, rest)
  | c :: rest =>
    if c.toNat < 0x20 then none
    else do
      let (t, rest) ← readText? rest
      return (c :: t, rest)

/-- The natural number at the start of a text, without leading zeros, and what follows it. -/
def readNat? (t : Text) : Option (Nat × Text) :=
  let digits := t.takeWhile Char.isDigit
  let rest := t.dropWhile Char.isDigit
  if digits.isEmpty || (digits.head? == some '0' && 1 < digits.length) then none
  else if rest.head? == some '.' || rest.head? == some 'e' || rest.head? == some 'E' then none
  else some (ofDigits 10 (digits.map fun c => c.toNat - 48), rest)

mutual

/-- The value at the start of a text, and what follows it; `fuel` bounds the number of steps. -/
def readValue? : (fuel : Nat) → Text → Option (Json × Text)
  | 0, _ => none
  | fuel + 1, t =>
    match skipBlanks t with
    | '"' :: rest => (readText? rest).map fun (s, rest) => (.text s, rest)
    | '[' :: rest =>
      match skipBlanks rest with
      | ']' :: rest => some (.array [], rest)
      | _ => do
        let (x, rest) ← readValue? fuel rest
        let (xs, rest) ← readItems? fuel (skipBlanks rest)
        return (.array (x :: xs), rest)
    | '\x7b' :: rest =>
      match skipBlanks rest with
      | '\x7d' :: rest => some (.object [], rest)
      | rest => do
        let (f, rest) ← readField? fuel rest
        let (fs, rest) ← readFields? fuel (skipBlanks rest)
        return (.object (f :: fs), rest)
    | '-' :: rest => (readNat? rest).map fun (n, rest) => (.number (-n), rest)
    | rest =>
      match dropStart? ['n', 'u', 'l', 'l'] rest, dropStart? ['t', 'r', 'u', 'e'] rest,
          dropStart? ['f', 'a', 'l', 's', 'e'] rest with
      | some rest, _, _ => some (.null, rest)
      | _, some rest, _ => some (.boolean true, rest)
      | _, _, some rest => some (.boolean false, rest)
      | _, _, _ => (readNat? rest).map fun (n, rest) => (.number n, rest)

/-- The items after the first one, up to the closing bracket. -/
def readItems? : (fuel : Nat) → Text → Option (List Json × Text)
  | 0, _ => none
  | fuel + 1, t =>
    match t with
    | ']' :: rest => some ([], rest)
    | ',' :: rest => do
      let (x, rest) ← readValue? fuel rest
      let (xs, rest) ← readItems? fuel (skipBlanks rest)
      return (x :: xs, rest)
    | _ => none

/-- A name, a colon and a value. -/
def readField? : (fuel : Nat) → Text → Option ((Text × Json) × Text)
  | 0, _ => none
  | fuel + 1, t =>
    match skipBlanks t with
    | '"' :: rest => do
      let (name, rest) ← readText? rest
      match skipBlanks rest with
      | ':' :: rest =>
        let (x, rest) ← readValue? fuel rest
        return ((name, x), rest)
      | _ => none
    | _ => none

/-- The fields after the first one, up to the closing brace. -/
def readFields? : (fuel : Nat) → Text → Option (List (Text × Json) × Text)
  | 0, _ => none
  | fuel + 1, t =>
    match t with
    | '\x7d' :: rest => some ([], rest)
    | ',' :: rest => do
      let (f, rest) ← readField? fuel rest
      let (fs, rest) ← readFields? fuel (skipBlanks rest)
      return (f :: fs, rest)
    | _ => none

end

/-- The value that a text writes; white space may stand around it. -/
def read? (t : Text) : Option Json := do
  let (x, rest) ← readValue? (2 * t.length + 2) t
  if (skipBlanks rest).isEmpty then some x else none

end CodeSnippets.Json
