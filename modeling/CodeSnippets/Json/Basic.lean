import CodeSnippets.Text.Digit
import CodeSnippets.Named

/-!
# JSON values and their text

* `Json.render`: the text of a value, on one line or with one item on each line.
* `Json.quotedText`: a text between double quotes. Quotes, backslashes and control characters are escaped
  and every other character stands for itself.
* `Json.integers`, `Json.isLong`: the integers in a value, and which of them are too long to be written.
-/

namespace CodeSnippets

open Text

/-- A JSON value whose numbers are integers. The fields of an object keep their order. -/
inductive Json where
  | null
  | boolean (b : Bool)
  | number (n : Int)
  | text (t : Text)
  | array (items : List Json)
  | object (fields : List (Text × Json))
deriving Repr

namespace Json

/-- One character between the quotes. -/
def escapedChar (c : Char) : Text :=
  if c = '"' then ['\\', '"']
  else if c = '\\' then ['\\', '\\']
  else if c = '\n' then ['\\', 'n']
  else if c = '\r' then ['\\', 'r']
  else if c = '\t' then ['\\', 't']
  else if c = '\x08' then ['\\', 'b']
  else if c = '\x0c' then ['\\', 'f']
  else if c.toNat < 0x20 then '\\' :: 'u' :: hex 4 c.toNat
  else [c]

/-- A text between double quotes. -/
def quotedText (t : Text) : Text := '"' :: t.flatMap escapedChar ++ ['"']

/-- How a value is laid out: on one line, or with one item on each line, each level of nesting indented
by a number of spaces. -/
inductive Layout where
  | compact
  | indented (width : Nat)
deriving DecidableEq, Repr

/-- Why a level of nesting cannot be indented by a number of spaces. -/
inductive WidthError where
  /-- The number is none of 64 bits. -/
  | tooLarge
  /-- There is no room for so many spaces. -/
  | outOfMemory
deriving DecidableEq, Repr

/-- Why it cannot be indented, in words. Of a lack of room nothing is said. -/
def WidthError.message : WidthError → String
  | .tooLarge => "cannot fit 'int' into an index-sized integer"
  | .outOfMemory => ""

/-- Why a value cannot be written. -/
inductive WriteError where
  | width (e : WidthError)
  /-- An integer in the value has too many digits. -/
  | longInteger
deriving DecidableEq, Repr

/-- Bound of the widths: they are numbers of 64 bits with a sign. -/
def widthBound : Int := 0x8000000000000000

/-- Number of characters for which there is room. -/
def room : Int := 0x1000000000

/-- A width of zero means one line; a negative one means lines without indentation. -/
def Layout.ofIndent (width : Int) : Except WidthError Layout :=
  if width = 0 then .ok .compact
  else if width < -widthBound ∨ widthBound ≤ width then .error .tooLarge
  else if room ≤ width then .error .outOfMemory
  else .ok (.indented width.toNat)

/-- What stands before an item at a level of nesting, and before the bracket that closes the level above. -/
def Layout.lineBreak : Layout → Nat → Text
  | .compact, _ => []
  | .indented width, level => '\n' :: List.replicate (width * level) ' '

/-- What stands between two items at a level of nesting. -/
def Layout.separator : Layout → Nat → Text
  | .compact, _ => [',', ' ']
  | .indented width, level => ',' :: Layout.lineBreak (.indented width) level

mutual

/-- The text of a value at a level of nesting. -/
def renderAt (layout : Layout) (level : Nat) : Json → Text
  | .null => ['n', 'u', 'l', 'l']
  | .boolean true => ['t', 'r', 'u', 'e']
  | .boolean false => ['f', 'a', 'l', 's', 'e']
  | .number n => ofInt n
  | .text t => quotedText t
  | .array [] => ['[', ']']
  | .array (x :: xs) =>
    '[' :: layout.lineBreak (level + 1) ++ renderAt layout (level + 1) x ++
      renderItems layout (level + 1) xs ++ layout.lineBreak level ++ [']']
  | .object [] => ['\x7b', '\x7d']
  | .object ((name, x) :: fields) =>
    '\x7b' :: layout.lineBreak (level + 1) ++ quotedText name ++ [':', ' '] ++ renderAt layout (level + 1) x ++
      renderFields layout (level + 1) fields ++ layout.lineBreak level ++ ['\x7d']

/-- The items after the first, each after a separator. -/
def renderItems (layout : Layout) (level : Nat) : List Json → Text
  | [] => []
  | x :: xs => layout.separator level ++ renderAt layout level x ++ renderItems layout level xs

/-- The fields after the first, each after a separator. -/
def renderFields (layout : Layout) (level : Nat) : List (Text × Json) → Text
  | [] => []
  | (name, x) :: fields =>
    layout.separator level ++ quotedText name ++ [':', ' '] ++ renderAt layout level x ++
      renderFields layout level fields

end

mutual

/-- The integers in a value, in order. -/
def integers : Json → List Int
  | .number n => [n]
  | .array xs => itemIntegers xs
  | .object fields => fieldIntegers fields
  | _ => []

/-- The integers in the items of an array. -/
def itemIntegers : List Json → List Int
  | [] => []
  | x :: xs => integers x ++ itemIntegers xs

/-- The integers in the fields of an object. -/
def fieldIntegers : List (Text × Json) → List Int
  | [] => []
  | (_, x) :: fields => integers x ++ fieldIntegers fields

end

/-- An integer has more digits than are written, its sign not counted. -/
def isLong (n : Int) : Bool := maxDigits < (ofNat n.natAbs).length

/-- The text of a value. -/
def render (layout : Layout) (x : Json) : Text := renderAt layout 0 x

/-- A list of texts as an array. -/
def ofTexts (ts : List Text) : Json := .array (ts.map .text)

/-- The value of a field of an object; the last one counts if there are several. -/
def field? : Json → Text → Option Json
  | .object fields, name => (fields.reverse.find? (·.1 = name)).map (·.2)
  | _, _ => none

end Json
end CodeSnippets
