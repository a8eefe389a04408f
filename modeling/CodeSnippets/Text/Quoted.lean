import CodeSnippets.Text.Case
import CodeSnippets.Text.Quoted.Table

/-!
# Quoted text

How a text is shown inside a message: between single quotes, or between double quotes if it holds a
single quote and no double quote, with a backslash before the quote and before a backslash, and with
characters that cannot be printed written by number.
-/

namespace CodeSnippets.Text

/-- The character can be printed as it is. -/
def isPrintable (c : Char) : Bool := !inRanges unprintableRanges c.toNat

/-- One character of a quoted text. -/
def quotedChar (quote c : Char) : Text :=
  if c = quote ∨ c = '\\' then ['\\', c]
  else if c = '\n' then ['\\', 'n']
  else if c = '\r' then ['\\', 'r']
  else if c = '\t' then ['\\', 't']
  else if isPrintable c then [c]
  else if c.toNat < 0x100 then ['\\', 'x'] ++ hex 2 c.toNat
  else if c.toNat < 0x10000 then ['\\', 'u'] ++ hex 4 c.toNat
  else ['\\', 'U'] ++ hex 8 c.toNat

/-- The quote that a text is put in. -/
def quoteFor (t : Text) : Char := if t.contains '\'' && !t.contains '"' then '"' else '\''

/-- The text in quotes. -/
def quoted (t : Text) : Text :=
  let quote := quoteFor t
  quote :: (t.flatMap (quotedChar quote)) ++ [quote]

end CodeSnippets.Text
