import CodeSnippets.Text.Utf8

/-!
# Scripts

A script is a file that starts with the two characters `#!`. The rest of its first line names the program that runs
it and may hold one argument for that program, spaces and tabs around both left out. The system looks at the first
bytes of a file only: a line that is longer must at least show where the name of the program ends.

* `Script.ofBytes?`: the program and the argument that a script names.
-/

namespace CodeSnippets

open Text

/-- What the first line of a script asks for. -/
structure Script where
  /-- The path of the program that runs the script. -/
  program : Text
  /-- What the program gets before the path of the script. -/
  argument : Option Text
deriving DecidableEq, Repr

namespace Script

/-- Number of bytes at the start of a file that the system looks at. -/
def headSize : Nat := 256

/-- A space or a tab. -/
def isGap (b : UInt8) : Bool := b == 32 || b == 9

/-- A byte that ends the name of a program. -/
def endsName (b : UInt8) : Bool := isGap b || b == 0

/-- The text of bytes; those that write no text stand for characters with their numbers. -/
def textOf (bytes : List UInt8) : Text :=
  match Utf8.decode bytes with
  | .ok t => t
  | .error _ => bytes.map fun b => Char.ofNat b.toNat

/-- The first bytes of a file after the two characters that make it a script, as many as the system looks at; where
the file ends before, zeros follow. -/
def head? (bytes : List UInt8) : Option (List UInt8) :=
  match (bytes ++ List.replicate headSize 0).take headSize with
  | 35 :: 33 :: rest => some rest
  | _ => none

/-- The line that names the program. Where no line feed ends it within the bytes that are looked at, the name itself
must end there, and the last byte does not count. -/
def line? (head : List UInt8) : Option (List UInt8) :=
  let line := head.takeWhile fun b => b != 10 && b != 0
  if head[line.length]? = some 10 then some line
  else if (head.dropWhile isGap).any endsName then some head.dropLast
  else none

/-- The program and the argument that a line names. -/
def ofLine? (line : List UInt8) : Option Script :=
  let inner := (line.reverse.dropWhile isGap).reverse.dropWhile isGap
  if inner.isEmpty then none
  else
    let name := inner.takeWhile (!endsName ·)
    let rest := inner.drop name.length
    some {
      program := textOf name
      argument := if rest.head?.any isGap then some (textOf ((rest.dropWhile isGap).takeWhile (· != 0))) else none }

/-- The program and the argument that a file names in its first line, if it is a script. -/
def ofBytes? (bytes : List UInt8) : Option Script := do ofLine? (← line? (← head? bytes))

end Script
end CodeSnippets
