import CodeSnippets.Toml.Lexeme
import CodeSnippets.Text.LineEnds

/-!
# TOML documents

Values that hold other values, and the statements of a document: a key with its value, the header of a
table, the header of one more table of an array.

A table that a header or a dotted key has opened may not be opened again by a header. An array or table
written in brackets or braces is sealed: nothing may be added to it. Such arrays and tables may hold one
another only as deep as there is room.

* `Document.read`: the root table of the document that a text writes.
-/

namespace CodeSnippets.Toml

open Text

/-- A key with a value or, for a header, with the change it brings about; tables on the way are made when they
are not there. Inside an array of tables the last one is meant, if `throughArrays`. -/
def updateNest (throughArrays : Bool) (change : Named Value → Option (Named Value)) :
    Key → Named Value → Option (Named Value)
  | [], fields => change fields
  | part :: key, fields =>
    match fields.get? part with
    | none => (updateNest throughArrays change key []).map fun inner => fields.put part (.table inner)
    | some (.table inner) => (updateNest throughArrays change key inner).map fun inner => fields.put part (.table inner)
    | some (.list xs) =>
      match throughArrays, xs.getLast? with
      | true, some (.table inner) =>
        (updateNest throughArrays change key inner).map fun inner =>
          fields.put part (.list (xs.dropLast ++ [.table inner]))
      | _, _ => none
    | some _ => none

/-- Gives a key a value in a table that does not have it. -/
def addField (name : Text) (x : Value) (fields : Named Value) : Option (Named Value) :=
  match fields.get? name with
  | some _ => none
  | none => some (fields.put name x)

/-- Adds an empty table at the end of an array of tables, which is made when it is not there. -/
def addTable (name : Text) (fields : Named Value) : Option (Named Value) :=
  match fields.get? name with
  | none => some (fields.put name (.list [.table []]))
  | some (.list xs) => some (fields.put name (.list (xs ++ [.table []])))
  | some _ => none

/-- The key starts with one of the sealed keys. -/
def isSealed (sealedKeys : List Key) (key : Key) : Bool := sealedKeys.any (·.isPrefixOf key)

/-- An array or a table that was written in brackets or braces. -/
def isNest : Value → Bool
  | .list _ | .table _ => true
  | _ => false

/-- A key without its last part, and its last part. -/
def splitKey (key : Key) : Key × Text := (key.dropLast, key.getLast?.getD [])

/-- Adds a key and its value to a table in braces, in which some keys are sealed. -/
def addInline (sealedKeys : List Key) (fields : Named Value) (key : Key) (x : Value) : Except Fault (Named Value) :=
  let (parents, name) := splitKey key
  if isSealed sealedKeys key then .error .malformed
  else
    match updateNest false (addField name x) parents fields with
    | some fields => .ok fields
    | none => .error .malformed

/-- How much nesting there is room for. An array takes two units of it, a table in braces three. -/
def nestRoom : Nat := 980

/-- The room inside a value that takes so many units, if there is so much. -/
def roomWithin (units room : Nat) : Except Fault Nat :=
  if units ≤ room then .ok (room - units) else .error .tooDeep

mutual

/-- The value at the start of a text, which may nest as deep as there is `room`; `fuel` bounds the number of
steps. -/
def readValue (room : Nat) : (fuel : Nat) → Text → Except Fault (Value × Text)
  | 0, _ => .error .malformed
  | fuel + 1, t =>
    match t with
    | [] => .error .malformed
    | c :: rest =>
      if c = '"' ∨ c = '\'' then do
        let (s, rest) ← readString t
        return (.text s, rest)
      else if c = '[' then do
        let within ← roomWithin 2 room
        let rest ← skipFiller (rest.length + 1) rest
        match rest with
        | ']' :: rest => return (.list [], rest)
        | _ =>
          let (xs, rest) ← readItems within fuel rest
          return (.list xs, rest)
      else if c = '\x7b' then do
        let within ← roomWithin 3 room
        match skipSpaces rest with
        | '\x7d' :: rest => return (.table [], rest)
        | rest =>
          let (fields, rest) ← readFields within fuel [] [] rest
          return (.table fields, rest)
      else
        match dropStart? ['t', 'r', 'u', 'e'] t, dropStart? ['f', 'a', 'l', 's', 'e'] t with
        | some rest, _ => .ok (.boolean true, rest)
        | _, some rest => .ok (.boolean false, rest)
        | none, none =>
          match readMoment? t with
          | some found => do
            let (m, rest) ← found
            return (.moment m, rest)
          | none =>
            match readBased? t with
            | some (n, rest) => .ok (.integer n, rest)
            | none =>
              match readDecimal? t with
              | some found => found
              | none =>
                match readSpecial? t with
                | some found => .ok found
                | none => .error .malformed

/-- The items of an array up to its closing bracket. -/
def readItems (room : Nat) : (fuel : Nat) → Text → Except Fault ((List Value) × Text)
  | 0, _ => .error .malformed
  | fuel + 1, t => do
    let (x, rest) ← readValue room fuel t
    let rest ← skipFiller (rest.length + 1) rest
    match rest with
    | ']' :: rest => return ([x], rest)
    | ',' :: rest =>
      let rest ← skipFiller (rest.length + 1) rest
      match rest with
      | ']' :: rest => return ([x], rest)
      | _ =>
        let (xs, rest) ← readItems room fuel rest
        return (x :: xs, rest)
    | _ => .error .malformed

/-- The fields of a table in braces up to its closing brace, added to the ones read before. -/
def readFields (room : Nat) : (fuel : Nat) → List Key → Named Value → Text → Except Fault ((Named Value) × Text)
  | 0, _, _, _ => .error .malformed
  | fuel + 1, sealedKeys, fields, t => do
    let (key, rest) ← readKey t
    match rest with
    | '=' :: rest =>
      let (x, rest) ← readValue room fuel (skipSpaces rest)
      let fields ← addInline sealedKeys fields key x
      match skipSpaces rest with
      | '\x7d' :: rest => return (fields, rest)
      | ',' :: rest => readFields room fuel (if isNest x then key :: sealedKeys else sealedKeys) fields (skipSpaces rest)
      | _ => .error .malformed
    | _ => .error .malformed

end

/-- A document while its statements are read. -/
structure Document where
  /-- The tables and values read so far. -/
  root : Named Value := []
  /-- The keys of arrays and tables to which nothing may be added. -/
  sealedKeys : List Key := []
  /-- The keys of tables that a header may not open. -/
  opened : List Key := []
  /-- The keys of tables opened by dotted keys since the last header; the next header closes them. -/
  pending : List Key := []
  /-- The key of the last header. -/
  header : Key := []

namespace Document

/-- Forgets what is known of a key and of the keys that start with it. -/
def forget (d : Document) (key : Key) : Document :=
  { d with
    sealedKeys := d.sealedKeys.filter fun k => !key.isPrefixOf k
    opened := d.opened.filter fun k => !key.isPrefixOf k }

/-- The document with another root, if there is one. -/
def withRoot (d : Document) : Option (Named Value) → Except Fault Document
  | some root => .ok { d with root }
  | none => .error .malformed

/-- A header opens a table. -/
def openTable (d : Document) (key : Key) : Except Fault Document :=
  if d.opened.contains key || isSealed d.sealedKeys key then .error .malformed
  else { d with opened := key :: d.opened, header := key }.withRoot (updateNest true some key d.root)

/-- A header adds a table to an array of tables. -/
def openItem (d : Document) (key : Key) : Except Fault Document :=
  if isSealed d.sealedKeys key then .error .malformed
  else
    let (parents, name) := splitKey key
    let forgotten := d.forget key
    { forgotten with opened := key :: forgotten.opened, header := key }.withRoot
      (updateNest true (addTable name) parents d.root)

/-- The keys of the tables that a dotted key passes through, below the header. -/
def passed (header key : Key) : List Key :=
  (List.range (key.length - 1)).map fun i => header ++ key.take (i + 1)

/-- A key is given its value. -/
def assign (d : Document) (key : Key) (x : Value) : Except Fault Document :=
  let (parents, name) := splitKey key
  -- A dotted key may add to tables that dotted keys have opened, but not to those of a header.
  let through := passed d.header key
  if through.any d.opened.contains || isSealed d.sealedKeys (d.header ++ parents) then .error .malformed
  else
    { d with
      pending := through ++ d.pending
      sealedKeys := if isNest x then (d.header ++ key) :: d.sealedKeys else d.sealedKeys }.withRoot
      (updateNest true (addField name x) (d.header ++ parents) d.root)

/-- The tables opened by dotted keys may not be opened by a header any more. -/
def settle (d : Document) : Document := { d with opened := d.pending ++ d.opened, pending := [] }

/-- Reads a header, its first bracket read already. -/
def readHeader (d : Document) (t : Text) : Except Fault (Document × Text) :=
  match t with
  | '[' :: rest => do
    let (key, rest) ← readKey (skipSpaces rest)
    let d ← d.settle.openItem key
    match rest with
    | ']' :: ']' :: rest => return (d, rest)
    | _ => .error .malformed
  | rest => do
    let (key, rest) ← readKey (skipSpaces rest)
    let d ← d.settle.openTable key
    match rest with
    | ']' :: rest => return (d, rest)
    | _ => .error .malformed

/-- Reads a key and its value. -/
def readAssignment (d : Document) (t : Text) : Except Fault (Document × Text) := do
  let (key, rest) ← readKey t
  match rest with
  | '=' :: rest =>
    let (x, rest) ← readValue nestRoom (2 * rest.length + 2) (skipSpaces rest)
    return (← d.assign key x, rest)
  | _ => .error .malformed

/-- Reads what a line holds besides blanks and a comment. -/
def readStatement (d : Document) (t : Text) : Except Fault (Document × Text) :=
  match t with
  | [] => .ok (d, [])
  | c :: rest =>
    if c = '\n' ∨ c = '#' then .ok (d, t)
    else if c = '[' then d.readHeader rest
    else if isBareKeyChar c ∨ c = '"' ∨ c = '\'' then d.readAssignment t
    else .error .malformed

/-- Reads the statements of a text, one a line; at most `fuel` lines. -/
def readLines : (fuel : Nat) → Document → Text → Except Fault Document
  | 0, d, _ => .ok d
  | fuel + 1, d, t => do
    let (d, rest) ← d.readStatement (skipSpaces t)
    match ← skipComment (skipSpaces rest) with
    | [] => .ok d
    | '\n' :: rest => readLines fuel d rest
    | _ => .error .malformed

/-- The root table of the document that a text writes. -/
def read (t : Text) : Except Fault (Named Value) := do
  let t := foldLineEnds t
  return (← readLines (t.length + 1) {} t).root

end Document
end CodeSnippets.Toml
