import CodeSnippets.Text.Basic

/-!
# Paths

A path is an anchor and a list of parts. Empty parts and parts that name the directory itself are left out
when a text is read as a path, while parts that name the directory above are kept: what they mean depends
on links.

* `Path.ofText`, `Path.text`: paths and their texts.
* `Path.join`: a path below another one; an anchored path stands for itself.
* `Path.name`, `Path.stem`, `Path.suffix`: the last part and its pieces.
* `Path.relativeTo?`: the way from one path down to another.
-/

namespace CodeSnippets

open Text

/-- Where a path starts: at the working directory, at the root, or at the root written with two slashes. -/
inductive Anchor where
  | relative
  | root
  | doubleRoot
deriving DecidableEq, Repr

/-- A path: where it starts and the names on the way. -/
structure Path where
  anchor : Anchor := .relative
  parts : List Text := []
deriving DecidableEq, Repr

/-- The name of a directory itself. -/
def dot : Text := ['.']

/-- The name of the directory above. -/
def dotDot : Text := ['.', '.']

/-- The slashes that a path starts with. -/
def Anchor.text : Anchor → Text
  | .relative => []
  | .root => ['/']
  | .doubleRoot => ['/', '/']

/-- The anchor of a text: exactly two slashes are kept apart from one and from more. -/
def Anchor.ofText (t : Text) : Anchor :=
  match (t.takeWhile (· == '/')).length with
  | 0 => .relative
  | 2 => .doubleRoot
  | _ => .root

namespace Path

/-- The path that a text writes. -/
def ofText (t : Text) : Path where
  anchor := .ofText t
  parts := (pieces '/' t).filter fun p => !p.isEmpty && p ≠ dot

/-- The text of a path; the empty path is written as a dot. -/
def text (p : Path) : Text :=
  match p.anchor, p.parts with
  | .relative, [] => dot
  | anchor, parts => anchor.text ++ joined ['/'] parts

/-- The path that starts at the root, or is anchored otherwise. -/
def isAbsolute (p : Path) : Bool := p.anchor != .relative

/-- A path seen from another one. An anchored path stands for itself. -/
def join (p q : Path) : Path :=
  if q.isAbsolute then q else { p with parts := p.parts ++ q.parts }

/-- The path of a name directly below. -/
def child (p : Path) (name : Text) : Path := { p with parts := p.parts ++ [name] }

/-- The path without its last part. -/
def parent (p : Path) : Path := { p with parts := p.parts.dropLast }

/-- The path and those of all the directories above it, up to its anchor. -/
def selfAndParents (p : Path) : List Path :=
  (List.range (p.parts.length + 1)).map fun i => { p with parts := p.parts.take (p.parts.length - i) }

/-- The last part of a path; an anchor alone has none. -/
def name (p : Path) : Text := p.parts.getLast?.getD []

/-- A name cut before its last dot. A dot at the start or at the end does not cut it. -/
def cutName (name : Text) : Text × Text :=
  match cutAtLast? '.' name with
  | some (before, after) => if before.isEmpty || after.isEmpty then (name, []) else (before, '.' :: after)
  | none => (name, [])

/-- The last part without its suffix. -/
def stem (p : Path) : Text := (cutName p.name).1

/-- The suffix of the last part, its dot included. -/
def suffix (p : Path) : Text := (cutName p.name).2

/-- The name is hidden: it starts with a dot. -/
def isHiddenName (name : Text) : Bool := name.head? == some '.'

/-- The parts by which `p` lies below `base`. -/
def relativeTo? (p base : Path) : Option Path :=
  if p.anchor = base.anchor ∧ base.parts.isPrefixOf p.parts then
    some { anchor := .relative, parts := p.parts.drop base.parts.length }
  else none

/-- Parts in which each one that names the directory above has taken away the one before it; at the root
there is nothing to take away. -/
def collapseParts (absolute : Bool) (parts : List Text) : List Text :=
  parts.foldl (fun done p =>
    if p ≠ dotDot then done ++ [p]
    else if done.isEmpty then (if absolute then [] else [p])
    else if done.getLast? = some dotDot then done ++ [p]
    else done.dropLast) []

/-- The path with parts that name the directory above worked out by name alone. -/
def collapsed (p : Path) : Path := { p with parts := collapseParts p.isAbsolute p.parts }

@[simp] theorem join_anchor_relative (p : Path) (parts : List Text) :
    p.join ⟨.relative, parts⟩ = { p with parts := p.parts ++ parts } := rfl

end Path
end CodeSnippets
