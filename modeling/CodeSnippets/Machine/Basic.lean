import CodeSnippets.Machine.Errno
import CodeSnippets.Machine.Node
import CodeSnippets.Path

/-!
# Machines

A machine is all that the program can see and change: the file tree, the working directory, the
environment, the mask for new files, the runs of the documentation compiler, and the steps of writing that
the system will refuse.

* `Machine.locate`: the node that a path leads to, links followed on the way.
* `Machine.status`: the node itself.
* `Machine.probe`: the node, if there is one.
-/

namespace CodeSnippets

open Text

/-- A step of writing a file that the system may refuse. -/
inductive WriteStep where
  | create
  | write
  | sync
  | setMode
  | replace
deriving DecidableEq, Repr

/-- Where the program stands in a file tree: the names on the way there, no link among them, and how many of the
last of these directories have been removed since. -/
structure Position where
  location : Location := []
  removed : Nat := 0
deriving DecidableEq, Repr

namespace Position

/-- The directory above. That of a removed directory stays the one that it was in. -/
def up (p : Position) : Position where
  location := p.location.dropLast
  removed := p.removed - 1

/-- The position after the directory at a location has been removed. -/
def without (p : Position) (location : Location) : Position :=
  if location.isPrefixOf p.location then
    { p with removed := max p.removed (p.location.length + 1 - location.length) }
  else p

/-- Walks names from a removed directory, in which there are none, until a directory that is still there has been
reached. -/
def leave (p : Position) : List Text → Except Errno (Position × List Text)
  | [] => .ok (p, [])
  | name :: rest =>
    if p.removed = 0 then .ok (p, name :: rest)
    else if name.isEmpty ∨ name = dot then leave p rest
    else if name = dotDot then leave p.up rest
    else .error .noEntry

end Position

/-- What the program can see and change. -/
structure Machine where
  /-- The root of the file tree. -/
  root : Node := .directory [] 0o755
  /-- The working directory. -/
  cwd : Position := {}
  /-- The permission bits that new files do not get. -/
  umask : Nat := 0o022
  /-- The variables of the environment. -/
  environment : Named Text := []
  /-- The home directories of the users. -/
  homes : Named Text := []
  /-- The user who runs the program. -/
  user : Text := ['r', 'o', 'o', 't']
  /-- The runs of the documentation compiler so far: the path it was started by and its arguments. -/
  runs : List (List Text) := []
  /-- How long a run of the compiler takes, in hundredths of a second. -/
  runTime : Nat := 0
  /-- The steps of writing that the system refuses. -/
  refusal : WriteStep → Option Errno := fun _ => none
  /-- The numbers that are drawn for the names of new files, one after the other. -/
  draws : Nat → Nat := (· + 2718281828459)

namespace Machine

/-- Number of links that the system follows for one path. -/
def maxLinks : Nat := 40

/-- Number of bytes of a name. -/
def maxNameSize : Nat := 255

/-- Number of bytes of a path. -/
def maxPathSize : Nat := 4095

/-- The path starts at the root. -/
def startsAtRoot (raw : Text) : Bool := raw.head? == some '/'

/-- The names of a path in the form the system reads it. A slash at the end asks for a directory, which an empty last
name stands for. -/
def steps (raw : Text) : List Text :=
  (pieces '/' raw).filter (!·.isEmpty) ++ (if raw.getLast? = some '/' then [[]] else [])

/-- How far a path has been walked: to its end, or to a link in a directory and the names after it. -/
inductive Walk where
  | arrived (place : Location)
  | atLink (directory : Location) (target : Text) (rest : List Text)

/-- Walks names from a location up to the first link that has to be followed. The last name is looked
through only if `followLast`. -/
def walk (root : Node) (followLast : Bool) : Location → List Text → Except Errno Walk
  | here, [] => .ok (.arrived here)
  | here, name :: rest =>
    match root.get? here with
    | some (.directory entries mode) =>
      if name.isEmpty then walk root followLast here rest
      else if !(Node.directory entries mode).mayRun then .error .denied
      else if name = dot then walk root followLast here rest
      else if name = dotDot then walk root followLast here.dropLast rest
      else if maxNameSize < Utf8.size name then .error .nameTooLong
      else
        match Named.get? entries name with
        | none => .error .noEntry
        | some (.link target) =>
          if rest.isEmpty && !followLast then .ok (.arrived (here ++ [name]))
          else .ok (.atLink here target rest)
        | some _ => walk root followLast (here ++ [name]) rest
    | _ => .error .notDirectory

/-- Walks names from a location and follows at most `links` links. -/
def follow (root : Node) (followLast : Bool) : (links : Nat) → Location → List Text → Except Errno Location
  | links, here, names =>
    match walk root followLast here names with
    | .error e => .error e
    | .ok (.arrived place) => .ok place
    | .ok (.atLink directory target rest) =>
      match links with
      | 0 => .error .tooManyLinks
      | links + 1 =>
        follow root followLast links (if startsAtRoot target then [] else directory) (steps target ++ rest)

/-- The position that a path leads to. -/
def locate (m : Machine) (raw : Text) (followLast : Bool) : Except LookupError Position :=
  if raw.contains '\x00' then .error .nullCharacter
  else if raw.isEmpty then .error (.system .noEntry)
  else if maxPathSize < Utf8.size raw then .error (.system .nameTooLong)
  else
    match (if startsAtRoot raw then {} else m.cwd).leave (steps raw) with
    | .error errno => .error (.system errno)
    | .ok (start, names) =>
      if start.removed = 0 then
        match follow m.root followLast maxLinks start.location names with
        | .error errno => .error (.system errno)
        | .ok location => .ok { location }
      else .ok start

/-- The node at a position. A removed directory is still a directory, with nothing in it. -/
def nodeAt? (m : Machine) (p : Position) : Option Node :=
  if p.removed = 0 then m.root.get? p.location else some (.directory [] 0o755)

/-- The node that a path leads to. -/
def status (m : Machine) (raw : Text) (followLast : Bool) : Except LookupError Node := do
  match m.nodeAt? (← m.locate raw followLast) with
  | some n => .ok n
  | none => .error (.system .noEntry)

/-- The node that a path leads to, if there is one; errors that do not mean its absence remain. -/
def probe (m : Machine) (p : Path) (followLast : Bool) : Except SystemError (Option Node) :=
  match m.status p.text followLast with
  | .ok n => .ok (some n)
  | .error .nullCharacter => .ok none
  | .error (.system errno) => if errno.meansAbsent then .ok none else .error { errno, path := p.text }

/-- There is something at a path. -/
def isThere (m : Machine) (p : Path) : Except SystemError Bool := (m.probe p true).map (·.isSome)

/-- The path leads to a regular file. -/
def isRegular (m : Machine) (p : Path) : Except SystemError Bool := (m.probe p true).map (·.any Node.isRegular)

/-- The path leads to a directory. -/
def isDirectory (m : Machine) (p : Path) : Except SystemError Bool :=
  (m.probe p true).map (·.any Node.isDirectory)

/-- The last name of the path is a link. -/
def isLink (m : Machine) (p : Path) : Except SystemError Bool := (m.probe p false).map (·.any Node.isLink)

/-- The path, or one of the directories above it by name, is a link; what cannot be looked at is none. -/
def passesLink (m : Machine) (p : Path) : Bool :=
  p.selfAndParents.any fun q =>
    match m.status q.text false with
    | .ok n => n.isLink
    | .error _ => false

/-- The working directory as a path from the root; a removed one has none. -/
def workingDirectory (m : Machine) : Except SystemError Path :=
  if m.cwd.removed = 0 then .ok ⟨.root, m.cwd.location⟩ else .error { errno := .noEntry, path := none }

/-- The path from the root, parts that name the directory above worked out by name alone. -/
def absolute (m : Machine) (p : Path) : Except SystemError Path := do
  if p.isAbsolute then return p.collapsed
  return ((← m.workingDirectory).join p).collapsed

/-- The machine with another working directory. -/
def enter (m : Machine) (p : Path) : Except LookupError Machine := do
  let cwd ← m.locate p.text true
  match m.nodeAt? cwd with
  | some n =>
    if !n.isDirectory then .error (.system .notDirectory)
    else if !n.mayRun then .error (.system .denied)
    else .ok { m with cwd }
  | none => .error (.system .notDirectory)

/-- The machine without the node at a location. -/
def remove (m : Machine) (location : Location) : Machine :=
  { m with root := m.root.remove location, cwd := m.cwd.without location }

/-- A variable of the environment. -/
def setting? (m : Machine) (name : Text) : Option Text := m.environment.get? name

/-- The machine with another node at a location. -/
def place (m : Machine) (location : Location) (n : Node) : Machine := { m with root := m.root.put n location }

/-- Sets the mask for new files; gives the one that was set before. -/
def swapUmask (m : Machine) (umask : Nat) : Nat × Machine := (m.umask, { m with umask })

/-- The home directory of the user who is named, or of the one who runs the program if nobody is. -/
def home? (m : Machine) (name : Text) : Option Text :=
  if name.isEmpty then m.setting? "HOME".toList <|> m.homes.get? m.user else m.homes.get? name

/-- The path with a leading tilde, and the name after it, replaced by a home directory. -/
def expandHome (m : Machine) (p : Path) : Except Fault Path :=
  match p.anchor, p.parts with
  | .relative, ('~' :: name) :: rest =>
    match m.home? name with
    | none => .error (if name.contains '\x00' then .nullCharacter else .unknownHome)
    | some home =>
      let home := (home.reverse.dropWhile (· == '/')).reverse
      -- A home directory that starts with a tilde itself is none.
      if home.head? = some '~' then .error .unknownHome
      else
        let start := if home.isEmpty then ⟨.root, []⟩ else Path.ofText home
        .ok { start with parts := start.parts ++ rest }
  | _, _ => .ok p

end Machine
end CodeSnippets
