import CodeSnippets.Machine.Basic

/-!
# Resolution

The path without links that a path means, found name by name: each name is looked at, links are replaced by
what they lead to, and a name for the directory above takes away the name before it. Where `strict`, every
name must be there; otherwise what is not there is taken as it stands.

* `Machine.resolveStrict`, `Machine.resolve`: the resolved path, from the root.
-/

namespace CodeSnippets

open Text

/-- Why a path cannot be resolved. -/
inductive ResolutionError where
  | nullCharacter
  | loop (path : Text)
  /-- Too many links are followed one inside the other. -/
  | tooDeep
  | system (e : SystemError)
deriving DecidableEq, Repr

/-- The fault of a failed resolution. -/
def ResolutionError.fault : ResolutionError → Fault
  | .nullCharacter => .nullCharacter
  | .loop path => .linkLoop path
  | .tooDeep => .tooDeep
  | .system e => .system e

/-- How far a resolution has come. -/
structure Resolver where
  /-- The path resolved so far. -/
  path : Path := {}
  /-- The names that come next, empty ones included. -/
  names : List Text
  /-- The links that are being followed, as they are written, the last one first, with the names that come after
  each. -/
  following : List (String × List Text) := []
  /-- The links that have been followed, as they are written, with what they lead to. -/
  known : List (String × Path) := []

namespace Resolver

/-- The path one directory up, by name. -/
def up (p : Path) : Path :=
  if p.isAbsolute then p.parent
  else if p.parts.getLast?.all (· == dotDot) then p.child dotDot
  else p.parent

/-- A part of a path that leads to another place. -/
def isStep (part : Text) : Bool := !part.isEmpty && part ≠ dot

/-- A text below the text of a path; one that starts with a slash stands for itself. -/
def below (raw rest : Text) : Text :=
  if Machine.startsAtRoot rest then rest
  else if raw.isEmpty || raw.getLast? = some '/' then raw ++ rest
  else raw ++ '/' :: rest

/-- The path of a link that leads back to itself, taken as it stands: what was still to be done is written behind
it, first the names of the target it was found in, then those after each link on the way there. -/
def unresolved (r : Resolver) (link : Path) (rest : List Text) : Path :=
  let start := below link.text (joined ['/'] rest)
  .ofText (r.following.foldl (fun raw (_, names) => below raw (joined ['/'] names)) start)

/-- Why a link that leads back to itself cannot be resolved: there is a loop, or the system finds another
fault on the way through it. -/
def loopError (m : Machine) (link : Path) : ResolutionError :=
  match m.status link.text true with
  | .error .nullCharacter => .nullCharacter
  | .error (.system errno) =>
    if errno = .tooManyLinks then .loop link.text else .system { errno, path := link.text }
  | .ok _ => .loop link.text

/-- Number of links that can be followed one inside the other. -/
def maxFollowing : Nat := 960

/-- The start of the resolution of a path: at the root, or where the program stands. -/
def start (p : Path) : Resolver where
  path := if p.isAbsolute then ⟨.root, []⟩ else {}
  names := p.parts

/-- What a step of a resolution comes to. -/
inductive Progress where
  | done (path : Path)
  | failed (e : ResolutionError)
  | next (r : Resolver)

/-- The next step of a resolution. -/
def step (m : Machine) (strict : Bool) (r : Resolver) : Progress :=
  match r.names, r.following with
  | [], [] => .done r.path
  -- The target of a link is done, so that it is known where the link leads.
  | [], (link, names) :: following => .next { r with names, following, known := (link, r.path) :: r.known }
  | part :: names, following =>
    if !isStep part then .next { r with names }
    else if part = dotDot then .next { r with names, path := up r.path }
    else
      let next := r.path.child part
      let written := str next.text
      match m.status next.text false with
      | .error .nullCharacter => .failed .nullCharacter
      | .error (.system errno) =>
        -- What is not there is taken as it stands, unless every name must be there.
        if !strict then .next { r with names, path := next }
        else if errno = .tooManyLinks then .failed (.loop next.text)
        else .failed (.system { errno, path := next.text })
      | .ok (.link target) =>
        match r.known.find? (·.1 = written) with
        -- A link that has been followed before leads to the same place again.
        | some (_, path) => .next { r with names, path }
        | none =>
          -- A link that is still being followed leads back to itself.
          if following.any (·.1 = written) then
            if strict then .failed (loopError m next) else .done (r.unresolved next names)
          else if following.length = maxFollowing then .failed .tooDeep
          else
            .next { r with
              path := if Machine.startsAtRoot target then ⟨.root, []⟩ else r.path
              names := pieces '/' target
              following := (written, names) :: following }
      | .ok _ => .next { r with names, path := next }

/-- Resolves step by step, at most `fuel` steps. -/
def run (m : Machine) (strict : Bool) : (fuel : Nat) → Resolver → Except ResolutionError Path
  | 0, r => .error (.loop r.path.text)
  | fuel + 1, r =>
    match step m strict r with
    | .done path => .ok path
    | .failed e => .error e
    | .next r => run m strict fuel r

mutual

/-- Number of names in the targets of all links of a tree, and of the links. -/
def linkSteps : Node → Nat
  | .link target => (pieces '/' target).length + 1
  | .directory entries _ => linkStepsOf entries
  | _ => 0

/-- The same for the nodes of a directory. -/
def linkStepsOf : List (Text × Node) → Nat
  | [] => 0
  | (_, n) :: entries => linkSteps n + linkStepsOf entries

end

/-- Enough steps for every path of so many names. A link is entered once from each way to it, and the ways differ in
the number of names for the directory above at their start, for which a path has only so much room. -/
def fuel (m : Machine) (names : Nat) : Nat :=
  names + (linkSteps m.root + 1) * (m.cwd.location.length + Machine.maxPathSize) + 1

/-- Resolves a path from where it starts. -/
def resolve (m : Machine) (strict : Bool) (p : Path) : Except ResolutionError Path := do
  let resolved ← run m strict (fuel m p.parts.length) (start p)
  (m.absolute resolved).mapError .system

end Resolver

namespace Machine

/-- The path without links that a path means; every name on the way must be there. -/
def resolveStrict (m : Machine) (p : Path) : Except ResolutionError Path := Resolver.resolve m true p

/-- The path without links that a path means, as far as it is there. A loop of links is refused, and so is a
null character. -/
def resolve (m : Machine) (p : Path) : Except ResolutionError Path := do
  let resolved ← Resolver.resolve m false p
  match m.status resolved.text true with
  | .error .nullCharacter => .error .nullCharacter
  | .error (.system .tooManyLinks) => .error (.loop resolved.text)
  | _ => .ok resolved

end Machine
end CodeSnippets
