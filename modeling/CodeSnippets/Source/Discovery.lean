import CodeSnippets.Source.Access
import CodeSnippets.Source.Admission

/-!
# Discovery of sources

The source files in a directory and in the directories directly below it. What is hidden or a link is
passed over.

* `Machine.isSource`, `Machine.isGroup`: what is looked for in a directory.
* `Machine.discover`: the sources in the directory itself, then those of each group in order of names.
-/

namespace CodeSnippets

/-- A source file and the group it belongs to: the directory below the one that was searched. -/
structure SourceFile where
  group : Option Text
  path : Path
deriving DecidableEq, Repr

namespace Machine

/-- A path is that of a source if its last name is not hidden, it leads to a file and is no link, and the extension is
accepted. -/
def isSource (m : Machine) (accepts : Text → Bool) (p : Path) : Except SystemError Bool := do
  if Path.isHiddenName p.name then return false
  if ← m.isLink p then return false
  if !(← m.isRegular p) then return false
  return accepts (Text.lower p.suffix)

/-- A path is that of a group if its last name is not hidden, it leads to a directory and is no link. -/
def isGroup (m : Machine) (p : Path) : Except SystemError Bool := do
  if Path.isHiddenName p.name then return false
  if ← m.isLink p then return false
  m.isDirectory p

/-- The paths about which a question has the answer yes. All of them are asked about, one after the other. -/
def sift (question : Path → Except SystemError Bool) : List Path → Except SystemError (List Path)
  | [] => .ok []
  | p :: ps => do
    let answer ← question p
    let rest ← sift question ps
    return if answer then p :: rest else rest

/-- The paths of all nodes in a directory, in order of names. -/
def pathsIn (m : Machine) (p : Path) : Except AccessError (List Path) := do
  return (← m.list p).names.map p.child

/-- The paths of the sources in a directory. -/
def sourcesIn (m : Machine) (accepts : Text → Bool) (p : Path) : Except AccessError (List Path) := do
  (sift (m.isSource accepts) (← m.pathsIn p)).mapError (.fault ∘ .system)

/-- The paths of the groups in a directory. -/
def groupsIn (m : Machine) (p : Path) : Except AccessError (List Path) := do
  (sift m.isGroup (← m.pathsIn p)).mapError (.fault ∘ .system)

/-- The sources in a directory and its groups, by a test of extensions in lower case. -/
def discoverBy (m : Machine) (accepts : Text → Bool) (p : Path) : Except AccessError (List SourceFile) := do
  let top ← m.sourcesIn accepts p
  let grouped ← (← m.groupsIn p).mapM fun group => do
    return (← m.sourcesIn accepts group).map (SourceFile.mk (some group.name))
  return top.map (SourceFile.mk none) ++ grouped.flatten

/-- The sources in a directory and its groups. -/
def discover (m : Machine) (extensions : List Text) (p : Path) : Except AccessError (List SourceFile) :=
  m.discoverBy extensions.contains p

end Machine
end CodeSnippets
