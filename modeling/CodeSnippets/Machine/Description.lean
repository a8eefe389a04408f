import CodeSnippets.Json.Basic
import CodeSnippets.Machine.Basic

/-!
# Machines as JSON

A machine can be written down as a JSON value and read back. Files are described by their text, or by their
bytes where these are no text. What a description leaves out is as on a machine of which nothing is known.

* `Node.json`, `Machine.json`: the description of a file tree and of a machine.
* `Node.ofJson?`, `Machine.ofJson?`: the file tree and the machine of a description.
-/

namespace CodeSnippets

open Text

/-- The bytes of a file: the text that they write, or their numbers. -/
def bytesJson (bytes : List UInt8) : Json :=
  match Utf8.decode bytes with
  | .ok t => .text t
  | .error _ => .array (bytes.map fun b => .number b.toNat)

/-- The byte with a number. -/
def byteOfJson? : Json → Option UInt8
  | .number (.ofNat n) => if n < 256 then some (.ofNat n) else none
  | _ => none

/-- The bytes of a file from their description. -/
def bytesOfJson? : Json → Option (List UInt8)
  | .text t => some (Utf8.encode t)
  | .array xs => xs.mapM byteOfJson?
  | _ => none

namespace Json

/-- The natural number that a value is. -/
def asNat? : Json → Option Nat
  | .number (.ofNat n) => some n
  | _ => Option.none

/-- The integer that a value is. -/
def asInt? : Json → Option Int
  | .number n => some n
  | _ => Option.none

/-- The text that a value is. -/
def asText? : Json → Option Text
  | .text t => some t
  | _ => Option.none

/-- The items of a list. -/
def asList? : Json → Option (List Json)
  | .array xs => some xs
  | _ => Option.none

/-- The texts of a list of texts. -/
def asTexts? (x : Json) : Option (List Text) := do (← x.asList?).mapM asText?

/-- The texts by name of an object whose fields are texts. -/
def asNamedTexts? : Json → Option (Named Text)
  | .object fields => fields.mapM fun (name, x) => x.asText?.map fun t => (name, t)
  | _ => Option.none

/-- A field of an object as `read` takes it, or a default if the field is not there. -/
def fieldOr {α : Type} (x : Json) (name : String) (read : Json → Option α) (default : α) : Option α :=
  match x.field? name.toList with
  | some y => read y
  | Option.none => some default

end Json

namespace Node

mutual

/-- The description of a file tree: what it is, and its permission bits. -/
def json : Node → Json
  | .file bytes mode => .object [("file".toList, bytesJson bytes), ("mode".toList, .number mode)]
  | .compiler codes mode =>
    .object [("compiler".toList, .array (codes.map .number)), ("mode".toList, .number mode)]
  | .directory entries mode =>
    .object [("directory".toList, .object (jsonOfEntries entries)), ("mode".toList, .number mode)]
  | .link target => .object [("link".toList, .text target)]
  | .pipe mode => .object [("pipe".toList, .null), ("mode".toList, .number mode)]

/-- The descriptions of the nodes of a directory. -/
def jsonOfEntries : List (Text × Node) → List (Text × Json)
  | [] => []
  | (name, n) :: entries => (name, json n) :: jsonOfEntries entries

end

/-- The permission bits among the fields after the one that says what a node is. -/
def modeOr (default : Nat) : List (Text × Json) → Option Nat
  | [] => some default
  | (name, x) :: _ => if name = "mode".toList then x.asNat? else none

mutual

/-- The file tree of a description. The first field says what the node is, a second one may give its permission
bits. -/
def ofJson? : Json → Option Node
  | .object ((kind, .object fields) :: rest) =>
    if kind = "directory".toList then do
      return .directory (← entriesOfJson? fields) (← modeOr 0o755 rest)
    else none
  | .object ((kind, x) :: rest) =>
    if kind = "file".toList then do return .file (← bytesOfJson? x) (← modeOr 0o644 rest)
    else if kind = "compiler".toList then do
      return .compiler (← (← x.asList?).mapM Json.asInt?) (← modeOr 0o755 rest)
    else if kind = "link".toList then x.asText?.map .link
    else if kind = "pipe".toList then (modeOr 0o644 rest).map .pipe
    else none
  | _ => none

/-- The nodes of a directory from their descriptions. -/
def entriesOfJson? : List (Text × Json) → Option (List (Text × Node))
  | [] => some []
  | (name, x) :: fields => do return (name, ← ofJson? x) :: (← entriesOfJson? fields)

end

end Node

namespace Machine

/-- The description of a machine. -/
def json (m : Machine) : Json :=
  .object [("root".toList, m.root.json), ("cwd".toList, .ofTexts m.cwd.location),
    ("removed".toList, .number m.cwd.removed), ("umask".toList, .number m.umask),
    ("environment".toList, .object (m.environment.map fun (name, t) => (name, .text t))),
    ("homes".toList, .object (m.homes.map fun (name, t) => (name, .text t))), ("user".toList, .text m.user),
    ("runs".toList, .array (m.runs.map .ofTexts)), ("runTime".toList, .number m.runTime)]

/-- The machine of a description, on which the system refuses no step of writing. -/
def ofJson? (x : Json) : Option Machine := do
  let unknown : Machine := {}
  return {
    root := ← x.fieldOr "root" Node.ofJson? unknown.root
    cwd := {
      location := ← x.fieldOr "cwd" Json.asTexts? unknown.cwd.location
      removed := ← x.fieldOr "removed" Json.asNat? unknown.cwd.removed }
    umask := ← x.fieldOr "umask" Json.asNat? unknown.umask
    environment := ← x.fieldOr "environment" Json.asNamedTexts? unknown.environment
    homes := ← x.fieldOr "homes" Json.asNamedTexts? unknown.homes
    user := ← x.fieldOr "user" Json.asText? unknown.user
    runs := ← x.fieldOr "runs" (fun y => do (← y.asList?).mapM Json.asTexts?) unknown.runs
    runTime := ← x.fieldOr "runTime" Json.asNat? unknown.runTime }

end Machine
end CodeSnippets
