import CodeSnippets.Named

/-!
# File trees

A file tree is its root node. Directories hold nodes by name, in the order in which the system lists them.

* `Node.get?`, `Node.put`, `Node.remove`: the node at a location, and the tree with another node there.
-/

namespace CodeSnippets

/-- What a name in a file tree stands for. -/
inductive Node where
  | file (bytes : List UInt8) (mode : Nat)
  /-- A documentation compiler that ends its runs, counted on the machine, by these codes: an exit status, or the
  negative number of a signal. -/
  | compiler (codes : List Int) (mode : Nat)
  | directory (entries : List (Text × Node)) (mode : Nat)
  | link (target : Text)
  | pipe (mode : Nat)
deriving Repr

/-- The names on the way from the root of a tree to a node. -/
abbrev Location := List Text

namespace Node

/-- A file that holds bytes, a compiler included. -/
def isRegular : Node → Bool
  | .file .. | .compiler .. => true
  | _ => false

/-- The node is a directory. -/
def isDirectory : Node → Bool
  | .directory .. => true
  | _ => false

/-- The node is a link. -/
def isLink : Node → Bool
  | .link _ => true
  | _ => false

/-- The permission bits of a node. -/
def mode : Node → Nat
  | .file _ mode | .compiler _ mode | .directory _ mode | .pipe mode => mode
  | .link _ => 0o777

/-- The bytes that a node holds. -/
def bytes : Node → List UInt8
  | .file bytes _ => bytes
  | _ => []

/-- The nodes of a directory by name; nothing else has any. -/
def entries : Node → Named Node
  | .directory entries _ => entries
  | _ => []

/-- The node may be read. All nodes belong to the user who runs the program, so that of the permission bits those
of the owner count. -/
def mayRead (n : Node) : Bool := n.mode &&& 0o400 != 0

/-- The node may be written; a directory may get and lose names. -/
def mayWrite (n : Node) : Bool := n.mode &&& 0o200 != 0

/-- The node may be run; the names in a directory may be looked up. -/
def mayRun (n : Node) : Bool := n.mode &&& 0o100 != 0

/-- The node at a location, no link followed. -/
def get? (n : Node) : Location → Option Node
  | [] => some n
  | name :: rest =>
    match n.entries.get? name with
    | some child => get? child rest
    | none => none

/-- The tree with a node at a location; the directories on the way must be there already. -/
def put (n : Node) (new : Node) : Location → Node
  | [] => new
  | name :: rest =>
    match n with
    | .directory entries mode =>
      match rest, Named.get? entries name with
      | [], _ => .directory (Named.put entries name new) mode
      | _ :: _, some child => .directory (Named.put entries name (put child new rest)) mode
      | _ :: _, none => n
    | _ => n

/-- The tree without the node at a location. -/
def remove (n : Node) : Location → Node
  | [] => n
  | [name] =>
    match n with
    | .directory entries mode => .directory (Named.erase entries name) mode
    | _ => n
  | name :: next :: rest =>
    match n with
    | .directory entries mode =>
      match Named.get? entries name with
      | some child => .directory (Named.put entries name (remove child (next :: rest))) mode
      | none => n
    | _ => n

@[simp] theorem get?_nil (n : Node) : n.get? [] = some n := rfl

theorem get?_cons (n : Node) (name : Text) (rest : Location) :
    n.get? (name :: rest) = (n.entries.get? name).bind (·.get? rest) := by
  rw [get?]
  split <;> simp_all

end Node
end CodeSnippets
