import CodeSnippets.Binary64
import CodeSnippets.Named
import CodeSnippets.Value.Moment

/-!
# Values of settings

A setting may be given any value that a settings file can write, whether it makes sense or not.
-/

namespace CodeSnippets

/-- A value of any of the kinds that a settings file or a caller can give. -/
inductive Value where
  | none
  | boolean (b : Bool)
  | integer (n : Int)
  | real (x : Binary64)
  | text (t : Text)
  | moment (m : Moment)
  | list (xs : List Value)
  /-- A list that cannot be changed. -/
  | tuple (xs : List Value)
  | table (fields : List (Text × Value))
deriving Repr

namespace Value

/-- The text, if the value is one. -/
def asText? : Value → Option Text
  | .text t => some t
  | _ => Option.none

/-- The integer, if the value is one; a truth value is none. -/
def asInteger? : Value → Option Int
  | .integer n => some n
  | _ => Option.none

/-- The fields, if the value is a table. -/
def asTable? : Value → Option (Named Value)
  | .table fields => some fields
  | _ => Option.none

/-- Nothing, zero, and whatever is empty count as not given. -/
def isGiven : Value → Bool
  | .none => false
  | .boolean b => b
  | .integer n => n ≠ 0
  | .real (.finite _ m _) => m ≠ 0
  | .real _ => true
  | .text t => !t.isEmpty
  | .moment _ => true
  | .list xs | .tuple xs => !xs.isEmpty
  | .table fields => !fields.isEmpty

/-- The name of the kind of a value in messages. -/
def kindName : Value → String
  | .none => "NoneType"
  | .boolean _ => "bool"
  | .integer _ => "int"
  | .real _ => "float"
  | .text _ => "str"
  | .moment (.date _) => "datetime.date"
  | .moment (.time _) => "datetime.time"
  | .moment (.dateTime ..) => "datetime.datetime"
  | .list _ => "list"
  | .tuple _ => "tuple"
  | .table _ => "dict"

/-- The members of a value that has members: items, characters, or names of fields. -/
def members? : Value → Option (List Value)
  | .list xs | .tuple xs => some xs
  | .text t => some (t.map fun c => .text [c])
  | .table fields => some (fields.map fun f => .text f.1)
  | _ => Option.none

end Value
end CodeSnippets
