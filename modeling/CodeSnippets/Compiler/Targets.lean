import CodeSnippets.Compiler.Arguments
import CodeSnippets.Named

/-!
# Targets of a request

The targets that a request names, each with its kind and its catalog. Where there is a single target the catalog
is its own; otherwise a catalog belongs to the target that it is named after.
-/

namespace CodeSnippets

open Text

/-- Why the targets of a request do not fit together. -/
inductive TargetError where
  | unknownExecutable (name : Text)
  | unknownCatalog (name catalog : Text)
  | secondCatalog (name : Text)
deriving DecidableEq, Repr

/-- Why they do not fit together, in words. -/
def TargetError.message : TargetError → String
  | .unknownExecutable name => s!"no target named '{str name}'"
  | .unknownCatalog name catalog => s!"no target named '{str name}' for catalog '{str catalog}'"
  | .secondCatalog name => s!"more than one catalog given for target '{str name}'"

/-- The names without those that were given before. -/
def distinct (names : List Text) : List Text :=
  names.foldl (fun done name => if done.contains name then done else done ++ [name]) []

/-- The name of the target that a catalog belongs to. -/
def catalogOwner (names : List Text) (catalog : Text) : Text :=
  match names with
  | [name] => name
  | _ => (Path.ofText catalog).stem

/-- The catalogs by target. -/
def pairCatalogs (names : List Text) : Named Path → List Text → Except TargetError (Named Path)
  | paired, [] => .ok paired
  | paired, catalog :: rest =>
    let owner := catalogOwner names catalog
    if !names.contains owner then .error (.unknownCatalog owner catalog)
    else if (paired.get? owner).isSome then .error (.secondCatalog owner)
    else pairCatalogs names (paired.put owner (.ofText catalog)) rest

/-- The targets of a request, in the order in which they were first named. -/
def targetsOf (targetNames executables catalogs : List Text) : Except TargetError (List Target) := do
  let names := distinct targetNames
  match executables.find? (!names.contains ·) with
  | some name => .error (.unknownExecutable name)
  | none =>
    let paired ← pairCatalogs names [] catalogs
    return names.map fun name => {
      name
      kind := if executables.contains name then .executable else .library
      catalog := paired.get? name }

end CodeSnippets
