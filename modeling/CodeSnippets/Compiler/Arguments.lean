import CodeSnippets.Path

/-!
# Arguments of the documentation compiler

What is documented, and the arguments that the compiler is given for it: those of the user, less the flags
that are not meant for the compiler, and a default for every required option that the user left out.

* `Flag.transform`: a flag is replaced by what it stands for.
* `optionValue?`: the value that arguments give to an option.
* `compilerArguments`: the arguments for one target.
-/

namespace CodeSnippets

open Text

/-- What the compiler is told to do. -/
inductive Action where
  | convert
  | preview
deriving DecidableEq, Repr

/-- The word for an action. -/
def Action.name : Action → Text
  | .convert => ['c', 'o', 'n', 'v', 'e', 'r', 't']
  | .preview => ['p', 'r', 'e', 'v', 'i', 'e', 'w']

/-- The actions in the order in which they are offered. -/
def Action.all : List Action := [.convert, .preview]

/-- The action that a word names. -/
def Action.ofName? (t : Text) : Option Action := all.find? (·.name = t)

/-- The kind of a module. -/
inductive TargetKind where
  | library
  | executable
deriving DecidableEq, Repr

/-- The word for a kind. -/
def TargetKind.name : TargetKind → Text
  | .library => ['l', 'i', 'b', 'r', 'a', 'r', 'y']
  | .executable => ['e', 'x', 'e', 'c', 'u', 't', 'a', 'b', 'l', 'e']

/-- The kind that a word names. -/
def TargetKind.ofName? (t : Text) : Option TargetKind := [library, executable].find? (·.name = t)

/-- A module that is documented. -/
structure Target where
  name : Text
  kind : TargetKind := .library
  /-- The directory of articles that belongs to the module. -/
  catalog : Option Path := none
deriving DecidableEq, Repr

/-- Where the archive of a target is put in a directory of archives. -/
def Target.archivePath (t : Target) (directory : Path) : Path :=
  directory.join (.ofText (t.name ++ ".doccarchive".toList))

/-- A flag that is not meant for the compiler, and the arguments that stand for it there. -/
structure Flag where
  spellings : List Text
  replacements : List Text := []
deriving DecidableEq, Repr

namespace Flag

/-- The flag is among the arguments. -/
def isPresent (f : Flag) (arguments : List Text) : Bool := arguments.any f.spellings.contains

/-- The arguments without the flag, and with its replacements at the end, those that are there already left
out. Arguments without the flag stay as they are. -/
def transform (f : Flag) (arguments : List Text) : List Text :=
  if f.isPresent arguments then
    f.replacements.foldl (fun done a => if done.contains a then done else done ++ [a])
      (arguments.filter (!f.spellings.contains ·))
  else arguments

/-- Leaves symbols out that were made by the build. -/
def skipSynthesizedSymbols : Flag where
  spellings := ["--experimental-skip-synthesized-symbols".toList]

/-- The flags that are not meant for the compiler. -/
def all : List Flag := [skipSynthesizedSymbols]

end Flag

/-- The value that one argument and those after it give to an option: the next argument, or what stands
after an equals sign. -/
def valueAt? (names : List Text) (argument : Text) (rest : List Text) : Option Text :=
  names.findSome? fun name =>
    if argument = name then some (rest.head?.getD [])
    else dropStart? (name ++ ['=']) argument

/-- The first value that arguments give to an option under any of its names. -/
def optionValue? (names : List Text) : List Text → Option Text
  | [] => none
  | argument :: rest => valueAt? names argument rest <|> optionValue? names rest

/-- The names of the option for the output path, the one that is used first. -/
def outputOptions : List Text := ["--output-path".toList, "--output-dir".toList, "-o".toList]

/-- The output path that arguments give; an empty one counts as none. -/
def outputPath? (arguments : List Text) : Option Text :=
  (optionValue? outputOptions arguments).filter (!·.isEmpty)

/-- An option that the compiler requires, under its names, and the value it gets by default. -/
structure Requirement where
  names : List Text
  value : Text
deriving DecidableEq, Repr

/-- The options that the compiler requires for a target. -/
def requirements (target : Target) (symbolGraphs output : Path) : List Requirement :=
  [⟨["--fallback-display-name".toList], target.name⟩,
   ⟨["--fallback-bundle-identifier".toList], target.name⟩,
   ⟨["--additional-symbol-graph-dir".toList], symbolGraphs.text⟩,
   ⟨outputOptions, output.text⟩] ++
  match target.kind with
  | .executable => [⟨["--fallback-default-module-kind".toList], target.kind.name⟩]
  | .library => []

/-- The default for a required option that the user left out. -/
def Requirement.supplement (r : Requirement) (arguments : List Text) : List Text :=
  match optionValue? r.names arguments with
  | some _ => []
  | none => [r.names.headD [], r.value]

/-- The user's arguments as the compiler gets them. -/
def transformedArguments (arguments : List Text) : List Text :=
  Flag.all.foldl (fun done f => f.transform done) arguments

/-- The arguments for one target: the action, the catalog, the user's arguments, and the defaults. -/
def compilerArguments (action : Action) (target : Target) (symbolGraphs output : Path)
    (arguments : List Text) : List Text :=
  let given := transformedArguments arguments
  action.name :: (target.catalog.map Path.text).toList ++ given ++
    (requirements target symbolGraphs output).flatMap (·.supplement given)

end CodeSnippets
