import CodeSnippets.CommandLine.Outcome

/-!
# The command that runs the documentation compiler

The compiler is run for one target after the other; the first run that fails ends the command.
-/

namespace CodeSnippets.CommandLine

open Text

/-- The directory for archives when no other is named. -/
def defaultArchiveDir : Text := ".build/plugins/docc-snippets/outputs".toList

/-- What the user asks for. -/
structure DocumentRequest where
  action : Action
  targets : List Text
  symbolGraphs : Text
  catalogs : List Text := []
  executables : List Text := []
  archiveDir : Text := defaultArchiveDir
  verbose : Bool := false
  /-- Further arguments for the compiler. -/
  arguments : List Text := []
deriving DecidableEq, Repr

/-- The symbol graphs of a target: those in a directory of its name, if there is one, or else all. -/
def symbolGraphsFor (m : Machine) (directory : Path) (target : Target) : Except Fault Path := do
  let candidate := directory.join (.ofText target.name)
  return if ← (m.isDirectory candidate).mapError .system then candidate else directory

/-- The arguments of the compiler for a target of a request. -/
def requestArguments (m : Machine) (r : DocumentRequest) (target : Target) : Except Fault (List Text) := do
  let symbolGraphs ← symbolGraphsFor m (.ofText r.symbolGraphs) target
  return compilerArguments r.action target symbolGraphs (target.archivePath (.ofText r.archiveDir)) r.arguments

/-- What is said before a run. -/
def startNotice (r : DocumentRequest) (program : Path) (target : Target) (arguments : List Text) : Text :=
  (if r.action = .convert then
    outputLine ("Generating documentation for '".toList ++ target.name ++ "'...".toList) else []) ++
  (if r.verbose then
    outputLine ("docc invocation: '".toList ++ program.text ++ ' ' :: joined [' '] arguments ++ ['\'']) else []) ++
  (if r.action = .convert then outputLine "Converting documentation...".toList else [])

/-- Seconds with two places. -/
def secondsText (hundredths : Nat) : Text := ofNat (hundredths / 100) ++ '.' :: padded 2 (hundredths % 100)

/-- What is said after a run that succeeded. -/
def endNotice (r : DocumentRequest) (runTime : Nat) (arguments : List Text) : Text :=
  if r.action = .convert then
    outputLine ("Conversion complete! (".toList ++ secondsText runTime ++ " seconds)".toList) ++
      outputLine ("Generated DocC archive at '".toList ++
        (outputPath? arguments).getD "unknown location".toList ++ ['\''])
  else []

/-- Runs the compiler for one target. -/
def runTarget (r : DocumentRequest) (program : Path) (o : Outcome) (target : Target) : Outcome :=
  match requestArguments o.machine r target with
  | .error f => { o with error := some (.fault f) }
  | .ok arguments =>
    let o := { o with stderr := o.stderr ++ startNotice r program target arguments }
    match o.machine.runCompiler program arguments with
    | (after, .error e) => { o with machine := after, error := some (.ofCompiler e) }
    | (after, .ok code) =>
      match checkEnd code r.action with
      | .error e => { o with machine := after, error := some (.ofCompiler e) }
      | .ok () => { o with machine := after, stderr := o.stderr ++ endNotice r after.runTime arguments }

/-- Runs the compiler for one target after the other, up to the first for which it fails. -/
def runTargets (r : DocumentRequest) (program : Path) : (first : Bool) → Outcome → List Target → Outcome
  | _, o, [] => o
  | first, o, target :: rest =>
    -- An empty line separates the notices of two targets.
    let o := runTarget r program (if first then o else { o with stderr := o.stderr ++ ['\n'] }) target
    if o.error.isSome then o else runTargets r program false o rest

/-- What is settled before the first run: the targets and the compiler. -/
def prepare (m : Machine) (r : DocumentRequest) : Except CommandError (List Target × Path) := do
  let targets ← (targetsOf r.targets r.executables r.catalogs).mapError .targets
  if r.action = .preview ∧ 1 < targets.length then .error .severalPreviews
  let settings ← loadSettings m (← baseDirectory m) none
  let program ← (m.findCompiler settings.draft.doccExecutable m.environment).mapError .ofCompiler
  return (targets, program)

/-- Runs the compiler for all targets of a request. -/
def document (m : Machine) (r : DocumentRequest) : Outcome :=
  match prepare m r with
  | .error e => .failed m e
  | .ok (targets, program) => runTargets r program true { machine := m } targets

end CodeSnippets.CommandLine
