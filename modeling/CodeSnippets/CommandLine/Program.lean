import CodeSnippets.CommandLine.Build
import CodeSnippets.CommandLine.Document
import CodeSnippets.CommandLine.Extract

/-!
# The program

The commands, what their command lines may look like, and the run of one command line on a machine.

* `runProgram`: the outcome of a command line.
-/

namespace CodeSnippets.CommandLine

open Text

/-- The name of the program. -/
def programName : Text := "docc-snippets".toList

/-- The version of the program. -/
def programVersion : Text := "0.1.0".toList

/-- The option that asks for help. -/
def helpOption : Opt := { name := "--help".toList, kind := none }

/-- The option that asks for the version. -/
def versionOption : Opt := { name := "--version".toList, kind := none }

/-- The option that sets the indentation of JSON text. -/
def jsonIndentOption : Opt := { name := "--json-indent".toList, kind := some .integer }

/-- A source file that must be there. -/
def sourceFileRule : PathRule := { mustExist := true, directories := false }

/-- A file that is written. -/
def outputFileRule : PathRule := { directories := false, written := true }

/-- A directory. -/
def directoryRule : PathRule := { files := false }

/-- A directory that must be there. -/
def presentDirectoryRule : PathRule := { mustExist := true, files := false }

/-- What may stand before the name of a command. -/
def programGrammar : Grammar where
  options := [versionOption, helpOption]
  positionals := []
  interspersed := false

/-- A command. -/
inductive Command where
  | extract
  | build
  | document
deriving DecidableEq, Repr

namespace Command

/-- The name of a command. -/
def name : Command → Text
  | extract => "extract".toList
  | build => "build".toList
  | document => "docc".toList

/-- The commands. -/
def all : List Command := [extract, build, document]

/-- The command with a name. -/
def ofName? (t : Text) : Option Command := all.find? (·.name = t)

end Command

/-- The label of the source file. -/
def fileLabel : Text := "FILEPATH".toList

/-- The label of the directory of snippets. -/
def directoryLabel : Text := "[SNIPPETS_DIR]".toList

/-- The label of the action. -/
def actionLabel : Text := "\x7bconvert|preview\x7d".toList

/-- The label of further arguments. -/
def argumentsLabel : Text := "[DOCC_ARGS]...".toList

/-- What the command line of a command may be. -/
def Command.grammar : Command → Grammar
  | .extract =>
    { options := [
        { name := "--slice".toList, kind := some .text },
        { name := "--format".toList, kind := some (.choice ["text".toList, "json".toList]),
          default := some "text".toList },
        jsonIndentOption, helpOption]
      positionals := [{ label := fileLabel, kind := .path sourceFileRule }] }
  | .build =>
    { options := [
        { name := "--output".toList, kind := some (.path outputFileRule) },
        jsonIndentOption, helpOption]
      positionals := [{ label := directoryLabel, kind := .path directoryRule, required := false }] }
  | .document =>
    { options := [
        { name := "--target".toList, kind := some .text, repeatable := true, required := true },
        { name := "--symbol-graph-dir".toList, kind := some (.path presentDirectoryRule), required := true },
        { name := "--catalog".toList, kind := some (.path presentDirectoryRule), repeatable := true },
        { name := "--executable".toList, kind := some .text, repeatable := true },
        { name := "--archive-dir".toList, kind := some (.path directoryRule),
          default := some defaultArchiveDir },
        { name := "--verbose".toList, kind := none },
        helpOption]
      positionals := [
        { label := actionLabel, kind := .choice (Action.all.map Action.name) },
        { label := argumentsLabel, kind := .text, required := false, variadic := true }]
      keepsUnknown := true }

/-- The indentation that a command line asks for. -/
def requestedIndent (b : Bound) : Option Int := (b.one? jsonIndentOption.name).bind toInteger?

/-- The snippet that a command line asks for. -/
def extractRequest (b : Bound) : ExtractRequest where
  file := (b.words fileLabel).headD []
  slice := b.one? "--slice".toList
  format := if b.one? "--format".toList = some "json".toList then .json else .text
  jsonIndent := requestedIndent b

/-- The index that a command line asks for. -/
def buildRequest (b : Bound) : BuildRequest where
  directory := (b.words directoryLabel).head?
  output := b.one? "--output".toList
  jsonIndent := requestedIndent b

/-- The runs of the compiler that a command line asks for. -/
def documentRequest (b : Bound) : DocumentRequest where
  action := ((b.words actionLabel).head?.bind Action.ofName?).getD .convert
  targets := b.all "--target".toList
  symbolGraphs := (b.one? "--symbol-graph-dir".toList).getD []
  catalogs := b.all "--catalog".toList
  executables := b.all "--executable".toList
  archiveDir := (b.one? "--archive-dir".toList).getD defaultArchiveDir
  verbose := b.isGiven "--verbose".toList
  arguments := b.words argumentsLabel

/-- Runs a command with the values of its command line. -/
def Command.run (c : Command) (m : Machine) (b : Bound) : Outcome :=
  match c with
  | .extract => .ofPrinting m (CommandLine.extract m (extractRequest b))
  | .build => CommandLine.build m (buildRequest b)
  | .document => CommandLine.document m (documentRequest b)

/-- Runs a command with the words after its name. Help is not printed here. -/
def Command.runLine (c : Command) (m : Machine) (words : List Text) : Outcome :=
  match c.grammar.scan {} words with
  | .error e => .failed m (.usage e)
  | .ok scan =>
    if scan.given.any (·.1 = helpOption.name) then { machine := m }
    else
      match c.grammar.bind m words with
      | .error e => .failed m (.ofBind e)
      | .ok b => c.run m b

/-- The line that names the program and its version. -/
def versionLine : Text := programName ++ ", version ".toList ++ programVersion ++ ['\n']

/-- The answer to the program's own options, if one is given; the first one counts. Help is not printed here. -/
def ownOutcome? (m : Machine) (s : Scan) : Option Outcome :=
  s.given.head?.map fun (option, _) =>
    if option = versionOption.name then { machine := m, stdout := versionLine } else { machine := m }

/-- The refusal of a word that names no command. One that looks like an option, which two dashes have let through,
is read as an option once more. -/
def refuseCommand (m : Machine) (name : Text) (words : List Text) : Outcome :=
  match programGrammar.scan {} (name :: words) with
  | .error e => .failed m (.usage e)
  | .ok scan =>
    (ownOutcome? m scan).getD
      (.failed m (.usage (.noSuchCommand name (closest name (Command.all.map Command.name)))))

/-- Runs a command line: the program's own options, the name of a command, and the words for it. -/
def runProgram (m : Machine) (line : List Text) : Outcome :=
  match programGrammar.scan {} line with
  | .error e => .failed m (.usage e)
  | .ok scan =>
    match ownOutcome? m scan, scan.words with
    | some o, _ => o
    | none, [] => .failed m (.usage .missingCommand)
    | none, name :: words =>
      match Command.ofName? name with
      | some c => c.runLine m words
      | none => refuseCommand m name words

end CodeSnippets.CommandLine
