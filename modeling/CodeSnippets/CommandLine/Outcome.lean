import CodeSnippets.CommandLine.Grammar
import CodeSnippets.Compiler.Run
import CodeSnippets.Compiler.Targets
import CodeSnippets.Settings.Search
import CodeSnippets.Settings.SizeLimit
import CodeSnippets.Snippet.Index
import CodeSnippets.Source.Writing
import CodeSnippets.Text.ControlSequence

/-!
# Outcomes of commands

What a command leaves behind: the machine, what it printed, and whether it failed. A failure is reported in
words; a wrong command line or a wrong value ends the program with status 2, all else with status 1.
-/

namespace CodeSnippets.CommandLine

open Text

/-- Why a command fails. -/
inductive CommandError where
  | usage (e : UsageError)
  | settings (e : SettingsError)
  | path (e : AdmissionError)
  | slice (e : UnknownSlice)
  | targets (e : TargetError)
  | severalPreviews
  | sizeLimit (e : SizeLimitError)
  | source (e : SourceError)
  | output (e : AccessError)
  | compiler (e : CompilerError)
  | fault (f : Fault)
deriving DecidableEq, Repr

/-- The option that a fault of the targets is about. -/
def targetOption : TargetError → String
  | .unknownExecutable _ => "--executable"
  | _ => "--catalog"

namespace CommandError

/-- Why the command fails, in words. -/
def message : CommandError → String
  | usage e => e.message
  | settings e => s!"Invalid value: {e.message}"
  | path e => s!"Invalid value: {e.message}"
  | slice e => s!"Invalid value for '--slice': {e.message}"
  | targets e => s!"Invalid value for '{targetOption e}': {e.message}"
  | severalPreviews => "Invalid value for '--target': docc can only preview a single target at a time."
  | sizeLimit e => e.message
  | source e => e.message
  | output e => e.message
  | compiler e => e.message
  | fault f => f.message

/-- The status with which the program ends. -/
def status : CommandError → Nat
  | usage _ | settings _ | path _ | slice _ | targets _ | severalPreviews => 2
  | _ => 1

/-- A path that is not admitted, as the failure of a command. A null character in a path is a wrong value; any
other fault remains one. -/
def ofAdmission : AdmissionError → CommandError
  | .fault .nullCharacter => .path (.fault .nullCharacter)
  | .fault f => .fault f
  | e => .path e

/-- A source that cannot be read, as the failure of a command. -/
def ofSource : SourceError → CommandError
  | .fault f => .fault f
  | e => .source e

/-- A file that cannot be written, as the failure of a command. What the system says is a failed writing. -/
def ofOutput : AccessError → CommandError
  | .fault (.system e) => .output (.fault (.system e))
  | .fault f => .fault f
  | e => .output e

/-- A failure of the compiler, as the failure of a command. -/
def ofCompiler : CompilerError → CommandError
  | .fault f => .fault f
  | e => .compiler e

/-- Settings that are not found, as the failure of a command. -/
def ofSearch : SearchError → CommandError
  | .settings e => .settings e
  | .fault f => .fault f

/-- A command line that cannot be used, as the failure of a command. -/
def ofBind : BindError → CommandError
  | .inl e => .usage e
  | .inr f => .fault f

end CommandError

/-- What a command leaves behind. -/
structure Outcome where
  machine : Machine
  /-- What was printed as the result. -/
  stdout : Text := []
  /-- What was printed on the way. -/
  stderr : Text := []
  error : Option CommandError := none

namespace Outcome

/-- The status with which the program ends. -/
def status (o : Outcome) : Nat := (o.error.map CommandError.status).getD 0

/-- A command that fails before it has changed or printed anything. -/
def failed (m : Machine) (e : CommandError) : Outcome := { machine := m, error := some e }

/-- A command that only prints, or fails. -/
def ofPrinting (m : Machine) : Except CommandError Text → Outcome
  | .ok stdout => { machine := m, stdout }
  | .error e => failed m e

end Outcome

/-- The directory in which a command works, and below which all paths lie that a user names. -/
def baseDirectory (m : Machine) : Except CommandError Path := m.workingDirectory.mapError (.fault ∘ .system)

/-- The text of a value as JSON with the indentation that is set. -/
def settledDocument (s : Settings) (x : Json) : Except CommandError Text :=
  (writeJson s.jsonIndent x).mapError (.fault ∘ Json.WriteError.fault)

/-- A line of output: a text without control sequences of terminals, and a line feed. -/
def outputLine (t : Text) : Text := withoutControls t ++ ['\n']

/-- The settings of a command: those found from its directory, with an indentation that the user may give, and with
the size that the environment may set. -/
def loadSettings (m : Machine) (base : Path) (jsonIndent : Option Int) : Except CommandError Settings := do
  let changes : Named Value := (jsonIndent.map fun n => (Field.jsonIndent.name.toList, Value.integer n)).toList
  let settings ← (m.findSettings base changes).mapError .ofSearch
  let maxFileSize ← (CodeSnippets.sizeLimit (m.setting? sizeLimitVariable) settings.maxFileSize).mapError .sizeLimit
  return { settings with maxFileSize }

end CodeSnippets.CommandLine
