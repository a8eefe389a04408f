import CodeSnippets.Compiler.Arguments
import CodeSnippets.Compiler.Script
import CodeSnippets.Machine.Basic
import CodeSnippets.Value.Basic

/-!
# Finding and running the documentation compiler

* `Machine.findCompiler`: the compiler that a variable or a setting names, or the one on the search path.
* `Machine.runCompiler`: starts the compiler and waits for its end.
* `checkEnd`: every end other than with status zero is a failure.
-/

namespace CodeSnippets

open Text

/-- What goes wrong with the compiler. -/
inductive CompilerError where
  /-- A variable or a setting names a file that is not there. -/
  | missing (source : Text) (path : Path)
  | notFound
  | notStarted (path : Path) (e : SystemError)
  | failed (code : Int) (action : Action)
  | fault (f : Fault)
deriving DecidableEq, Repr

/-- The variable that names the compiler. -/
def compilerVariable : Text := "DOCC_EXEC".toList

/-- The setting that names the compiler. -/
def compilerSetting : Text := "docc_executable".toList

/-- The name of the compiler on the search path. -/
def compilerName : Text := ['d', 'o', 'c', 'c']

/-- What goes wrong, in words. -/
def CompilerError.message : CompilerError → String
  | .missing source path => s!"{str source} points to a missing file: {str path.text}"
  | .notFound =>
    s!"Unable to find '{str compilerName}'. Set {str compilerVariable} or `{str compilerSetting}` to its location."
  | .notStarted path e => s!"Unable to start {str path.text}: {e.message}"
  | .failed code action =>
    let run := s!"'docc {str action.name}' invocation "
    if code < 0 then run ++ s!"was terminated by signal {code.natAbs}"
    else run ++ s!"failed with a nonzero exit code: '{code.natAbs}'"
  | .fault f => f.message

/-- A status other than zero, and an end by a signal, is a failure. -/
def checkEnd (code : Int) (action : Action) : Except CompilerError Unit :=
  if code = 0 then .ok () else .error (.failed code action)

/-- The signals that the compiler gets of those that reach the program while it runs: all, as they come. -/
def relayed (signals : List Int) : List Int := signals

namespace Machine

/-- The path of a name in a directory of the search path. -/
def inDirectory (directory name : Text) : Text :=
  if directory.isEmpty then name
  else if directory.getLast? = some '/' then directory ++ name
  else directory ++ '/' :: name

/-- The search path of a machine on which none is set. -/
def defaultSearchPath : Text := "/bin:/usr/bin".toList

/-- The path leads to something that can be run. -/
def canRun (m : Machine) (raw : Text) : Bool :=
  match m.status raw true with
  | .ok n => n.mayRun && !n.isDirectory
  | .error _ => false

/-- The first place on a search path where a name can be run; an empty search path has none. -/
def search? (m : Machine) (searchPath name : Text) : Option Text :=
  if searchPath.isEmpty then none
  else ((pieces ':' searchPath).map (inDirectory · name)).find? m.canRun

/-- The file that a variable or a setting names, if it names one. -/
def namedCompiler? (m : Machine) (source : Text) (candidate : Value) : Except CompilerError (Option Path) := do
  if !candidate.isGiven then return none
  match candidate with
  | .text t =>
    let path ← (m.expandHome (.ofText t)).mapError .fault
    if ← (m.isRegular path).mapError (.fault ∘ .system) then return some path
    else .error (.missing source path)
  | other => .error (.fault (.notPath other.kindName))

/-- The compiler that the variable names, or else the setting, or else the one on the search path. The
variables are those of `environment`; one without a search path is searched on that of the machine. -/
def findCompiler (m : Machine) (setting : Value) (environment : Named Text) : Except CompilerError Path := do
  let named := ((environment.get? compilerVariable).map Value.text).getD .none
  if let some path ← m.namedCompiler? compilerVariable named then return path
  if let some path ← m.namedCompiler? compilerSetting setting then return path
  let searchPath := (environment.get? "PATH".toList <|> m.setting? "PATH".toList).getD defaultSearchPath
  match m.search? searchPath compilerName with
  | some found => return .ofText found
  | none => .error .notFound

/-- The file that is run when a path is started, or why it cannot be. The empty path, which a script may name, is that
of the working directory. -/
def executable (m : Machine) (raw : Text) : Except Errno Node :=
  if raw.isEmpty then .error .denied
  else
    match m.status raw true with
    | .error .nullCharacter => .error .noEntry
    | .error (.system errno) => .error errno
    | .ok n => if n.isRegular && n.mayRun then .ok n else .error .denied

/-- A compiler that can be started. -/
structure Start where
  /-- The path and the arguments that it is started with. -/
  words : List Text
  /-- The codes of its runs. -/
  codes : List Int
  /-- The program of the system that runs the compiler can read it. -/
  readable : Bool
deriving DecidableEq, Repr

/-- Number of files that are gone through when a path is run: scripts, each of them run by the next file, and the
program of the system that runs the last one. -/
def maxStages : Nat := 6

/-- What is started when a path is run with arguments, at most `stages` files gone through. A script is run by the
program that it names, which gets the argument that stands there, the path of the script, and the arguments. A
compiler is a script that a program of the system runs. -/
def launch (m : Machine) : (stages : Nat) → (raw : Text) → (arguments : List Text) → Except Errno Start
  | 0, raw, _ => do
    let _ ← m.executable raw
    .error .tooManyLinks
  | stages + 1, raw, arguments => do
    let n ← m.executable raw
    match n with
    | .compiler codes _ =>
      -- The program of the system that runs the compiler is one more file.
      if stages = 0 then .error .tooManyLinks else .ok { words := raw :: arguments, codes, readable := n.mayRead }
    | n =>
      match Script.ofBytes? n.bytes with
      | none => .error .badFormat
      | some script => launch m stages script.program (script.argument.toList ++ raw :: arguments)

/-- The paths that are tried when a program is started: a name without a slash is looked for on the search
path. -/
def startPaths (m : Machine) (program : Text) : List Text :=
  if program.contains '/' then [program]
  else (pieces ':' ((m.setting? "PATH".toList).getD defaultSearchPath)).map (inDirectory · program)

/-- What is started by the first path that can be. If there is none, the first error that does not mean absence
counts, or else the last one. -/
def launchFirst (m : Machine) (arguments : List Text) :
    List Text → (kept : Option Errno) → (last : Errno) → Except Errno Start
  | [], kept, last => .error (kept.getD last)
  | raw :: rest, kept, _ =>
    match m.launch maxStages raw arguments with
    | .ok start => .ok start
    | .error errno =>
      -- A place where there is nothing gives way to a place that refuses to run.
      let absent := errno = .noEntry ∨ errno = .notDirectory
      launchFirst m arguments rest (if absent then kept else kept <|> some errno) errno

/-- How the run with a number ends: by a status below 256 or by a signal. -/
def codeOf (codes : List Int) (run : Nat) : Int :=
  let code := codes.getD run 0
  if code < 0 then code else code % 256

/-- The status with which a program ends that cannot read the script it is to run. -/
def unreadableStatus : Int := 2

/-- Starts a compiler and gives the code it ends with. -/
def runCompiler (m : Machine) (program : Path) (arguments : List Text) : Machine × Except CompilerError Int :=
  if (program.text :: arguments).any (·.contains '\x00') then (m, .error (.fault .nullCharacter))
  else
    match m.launchFirst arguments (m.startPaths program.text) none .noEntry with
    | .error errno => (m, .error (.notStarted program { errno, path := program.text }))
    | .ok start =>
      if start.readable then
        ({ m with runs := m.runs ++ [start.words] }, .ok (codeOf start.codes m.runs.length))
      else (m, .ok unreadableStatus)

end Machine
end CodeSnippets
