import CodeSnippets.CommandLine.Program
import CodeSnippets.Json.Reading
import CodeSnippets.Machine.Description

/-!
# Running a command line

The machine is kept in a file, described as JSON. A run reads the machine, prints what the command prints, and
writes the machine back as the command has left it.
-/

namespace CodeSnippets

/-- The variable that names the file with the machine. -/
def machineVariable : String := "CODE_SNIPPETS_MACHINE"

/-- The file with the machine when no other is named. -/
def defaultMachineFile : String := "machine.json"

/-- What is printed about the failure of a command. -/
def failureNotice (o : CommandLine.Outcome) : String :=
  match o.error with
  | some e => s!"Error: {e.message}\n"
  | none => ""

end CodeSnippets

open CodeSnippets in
/-- Runs a command line on the machine in the file. -/
def main (line : List String) : IO UInt32 := do
  let file := (← IO.getEnv machineVariable).getD defaultMachineFile
  match (Json.read? (← IO.FS.readFile file).toList).bind Machine.ofJson? with
  | none =>
    IO.eprintln s!"{file} does not describe a machine."
    return 1
  | some m =>
    let o := CommandLine.runProgram m (line.map String.toList)
    IO.print (Text.str o.stdout)
    IO.eprint (Text.str o.stderr ++ failureNotice o)
    IO.FS.writeFile file (Text.str (documentText (.indented 2) o.machine.json))
    return o.status.toUInt32
