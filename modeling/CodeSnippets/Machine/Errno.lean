import CodeSnippets.Json.Basic
import CodeSnippets.Text.Quoted
import CodeSnippets.Text.Utf8

/-!
# System errors and other faults

What the system says when it refuses a step, and the faults that no part of the program foresees and that
therefore end it.
-/

namespace CodeSnippets

open Text

/-- Why the system refuses a step. -/
inductive Errno where
  | noEntry
  | badFormat
  | denied
  /-- Every name that was drawn for a new file is taken. -/
  | noFreshName
  | notDirectory
  | isDirectory
  | noSpace
  | nameTooLong
  | tooManyLinks
deriving DecidableEq, Repr

namespace Errno

/-- The number of an error. -/
def number : Errno → Nat
  | noEntry => 2
  | badFormat => 8
  | denied => 13
  | noFreshName => 17
  | notDirectory => 20
  | isDirectory => 21
  | noSpace => 28
  | nameTooLong => 36
  | tooManyLinks => 40

/-- The words of the system for an error. -/
def reason : Errno → String
  | noEntry => "No such file or directory"
  | badFormat => "Exec format error"
  | denied => "Permission denied"
  | noFreshName => "No usable temporary file name found"
  | notDirectory => "Not a directory"
  | isDirectory => "Is a directory"
  | noSpace => "No space left on device"
  | nameTooLong => "File name too long"
  | tooManyLinks => "Too many levels of symbolic links"

/-- The error means that there is nothing at a path, so that a question about it has the answer no. -/
def meansAbsent : Errno → Bool
  | noEntry | notDirectory | tooManyLinks => true
  | _ => false

end Errno

/-- An error of the system, the path it is about if it names one, and the second path where a step has
two. -/
structure SystemError where
  errno : Errno
  path : Option Text
  target : Option Text := none
deriving DecidableEq, Repr

/-- The error in words. -/
def SystemError.message (e : SystemError) : String :=
  let about := match e.path, e.target with
    | none, _ => []
    | some path, none => [':', ' '] ++ quoted path
    | some path, some target => [':', ' '] ++ quoted path ++ [' ', '-', '>', ' '] ++ quoted target
  s!"[Errno {e.errno.number}] {e.errno.reason}{str about}"

/-- Why a path leads nowhere. -/
inductive LookupError where
  /-- The path holds a null character, so that the system is not asked. -/
  | nullCharacter
  | system (errno : Errno)
deriving DecidableEq, Repr

/-- A fault that no part of the program foresees. -/
inductive Fault where
  | system (e : SystemError)
  | nullCharacter
  | unknownHome
  | linkLoop (path : Text)
  | undecodable (fault : Utf8.Fault)
  /-- An integer has too many digits to be read or written. They are counted where it is read. -/
  | integerTooLong (digits : Option Nat)
  /-- Things that hold or follow one another go deeper than the program can. -/
  | tooDeep
  | notIterable (kind : String)
  | notPath (kind : String)
  /-- A setting was named that there is not. -/
  | unknownField (name : Text)
  /-- A setting was given a name under which something else is given already. -/
  | takenName (receiver : String) (name : Text)
  | width (e : Json.WidthError)
deriving DecidableEq, Repr

/-- The fault in words. -/
def Fault.message : Fault → String
  | .system e => e.message
  | .nullCharacter => "embedded null byte"
  | .unknownHome => "Could not determine home directory."
  | .linkLoop path => s!"Symlink loop from {str (quoted path)}"
  | .undecodable fault => fault.message
  | .integerTooLong digits =>
    let count := match digits with
      | some n => ": value has " ++ toString n ++ " digits"
      | none => ""
    "Exceeds the limit (4300 digits) for integer string conversion" ++ count ++
      "; use sys.set_int_max_str_digits() to increase the limit"
  | .tooDeep => "maximum recursion depth exceeded"
  | .notIterable kind => s!"'{kind}' object is not iterable"
  | .notPath kind => s!"expected str, bytes or os.PathLike object, not {kind}"
  | .unknownField name => s!"SnippetConfig.__init__() got an unexpected keyword argument '{str name}'"
  | .takenName receiver name => s!"{receiver}() got multiple values for argument '{str name}'"
  | .width e => e.message

/-- The fault of a value that cannot be written. -/
def Json.WriteError.fault : Json.WriteError → Fault
  | .width e => .width e
  | .longInteger => .integerTooLong none

/-- The fault of a failed look-up at a path. -/
def LookupError.fault (path : Text) : LookupError → Fault
  | .nullCharacter => .nullCharacter
  | .system errno => .system { errno, path }

end CodeSnippets
