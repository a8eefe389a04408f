import CodeSnippets.Machine.Basic
import CodeSnippets.Text.Digit
import CodeSnippets.Text.Similarity

/-!
# The grammar of command lines

Options and positional parameters, the kinds of values they take, and how the words of a command line are
shared out among them.

Options may stand anywhere among the words, as `--name value` or `--name=value`, and two dashes alone end them.
Values are checked in the order in which the options were given, then those of the positional parameters,
then the options that were not given; the first fault counts.

* `scan`: shares words out among options and positional parameters.
* `bind`: checks all values.
-/

namespace CodeSnippets.CommandLine

open Text

/-- What a path may lead to. -/
structure PathRule where
  /-- There must be something. -/
  mustExist : Bool := false
  files : Bool := true
  directories : Bool := true
  /-- What is there must allow to be written. -/
  written : Bool := false
deriving DecidableEq, Repr

/-- The kind of a value. -/
inductive Kind where
  | text
  | integer
  | choice (words : List Text)
  | path (rule : PathRule)
deriving DecidableEq, Repr

/-- An option. -/
structure Opt where
  /-- The name with its two dashes. -/
  name : Text
  /-- The kind of its value; a flag has none. -/
  kind : Option Kind
  /-- Every value counts, and not only the last one. -/
  repeatable : Bool := false
  required : Bool := false
  default : Option Text := none
deriving DecidableEq, Repr

/-- A positional parameter. -/
structure Positional where
  label : Text
  kind : Kind
  required : Bool := true
  /-- Takes all words that remain. -/
  variadic : Bool := false
deriving DecidableEq, Repr

/-- What the words of a command line may be. -/
structure Grammar where
  options : List Opt
  positionals : List Positional
  /-- Options that are not known count as positional words. -/
  keepsUnknown : Bool := false
  /-- Options may stand after a positional word. -/
  interspersed : Bool := true
deriving DecidableEq, Repr

/-- What is wrong with one value. -/
inductive ValueError where
  | notInteger (value : Text)
  | notChoice (value : Text) (words : List Text)
  | missing (kind : String) (value : Text)
  | isDirectory (kind : String) (value : Text)
  | isFile (kind : String) (value : Text)
  | notReadable (kind : String) (value : Text)
  | notWritable (kind : String) (value : Text)
deriving DecidableEq, Repr

/-- What is wrong with a command line. -/
inductive UsageError where
  | noSuchOption (name : Text) (similar : List Text)
  | noSuchCommand (name : Text) (similar : List Text)
  | needsValue (name : Text)
  | takesNoValue (name : Text)
  | extraWords (words : List Text)
  | missingCommand
  | missingPositional (label : Text) (words : List Text)
  | missingOption (name : Text)
  | badValue (label : Text) (e : ValueError)
deriving DecidableEq, Repr

/-- What is wrong with a value, in words. -/
def ValueError.message : ValueError → String
  | .notInteger value => s!"{str (quoted value)} is not a valid integer."
  | .notChoice value words =>
    s!"{str (quoted value)} is not one of {listed (words.map quoted)}."
  | .missing kind value => s!"{kind} {str (quoted value)} does not exist."
  | .isDirectory kind value => s!"{kind} {str (quoted value)} is a directory."
  | .isFile kind value => s!"{kind} {str (quoted value)} is a file."
  | .notReadable kind value => s!"{kind} {str (quoted value)} is not readable."
  | .notWritable kind value => s!"{kind} {str (quoted value)} is not writable."

/-- A hint at words that were perhaps meant. -/
def hint : List Text → String
  | [] => ""
  | [word] => s!" Did you mean {str (quoted word)}?"
  | words => s!" (Did you mean one of: {listed (words.map quoted)}?)"

/-- What is wrong with a command line, in words. -/
def UsageError.message : UsageError → String
  | .noSuchOption name similar => s!"No such option {str (quoted name)}.{hint similar}"
  | .noSuchCommand name similar => s!"No such command {str (quoted name)}.{hint similar}"
  | .needsValue name => s!"Option {str (quoted name)} requires an argument."
  | .takesNoValue name => s!"Option {str (quoted name)} does not take a value."
  | .extraWords words =>
    let noun := if words.length = 1 then "argument" else "arguments"
    let shown := str (joined [' '] words)
    s!"Got unexpected extra {noun} ({shown})"
  | .missingCommand => "Missing command."
  | .missingPositional label words =>
    let choices := if words.isEmpty then "" else " Choose from:\n\t" ++ str (joined [',', '\n', '\t'] words)
    s!"Missing argument '{str label}'.{choices}"
  | .missingOption name => s!"Missing option '{str name}'."
  | .badValue label e => s!"Invalid value for '{str label}': {e.message}"

/-- The words of a command line shared out: options with their values, in order, and the other words. -/
structure Scan where
  given : List (Text × Text) := []
  words : List Text := []
deriving DecidableEq, Repr

namespace Grammar

/-- The option with a name. -/
def option? (g : Grammar) (name : Text) : Option Opt := g.options.find? (·.name = name)

/-- The word starts an option. -/
def looksLikeOption (word : Text) : Bool := word.head? == some '-' && 1 < word.length

/-- The name and the value of an option that are written in one word. -/
def splitOption (word : Text) : Text × Option Text :=
  match cutAt? '=' word with
  | some (name, value) => (name, some value)
  | none => (word, none)

/-- The fault of an option that is not known; one with a single dash is named by its first letter. -/
def unknownOption (g : Grammar) (word : Text) : UsageError :=
  if startsWith word ['-', '-'] then
    let name := (splitOption word).1
    .noSuchOption name (closest name (g.options.map (·.name)))
  else .noSuchOption (word.take 2) []

/-- Shares words out among options and positional parameters. -/
def scan (g : Grammar) : Scan → List Text → Except UsageError Scan
  | s, [] => .ok s
  | s, word :: rest =>
    -- Two dashes alone end the options.
    if word = ['-', '-'] then .ok { s with words := s.words ++ rest }
    else if !looksLikeOption word then
      if g.interspersed then scan g { s with words := s.words ++ [word] } rest
      else .ok { s with words := s.words ++ word :: rest }
    else
      let (name, value) := splitOption word
      match g.option? name with
      | none =>
        if g.keepsUnknown then scan g { s with words := s.words ++ [word] } rest
        else .error (g.unknownOption word)
      | some option =>
        match option.kind with
        | none =>
          if value.isSome then .error (.takesNoValue name)
          else scan g { s with given := s.given ++ [(name, [])] } rest
        | some _ =>
          match value with
          | some value => scan g { s with given := s.given ++ [(name, value)] } rest
          -- The next word is the value, even if it looks like an option.
          | none =>
            match rest with
            | [] => .error (.needsValue name)
            | value :: rest => scan g { s with given := s.given ++ [(name, value)] } rest

end Grammar

/-- The noun for what a path leads to. -/
def PathRule.noun (r : PathRule) : String :=
  if r.files && !r.directories then "File" else if r.directories && !r.files then "Directory" else "Path"

/-- Why a command line cannot be used: it is wrong, or a path in it cannot even be looked at. -/
abbrev BindError := UsageError ⊕ Fault

/-- Checks a value of a kind. -/
def checkValue (m : Machine) (label : Text) (kind : Kind) (value : Text) : Except BindError Unit :=
  let bad (e : ValueError) : Except BindError Unit := .error (.inl (.badValue label e))
  match kind with
  | .text => .ok ()
  | .integer => if (toInteger? value).isSome then .ok () else bad (.notInteger value)
  | .choice words => if words.contains value then .ok () else bad (.notChoice value words)
  | .path rule =>
    match m.status value true with
    | .error .nullCharacter => .error (.inr .nullCharacter)
    | .error (.system _) => if rule.mustExist then bad (.missing rule.noun value) else .ok ()
    | .ok n =>
      if !rule.files && n.isRegular then bad (.isFile rule.noun value)
      else if !rule.directories && n.isDirectory then bad (.isDirectory rule.noun value)
      else if !n.mayRead then bad (.notReadable rule.noun value)
      else if rule.written && !n.mayWrite then bad (.notWritable rule.noun value)
      else .ok ()

/-- The values of a command line, checked: those of each option and of each positional parameter. -/
structure Bound where
  options : Named (List Text)
  positionals : Named (List Text)
deriving DecidableEq, Repr

namespace Bound

/-- All values of an option. -/
def all (b : Bound) (name : Text) : List Text := (b.options.get? name).getD []

/-- The value of an option. -/
def one? (b : Bound) (name : Text) : Option Text := (b.all name).getLast?

/-- The option is given. -/
def isGiven (b : Bound) (name : Text) : Bool := !(b.all name).isEmpty

/-- The words of a positional parameter. -/
def words (b : Bound) (label : Text) : List Text := (b.positionals.get? label).getD []

end Bound

namespace Grammar

/-- The words of each positional parameter, and those that are left over. -/
def assign : List Positional → List Text → Named (List Text) × List Text
  | [], words => ([], words)
  | p :: ps, words =>
    let (mine, others) := if p.variadic then (words, []) else (words.take 1, words.drop 1)
    let (assigned, extra) := assign ps others
    ((p.label, mine) :: assigned, extra)

/-- The values of an option among those that were given: all of them, or the last. -/
def valuesOf (o : Opt) (given : List (Text × Text)) : List Text :=
  let values := (given.filter (·.1 = o.name)).map (·.2)
  if o.repeatable then values else values.getLast?.toList

/-- Checks values of an option. -/
def checkOption (m : Machine) (o : Opt) (values : List Text) : Except BindError Unit :=
  match o.kind with
  | none => .ok ()
  | some kind => values.forM (checkValue m o.name kind)

/-- Checks the words of a positional parameter. -/
def checkPositional (m : Machine) (p : Positional) (words : List Text) : Except BindError Unit := do
  if words.isEmpty && p.required then
    let choices := match p.kind with
      | .choice ws => ws
      | _ => []
    .error (.inl (.missingPositional p.label choices))
  words.forM (checkValue m p.label p.kind)

/-- The values of an option that was not given: its default, which is checked too. -/
def absentValues (m : Machine) (o : Opt) : Except BindError (List Text) := do
  if o.required then .error (.inl (.missingOption o.name))
  checkOption m o o.default.toList
  return o.default.toList

/-- Shares the words of a command line out and checks all values. -/
def bind (g : Grammar) (m : Machine) (line : List Text) : Except BindError Bound := do
  let scan ← (g.scan {} line).mapError .inl
  let (positionals, extra) := assign g.positionals scan.words
  let isGiven (o : Opt) : Bool := scan.given.any (·.1 = o.name)
  -- Each option counts where it was given first.
  let order := (Named.ofList scan.given).names.filterMap g.option?
  order.forM fun o => checkOption m o (valuesOf o scan.given)
  g.positionals.forM fun p => checkPositional m p ((positionals.get? p.label).getD [])
  let absent ← (g.options.filter (!isGiven ·)).mapM fun o => return (o.name, ← absentValues m o)
  if !extra.isEmpty then .error (.inl (.extraWords extra))
  return { options := order.map (fun o => (o.name, valuesOf o scan.given)) ++ absent, positionals }

end Grammar
end CodeSnippets.CommandLine
