import CodeSnippets.Text.Case
import CodeSnippets.Value.Basic

/-!
# Settings

Settings as they are written, with values of any kind, and settings as they are used.

* `Draft.normalized`: extensions in lower case, each with a leading dot.
* `Draft.checked`: the settings of a draft, or the first thing that is wrong with it.
* `Draft.overridden`: a draft in which some values are replaced.
-/

namespace CodeSnippets

open Text

/-- A setting. -/
inductive Field where
  | extensions
  | snippetsDir
  | jsonIndent
  | maxFileSize
  | doccExecutable
deriving DecidableEq, Repr

namespace Field

/-- The name under which a setting is given. -/
def name : Field → String
  | extensions => "extensions"
  | snippetsDir => "snippets_dir"
  | jsonIndent => "json_indent"
  | maxFileSize => "max_file_size"
  | doccExecutable => "docc_executable"

/-- The settings in the order in which they are listed. -/
def all : List Field := [extensions, snippetsDir, jsonIndent, maxFileSize, doccExecutable]

/-- The setting with a name. -/
def ofName? (t : Text) : Option Field := all.find? (·.name.toList = t)

end Field

/-- The extension of the source files that are read when no others are named. -/
def defaultExtension : Text := ['.', 's', 'w', 'i', 'f', 't']

/-- The directory of the snippets when no other is named. -/
def defaultSnippetsDir : Text := ['S', 'n', 'i', 'p', 'p', 'e', 't', 's']

/-- Settings as they are written; each value may be of any kind. -/
structure Draft where
  extensions : Value := .list [.text defaultExtension]
  snippetsDir : Value := .text defaultSnippetsDir
  jsonIndent : Value := .integer 2
  maxFileSize : Value := .integer (10 * 1024 * 1024)
  doccExecutable : Value := .none
deriving Repr

/-- Settings that have passed all checks. -/
structure Settings where
  /-- The extensions of source files, each with a leading dot and in lower case. -/
  extensions : List Text := [defaultExtension]
  /-- The directory whose snippets are indexed. -/
  snippetsDir : Text := defaultSnippetsDir
  /-- Width of a level of nesting in JSON text; zero for one line. -/
  jsonIndent : Nat := 2
  /-- Largest size in bytes of a source file. -/
  maxFileSize : Int := 10 * 1024 * 1024
  /-- Where the documentation compiler is, if that is set. -/
  doccExecutable : Option Text := none
deriving DecidableEq, Repr

/-- What is wrong with settings. -/
inductive SettingsError where
  | notInteger (field : Field)
  | noExtensions
  | noSnippetsDir
  | negativeIndent
  | noExecutable
  | notPositive (field : Field)
  /-- The table of a settings file is none, or holds something that is no setting. -/
  | badTable (table : List Text) (file : Text)
deriving DecidableEq, Repr

/-- What is wrong, in words. -/
def SettingsError.message : SettingsError → String
  | .notInteger field => s!"`{field.name}` must be an integer"
  | .noExtensions => "`extensions` must list at least one file extension"
  | .noSnippetsDir => "`snippets_dir` must not be empty"
  | .negativeIndent => "`json_indent` must be >= 0"
  | .noExecutable => "`docc_executable` must be a non-empty string"
  | .notPositive field => s!"`{field.name}` must be a positive integer"
  | .badTable table file =>
    let key := str (joined ['.'] table)
    s!"Invalid `[{key}]` settings in {str file}"

/-- Who takes settings by their names. Each of them takes something else under a name of its own. -/
inductive Receiver where
  | draft
  | overrides
  | search
deriving DecidableEq, Repr

namespace Receiver

/-- The names under which something else is given. -/
def ownName : Receiver → String
  | draft => "self"
  | overrides => "config"
  | search => "search_path"

/-- What a receiver is called in messages. -/
def title : Receiver → String
  | draft => "SnippetConfig.__init__"
  | overrides => "apply_overrides"
  | search => "build_config"

end Receiver

/-- Why a setting cannot be given under a name. -/
inductive FieldError where
  /-- There is no such setting. -/
  | unknown (name : Text)
  /-- The receiver takes something else under its own name. -/
  | taken (receiver : Receiver)
deriving DecidableEq, Repr

/-- No setting is given under the own name of a receiver. -/
def Receiver.check (receiver : Receiver) (changes : Named Value) : Except FieldError Unit :=
  if changes.names.contains receiver.ownName.toList then .error (.taken receiver) else .ok ()

namespace Draft

/-- The value of a setting. -/
def get (d : Draft) : Field → Value
  | .extensions => d.extensions
  | .snippetsDir => d.snippetsDir
  | .jsonIndent => d.jsonIndent
  | .maxFileSize => d.maxFileSize
  | .doccExecutable => d.doccExecutable

/-- Gives a setting a value. -/
def set (d : Draft) (x : Value) : Field → Draft
  | .extensions => { d with extensions := x }
  | .snippetsDir => { d with snippetsDir := x }
  | .jsonIndent => { d with jsonIndent := x }
  | .maxFileSize => { d with maxFileSize := x }
  | .doccExecutable => { d with doccExecutable := x }

/-- Gives named settings their values; the first name that is no setting is refused. -/
def update (d : Draft) : Named Value → Except FieldError Draft
  | [] => .ok d
  | (name, x) :: changes =>
    match Field.ofName? name with
    | some field => update (d.set x field) changes
    | none => .error (if name = Receiver.draft.ownName.toList then .taken .draft else .unknown name)

/-- Gives named settings their values, those without one left out. -/
def overridden (d : Draft) (changes : Named Value) : Except FieldError Draft := do
  Receiver.overrides.check changes
  d.update (changes.filter fun (_, x) => match x with
    | .none => false
    | _ => true)

/-- An extension in lower case and with a leading dot. -/
def normalizedExtension (t : Text) : Text :=
  match t with
  | '.' :: _ => lower t
  | _ => '.' :: lower t

/-- The extensions that a list names; what is no text, or empty, is left out. -/
def normalizedExtensions (xs : List Value) : List Text :=
  (xs.filterMap fun x => x.asText?.filter (!·.isEmpty)).map normalizedExtension

/-- The value of `extensions` in normal form, if it is a text or a list. -/
def extensionList? : Value → Option (List Text)
  | .text t => some (normalizedExtensions [.text t])
  | .list xs | .tuple xs => some (normalizedExtensions xs)
  | _ => none

/-- The draft with its extensions in normal form; a single text counts as a list of one. -/
def normalized (d : Draft) : Draft :=
  match extensionList? d.extensions with
  | some ts => { d with extensions := .list (ts.map .text) }
  | none => d

/-- The settings of a draft, or the first thing that is wrong with it: whole numbers come first, then
extensions, directory, indentation, executable and size. -/
def checked (d : Draft) : Except SettingsError Settings := do
  let some maxFileSize := d.maxFileSize.asInteger? | .error (.notInteger .maxFileSize)
  let some jsonIndent := d.jsonIndent.asInteger? | .error (.notInteger .jsonIndent)
  let extensions := (extensionList? d.extensions).getD []
  if extensions.isEmpty then .error .noExtensions
  let snippetsDir := d.snippetsDir.asText?.getD []
  if snippetsDir.isEmpty then .error .noSnippetsDir
  if jsonIndent < 0 then .error .negativeIndent
  let doccExecutable ← match d.doccExecutable with
    | .none => .ok none
    | .text [] => .error .noExecutable
    | .text t => .ok (some t)
    | _ => .error .noExecutable
  if maxFileSize ≤ 0 then .error (.notPositive .maxFileSize)
  return { extensions, snippetsDir, jsonIndent := jsonIndent.toNat, maxFileSize, doccExecutable }

end Draft

/-- The draft that writes settings down. -/
def Settings.draft (s : Settings) : Draft where
  extensions := .list (s.extensions.map .text)
  snippetsDir := .text s.snippetsDir
  jsonIndent := .integer s.jsonIndent
  maxFileSize := .integer s.maxFileSize
  doccExecutable := (s.doccExecutable.map .text).getD .none

end CodeSnippets
