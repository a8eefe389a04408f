import CodeSnippets.Machine.Resolution
import CodeSnippets.Settings.Basic
import CodeSnippets.Source.Access
import CodeSnippets.Toml.Document

/-!
# The search for settings

Settings stand in a table of a settings file. The directories from a path up to the root are searched, two
files in each, and the first table that is there counts. Files that are not there, cannot be opened or are no
TOML documents are passed over.

* `Machine.findDraft`: the settings found from a path, or the defaults.
* `Machine.findSettings`: these with some replaced, and checked.
-/

namespace CodeSnippets

open Text

/-- Why no settings are found. -/
inductive SearchError where
  | settings (e : SettingsError)
  | fault (f : Fault)
deriving DecidableEq, Repr

/-- Why no settings are found, in words. -/
def SearchError.message : SearchError → String
  | .settings e => e.message
  | .fault f => f.message

/-- The fault of a name under which no setting can be given. -/
def FieldError.fault : FieldError → Fault
  | .unknown name => .unknownField name
  | .taken receiver => .takenName receiver.title receiver.ownName.toList

/-- A settings file: its name and the keys of the tables that are looked for in it, in this order. -/
structure SettingsFile where
  name : Text
  tables : List Toml.Key
deriving DecidableEq, Repr

/-- The key of the table of settings. -/
def settingsKey : Text := "docc-snippets".toList

/-- The settings files of a directory in the order in which they are looked at. -/
def settingsFiles : List SettingsFile :=
  [⟨"pyproject.toml".toList, [["tool".toList, settingsKey]]⟩,
   ⟨".docc-snippets.toml".toList, [[settingsKey], ["tool".toList, settingsKey]]⟩]

/-- The value of a key in a table of tables. -/
def valueAtKey? : Toml.Key → Value → Option Value
  | [], x => some x
  | part :: key, x => do valueAtKey? key (← (← x.asTable?).get? part)

/-- The draft that a value found in a settings file stands for. -/
def draftOf (x : Value) (table : Toml.Key) (file : Path) : Except SettingsError Draft :=
  match x.asTable? with
  | none => .error (.badTable table file.text)
  | some fields => ((Draft.update {} fields).mapError fun _ => .badTable table file.text).map Draft.normalized

/-- The first of the tables of a settings file that is there, and its key. -/
def firstTable? (tables : List Toml.Key) (root : Named Value) : Option (Toml.Key × Value) :=
  tables.findSome? fun table => (valueAtKey? table (.table root)).map fun x => (table, x)

namespace Machine

/-- The document that a settings file holds. A file that is not there, cannot be opened or is no TOML
document has none. -/
def readSettings (m : Machine) (file : Path) : Except Fault (Option (Named Value)) := do
  if !(← (m.isThere file).mapError .system) then return none
  match m.readBytes file with
  | .error _ => return none
  | .ok bytes =>
    let t ← (Utf8.decode bytes).mapError .undecodable
    match Toml.Document.read t with
    | .ok root => return some root
    | .error .malformed => return none
    | .error (.integerTooLong digits) => throw (.integerTooLong digits)
    | .error .tooDeep => throw .tooDeep

/-- The draft that a settings file holds, if one of its tables is there. -/
def draftIn (m : Machine) (directory : Path) (file : SettingsFile) : Except SearchError (Option Draft) := do
  let path := directory.child file.name
  match (← (m.readSettings path).mapError .fault).bind (firstTable? file.tables) with
  | none => return none
  | some (table, x) => return some (← (draftOf x table path).mapError .settings)

/-- The first draft that settings files hold, or else the defaults. -/
def firstDraft (m : Machine) : List (Path × SettingsFile) → Except SearchError Draft
  | [] => .ok {}
  | (directory, file) :: rest => do
    match ← m.draftIn directory file with
    | some draft => return draft
    | none => firstDraft m rest

/-- The settings files that are looked at from a directory upwards. -/
def settingsFilesFrom (directory : Path) : List (Path × SettingsFile) :=
  directory.selfAndParents.flatMap fun d => settingsFiles.map fun file => (d, file)

/-- The draft found from a path upwards. -/
def findDraft (m : Machine) (p : Path) : Except SearchError Draft := do
  let start ← (m.resolve p).mapError (.fault ∘ ResolutionError.fault)
  m.firstDraft (settingsFilesFrom start)

/-- The settings found from a path upwards, some of them replaced. -/
def findSettings (m : Machine) (p : Path) (changes : Named Value) : Except SearchError Settings := do
  (Receiver.search.check changes).mapError (.fault ∘ FieldError.fault)
  let draft ← m.findDraft p
  let draft ← (draft.overridden changes).mapError (.fault ∘ FieldError.fault)
  (draft.normalized.checked).mapError .settings

end Machine
end CodeSnippets
