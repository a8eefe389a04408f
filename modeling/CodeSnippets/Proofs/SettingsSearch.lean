import CodeSnippets.Proofs.Lookup
import CodeSnippets.Settings.Search
import Mathlib

/-!
# The nearest settings win

The tables in which settings may stand have an order: that of the directories from the start of the search upwards, and
in each directory that of its two settings files. The search comes to the first table that is there, whatever it holds,
and what comes after it does not matter.

* `Draft.update_spec`, `draftOf_spec`: the settings that a value stands for.
* `SettingsPlace`, `Path.settingsPlacesFrom`: the places of tables of settings in their order.
* `Reads`, `Finds`, `Lacks`: what comes of reading a settings file, and what is at a place.
* `findDraft_spec`: the settings found are those at the first place at which there is something.
* `not_forall_findDraft_of_unreadable`: not so where it cannot even be told whether a file is there.
-/

namespace CodeSnippets

open Text

/-! ### Settings by name -/

namespace Field

theorem ofName?_eq_some_iff {t : Text} {field : Field} : ofName? t = some field ↔ field.name.toList = t := by
  constructor
  · intro h
    simpa using List.find?_some h
  · rintro rfl
    cases field <;> decide

/-- A text is the name of a setting. -/
def IsName (t : Text) : Prop := ∃ field : Field, field.name.toList = t

instance (t : Text) : Decidable (IsName t) :=
  decidable_of_iff (∃ field ∈ all, field.name.toList = t)
    ⟨fun ⟨field, _, h⟩ => ⟨field, h⟩, fun ⟨field, h⟩ => ⟨field, by cases field <;> decide, h⟩⟩

theorem ofName?_eq_none_iff {t : Text} : ofName? t = none ↔ ¬ IsName t := by
  rw [Option.eq_none_iff_forall_ne_some, IsName, not_exists]
  exact forall_congr' fun field => not_congr ofName?_eq_some_iff

end Field

namespace Draft

variable {d : Draft} {changes : Named Value}

theorem get_set (d : Draft) (x : Value) (field other : Field) :
    (d.set x field).get other = if field = other then x else d.get other := by
  cases field <;> cases other <;> rfl

/-- The value of a setting once named settings have been given their values, the last of those with its name. -/
def valueAfter (d : Draft) (changes : Named Value) (field : Field) : Value :=
  (Named.get? changes.reverse field.name.toList).getD (d.get field)

theorem valueAfter_cons (d : Draft) (field other : Field) (x : Value) (changes : Named Value) :
    (d.set x field).valueAfter changes other = d.valueAfter ((field.name.toList, x) :: changes) other := by
  have hname : field.name.toList = other.name.toList ↔ field = other := by
    cases field <;> cases other <;> decide
  rw [valueAfter, valueAfter, List.reverse_cons, Named.get?, Named.get?, List.find?_append, get_set]
  cases changes.reverse.find? (·.1 = other.name.toList) with
  | some change => rfl
  | none => by_cases h : field = other <;> simp [hname, h]

/-- Named settings are given their values one by one, if there is a setting for each name. -/
theorem update_spec (d : Draft) (changes : Named Value) :
    ((∀ name ∈ changes.names, Field.IsName name) →
      ∃ d', d.update changes = .ok d' ∧ ∀ field, d'.get field = d.valueAfter changes field) ∧
    ((¬ ∀ name ∈ changes.names, Field.IsName name) → ∃ e, d.update changes = .error e) := by
  -- Each change is made to the draft that the changes before it have left.
  induction changes generalizing d with
  | nil => exact ⟨fun _ => ⟨d, rfl, fun _ => rfl⟩, fun h => absurd (by simp [Named.names]) h⟩
  | cons change changes ih =>
    obtain ⟨name, x⟩ := change
    have hnames : (∀ n ∈ Named.names ((name, x) :: changes), Field.IsName n) ↔
        Field.IsName name ∧ ∀ n ∈ Named.names changes, Field.IsName n := List.forall_mem_cons
    rw [hnames, update]
    cases hfield : Field.ofName? name with
    | none =>
      have hname := Field.ofName?_eq_none_iff.1 hfield
      exact ⟨fun h => absurd h.1 hname, fun _ => ⟨_, rfl⟩⟩
    | some field =>
      obtain rfl := Field.ofName?_eq_some_iff.1 hfield
      obtain ⟨hok, herror⟩ := ih (d.set x field)
      refine ⟨fun h => ?_, fun h => herror fun hrest => h ⟨⟨field, rfl⟩, hrest⟩⟩
      obtain ⟨d', hd', hget⟩ := hok h.2
      exact ⟨d', hd', fun other => (hget other).trans (valueAfter_cons ..)⟩

end Draft

/-- A value stands for settings if it is a table in which each name is that of a setting. -/
def Value.IsSettings : Value → Prop
  | .table fields => ∀ name ∈ Named.names fields, Field.IsName name
  | _ => False

instance : (x : Value) → Decidable x.IsSettings
  | .table fields => inferInstanceAs (Decidable (∀ name ∈ Named.names fields, Field.IsName name))
  | .none | .boolean _ | .integer _ | .real _ | .text _ | .moment _ | .list _ | .tuple _ => inferInstanceAs (Decidable False)

/-- The defaults updated by a table in which each name is that of a setting, and in normal form. -/
inductive IsDraftOf : Value → Draft → Prop
  | mk {fields : Named Value} {d : Draft} : (∀ name ∈ fields.names, Field.IsName name) →
      (∀ field, d.get field = Draft.valueAfter {} fields field) → IsDraftOf (.table fields) d.normalized

/-- A value that is found stands for settings, or it is refused. -/
theorem draftOf_spec (x : Value) (key : Toml.Key) (file : Path) :
    (x.IsSettings → ∃ d, draftOf x key file = .ok d ∧ IsDraftOf x d) ∧
      (¬ x.IsSettings → draftOf x key file = .error (.badTable key file.text)) := by
  cases x with
  | table fields =>
    obtain ⟨hok, herror⟩ := Draft.update_spec {} fields
    constructor
    · intro hnames
      obtain ⟨d, hd, hget⟩ := hok hnames
      refine ⟨d.normalized, ?_, .mk hnames hget⟩
      simp only [draftOf, Value.asTable?, hd, Except.mapError, Except.map]
    · intro h
      obtain ⟨e, he⟩ := herror h
      simp only [draftOf, Value.asTable?, he, Except.mapError, Except.map]
  | _ => exact ⟨fun h => absurd h id, fun _ => rfl⟩

/-! ### The places of settings -/

/-- A place at which settings may stand: a settings file, and the key of a table in it. -/
structure SettingsPlace where
  file : Path
  key : Toml.Key
deriving DecidableEq, Repr

/-- The places in a settings file of a directory. -/
def SettingsFile.places (f : SettingsFile) (directory : Path) : List SettingsPlace :=
  f.tables.map (SettingsPlace.mk (directory.child f.name))

/-- The places in a directory, in the order in which they are looked at. -/
def Path.settingsPlaces (directory : Path) : List SettingsPlace :=
  [⟨directory.child "pyproject.toml".toList, ["tool".toList, "docc-snippets".toList]⟩,
    ⟨directory.child ".docc-snippets.toml".toList, ["docc-snippets".toList]⟩,
    ⟨directory.child ".docc-snippets.toml".toList, ["tool".toList, "docc-snippets".toList]⟩]

/-- The places from a directory upwards. -/
def Path.settingsPlacesFrom (start : Path) : List SettingsPlace := start.selfAndParents.flatMap Path.settingsPlaces

namespace Machine

variable {m : Machine} {p start file : Path} {contents : Option (Named Value)} {place : SettingsPlace}
  {places front back : List SettingsPlace} {x : Value}

/-- What comes of reading a settings file. It holds no document if it is not there, if the system refuses to read it, and
if its text is malformed. It is a fault if it cannot be told whether the file is there, if its bytes are no text, and if
its text holds what the reader of documents does not take. -/
inductive Reads (m : Machine) (file : Path) : Except Fault (Option (Named Value)) → Prop
  | absent : m.isThere file = .ok false → Reads m file (.ok none)
  | unreadable {e : AccessError} : m.isThere file = .ok true → m.readBytes file = .error e → Reads m file (.ok none)
  | malformed {bytes : List UInt8} {t : Text} : m.isThere file = .ok true → m.readBytes file = .ok bytes →
      Utf8.decode bytes = .ok t → Toml.Document.read t = .error .malformed → Reads m file (.ok none)
  | document {bytes : List UInt8} {t : Text} {root : Named Value} : m.isThere file = .ok true →
      m.readBytes file = .ok bytes → Utf8.decode bytes = .ok t → Toml.Document.read t = .ok root →
        Reads m file (.ok (some root))
  | unseen {e : SystemError} : m.isThere file = .error e → Reads m file (.error (.system e))
  | undecodable {bytes : List UInt8} {fault : Utf8.Fault} : m.isThere file = .ok true → m.readBytes file = .ok bytes →
      Utf8.decode bytes = .error fault → Reads m file (.error (.undecodable fault))
  | integerTooLong {bytes : List UInt8} {t : Text} {digits : Nat} : m.isThere file = .ok true →
      m.readBytes file = .ok bytes → Utf8.decode bytes = .ok t →
        Toml.Document.read t = .error (.integerTooLong digits) → Reads m file (.error (.integerTooLong digits))
  | tooDeep {bytes : List UInt8} {t : Text} : m.isThere file = .ok true → m.readBytes file = .ok bytes →
      Utf8.decode bytes = .ok t → Toml.Document.read t = .error .tooDeep → Reads m file (.error .tooDeep)

/-- For every file there is a rule. -/
theorem exists_reads (m : Machine) (file : Path) : ∃ result, m.Reads file result := by
  rcases hthere : m.isThere file with e | _ | _
  · exact ⟨_, .unseen hthere⟩
  · exact ⟨_, .absent hthere⟩
  rcases hbytes : m.readBytes file with e | bytes
  · exact ⟨_, .unreadable hthere hbytes⟩
  rcases ht : Utf8.decode bytes with fault | t
  · exact ⟨_, .undecodable hthere hbytes ht⟩
  rcases hread : Toml.Document.read t with fault | root
  · cases fault with
    | malformed => exact ⟨_, .malformed hthere hbytes ht hread⟩
    | integerTooLong digits => exact ⟨_, .integerTooLong hthere hbytes ht hread⟩
    | tooDeep => exact ⟨_, .tooDeep hthere hbytes ht hread⟩
  · exact ⟨_, .document hthere hbytes ht hread⟩

/-- A settings file is read as the rules say. -/
theorem readSettings_eq_iff {result : Except Fault (Option (Named Value))} :
    m.readSettings file = result ↔ m.Reads file result := by
  have hrule {result : Except Fault (Option (Named Value))} (h : m.Reads file result) :
      m.readSettings file = result := by
    rw [readSettings]
    cases h with
    | absent hthere | unseen hthere =>
      rw [hthere]
      rfl
    | unreadable hthere hbytes =>
      rw [hthere, hbytes]
      rfl
    | undecodable hthere hbytes ht => simp [hthere, hbytes, ht, Except.mapError, bind, Except.bind]
    | malformed hthere hbytes ht hread | document hthere hbytes ht hread | integerTooLong hthere hbytes ht hread =>
      simp only [hthere, hbytes, ht, hread, Except.mapError, bind, Except.bind]
      rfl
    | tooDeep hthere hbytes ht hread =>
      simp only [hthere, hbytes, ht, hread, Except.mapError, bind, Except.bind]
      rfl
  refine ⟨?_, hrule⟩
  -- Some rule applies to every file, and what it says is what is read.
  rintro rfl
  obtain ⟨result, h⟩ := m.exists_reads file
  rwa [hrule h]

/-- There is a value at a place. -/
def Finds (m : Machine) (place : SettingsPlace) (x : Value) : Prop :=
  ∃ root, m.Reads place.file (.ok (some root)) ∧ valueAtKey? place.key (.table root) = some x

/-- There is nothing at a place. -/
def Lacks (m : Machine) (place : SettingsPlace) : Prop :=
  ∃ contents, m.Reads place.file (.ok contents) ∧ (contents.bind fun root => valueAtKey? place.key (.table root)) = none

/-- The draft at the first of some places at which there is something, or else the defaults. -/
def firstAt (m : Machine) : List SettingsPlace → Except SearchError Draft
  | [] => .ok {}
  | place :: places =>
    match m.readSettings place.file with
    | .error f => .error (.fault f)
    | .ok contents =>
      match contents.bind fun root => valueAtKey? place.key (.table root) with
      | some x => (draftOf x place.key place.file).mapError .settings
      | none => firstAt m places

theorem firstAt_cons_of_finds (h : m.Finds place x) :
    m.firstAt (place :: places) = (draftOf x place.key place.file).mapError .settings := by
  obtain ⟨root, hroot, hx⟩ := h
  simp only [firstAt, readSettings_eq_iff.2 hroot, Option.bind_some, hx]

theorem firstAt_cons_of_lacks (h : m.Lacks place) : m.firstAt (place :: places) = m.firstAt places := by
  obtain ⟨contents, hcontents, hnone⟩ := h
  simp only [firstAt, readSettings_eq_iff.2 hcontents, hnone]

theorem firstAt_cons_of_fault {f : Fault} (h : m.readSettings place.file = .error f) :
    m.firstAt (place :: places) = .error (.fault f) := by
  simp only [firstAt, h]

/-- Places at which there is nothing are passed over. -/
theorem firstAt_append_of_lacks (h : ∀ place ∈ front, m.Lacks place) : m.firstAt (front ++ places) = m.firstAt places := by
  induction front with
  | nil => rfl
  | cons place front ih =>
    obtain ⟨hplace, hfront⟩ := List.forall_mem_cons.1 h
    rw [List.cons_append, firstAt_cons_of_lacks hplace, ih hfront]

/-- The tables of a settings file are looked at in their order. -/
theorem firstAt_map_append (hread : m.readSettings file = .ok contents) (tables : List Toml.Key) :
    m.firstAt (tables.map (SettingsPlace.mk file) ++ places) =
      match contents.bind (firstTable? tables) with
      | none => m.firstAt places
      | some (table, x) => (draftOf x table file).mapError .settings := by
  induction tables with
  | nil => cases contents <;> rfl
  | cons table tables ih =>
    rw [List.map_cons, List.cons_append, firstAt, hread]
    cases contents with
    | none => exact ih
    | some root =>
      cases hx : valueAtKey? table (.table root) <;> simp_all [firstTable?]

/-- The search goes through the files, and through the tables of each, which comes to the same. -/
theorem firstDraft_cons_eq {directory : Path} {f : SettingsFile} {rest : List (Path × SettingsFile)}
    (hne : f.tables ≠ []) (hrest : m.firstDraft rest = m.firstAt places) :
    m.firstDraft ((directory, f) :: rest) = m.firstAt (f.places directory ++ places) := by
  rw [firstDraft, draftIn, SettingsFile.places]
  cases hread : m.readSettings (directory.child f.name) with
  | error fault =>
    -- The file is read for its first table already, so that there has to be one.
    obtain ⟨key, keys, hkeys⟩ := List.exists_cons_of_ne_nil hne
    simp [hkeys, firstAt, hread, Except.mapError, bind, Except.bind]
  | ok contents =>
    rw [firstAt_map_append hread, ← hrest]
    cases hfirst : contents.bind (firstTable? f.tables) with
    | none => simp [hfirst, Except.mapError, bind, Except.bind, pure, Except.pure]
    | some found =>
      obtain ⟨table, x⟩ := found
      cases hdraft : draftOf x table (directory.child f.name) <;>
        simp [hfirst, hdraft, Except.mapError, bind, Except.bind, pure, Except.pure]

theorem firstDraft_settingsFilesFrom (start : Path) :
    m.firstDraft (settingsFilesFrom start) = m.firstAt start.settingsPlacesFrom := by
  rw [settingsFilesFrom, Path.settingsPlacesFrom]
  induction start.selfAndParents with
  | nil => rfl
  | cons directory directories ih =>
    -- Every directory has two settings files.
    exact firstDraft_cons_eq (by decide) (firstDraft_cons_eq (by decide) ih)

theorem findDraft_eq_firstAt (h : m.resolve p = .ok start) : m.findDraft p = m.firstAt start.settingsPlacesFrom := by
  simp only [findDraft, h, Except.mapError, bind, Except.bind, firstDraft_settingsFilesFrom]

/-- The settings that are found are those at the first place, from the start of the search upwards, at which there is
something, and the defaults if there is nothing at any place. -/
theorem findDraft_spec (hstart : m.resolve p = .ok start) :
    (∀ front place back x, start.settingsPlacesFrom = front ++ place :: back → (∀ c ∈ front, m.Lacks c) →
      m.Finds place x →
        (x.IsSettings → ∃ d, m.findDraft p = .ok d ∧ IsDraftOf x d) ∧
        (¬ x.IsSettings → m.findDraft p = .error (.settings (.badTable place.key place.file.text)))) ∧
    ((∀ place ∈ start.settingsPlacesFrom, m.Lacks place) → m.findDraft p = .ok {}) := by
  rw [findDraft_eq_firstAt hstart]
  constructor
  · intro front place back x hplaces hfront hfinds
    obtain ⟨hok, herror⟩ := draftOf_spec x place.key place.file
    rw [hplaces, firstAt_append_of_lacks hfront, firstAt_cons_of_finds hfinds]
    refine ⟨fun h => ?_, fun h => by rw [herror h]; rfl⟩
    obtain ⟨d, hd, hdraft⟩ := hok h
    exact ⟨d, by rw [hd]; rfl, hdraft⟩
  · intro h
    rw [← List.append_nil start.settingsPlacesFrom, firstAt_append_of_lacks h]
    rfl

/-- A machine with a settings file at the root, and with one in a directory that is no document. -/
def configured : Machine where
  root := .directory
    [(".docc-snippets.toml".toList, .file (Utf8.encode "[docc-snippets]\njson_indent=4".toList) 0o644),
      ("a".toList, .directory [("pyproject.toml".toList, .file ['['.toNat.toUInt8] 0o644)] 0o755)] 0o755

theorem configured_findDraft : ∃ d, configured.findDraft ⟨.root, ["a".toList]⟩ = .ok d ∧
    IsDraftOf (.table [("json_indent".toList, .integer 4)]) d := by
  have hmalformed : configured.Reads ⟨.root, ["a".toList, "pyproject.toml".toList]⟩ (.ok none) :=
    .malformed (t := ['[']) rfl rfl rfl (by cbv)
  have habsent : configured.Reads ⟨.root, ["a".toList, ".docc-snippets.toml".toList]⟩ (.ok none) := .absent rfl
  have habsentAbove : configured.Reads ⟨.root, ["pyproject.toml".toList]⟩ (.ok none) := .absent rfl
  have hdocument : configured.Reads ⟨.root, [".docc-snippets.toml".toList]⟩
      (.ok (some [("docc-snippets".toList, .table [("json_indent".toList, .integer 4)])])) :=
    .document (t := "[docc-snippets]\njson_indent=4".toList) rfl rfl (by cbv) (by cbv)
  have hfront : ∀ place ∈ Path.settingsPlaces ⟨.root, ["a".toList]⟩ ++
      [⟨⟨.root, ["pyproject.toml".toList]⟩, ["tool".toList, "docc-snippets".toList]⟩], configured.Lacks place := by
    simp only [Path.settingsPlaces, List.cons_append, List.nil_append, List.forall_mem_cons]
    exact ⟨⟨_, hmalformed, rfl⟩, ⟨_, habsent, rfl⟩, ⟨_, habsent, rfl⟩, ⟨_, habsentAbove, rfl⟩, by simp⟩
  have hstart : configured.resolve ⟨.root, ["a".toList]⟩ = .ok ⟨.root, ["a".toList]⟩ := by decide +kernel
  exact ((findDraft_spec hstart).1 _ ⟨⟨.root, [".docc-snippets.toml".toList]⟩, ["docc-snippets".toList]⟩ _ _ rfl hfront
    ⟨_, hdocument, rfl⟩).1 (by decide)

theorem status_of_isThere_eq_error {e : SystemError} (h : m.isThere p = .error e) :
    m.status p.text true = .error (.system e.errno) := by
  unfold isThere probe at h
  split at h
  · cases h
  · cases h
  · rename_i errno hstatus
    split at h
    · cases h
    · obtain rfl := Except.error.inj h
      exact hstatus

/-- A link at the root under the name of a settings file, with a target that is too long for a name. -/
def misnamed : Machine where
  root := .directory [("pyproject.toml".toList, .link (List.replicate 256 'n'))] 0o755

/-- Not every settings file that the system refuses to read is passed over. It is asked first whether the file is there,
and an answer that does not mean its absence ends the search. -/
theorem not_forall_findDraft_of_unreadable :
    ¬ ∀ (m : Machine) (p start : Path), m.resolve p = .ok start →
      (∀ place ∈ start.settingsPlacesFrom, ∃ errno, m.status place.file.text true = .error (.system errno)) →
        m.findDraft p = .ok {} := by
  intro h
  have hthere : misnamed.isThere ⟨.root, ["pyproject.toml".toList]⟩ =
      .error { errno := .nameTooLong, path := "/pyproject.toml".toList } := by decide +kernel
  have hrefused : ∀ place ∈ Path.settingsPlacesFrom ⟨.root, []⟩,
      ∃ errno, misnamed.status place.file.text true = .error (.system errno) := by
    show ∀ place ∈ Path.settingsPlaces ⟨.root, []⟩, _
    simp only [Path.settingsPlaces, List.forall_mem_cons]
    exact ⟨⟨_, status_of_isThere_eq_error hthere⟩, ⟨_, rfl⟩, ⟨_, rfl⟩, by simp⟩
  have hstart : misnamed.resolve ⟨.root, []⟩ = .ok ⟨.root, []⟩ := by decide +kernel
  have hread : misnamed.readSettings ⟨.root, ["pyproject.toml".toList]⟩ =
      .error (.system { errno := .nameTooLong, path := "/pyproject.toml".toList }) := by
    rw [readSettings, hthere]
    rfl
  have hfailed : misnamed.findDraft ⟨.root, []⟩ =
      .error (.fault (.system { errno := .nameTooLong, path := "/pyproject.toml".toList })) := by
    rw [findDraft_eq_firstAt hstart]
    show misnamed.firstAt (⟨⟨.root, ["pyproject.toml".toList]⟩, _⟩ :: _) = _
    rw [firstAt, hread]
  rw [h misnamed _ _ hstart hrefused] at hfailed
  cases hfailed

end Machine
end CodeSnippets
