import CodeSnippets.Proofs.SettingsSearch

/-!
# Faults of the search for settings

A settings file whose text is no document counts as one that is not there. The search comes to a fault, which is no
error of settings, only where a settings file is reached of which it cannot be told whether it is there, whose bytes are
no text, or whose text holds what the reader of documents does not take.

* `Malformed`, `SameButMalformed.readSettings_eq`: a file with a text that is no document.
* `firstAt_eq_fault_iff`, `firstAt_congr`: where a search comes to a fault, and what it depends on.
* `findDraft_faults`: these together.
* `not_forall_findDraft_ne_fault`: bytes that are no text are not passed over.
-/

namespace CodeSnippets

open Text

namespace Machine

variable {m m' : Machine} {p start file : Path} {f : Fault} {place : SettingsPlace} {places : List SettingsPlace}

/-- A settings file holds a text that is no document. -/
def Malformed (m : Machine) (file : Path) : Prop :=
  ∃ bytes t, m.isThere file = .ok true ∧ m.readBytes file = .ok bytes ∧ Utf8.decode bytes = .ok t ∧
    Toml.Document.read t = .error .malformed

/-- A file is as it is on another machine, or its text is no document and the other machine does not have it. -/
def SameButMalformed (m m' : Machine) (file : Path) : Prop :=
  (m.isThere file = m'.isThere file ∧ m.readBytes file = m'.readBytes file) ∨
    m.Malformed file ∧ m'.isThere file = .ok false

theorem SameButMalformed.readSettings_eq (h : m.SameButMalformed m' file) :
    m.readSettings file = m'.readSettings file := by
  rcases h with ⟨hthere, hbytes⟩ | ⟨⟨bytes, t, hthere, hbytes, ht, hmalformed⟩, habsent⟩
  · simp only [readSettings, hthere, hbytes]
  · rw [readSettings_eq_iff.2 (.malformed hthere hbytes ht hmalformed), readSettings_eq_iff.2 (.absent habsent)]

/-- The search depends on nothing but what is read from the settings files. -/
theorem firstAt_congr (h : ∀ place ∈ places, m.readSettings place.file = m'.readSettings place.file) :
    m.firstAt places = m'.firstAt places := by
  induction places with
  | nil => rfl
  | cons place places ih =>
    obtain ⟨hplace, hplaces⟩ := List.forall_mem_cons.1 h
    rw [firstAt, firstAt, hplace, ih hplaces]

/-- A place is one at which there is something, or nothing, or whose file has a fault. -/
theorem finds_or_lacks_or_faults (m : Machine) (place : SettingsPlace) :
    (∃ x, m.Finds place x) ∨ m.Lacks place ∨ ∃ f, m.Reads place.file (.error f) := by
  cases hread : m.readSettings place.file with
  | error f => exact .inr (.inr ⟨f, readSettings_eq_iff.1 hread⟩)
  | ok contents =>
    have hholds := readSettings_eq_iff.1 hread
    cases hx : contents.bind fun root => valueAtKey? place.key (.table root) with
    | none => exact .inr (.inl ⟨contents, hholds, hx⟩)
    | some x =>
      obtain ⟨root, rfl, hroot⟩ := Option.bind_eq_some_iff.1 hx
      exact .inl ⟨x, root, hholds, hroot⟩

/-- The search comes to a fault where there is one before there is anything at a place. -/
theorem firstAt_eq_fault_iff : m.firstAt places = .error (.fault f) ↔
    ∃ front place back, places = front ++ place :: back ∧ (∀ c ∈ front, m.Lacks c) ∧ m.Reads place.file (.error f) := by
  constructor
  · intro h
    -- The first place at which there is something, or a fault, decides.
    induction places with
    | nil => cases h
    | cons place places ih =>
      rcases m.finds_or_lacks_or_faults place with ⟨x, hfinds⟩ | hlacks | ⟨fault, hfaults⟩
      · rw [firstAt_cons_of_finds hfinds] at h
        obtain ⟨e, -, he⟩ := mapError_eq_error_iff.1 h
        cases he
      · rw [firstAt_cons_of_lacks hlacks] at h
        obtain ⟨front, place', back, rfl, hfront, hfaults⟩ := ih h
        exact ⟨place :: front, place', back, rfl, List.forall_mem_cons.2 ⟨hlacks, hfront⟩, hfaults⟩
      · rw [firstAt_cons_of_fault (readSettings_eq_iff.2 hfaults)] at h
        obtain rfl := SearchError.fault.inj (Except.error.inj h)
        exact ⟨[], place, places, rfl, by simp, hfaults⟩
  · rintro ⟨front, place, back, rfl, hfront, hfaults⟩
    rw [firstAt_append_of_lacks hfront, firstAt_cons_of_fault (readSettings_eq_iff.2 hfaults)]

/-- The search comes to a fault exactly where a settings file has one before there is anything at a place. A file with a
text that is no document counts as one that is not there. -/
theorem findDraft_faults (hstart : m.resolve p = .ok start) :
    (∀ f, m.findDraft p = .error (.fault f) ↔ ∃ front place back, start.settingsPlacesFrom = front ++ place :: back ∧
      (∀ c ∈ front, m.Lacks c) ∧ m.Reads place.file (.error f)) ∧
    (∀ m' : Machine, m'.resolve p = .ok start →
      (∀ place ∈ start.settingsPlacesFrom, m.SameButMalformed m' place.file) → m.findDraft p = m'.findDraft p) := by
  refine ⟨fun f => ?_, fun m' hstart' hsame => ?_⟩
  · rw [findDraft_eq_firstAt hstart, firstAt_eq_fault_iff]
  · rw [findDraft_eq_firstAt hstart, findDraft_eq_firstAt hstart']
    exact firstAt_congr fun place hplace => (hsame place hplace).readSettings_eq

/-- A machine with a settings file at the root, and with one in a directory whose bytes are no text. -/
def garbled : Machine where
  root := .directory
    [("pyproject.toml".toList, .file ['['.toNat.toUInt8] 0o644),
      ("a".toList, .directory [("pyproject.toml".toList, .file [0xff] 0o644)] 0o755)] 0o755

/-- The machine without the settings file at the root. -/
def bare : Machine where
  root := .directory [("a".toList, .directory [("pyproject.toml".toList, .file [0xff] 0o644)] 0o755)] 0o755

theorem garbled_resolve : garbled.resolve ⟨.root, ["a".toList]⟩ = .ok ⟨.root, ["a".toList]⟩ := by decide +kernel

theorem garbled_reads : garbled.Reads ⟨.root, ["a".toList, "pyproject.toml".toList]⟩
    (.error (.undecodable ⟨.invalidStart, 0, 1, 0xff⟩)) := .undecodable rfl rfl rfl

theorem garbled_findDraft :
    garbled.findDraft ⟨.root, ["a".toList]⟩ = .error (.fault (.undecodable ⟨.invalidStart, 0, 1, 0xff⟩)) ∧
      garbled.findDraft ⟨.root, []⟩ = bare.findDraft ⟨.root, []⟩ := by
  have hroot : garbled.resolve ⟨.root, []⟩ = .ok ⟨.root, []⟩ := by decide +kernel
  refine ⟨((findDraft_faults garbled_resolve).1 _).2 ⟨[], _, _, rfl, by simp, garbled_reads⟩,
    (findDraft_faults hroot).2 bare (by decide +kernel) ?_⟩
  show ∀ place ∈ Path.settingsPlaces ⟨.root, []⟩, _
  simp only [Path.settingsPlaces, List.forall_mem_cons]
  exact ⟨.inr ⟨⟨_, ['['], rfl, rfl, rfl, by cbv⟩, rfl⟩, .inl ⟨rfl, rfl⟩, .inl ⟨rfl, rfl⟩, by simp⟩

/-- Not every search in which the system gives the bytes of all settings files that are there ends in a draft or in an
error of settings: bytes that are no text are not passed over. -/
theorem not_forall_findDraft_ne_fault :
    ¬ ∀ (m : Machine) (p start : Path), m.resolve p = .ok start →
      (∀ place ∈ start.settingsPlacesFrom,
        m.isThere place.file = .ok false ∨ ∃ bytes, m.isThere place.file = .ok true ∧ m.readBytes place.file = .ok bytes) →
          ∀ f, m.findDraft p ≠ .error (.fault f) := by
  intro h
  refine h garbled _ _ garbled_resolve ?_ (.undecodable ⟨.invalidStart, 0, 1, 0xff⟩) ?_
  · show ∀ place ∈ Path.settingsPlaces ⟨.root, ["a".toList]⟩ ++ Path.settingsPlaces ⟨.root, []⟩, _
    simp only [Path.settingsPlaces, List.cons_append, List.nil_append, List.forall_mem_cons]
    exact ⟨.inr ⟨_, rfl, rfl⟩, .inl rfl, .inl rfl, .inr ⟨_, rfl, rfl⟩, .inl rfl, .inl rfl, by simp⟩
  · rw [findDraft_eq_firstAt garbled_resolve]
    exact firstAt_eq_fault_iff.2 ⟨[], _, _, rfl, by simp, garbled_reads⟩

end Machine
end CodeSnippets
