import CodeSnippets.CommandLine.Outcome
import CodeSnippets.Proofs.LowerCase
import CodeSnippets.Proofs.SettingsSearch

/-!
# Settings that are used

Whatever values are given, a draft is refused for one of the reasons of the check, or it writes down valid settings: there
is an extension, the extensions start with a dot and are in lower case, and no name is empty. Settings stay valid when the
environment sets the largest size of a file.

* `IsExtension`, `normalized_normalized`: extensions in normal form, and drafts in normal form.
* `Settings.IsValid`, `checked_eq_ok_iff`: what the check accepts.
* `overridden_namedChanges`: values that are given to settings by name.
* `Draft.checked_overridden`: from any draft and any values given to settings to the settings of a command.
-/

namespace CodeSnippets

open Text

theorem Value.asInteger?_eq_some_iff {x : Value} {n : Int} : x.asInteger? = some n ↔ x = .integer n := by
  cases x <;> simp [asInteger?]

theorem Value.asText?_eq_some_iff {x : Value} {t : Text} : x.asText? = some t ↔ x = .text t := by
  cases x <;> simp [asText?]

namespace Draft

/-! ### Normal form -/

/-- An extension in normal form starts with a dot and is in lower case. -/
structure IsExtension (t : Text) : Prop where
  head?_eq : t.head? = some '.'
  lower_eq : lower t = t

variable {d : Draft} {t : Text} {ts : List Text} {x : Value}

theorem isExtension_normalizedExtension (t : Text) : IsExtension (normalizedExtension t) := by
  have hdot (s : Text) : IsExtension ('.' :: lower s) := ⟨rfl, by rw [lower_cons_dot, lower_lower]⟩
  unfold normalizedExtension
  split
  · rw [lower_cons_dot]
    exact hdot _
  · exact hdot _

theorem IsExtension.exists_cons (h : IsExtension t) : ∃ s, t = '.' :: s := by
  cases t with
  | nil => cases h.head?_eq
  | cons c s => exact ⟨s, by rw [Option.some.inj h.head?_eq]⟩

theorem IsExtension.normalizedExtension_eq (h : IsExtension t) : normalizedExtension t = t := by
  obtain ⟨s, rfl⟩ := h.exists_cons
  exact h.lower_eq

/-- Extensions in normal form stay as they are. -/
theorem normalizedExtensions_map_text (h : ∀ t ∈ ts, IsExtension t) : normalizedExtensions (ts.map .text) = ts := by
  induction ts with
  | nil => rfl
  | cons t ts ih =>
    obtain ⟨ht, hts⟩ := List.forall_mem_cons.1 h
    obtain ⟨s, hs⟩ := ht.exists_cons
    have hrest := ih hts
    unfold normalizedExtensions at hrest ⊢
    rw [List.map_cons, List.filterMap_cons_some (b := t) (by simp [Value.asText?, hs]), List.map_cons,
      ht.normalizedExtension_eq, hrest]

theorem isExtension_of_mem_extensionList? (h : extensionList? x = some ts) : ∀ t ∈ ts, IsExtension t := by
  have hmem (xs : List Value) : ∀ t ∈ normalizedExtensions xs, IsExtension t := by
    intro t ht
    obtain ⟨s, -, rfl⟩ := List.mem_map.1 ht
    exact isExtension_normalizedExtension s
  cases x with
  | text _ | list _ | tuple _ =>
    obtain rfl := Option.some.inj h
    exact hmem _
  | _ => cases h

theorem normalized_of_some (h : extensionList? d.extensions = some ts) :
    d.normalized = { d with extensions := .list (ts.map .text) } := by
  rw [normalized, h]

theorem normalized_of_none (h : extensionList? d.extensions = none) : d.normalized = d := by
  rw [normalized, h]

/-- A draft in normal form is its own normal form. -/
theorem normalized_normalized (d : Draft) : d.normalized.normalized = d.normalized := by
  cases h : extensionList? d.extensions with
  | none => rw [normalized_of_none h, normalized_of_none h]
  | some ts =>
    rw [normalized_of_some h]
    refine normalized_of_some ?_
    exact congrArg some (normalizedExtensions_map_text (isExtension_of_mem_extensionList? h))

end Draft

/-! ### The check -/

/-- Settings as they are used: there is an extension, all extensions are in normal form, and no name is empty. -/
structure Settings.IsValid (s : Settings) : Prop where
  extensions_ne : s.extensions ≠ []
  isExtension : ∀ t ∈ s.extensions, Draft.IsExtension t
  snippetsDir_ne : s.snippetsDir ≠ []
  maxFileSize_pos : 0 < s.maxFileSize
  doccExecutable_ne : s.doccExecutable ≠ some []

namespace Draft

variable {d : Draft} {s : Settings}

/-- The values of a draft are those of settings, its extensions read as a list. -/
structure Holds (d : Draft) (s : Settings) : Prop where
  extensions_eq : extensionList? d.extensions = some s.extensions
  snippetsDir_eq : d.snippetsDir = .text s.snippetsDir
  jsonIndent_eq : d.jsonIndent = .integer s.jsonIndent
  maxFileSize_eq : d.maxFileSize = .integer s.maxFileSize
  doccExecutable_eq : d.doccExecutable = (s.doccExecutable.map .text).getD .none

theorem Holds.normalized_eq (h : d.Holds s) : d.normalized = s.draft := by
  rw [normalized_of_some h.extensions_eq, h.snippetsDir_eq, h.jsonIndent_eq, h.maxFileSize_eq, h.doccExecutable_eq,
    Settings.draft]

theorem holds_draft (h : s.IsValid) : s.draft.Holds s :=
  ⟨congrArg some (normalizedExtensions_map_text h.isExtension), rfl, rfl, rfl, rfl⟩

/-- What the check has read, once it has found nothing wrong. -/
theorem holds_of_read {size indent : Int} (executable : Option Text) (hsize : d.maxFileSize.asInteger? = some size)
    (hindent : d.jsonIndent.asInteger? = some indent) (hextensions : (extensionList? d.extensions).getD [] ≠ [])
    (hdir : d.snippetsDir.asText?.getD [] ≠ []) (hnonneg : 0 ≤ indent)
    (hexecutable : d.doccExecutable = (executable.map .text).getD .none) (hne : executable ≠ some []) (hpos : 0 < size)
    (hs : s = ⟨(extensionList? d.extensions).getD [], d.snippetsDir.asText?.getD [], indent.toNat, size, executable⟩) :
    d.Holds s ∧ s.IsValid := by
  subst hs
  obtain ⟨ts, hts⟩ : ∃ ts, extensionList? d.extensions = some ts := by
    cases h : extensionList? d.extensions <;> simp_all
  obtain ⟨dir, hdirectory⟩ : ∃ t, d.snippetsDir.asText? = some t := by
    cases h : d.snippetsDir.asText? <;> simp_all
  rw [hts, Option.getD_some] at hextensions ⊢
  rw [hdirectory, Option.getD_some] at hdir ⊢
  refine ⟨⟨hts, Value.asText?_eq_some_iff.1 hdirectory, ?_, Value.asInteger?_eq_some_iff.1 hsize, hexecutable⟩,
    ⟨hextensions, isExtension_of_mem_extensionList? hts, hdir, hpos, hne⟩⟩
  rw [Value.asInteger?_eq_some_iff.1 hindent, Int.toNat_of_nonneg hnonneg]

/-- The check accepts the values of valid settings, and nothing else. -/
theorem checked_eq_ok_iff : d.checked = .ok s ↔ d.Holds s ∧ s.IsValid := by
  constructor
  · intro h
    unfold checked at h
    simp only [bind, Except.bind, pure, Except.pure] at h
    -- Every way through the check but those on which nothing is wrong ends in an error.
    repeat' split at h
    all_goals try cases h
    · rename_i hsize _ _ hindent hextensions hdir hnonneg _ hexecutable hpos
      exact holds_of_read none hsize hindent (by simpa using hextensions) (by simpa using hdir) (Int.not_lt.1 hnonneg)
        hexecutable (by simp) (Int.not_le.1 hpos) rfl
    · rename_i hsize _ _ hindent hextensions hdir hnonneg _ t hne hexecutable hpos
      exact holds_of_read (some t) hsize hindent (by simpa using hextensions) (by simpa using hdir)
        (Int.not_lt.1 hnonneg) hexecutable (fun h => hne (Option.some.inj h)) (Int.not_le.1 hpos) rfl
  · rintro ⟨hholds, hvalid⟩
    obtain ⟨extensions, snippetsDir, jsonIndent, maxFileSize, executable⟩ := s
    have hextensions : extensions ≠ [] := hvalid.extensions_ne
    have hdir : snippetsDir ≠ [] := hvalid.snippetsDir_ne
    have hpos : ¬ maxFileSize ≤ 0 := Int.not_le.2 hvalid.maxFileSize_pos
    have hnonneg : ¬ (jsonIndent : Int) < 0 := Int.not_lt.2 (Int.natCast_nonneg jsonIndent)
    unfold checked
    rw [hholds.extensions_eq, hholds.snippetsDir_eq, hholds.jsonIndent_eq, hholds.maxFileSize_eq,
      hholds.doccExecutable_eq]
    match executable with
    | none => simp [Value.asInteger?, Value.asText?, hextensions, hdir, hpos, hnonneg, bind, Except.bind, pure, Except.pure]
    | some [] => exact absurd rfl hvalid.doccExecutable_ne
    | some (c :: t) =>
      simp [Value.asInteger?, Value.asText?, hextensions, hdir, hpos, hnonneg, bind, Except.bind, pure, Except.pure]

/-- What is no text, or is empty, does not count as an extension. -/
example : checked { extensions := .list [.text "Swift".toList, .integer 3, .text [], .text ".M".toList] } =
    .ok { extensions := [".swift".toList, ".m".toList] } := by
  decide +kernel

/-- Valid settings pass the check as they are written down. -/
theorem checked_draft (h : s.IsValid) : s.draft.checked = .ok s := checked_eq_ok_iff.2 ⟨holds_draft h, h⟩

/-- A draft in normal form passes the check if it writes valid settings down. -/
theorem checked_normalized_eq_ok_iff : d.normalized.checked = .ok s ↔ d.normalized = s.draft ∧ s.IsValid := by
  constructor
  · intro h
    obtain ⟨hholds, hvalid⟩ := checked_eq_ok_iff.1 h
    exact ⟨by rw [← hholds.normalized_eq, normalized_normalized], hvalid⟩
  · rintro ⟨hdraft, hvalid⟩
    rw [hdraft]
    exact checked_draft hvalid

end Draft

/-! ### Settings by name -/

/-- The largest size that the environment sets is positive if the size is that it stands for. -/
theorem sizeLimit_pos {value : Option Text} {default limit : Int} (h : sizeLimit value default = .ok limit)
    (hdefault : 0 < default) : 0 < limit := by
  unfold sizeLimit at h
  split at h
  · rwa [← Except.ok.inj h]
  · split at h
    · cases h
    · split at h
      · cases h
      · rename_i hpos
        rw [← Except.ok.inj h]
        exact Int.not_le.1 hpos

/-- Settings that are used stay so with the largest size that the environment sets. -/
theorem Settings.IsValid.limited {s : Settings} (h : s.IsValid) {value : Option Text} {limit : Int}
    (hlimit : sizeLimit value s.maxFileSize = .ok limit) : Settings.IsValid { s with maxFileSize := limit } :=
  { h with maxFileSize_pos := sizeLimit_pos hlimit h.maxFileSize_pos }

/-- A value that is not nothing. -/
def Value.isSome : Value → Bool
  | .none => false
  | _ => true

/-- Values under the names of the settings that they are given to. -/
def namedChanges (changes : List (Field × Value)) : Named Value := changes.map fun (field, x) => (field.name.toList, x)

theorem names_namedChanges (changes : List (Field × Value)) :
    (namedChanges changes).names = changes.map (·.1.name.toList) := by
  simp [namedChanges, Named.names]

/-- Nothing is given under the own name of a receiver by giving values to settings. -/
theorem Receiver.check_namedChanges (receiver : Receiver) (changes : List (Field × Value)) :
    receiver.check (namedChanges changes) = .ok () := by
  have hname (field : Field) : field.name.toList ≠ receiver.ownName.toList := by
    cases receiver <;> cases field <;> decide
  rw [Receiver.check, names_namedChanges, if_neg]
  simpa using fun field _ _ => hname field

namespace Draft

/-- Values that are given to settings by name are taken, the later ones over the earlier ones. Nothing is not taken. -/
theorem overridden_namedChanges (d : Draft) (changes : List (Field × Value)) :
    ∃ d', d.overridden (namedChanges changes) = .ok d' ∧
      ∀ field, d'.get field = d.valueAfter (namedChanges (changes.filter (·.2.isSome))) field := by
  have hnames : ∀ name ∈ (namedChanges (changes.filter (·.2.isSome))).names, Field.IsName name := by
    rw [names_namedChanges]
    intro name hname
    obtain ⟨change, -, rfl⟩ := List.mem_map.1 hname
    exact ⟨change.1, rfl⟩
  obtain ⟨d', hd', hget⟩ := (update_spec d _).1 hnames
  refine ⟨d', ?_, hget⟩
  rw [overridden, Receiver.check_namedChanges]
  show d.update (List.filter _ (changes.map _)) = _
  rw [List.filter_map]
  exact hd'

end Draft

namespace Machine

variable {m : Machine} {p : Path} {d d' : Draft} {changes : List (Field × Value)}

/-- The settings that are found from a path with some values replaced are those of a draft in normal form. -/
theorem findSettings_namedChanges (hp : m.findDraft p = .ok d) (hd' : d.overridden (namedChanges changes) = .ok d') :
    m.findSettings p (namedChanges changes) = d'.normalized.checked.mapError .settings := by
  rw [findSettings, Receiver.check_namedChanges, hp]
  simp [hd', Except.mapError, bind, Except.bind]

/-- The settings that are found are valid. -/
theorem isValid_of_findSettings {named : Named Value} {s : Settings} (h : m.findSettings p named = .ok s) : s.IsValid := by
  obtain ⟨_, -, h⟩ := bind_eq_ok_iff.1 h
  obtain ⟨d, -, h⟩ := bind_eq_ok_iff.1 h
  obtain ⟨d', -, h⟩ := bind_eq_ok_iff.1 h
  exact (Draft.checked_eq_ok_iff.1 (mapError_eq_ok_iff.1 h)).2

end Machine

/-- The settings of a command are valid. -/
theorem CommandLine.isValid_of_loadSettings {m : Machine} {base : Path} {jsonIndent : Option Int} {s : Settings}
    (h : loadSettings m base jsonIndent = .ok s) : s.IsValid := by
  obtain ⟨found, hfound, h⟩ := bind_eq_ok_iff.1 h
  obtain ⟨limit, hlimit, h⟩ := bind_eq_ok_iff.1 h
  obtain rfl := Except.ok.inj h
  exact (Machine.isValid_of_findSettings (mapError_eq_ok_iff.1 hfound)).limited (mapError_eq_ok_iff.1 hlimit)

/-- From any draft, and with any values given to settings, there is a draft in normal form. It passes the check exactly
if it writes valid settings down, and these pass again with the largest size that the environment sets. The settings of
a command are found in this way, and they are valid. -/
theorem Draft.checked_overridden (d : Draft) (changes : List (Field × Value)) :
    ∃ d' c, d.overridden (namedChanges changes) = .ok d' ∧
      (∀ field, d'.get field = d.valueAfter (namedChanges (changes.filter (·.2.isSome))) field) ∧
      d'.normalized = c ∧ c.normalized = c ∧
      (∀ s, c.checked = .ok s ↔ c = s.draft ∧ s.IsValid) ∧
      (∀ s, c.checked = .ok s → ∀ value limit, sizeLimit value s.maxFileSize = .ok limit →
        ({ s with maxFileSize := limit } : Settings).draft.checked = .ok { s with maxFileSize := limit }) ∧
      ∀ (m : Machine) (p : Path), m.findDraft p = .ok d →
        m.findSettings p (namedChanges changes) = c.checked.mapError .settings ∧
        ∀ jsonIndent s, CommandLine.loadSettings m p jsonIndent = .ok s →
          s.IsValid ∧ s.draft.normalized = s.draft ∧ s.draft.checked = .ok s := by
  obtain ⟨d', hd', hget⟩ := overridden_namedChanges d changes
  refine ⟨d', _, hd', hget, rfl, normalized_normalized d', fun s => checked_normalized_eq_ok_iff,
    fun s hs value limit hlimit => ?_, fun m p hp => ⟨Machine.findSettings_namedChanges hp hd', fun jsonIndent s hs => ?_⟩⟩
  · exact checked_draft ((checked_normalized_eq_ok_iff.1 hs).2.limited hlimit)
  · have hvalid := CommandLine.isValid_of_loadSettings hs
    exact ⟨hvalid, (holds_draft hvalid).normalized_eq, checked_draft hvalid⟩

end CodeSnippets
