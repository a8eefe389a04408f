import CodeSnippets.Proofs.ParentDirectory
import CodeSnippets.Source.Writing

/-!
# The steps of writing

A text is written to a new file, which then takes the place of the target. What each step does to the tree, and why it
fails.

* `Room`, `createTemporary_eq_ok_iff`: the fresh name under which the new file is created.
* `Room.discard_place`, `Room.discard_put`: the new file leaves no trace.
* `fill_spec`, `replace_spec`, `install_spec`: the new file is filled and takes the place of the target.
* `createTemporary_eq_error`, `install_eq_error`: why it does not.
-/

namespace CodeSnippets

open Text

namespace Machine

variable {m : Machine} {p directory source : Path} {raw about : Text} {name : Text} {place location : Location}
  {entries : Named Node}

/-! ### Fresh names -/

/-- A name that is drawn is new. -/
theorem drawName_eq_some {tries i : Nat} (h : m.drawName entries tries i = some name) : name ∉ entries.names := by
  induction tries generalizing i with
  | zero => cases h
  | succ tries ih =>
    rw [drawName] at h
    split at h
    · exact ih h
    · rename_i hnew
      obtain rfl := Option.some.inj h
      simpa using hnew

/-! ### The steps of writing -/

/-- At a location there is a directory that may be searched and in which names may be put. -/
def TakesNames (m : Machine) (place : Location) : Prop :=
  ∃ entries mode, m.root.get? place = some (.directory entries mode) ∧ (Node.directory entries mode).mayRun = true ∧
    (Node.directory entries mode).mayWrite = true

theorem TakesNames.searchable (h : m.TakesNames place) : m.root.Searchable place := by
  obtain ⟨entries, mode, hdirectory, hrun, -⟩ := h
  exact ⟨entries, mode, hdirectory, hrun⟩

theorem locateDirectory_eq_ok_iff : m.locateDirectory raw about = .ok place ↔
    m.locate raw true = .ok { location := place } ∧ m.TakesNames place := by
  unfold locateDirectory
  dsimp only
  constructor
  · intro h
    split at h
    · cases h
    · cases h
    · rename_i position hlocate
      split at h
      · cases h
      rename_i n hn
      split at h
      · cases h
      rename_i hdirectory
      split at h
      · cases h
      rename_i hremoved
      split at h
      · cases h
      rename_i hmode
      obtain rfl := Except.ok.inj h
      obtain ⟨place, removed⟩ := position
      obtain rfl : removed = 0 := by simpa using hremoved
      replace hn : m.root.get? place = some n := hn
      simp only [Bool.or_eq_true, Bool.not_eq_true', not_or, Bool.not_eq_false] at hmode
      cases n with
      | directory entries mode => exact ⟨hlocate, entries, mode, hn, hmode⟩
      | _ => simp [Node.isDirectory] at hdirectory
  · rintro ⟨hlocate, entries, mode, hdirectory, hrun, hwrite⟩
    have hnode : m.nodeAt? { location := place } = some (.directory entries mode) := hdirectory
    simp [hlocate, hnode, hrun, hwrite, Node.isDirectory]

theorem locateDirectory_eq_fault {f : Fault} (h : m.locateDirectory raw about = .error (.inr f)) : '\x00' ∈ raw := by
  unfold locateDirectory at h
  dsimp only at h
  split at h
  · rename_i hlocate
    exact locate_eq_nullCharacter_iff.1 hlocate
  · cases h
  · split at h
    · cases h
    split at h
    · cases h
    split at h
    · cases h
    split at h <;> cases h

/-- A fresh name for a file in the directory that a path leads to. -/
structure Room (m : Machine) (directory : Path) (place : Location) (name : Text) : Prop where
  locate : m.locate directory.text true = .ok { location := place }
  takesNames : m.TakesNames place
  fresh : m.freshName? (m.entriesAt directory) = some name
  size_le : Utf8.size (directory.child name).text ≤ maxPathSize

theorem entriesAt_eq {entries : Named Node} {mode : Nat} (h : m.locate directory.text true = .ok { location := place })
    (hplace : m.root.get? place = some (.directory entries mode)) : m.entriesAt directory = entries := by
  have hnode : m.nodeAt? { location := place } = some (.directory entries mode) := hplace
  simp [entriesAt, status, h, bind, Except.bind, hnode, Node.entries]

theorem Room.new (h : m.Room directory place name) :
    ∃ (entries : Named Node) (mode : Nat), m.root.get? place = some (.directory entries mode) ∧ name ∉ entries.names := by
  obtain ⟨entries, mode, hdirectory, -⟩ := h.takesNames
  have hfresh := h.fresh
  rw [entriesAt_eq h.locate hdirectory] at hfresh
  exact ⟨entries, mode, hdirectory, drawName_eq_some hfresh⟩

theorem attempt_eq_ok_iff {step : WriteStep} {about : Option Text} : m.attempt step about = .ok () ↔ m.refusal step = none := by
  rw [attempt]
  cases m.refusal step <;> simp

/-- A new file is created under a fresh name, if the system does not refuse it. -/
theorem createTemporary_eq_ok_iff {created : Machine} : m.createTemporary p = .ok (source, location, created) ↔
    '\x00' ∉ p.text ∧ m.refusal .create = none ∧ ∃ directory place name, m.absolute p = .ok directory ∧
      m.Room directory place name ∧ source = directory.child name ∧ location = place ++ [name] ∧
        created = m.place location (.file [] 0o600) := by
  unfold createTemporary
  -- With a null character there is an error, whatever the system takes.
  by_cases hnull : '\x00' ∈ p.text
  · simp [hnull, bind, Except.bind]
  rw [if_neg (by simpa using hnull)]
  constructor
  · intro h
    obtain ⟨directory, habsolute, h⟩ := bind_eq_ok_iff.1 h
    split at h
    · cases h
    rename_i name hfresh
    dsimp only at h
    split at h
    · cases h
    rename_i hsize
    obtain ⟨place, hplace, h⟩ := bind_eq_ok_iff.1 h
    obtain ⟨⟨⟩, hcreate, h⟩ := bind_eq_ok_iff.1 h
    obtain ⟨rfl, rfl, rfl⟩ : _ ∧ _ ∧ _ := by simpa [pure, Except.pure] using h
    obtain ⟨hlocate, htakes⟩ := locateDirectory_eq_ok_iff.1 hplace
    exact ⟨hnull, attempt_eq_ok_iff.1 (mapError_eq_ok_iff.1 hcreate), directory, place, name,
      mapError_eq_ok_iff.1 habsolute, ⟨hlocate, htakes, hfresh, Nat.not_lt.1 hsize⟩, rfl, rfl, rfl⟩
  · rintro ⟨-, hcreate, directory, place, name, habsolute, hroom, rfl, rfl, rfl⟩
    refine bind_eq_ok_iff.2 ⟨directory, mapError_eq_ok_iff.2 habsolute, ?_⟩
    rw [hroom.fresh]
    dsimp only
    rw [if_neg (Nat.not_lt.2 hroom.size_le)]
    refine bind_eq_ok_iff.2 ⟨place, locateDirectory_eq_ok_iff.2 ⟨hroom.locate, hroom.takesNames⟩, ?_⟩
    exact bind_eq_ok_iff.2 ⟨(), mapError_eq_ok_iff.2 (attempt_eq_ok_iff.2 hcreate), rfl⟩

theorem null_mem_of_absolute (hm : m.WellFormed) (hp : p.IsRead) (habsolute : m.absolute p = .ok directory)
    (h : '\x00' ∈ directory.text) : '\x00' ∈ p.text := by
  obtain ⟨horigin, rfl⟩ := absolute_eq_ok hm hp habsolute
  obtain ⟨part, hpart, hmem⟩ := Path.exists_part_of_mem_text h (by decide) (by decide)
  obtain ⟨entries, mode, hdirectory⟩ := hm.exists_origin horigin
  rcases Location.mem_of_mem_along hpart with hname | hpart
  · exact absurd hmem (null_notMem_of_isName (Node.isName_of_get? hm.hasNames hdirectory part hname))
  · exact Path.mem_text_of_mem_parts hpart hmem

/-- A new file is not created because the path of its directory holds a null character, or because of the system. -/
theorem createTemporary_eq_error (hm : m.WellFormed) (hp : p.IsRead) {e : SystemError ⊕ Fault}
    (h : m.createTemporary p = .error e) :
    '\x00' ∈ p.text ∧ e = .inr .nullCharacter ∨ '\x00' ∉ p.text ∧ ∃ e', e = .inl e' := by
  unfold createTemporary at h
  split at h
  · rename_i hnull
    obtain rfl : Sum.inr Fault.nullCharacter = e := by simpa [bind, Except.bind] using h
    exact .inl ⟨by simpa using hnull, rfl⟩
  rename_i hnull
  replace hnull : '\x00' ∉ p.text := by simpa using hnull
  refine .inr ⟨hnull, ?_⟩
  rcases bind_eq_error_iff.1 h with h | ⟨directory, habsolute, h⟩
  · obtain ⟨e', -, rfl⟩ := mapError_eq_error_iff.1 h
    exact ⟨e', rfl⟩
  split at h
  · exact ⟨_, (Except.error.inj h).symm⟩
  dsimp only at h
  split at h
  · exact ⟨_, (Except.error.inj h).symm⟩
  rcases bind_eq_error_iff.1 h with h | ⟨place, -, h⟩
  · cases e with
    | inl e' => exact ⟨e', rfl⟩
    | inr f =>
      -- The path from the root has no null character that the path itself does not have.
      exact absurd (null_mem_of_absolute hm hp (mapError_eq_ok_iff.1 habsolute) (locateDirectory_eq_fault h)) hnull
  rcases bind_eq_error_iff.1 h with h | ⟨-, -, h⟩
  · obtain ⟨e', -, rfl⟩ := mapError_eq_error_iff.1 h
    exact ⟨e', rfl⟩
  · cases h

section Room

variable {new : Node} {bytes : List UInt8} {mode : Nat}

theorem place_place (m : Machine) (l : Location) (a b : Node) : (m.place l a).place l b = m.place l b := by
  simp only [place, Node.put_put]

theorem Room.get?_eq_none (h : m.Room directory place name) : m.root.get? (place ++ [name]) = none := by
  obtain ⟨entries, mode, hplace, hname⟩ := h.new
  simp [Node.get?_append, hplace, Node.get?_cons, Node.entries, Named.get?_eq_none_iff.2 hname]

theorem Room.get?_place_self (h : m.Room directory place name) (new : Node) :
    (m.place (place ++ [name]) new).root.get? (place ++ [name]) = some new := by
  obtain ⟨entries, mode, hplace, -⟩ := h.new
  exact Node.get?_put_self new hplace name

theorem Room.remove_place (h : m.Room directory place name) (new : Node) :
    (m.place (place ++ [name]) new).root.remove (place ++ [name]) = m.root := by
  obtain ⟨entries, mode, hplace, hname⟩ := h.new
  exact Node.remove_put new hplace hname

/-- A new file that is taken away again leaves no trace. -/
theorem Room.discard_place (h : m.Room directory place name) (new : Node) :
    (m.place (place ++ [name]) new).discard (place ++ [name]) = m := by
  rw [discard, h.remove_place]
  rfl

theorem Room.keeps (h : m.Room directory place name) (hnew : new.look = .other) :
    m.root.Keeps (m.place (place ++ [name]) new).root := by
  obtain ⟨entries, mode, hplace, hname⟩ := h.new
  refine Node.keeps_put hnew hplace fun x hx => ?_
  rw [Named.get?_eq_none_iff.2 hname] at hx
  cases hx

/-- Filling a new file leaves a file there, which is as it should be if no step has failed. -/
theorem fill_spec (m : Machine) (source : Path) (location : Location) (bytes : List UInt8) (mode : Nat) :
    ∃ bytes' mode', ((m.place location (.file [] 0o600)).fill source location bytes mode).1 =
        m.place location (.file bytes' mode') ∧
      (((m.place location (.file [] 0o600)).fill source location bytes mode).2 = .ok () →
        bytes' = bytes ∧ mode' = mode) := by
  unfold fill
  split
  · exact ⟨[], 0o600, rfl, nofun⟩
  dsimp only
  rw [place_place]
  split
  · exact ⟨bytes, 0o600, rfl, nofun⟩
  · exact ⟨bytes, 0o600, rfl, nofun⟩
  · exact ⟨bytes, mode, place_place _ _ _ _, fun _ => ⟨rfl, rfl⟩⟩

/-- The system takes all steps that fill a new file. -/
def Fills (m : Machine) : Prop := m.refusal .write = none ∧ m.refusal .sync = none ∧ m.refusal .setMode = none

theorem fill_eq_ok_iff : (m.fill source location bytes mode).2 = .ok () ↔ m.Fills := by
  unfold fill Fills
  simp only [attempt, place]
  cases m.refusal .write <;> cases m.refusal .sync <;> cases m.refusal .setMode <;> simp

theorem null_mem_text_of_parent (h : '\x00' ∈ p.parent.text) : '\x00' ∈ p.text := by
  obtain ⟨part, hpart, hmem⟩ := Path.exists_part_of_mem_text h (by decide) (by decide)
  exact Path.mem_text_of_mem_parts (Path.parent_parts_subset p hpart) hmem

theorem null_mem_text_of_name (h : '\x00' ∈ p.name) : '\x00' ∈ p.text := by
  by_cases hne : p.parts = []
  · simp [Path.name, hne] at h
  · exact Path.mem_text_of_mem_parts (Path.name_mem_parts hne) h

theorem null_notMem_text (hparent : '\x00' ∉ p.parent.text) (hname : '\x00' ∉ p.name) : '\x00' ∉ p.text := by
  intro h
  obtain ⟨part, hpart, hmem⟩ := Path.exists_part_of_mem_text h (by decide) (by decide)
  rw [Path.parts_eq_parent_append (List.ne_nil_of_mem hpart)] at hpart
  rcases List.mem_append.1 hpart with hpart | hlast
  · exact hparent (Path.mem_text_of_mem_parts hpart hmem)
  · exact hname (List.mem_singleton.1 hlast ▸ hmem)

theorem targetLocation_eq_ok (h : m.targetLocation source p = .ok location) :
    ∃ place, m.locate p.parent.text true = .ok { location := place } ∧ '\x00' ∉ p.text ∧ location = place ++ [p.name] := by
  unfold targetLocation at h
  split at h
  · cases h
  rename_i hnull
  split at h
  · cases h
  · cases h
  rename_i place hplace
  obtain rfl := Except.ok.inj h
  exact ⟨place, (locateDirectory_eq_ok_iff.1 hplace).1, by simpa using hnull, rfl⟩

/-- The new file does not take the place of a path because the path holds a null character, or because of the system. -/
theorem targetLocation_eq_error {e : SystemError ⊕ Fault} (h : m.targetLocation source p = .error e) :
    '\x00' ∈ p.text ∧ e = .inr .nullCharacter ∨ '\x00' ∉ p.text ∧ ∃ e', e = .inl e' := by
  unfold targetLocation at h
  split at h
  · rename_i hnull
    exact .inl ⟨by simpa using hnull, (Except.error.inj h).symm⟩
  rename_i hnull
  replace hnull : '\x00' ∉ p.text := by simpa using hnull
  split at h
  · exact .inr ⟨hnull, _, (Except.error.inj h).symm⟩
  · rename_i hplace
    exact absurd (null_mem_text_of_parent (locateDirectory_eq_fault hplace)) hnull
  · cases h

/-- A file takes the place of a path, or stays where it is. -/
theorem replace_spec (hn : m.root.get? location = some new) :
    (∃ e, m.replace source p location = (m, .error e)) ∨
      ∃ place, m.locate p.parent.text true = .ok { location := place } ∧ '\x00' ∉ p.text ∧
        m.replace source p location =
          ({ m with root := (m.root.remove location).put new (place ++ [p.name]) }, .ok ()) := by
  unfold replace
  cases htarget : m.targetLocation source p with
  | error e => exact .inl ⟨e, rfl⟩
  | ok destination =>
    obtain ⟨place, hplace, hnull, rfl⟩ := targetLocation_eq_ok htarget
    cases hrefusal : m.refusal .replace with
    | some errno => exact .inl ⟨_, rfl⟩
    | none => exact .inr ⟨place, hplace, hnull, by simp only [hn]⟩

theorem replace_eq_error {m' : Machine} {e : SystemError ⊕ Fault} (h : m.replace source p location = (m', .error e)) :
    '\x00' ∈ p.text ∧ e = .inr .nullCharacter ∨ '\x00' ∉ p.text ∧ ∃ e', e = .inl e' := by
  unfold replace at h
  split at h
  · rename_i htarget
    cases h
    exact targetLocation_eq_error htarget
  · rename_i destination htarget
    -- The place of the target has been found, which its path would not allow with a null character.
    obtain ⟨-, -, hnull, -⟩ := targetLocation_eq_ok htarget
    split at h <;> cases h
    · exact .inr ⟨hnull, _, rfl⟩
    · exact .inr ⟨hnull, _, rfl⟩

/-- A new file is filled and takes the place of a path, or is still there. -/
theorem install_spec (h : m.Room directory place name) (source p : Path) (bytes : List UInt8) (mode : Nat) :
    (∃ e bytes' mode', (m.place (place ++ [name]) (.file [] 0o600)).install source p (place ++ [name]) bytes mode =
        (m.place (place ++ [name]) (.file bytes' mode'), .error e)) ∨
      ∃ target, (m.place (place ++ [name]) (.file bytes mode)).locate p.parent.text true = .ok { location := target } ∧
        '\x00' ∉ p.text ∧
        (m.place (place ++ [name]) (.file [] 0o600)).install source p (place ++ [name]) bytes mode =
          ({ m with root := m.root.put (.file bytes mode) (target ++ [p.name]) }, .ok ()) := by
  obtain ⟨bytes', mode', hfilled, hok⟩ := fill_spec m source (place ++ [name]) bytes mode
  generalize hfill : (m.place (place ++ [name]) (.file [] 0o600)).fill source (place ++ [name]) bytes mode = result
    at hfilled hok
  obtain ⟨filled, outcome⟩ := result
  obtain rfl : filled = _ := hfilled
  unfold install
  rw [hfill]
  cases outcome with
  | error e => exact .inl ⟨_, bytes', mode', rfl⟩
  | ok done =>
    -- The new file is what it should be, and is still there if it cannot be moved.
    obtain ⟨rfl, rfl⟩ := hok rfl
    rcases replace_spec (h.get?_place_self (.file bytes' mode')) with
      ⟨e, hreplace⟩ | ⟨target, htarget, hnull, hreplace⟩
    · dsimp only
      rw [hreplace]
      exact .inl ⟨_, bytes', mode', rfl⟩
    · dsimp only
      rw [hreplace, h.remove_place]
      exact .inr ⟨target, htarget, hnull, rfl⟩

/-- A new file that can be filled stays where it is for a null character in the path of the target. All else that keeps
it there is said by the system. -/
theorem install_eq_error {m' : Machine} {e : AccessError} (h : m.install source p location bytes mode = (m', .error e)) :
    ('\x00' ∈ p.text ∧ m.Fills) ∧ e = .fault .nullCharacter ∨
      ¬('\x00' ∈ p.text ∧ m.Fills) ∧ e.isSystem = true := by
  unfold install at h
  split at h
  · rename_i hfill
    cases h
    -- The file has not been filled, so that the path of the target has not been asked for.
    refine .inr ⟨fun hnull => ?_, rfl⟩
    have hok : (m.fill source location bytes mode).2 = .ok () := fill_eq_ok_iff.2 hnull.2
    rw [hfill] at hok
    cases hok
  · rename_i hfill
    have hfills : m.Fills := fill_eq_ok_iff.1 (congrArg Prod.snd hfill)
    split at h
    · rename_i hreplace
      cases h
      rcases replace_eq_error hreplace with ⟨hnull, rfl⟩ | ⟨hnull, e', rfl⟩
      · exact .inl ⟨⟨hnull, hfills⟩, rfl⟩
      · exact .inr ⟨fun h => hnull h.1, rfl⟩
    · cases h

end Room

end Machine
end CodeSnippets
