import CodeSnippets.Proofs.WritingSteps

/-!
# Writing is all or nothing

Writing a text to a path either puts a file with this text in the place of the target and changes nothing else, or it
fails and changes nothing at all, whatever step the system refuses.

* `testBit_maskedMode`, `modeForWriting_eq_ok`: the permission bits that the file gets.
* `MeetsNull`: a null character ends the writing.
* `Puts`, `HasWritten`: only the file at a path is another one.
* `writeText_spec`, `writeText_eq_error`, `writeText_all_or_nothing`: what writing comes to.
* `not_forall_writeText`: the two conditions that it depends on.
-/

namespace CodeSnippets

open Text

/-- A mask takes its own bits from a mode and leaves the others. -/
theorem testBit_maskedMode (mode mask i : Nat) :
    (maskedMode mode mask).testBit i = (mode.testBit i && !mask.testBit i) := by
  rw [maskedMode, Nat.testBit_xor, Nat.testBit_and]
  cases mode.testBit i <;> cases mask.testBit i <;> rfl

namespace Machine

variable {m : Machine} {p directory : Path} {place : Location} {name : Text}

/-! ### The permission bits of the target -/

theorem inspect_eq_ok {n : Node} (h : m.inspect p = .ok n) : m.status p.text false = .ok n ∧ n.isRegular = true := by
  unfold inspect at h
  split at h
  · cases h
  · cases h
  rename_i x hx
  split at h
  · cases h
  split at h
  · rename_i hregular
    obtain rfl := Except.ok.inj h
    exact ⟨hx, hregular⟩
  · cases h

theorem inspect_eq_error {e : AccessError} (h : m.inspect p = .error e) : e.isSystem = true ∨ '\x00' ∈ p.text := by
  unfold inspect at h
  split at h
  · rename_i hstatus
    exact .inr (status_eq_nullCharacter_iff.1 hstatus)
  · obtain rfl := Except.error.inj h
    exact .inl rfl
  split at h
  · obtain rfl := Except.error.inj h
    exact .inl rfl
  split at h
  · cases h
  · obtain rfl := Except.error.inj h
    exact .inl rfl

/-- The permission bits that a file gets are those it has, or those that the mask leaves to a new file. The mask is
what it was, though it has been set. -/
theorem modeForWriting_eq_ok {m' : Machine} {mode : Nat} (h : m.modeForWriting p = .ok (mode, m')) :
    m' = m ∧ m.isLink p = .ok false ∧
      match m.status p.text false with
      | .ok n => n.isRegular = true ∧ mode = n.mode
      | .error _ => mode = maskedMode newFileMode m.umask := by
  unfold modeForWriting at h
  obtain ⟨link, hlink, h⟩ := bind_eq_ok_iff.1 h
  rw [mapError_eq_ok_iff] at hlink
  cases link with
  | true => cases h
  | false =>
    obtain ⟨there, hthere, h⟩ := bind_eq_ok_iff.1 h
    rw [mapError_eq_ok_iff] at hthere
    cases there with
    | true =>
      obtain ⟨n, hn, h⟩ := bind_eq_ok_iff.1 h
      obtain ⟨hstatus, hregular⟩ := inspect_eq_ok hn
      obtain ⟨rfl, rfl⟩ := Prod.mk.inj (Except.ok.inj h)
      rw [hstatus]
      exact ⟨rfl, hlink, hregular, rfl⟩
    | false =>
      obtain ⟨rfl, rfl⟩ := Prod.mk.inj (Except.ok.inj h)
      refine ⟨rfl, hlink, ?_⟩
      cases hstatus : m.status p.text false with
      | error e => rfl
      | ok n =>
        -- What is no link is there if links are followed as well.
        have hn : n.isLink = false := by
          rcases probe_any_eq_ok_false_iff.1 hlink with h | ⟨errno, h, -⟩ | ⟨x, hx, hn⟩
          · simp [hstatus] at h
          · simp [hstatus] at h
          · obtain rfl := Except.ok.inj (hstatus.symm.trans hx)
            exact hn
        simp [isThere, probe, status_eq_of_not_link hstatus hn, Except.map] at hthere

/-- Nobody is asked about a path with a null character, which is taken for that of a new file. -/
theorem modeForWriting_of_null (h : '\x00' ∈ p.text) : m.modeForWriting p = .ok m.newMode := by
  have hstatus (followLast : Bool) : m.status p.text followLast = .error .nullCharacter :=
    status_eq_nullCharacter_iff.2 h
  simp [modeForWriting, isLink, isThere, probe, hstatus, Except.map, Except.mapError, bind, Except.bind, pure, Except.pure]

theorem modeForWriting_eq_error {e : AccessError} (h : m.modeForWriting p = .error e) :
    '\x00' ∉ p.text ∧ e.isSystem = true := by
  have hnull : '\x00' ∉ p.text := by
    -- A path with a null character counts as one at which there is nothing.
    intro hnull
    rw [modeForWriting_of_null hnull] at h
    cases h
  refine ⟨hnull, ?_⟩
  unfold modeForWriting at h
  rcases bind_eq_error_iff.1 h with h | ⟨link, -, h⟩
  · obtain ⟨e, -, rfl⟩ := mapError_eq_error_iff.1 h
    rfl
  cases link with
  | true =>
    obtain rfl := Except.error.inj h
    rfl
  | false =>
    rcases bind_eq_error_iff.1 h with h | ⟨there, -, h⟩
    · obtain ⟨e, -, rfl⟩ := mapError_eq_error_iff.1 h
      rfl
    cases there with
    | true =>
      rcases bind_eq_error_iff.1 h with h | ⟨n, -, h⟩
      · exact (inspect_eq_error h).resolve_right hnull
      · cases h
    | false => cases h

/-! ### What writing comes to -/

/-- The name that is drawn for the new file is that of the target. -/
def DrawsName (m : Machine) (p : Path) : Prop :=
  ∃ directory, m.absolute p.parent = .ok directory ∧ m.freshName? (m.entriesAt directory) = some p.name

/-- The system takes a new file beside a path, and what the file is filled with. -/
def TakesFile (m : Machine) (p : Path) : Prop :=
  m.refusal .create = none ∧ m.Fills ∧
    ∃ directory place name, m.absolute p.parent = .ok directory ∧ m.Room directory place name

/-- Writing comes upon a null character: one before the last name of the path when the new file is created, and one in
the last name when the new file has been filled and is to take the place of the target. -/
def MeetsNull (m : Machine) (p : Path) : Prop := '\x00' ∈ p.parent.text ∨ '\x00' ∈ p.name ∧ m.TakesFile p

theorem MeetsNull.null_mem (h : m.MeetsNull p) : '\x00' ∈ p.text :=
  h.elim null_mem_text_of_parent fun h => null_mem_text_of_name h.1

/-- Where no file is created, a null character is met in the path of the directory or not at all. -/
theorem meetsNull_iff_of_not_created {e : SystemError ⊕ Fault} (h : m.createTemporary p.parent = .error e) :
    m.MeetsNull p ↔ '\x00' ∈ p.parent.text := by
  refine ⟨fun hmeets => by_contra fun hnull => ?_, .inl⟩
  obtain ⟨-, hcreate, -, directory, place, name, habsolute, hroom⟩ := hmeets.resolve_left hnull
  have hcreated := createTemporary_eq_ok_iff.2 ⟨hnull, hcreate, directory, place, name, habsolute, hroom, rfl, rfl, rfl⟩
  cases h.symm.trans hcreated

/-- Where a file is created, a null character is met when the file has been filled. -/
theorem meetsNull_iff_of_created {source : Path} {location : Location} {created : Machine}
    (h : m.createTemporary p.parent = .ok (source, location, created)) : m.MeetsNull p ↔ '\x00' ∈ p.text ∧ m.Fills := by
  obtain ⟨hnull, hcreate, directory, place, name, habsolute, hroom, -⟩ := createTemporary_eq_ok_iff.1 h
  constructor
  · exact fun hmeets => ⟨hmeets.null_mem, (hmeets.resolve_left hnull).2.2.1⟩
  · rintro ⟨hmem, hfills⟩
    have hname : '\x00' ∈ p.name := by_contra fun hname => null_notMem_text hnull hname hmem
    exact .inr ⟨hname, hcreate, hfills, directory, place, name, habsolute, hroom⟩

/-- A file has been put in the place of a path, in the directory to which the path before its last name leads, and all
else is as it was. -/
structure Puts (m : Machine) (p : Path) (file : Node) (place : Location) (m' : Machine) : Prop where
  locate_parent : m.locate p.parent.text true = .ok { location := place }
  machine_eq : m' = { m with root := m.root.put file (place ++ [p.name]) }
  status_eq : m'.status p.text false = .ok file
  keeps : m.root.Keeps m'.root
  get?_eq : ∀ l, ¬ l <+: place ++ [p.name] → m'.root.get? l = m.root.get? l

theorem puts_of_looksIn {file : Node} (h : m.LooksIn p place) (hfile : file.look = .other)
    (hregular : ∀ n, m.status p.text false = .ok n → n.isRegular = true) :
    m.Puts p file place { m with root := m.root.put file (place ++ [p.name]) } := by
  obtain ⟨entries, mode, hdirectory, -⟩ := id h.searchable
  -- What was there before is no directory and no link.
  have hold : ∀ x, Named.get? entries p.name = some x → x.look = .other := by
    intro x hx
    have hget : m.root.get? (place ++ [p.name]) = some x :=
      Node.get?_append_singleton_eq_some_iff.2 ⟨entries, mode, hdirectory, hx⟩
    have := hregular x (by rw [h.status_eq, hget])
    cases x <;> simp_all [Node.isRegular, Node.look]
  have hkeeps := Node.keeps_put hfile hdirectory hold
  refine ⟨h.locate_parent, rfl, ?_, hkeeps, fun l => Node.get?_put_of_leaf hfile hdirectory hold⟩
  rw [(h.of_keeps hkeeps).status_eq]
  simp only [Node.get?_put_self file hdirectory p.name]

/-- A text has been written to a path where there was a regular file or nothing: there is a file with it now, which has
the permission bits of the one before or those of a new file. The one exception is a new file that is given the name of
the target, and is taken away with it. -/
structure HasWritten (m : Machine) (p : Path) (t : Text) (m' : Machine) : Prop where
  null_notMem : '\x00' ∉ p.text
  isRegular : ∀ n, m.status p.text false = .ok n → n.isRegular = true
  puts : ¬ m.DrawsName p → ∃ place mode, m.Puts p (.file (Utf8.encode t) mode) place m' ∧
    match m.status p.text false with
    | .ok n => mode = n.mode
    | .error _ => mode = maskedMode newFileMode m.umask
  machine_eq : m.DrawsName p → m' = m

/-- The new file has been put in the directory of the target. -/
theorem Room.eq_of_locate_parent {new : Node} {target : Location} (h : m.Room directory place name)
    (hlooks : m.LooksIn p place) (hnew : new.look = .other)
    (htarget : (m.place (place ++ [name]) new).locate p.parent.text true = .ok { location := target }) :
    target = place := by
  have hplace := (hlooks.of_keeps (h.keeps hnew)).locate_parent
  have heq := Except.ok.inj (htarget.symm.trans hplace)
  exact congrArg Position.location heq

/-- The new file is not there any longer when it has taken the place of the target. -/
theorem Room.discard_put {new : Node} (h : m.Room directory place name) (hname : name ≠ p.name) :
    discard { m with root := m.root.put new (place ++ [p.name]) } (place ++ [name]) =
      { m with root := m.root.put new (place ++ [p.name]) } := by
  have happart {a b : Text} (hne : a ≠ b) : ¬ place ++ [a] <+: place ++ [b] := by
    rw [List.prefix_append_right_inj]
    simpa using hne
  have hnone := (Node.get?_put_of_apart m.root new (happart (Ne.symm hname)) (happart hname)).trans h.get?_eq_none
  simp only [discard, Node.remove_of_get?_eq_none hnone]

/-- A text is not written because a null character is met, or because the system refuses a step, whatever names are on
the path. -/
theorem writeText_eq_error (hm : m.WellFormed) (hp : p.IsRead) {t : Text} {m' : Machine} {e : AccessError}
    (h : m.writeText p t = (m', .error e)) :
    m.MeetsNull p ∧ e = .fault .nullCharacter ∨ ¬ m.MeetsNull p ∧ e.isSystem = true := by
  unfold writeText at h
  cases hmode : m.modeForWriting p with
  | error e' =>
    rw [hmode] at h
    cases h
    obtain ⟨hnull, hsystem⟩ := modeForWriting_eq_error hmode
    exact .inr ⟨fun hmeets => hnull hmeets.null_mem, hsystem⟩
  | ok result =>
    obtain ⟨mode, m₁⟩ := result
    obtain ⟨rfl, -, -⟩ := modeForWriting_eq_ok hmode
    rw [hmode] at h
    dsimp only at h
    split at h
    · -- No file has been created.
      rename_i e' htemporary
      cases h
      rw [meetsNull_iff_of_not_created htemporary]
      rcases createTemporary_eq_error hm hp.parent htemporary with ⟨hnull, rfl⟩ | ⟨hnull, e', rfl⟩
      · exact .inl ⟨hnull, rfl⟩
      · exact .inr ⟨hnull, rfl⟩
    · -- A file has been created, and is filled if the system takes the steps for that.
      rename_i htemporary
      rw [meetsNull_iff_of_created htemporary]
      obtain ⟨-, -, directory, place, name, -, hroom, rfl, rfl, rfl⟩ := createTemporary_eq_ok_iff.1 htemporary
      have herror := install_eq_error (Prod.ext rfl (Prod.mk.inj h).2)
      exact herror

/-- Writing fails and has changed nothing, or the text has been written. -/
theorem writeText_spec (hm : m.WellFormed) (hp : p.IsRead) (hup : dotDot ∉ p.parts) (t : Text) :
    (∃ e, m.writeText p t = (m, .error e)) ∨ ∃ m', m.writeText p t = (m', .ok ()) ∧ m.HasWritten p t m' := by
  unfold writeText
  cases hmode : m.modeForWriting p with
  | error e => exact .inl ⟨e, rfl⟩
  | ok result =>
    obtain ⟨mode, m'⟩ := result
    obtain ⟨rfl, hlink, htarget⟩ := modeForWriting_eq_ok hmode
    dsimp only
    cases htemporary : m'.createTemporary p.parent with
    | error e =>
      -- No file has been created.
      exact .inl ⟨_, rfl⟩
    | ok result =>
      obtain ⟨source, location, created⟩ := result
      obtain ⟨-, -, directory, place, name, habsolute, hroom, rfl, rfl, rfl⟩ := createTemporary_eq_ok_iff.1 htemporary
      rcases install_spec hroom (directory.child name) p (Utf8.encode t) mode with
        ⟨e, bytes', mode', hinstall⟩ | ⟨target, hplace, hnull, hinstall⟩
      · -- The new file has been created, and is taken away again.
        refine .inl ⟨e, ?_⟩
        dsimp only
        rw [hinstall]
        simp only [hroom.discard_place]
      · have hregular : ∀ n, m'.status p.text false = .ok n → n.isRegular = true := by
          intro n hn
          rw [hn] at htarget
          exact htarget.1
        have hlooks := looksIn_of_isLink_eq_ok_false hm hp hup hnull hlink hregular habsolute hroom.locate
          hroom.takesNames.searchable
        obtain rfl := hroom.eq_of_locate_parent hlooks rfl hplace
        refine .inr ⟨_, by dsimp only; rw [hinstall], hnull, hregular, fun hdraws => ?_, fun hdraws => ?_⟩
        · have hname : name ≠ p.name := by
            rintro rfl
            exact hdraws ⟨directory, habsolute, hroom.fresh⟩
          rw [hroom.discard_put hname]
          refine ⟨_, mode, puts_of_looksIn hlooks rfl hregular, ?_⟩
          split
          · rename_i n hn
            rw [hn] at htarget
            exact htarget.2
          · rename_i e hn
            rw [hn] at htarget
            exact htarget
        · -- The new file is taken away with the target.
          obtain ⟨directory', habsolute', hfresh⟩ := hdraws
          obtain rfl := Except.ok.inj (habsolute.symm.trans habsolute')
          obtain rfl := Option.some.inj (hroom.fresh.symm.trans hfresh)
          exact hroom.discard_place _

/-- Writing a text to a path on which there is no name of the directory above is all or nothing: the text has been
written and all else is as it was, or nothing is different. It fails for a null character that is met in the path, and
otherwise because the system has refused a step. -/
theorem writeText_all_or_nothing (hm : m.WellFormed) (hp : p.IsRead) (hup : dotDot ∉ p.parts) (t : Text) :
    match m.writeText p t with
    | (m', .ok ()) => m.HasWritten p t m'
    | (m', .error e) =>
      m' = m ∧ (m.MeetsNull p → e = .fault .nullCharacter) ∧ (¬ m.MeetsNull p → e.isSystem = true) := by
  rcases writeText_spec hm hp hup t with ⟨e, hwrite⟩ | ⟨m', hwrite, hwritten⟩
  · rw [hwrite]
    have herror := writeText_eq_error hm hp hwrite
    exact ⟨rfl, fun hmeets => (herror.resolve_right fun h => h.1 hmeets).2,
      fun hmeets => (herror.resolve_left fun h => hmeets h.1).2⟩
  · rw [hwrite]
    exact hwritten

/-- A machine with one file, in the directory where the program stands. -/
def notes : Machine where
  root := .directory [("a".toList, .file [] 0o600)] 0o755

theorem notes_wellFormed : notes.WellFormed := ⟨rfl, by decide, fun _ => ⟨_, rfl, rfl⟩⟩

theorem notes_writeText_eq_ok :
    (∃ m' place, notes.writeText (.ofText "a".toList) "x".toList = (m', .ok ()) ∧
      notes.Puts (.ofText "a".toList) (.file [120] 0o600) place m') ∧
    (notes.MeetsNull (.ofText "a\x00".toList) ∧
      notes.writeText (.ofText "a\x00".toList) [] = (notes, .error (.fault .nullCharacter))) ∧
    ¬ notes.MeetsNull (.ofText "b/a\x00".toList) ∧
      ∃ e, notes.writeText (.ofText "b/a\x00".toList) [] = (notes, .error (.unwritable (.ofText "b/a\x00".toList) e)) := by
  refine ⟨?_, ⟨?_, rfl⟩, ?_, _, rfl⟩
  · have hwritten := writeText_all_or_nothing notes_wellFormed (Path.isRead_ofText "a".toList) (by decide) "x".toList
    have hresult : notes.writeText (.ofText "a".toList) "x".toList =
        ({ notes with root := .directory [("a".toList, .file [120] 0o600)] 0o755 }, .ok ()) := rfl
    have hdraws : ¬ notes.DrawsName (.ofText "a".toList) := by
      rintro ⟨directory, habsolute, hfresh⟩
      obtain rfl : ⟨.root, []⟩ = directory := Except.ok.inj habsolute
      exact absurd hfresh (by decide +kernel)
    rw [hresult] at hwritten
    obtain ⟨place, mode, hputs, hmode⟩ := hwritten.puts hdraws
    obtain rfl : mode = 0o600 := hmode
    exact ⟨_, place, hresult, hputs⟩
  · obtain ⟨-, -, hsystem⟩ :=
      writeText_all_or_nothing notes_wellFormed (Path.isRead_ofText "a\x00".toList) (by decide) []
    by_contra hmeets
    cases hsystem hmeets
  · -- There is no directory in which a new file could be created.
    obtain ⟨-, hnull, -⟩ :=
      writeText_all_or_nothing notes_wellFormed (Path.isRead_ofText "b/a\x00".toList) (by decide) []
    intro hmeets
    cases hnull hmeets

/-- Not every failure is one of the system, since a null character in a path keeps the system from being asked; and
not every success leaves a file, since the name of the target may be drawn for the new file, which is taken away. -/
theorem not_forall_writeText :
    (¬ ∀ (m : Machine) (p : Path) (t : Text), m.WellFormed → p.IsRead → dotDot ∉ p.parts →
      ∀ m' e, m.writeText p t = (m', .error e) → m' = m ∧ e.isSystem = true) ∧
    ¬ ∀ (m : Machine) (p : Path) (t : Text), m.WellFormed → p.IsRead → dotDot ∉ p.parts →
      ∀ m', m.writeText p t = (m', .ok ()) → ∃ place mode, m.Puts p (.file (Utf8.encode t) mode) place m' := by
  constructor
  · intro h
    have hresult : notes.writeText (.ofText ['\x00']) [] = (notes, .error (.fault .nullCharacter)) := rfl
    cases (h notes _ [] notes_wellFormed (Path.isRead_ofText _) (by decide) _ _ hresult).2
  · intro h
    have hresult : { notes with draws := fun _ => 0 }.writeText (.ofText "tmpaaaaaaaa".toList) [] =
        ({ notes with draws := fun _ => 0 }, .ok ()) := rfl
    obtain ⟨place, mode, hputs⟩ := h _ _ [] ⟨rfl, by decide, fun _ => ⟨_, rfl, rfl⟩⟩ (Path.isRead_ofText _)
      (by decide) _ hresult
    cases hputs.status_eq

end Machine
end CodeSnippets
