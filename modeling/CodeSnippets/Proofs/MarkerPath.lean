import CodeSnippets.Proofs.MarkerSpelling

/-!
# Paths of markers

The path of a marker that opens a slice has a name, and none of its names is empty or holds a dot. The
name of a slice, its path with dots between the names, therefore gives the path back, and so does a marker
that is written with it.

* `isPath_of_opening`: what the path of an opening marker looks like.
* `IsPath.pieces_joined`, `IsPath.joined_inj`: different paths have different slice names.
* `ofLine?_written`: the marker that is read from a written path.
* `ofLine?_written_opening`, `ofLine?_written_closing`: the marker of a path opens a slice at the depth at
  which the marker of the same path with the closing name after it closes.
-/

namespace CodeSnippets.Marker

open Text

/-- A path with at least one name, whose names are not empty and hold no dot. -/
structure IsPath (path : List Text) : Prop where
  ne_nil : path ≠ []
  name_ne_nil : ∀ name ∈ path, name ≠ []
  dot_notMem : ∀ name ∈ path, '.' ∉ name

namespace IsPath

variable {path other : List Text} {name : Text}

theorem isName (h : IsPath path) (hname : name ∈ path) : IsName name :=
  ⟨h.name_ne_nil name hname, h.dot_notMem name hname⟩

theorem length_pos (h : IsPath path) : 0 < path.length := List.length_pos_iff.2 h.ne_nil

/-- The pieces of a slice name between its dots are the names of the path. -/
theorem pieces_joined (h : IsPath path) : pieces '.' (joined ['.'] path) = path :=
  Text.pieces_joined h.ne_nil h.dot_notMem

/-- Different paths have different slice names. -/
theorem joined_inj (h : IsPath path) (h' : IsPath other) (heq : joined ['.'] path = joined ['.'] other) :
    path = other := by
  rw [← h.pieces_joined, heq, h'.pieces_joined]

end IsPath

/-- Names between dots are not empty and hold no dot. -/
theorem mem_names {t name : Text} (h : name ∈ names t) : name ≠ [] ∧ '.' ∉ name := by
  obtain ⟨hmem, hne⟩ := List.mem_filter.1 h
  exact ⟨by simpa using hne, not_mem_of_mem_pieces hmem⟩

theorem eq_of_ofPath?_eq_opening {path opened : List Text} (h : ofPath? path = some (.opening opened)) :
    opened = path ∧ path ≠ [] := by
  rw [ofPath?, Option.map_eq_some_iff] at h
  obtain ⟨last, hlast, h⟩ := h
  have hne : path ≠ [] := by
    rintro rfl
    simp at hlast
  -- The last name decides; only the branch after those for `show`, `hide` and `end` opens a slice.
  split at h
  · cases h
  · split at h
    · cases h
    · split at h
      · cases h
      · cases h
        exact ⟨rfl, hne⟩

/-- The path of a marker that opens a slice has a name, and none of its names is empty or holds a dot. -/
theorem isPath_of_opening {line : Text} {path : List Text} (h : ofLine? line = some (.opening path)) :
    IsPath path := by
  rw [ofLine?] at h
  obtain ⟨content, -, h⟩ := Option.bind_eq_some_iff.1 h
  split at h
  · cases h
  · rename_i first rest hnames
    split at h
    · obtain ⟨rfl, hne⟩ := eq_of_ofPath?_eq_opening h
      -- The names of the path are those behind the first one of the content.
      have hmem : ∀ name ∈ path, name ∈ names (trim content) := by
        intro name hname
        rw [hnames]
        exact List.mem_cons_of_mem first hname
      exact ⟨hne, fun name hname => (mem_names (hmem name hname)).1,
        fun name hname => (mem_names (hmem name hname)).2⟩
    · cases h

/-! ### Written markers -/

/-- The line of a marker: two slashes, a space, and the keyword and the names of its path with dots between
them. -/
def written (path : List Text) : Text := commentStart ++ ' ' :: joined ['.'] (keyword :: path)

/-- A name that can be given to a slice: none of its characters is a dot or white space, and it does not
mean something else at the end of a path. -/
structure IsSliceName (name : Text) : Prop where
  ne_nil : name ≠ []
  dot_notMem : '.' ∉ name
  solid : name.any isBlankChar = false
  ne_show : lower name ≠ showKeyword
  ne_hide : lower name ≠ hideKeyword
  ne_end : lower name ≠ endKeyword

instance (name : Text) : Decidable (IsSliceName name) :=
  decidable_of_iff (name ≠ [] ∧ '.' ∉ name ∧ name.any isBlankChar = false ∧ lower name ≠ showKeyword ∧
      lower name ≠ hideKeyword ∧ lower name ≠ endKeyword)
    ⟨fun ⟨hne, hdot, hsolid, hshow, hhide, hend⟩ => ⟨hne, hdot, hsolid, hshow, hhide, hend⟩,
      fun ⟨hne, hdot, hsolid, hshow, hhide, hend⟩ => ⟨hne, hdot, hsolid, hshow, hhide, hend⟩⟩

section Written

variable {path : List Text}

theorem isPath_of_isSliceName (hne : path ≠ []) (h : ∀ name ∈ path, IsSliceName name) : IsPath path :=
  ⟨hne, fun name hname => (h name hname).ne_nil, fun name hname => (h name hname).dot_notMem⟩

/-- Names without white space stay without it when they are joined behind the keyword. -/
theorem solid_joined (h : ∀ name ∈ path, name.any isBlankChar = false) :
    ∀ c ∈ joined ['.'] (keyword :: path), isBlankChar c = false := by
  have hnames : ∀ name ∈ keyword :: path, name.any isBlankChar = false := List.forall_mem_cons.2 ⟨by decide, h⟩
  intro c hc
  rcases mem_joined hc with hdot | ⟨name, hname, hc⟩
  · rw [List.mem_singleton.1 hdot]
    decide
  · simpa using List.any_eq_false.1 (hnames name hname) c hc

/-- Names with a single dot between each two are one spelling of a path. -/
theorem spells_joined (hne : path ≠ []) : Spells path (joined ['.'] path) := by
  induction path with
  | nil => exact absurd rfl hne
  | cons name path ih =>
    cases path with
    | nil => exact .last name
    | cons next path => exact .name name 0 (ih (List.cons_ne_nil next path))

theorem isSpelled_written (path : List Text) : IsSpelled path (written path) := by
  refine ⟨keyword, [], [' '], _, [], by decide, rfl, by decide, rfl, spells_joined (List.cons_ne_nil keyword path), ?_⟩
  simp [written]

/-- A path without white space is read from its marker as it was written. -/
theorem ofLine?_written (h : IsPath path) (hsolid : ∀ name ∈ path, name.any isBlankChar = false) :
    ofLine? (written path) = ofPath? path := by
  refine ofLine?_of_isSpelled (isSpelled_written path) (fun name hname => h.isName hname) fun name hname c hc => ?_
  have hname := List.any_eq_false.1 (hsolid name (List.mem_of_mem_getLast? hname)) c (List.mem_of_mem_getLast? hc)
  simpa using hname

theorem ofLine?_written_opening (hne : path ≠ []) (h : ∀ name ∈ path, IsSliceName name) :
    ofLine? (written path) = some (.opening path) := by
  -- A name that can be given to a slice is none of those that have another meaning at the end of a path.
  have hlast := h (path.getLast hne) (List.getLast_mem hne)
  rw [ofLine?_written (isPath_of_isSliceName hne h) fun name hname => (h name hname).solid, ofPath?,
    List.getLast?_eq_some_getLast hne, Option.map_some, if_neg hlast.ne_show, if_neg hlast.ne_hide,
    if_neg hlast.ne_end]

/-- The depth that the marker closes is that of the path before its last name. -/
theorem ofLine?_written_closing (hne : path ≠ []) (h : ∀ name ∈ path, IsSliceName name) :
    ofLine? (written (path ++ [endKeyword])) = some (.closing (path.length - 1)) := by
  have hpath := isPath_of_isSliceName hne h
  have hclosing : IsPath (path ++ [endKeyword]) :=
    ⟨by simp, List.forall_mem_append.2 ⟨hpath.name_ne_nil, by decide⟩,
      List.forall_mem_append.2 ⟨hpath.dot_notMem, by decide⟩⟩
  have hsolid : ∀ name ∈ path ++ [endKeyword], name.any isBlankChar = false :=
    List.forall_mem_append.2 ⟨fun name hname => (h name hname).solid, by decide⟩
  have hlower : lower endKeyword ≠ showKeyword ∧ lower endKeyword ≠ hideKeyword ∧ lower endKeyword = endKeyword := by
    decide
  rw [ofLine?_written hclosing hsolid, ofPath?, List.getLast?_concat, Option.map_some, if_neg hlower.1,
    if_neg hlower.2.1, if_pos hlower.2.2, List.length_append]
  rfl

example : written ["main".toList, "setup".toList, endKeyword] = "// snippet.main.setup.end".toList ∧
    ofLine? "// snippet.main.setup.end".toList = some (.closing 1) := by decide

theorem newline_notMem_written (h : ∀ name ∈ path, name.any isBlankChar = false) : '\n' ∉ written path := by
  intro hmem
  rcases List.mem_append.1 hmem with hslash | hmem
  · exact absurd hslash (by decide)
  · rcases List.mem_cons.1 hmem with hspace | hmem
    · cases hspace
    · exact absurd (solid_joined h _ hmem) (by decide)

end Written

end CodeSnippets.Marker
