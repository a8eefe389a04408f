import CodeSnippets.CommandLine.Extract
import CodeSnippets.Proofs.CanonicalDiscovery
import CodeSnippets.Proofs.IndexBuilding

/-!
# Discovery and admission agree on what a source is

A source that is discovered in an admitted directory is admitted by its own path, and what stands in the directory or
in one of its groups is discovered if it is admitted, provided that the discovery comes to an end. So a source of an
index is one that can be extracted, with the same snippet.

* `admitFile_of_mem_discover`, `mem_discover_of_admitFile`: the two ways of the agreement.
* `extract_eq_of_indexText`: the snippet of a source in an index is the one that is extracted.
* `discover_agrees`: all of these.
* `not_forall_mem_discover`: no source is discovered where a directory cannot be listed.
-/

namespace CodeSnippets

open Text

namespace Machine

variable {m : Machine} {raw : Text} {base directory q : Path} {extensions : List Text} {sources : List SourceFile}
  {s : SourceFile}

/-- What is discovered in an admitted directory is admitted by its own path. -/
theorem admitFile_of_mem_discover (hm : m.WellFormed) (hdirectory : m.admitDirectory raw base = .ok directory)
    (hsources : m.discover extensions directory = .ok sources) (hs : s ∈ sources) :
    m.admitFile s.path.text base extensions = .ok s.path := by
  obtain ⟨n, hn, hanchor, hbelow⟩ := exists_leadsTo_of_admitDirectory hm hdirectory
  obtain ⟨hstands, ⟨x, hx, hregular⟩, haccepted⟩ := (mem_discoverBy_iff hn hm hsources).1 hs
  have hpath := hstands.path_eq.1
  refine hx.admitFile_text hm hregular (List.contains_iff_mem.1 haccepted) ?_ ?_
  · rw [hpath]
    exact hanchor
  · rw [hpath]
    exact hbelow.trans (List.prefix_append _ _)

/-- What stands in an admitted directory, or in a group of it, is admitted as itself, and is discovered there once. -/
theorem mem_discover_of_admitFile (hm : m.WellFormed) (hdistinct : m.root.hasDistinctNames = true)
    (hdirectory : m.admitDirectory raw base = .ok directory)
    (hsources : m.discover extensions directory = .ok sources) (hs : m.StandsIn directory s)
    (h : m.admitFile s.path.text base extensions = .ok q) :
    q = s.path ∧ sources.count s = 1 ∧ ∀ s' ∈ sources, s'.path = s.path → s' = s := by
  obtain ⟨n, hn, -, -⟩ := exists_leadsTo_of_admitDirectory hm hdirectory
  obtain ⟨hpath, hnames⟩ := hs.path_eq
  -- The path starts at the root, and no name on it is that of the directory above.
  have hanchor : s.path.anchor = .root := by
    rw [hpath]
    exact hn.anchor_eq
  have hread : s.path.IsRead := by
    rw [hpath]
    exact fun part hpart => (List.mem_append.1 hpart).elim (hn.isRead hm part) fun hname => (hnames part hname).1
  have hup : dotDot ∉ s.path.parts := by
    rw [hpath]
    exact fun hmem => (List.mem_append.1 hmem).elim (hn.dotDot_notMem hm) fun hname => (hnames _ hname).2 rfl
  obtain ⟨hadmitted, ⟨x, hx, hregular⟩, hextension⟩ := admitFile_eq_ok h
  obtain rfl := eq_of_admitPath_text hanchor hread hup hadmitted
  have hleads := (exists_leadsTo_of_admitPath hm hadmitted hx).1
  have hmem : s ∈ sources :=
    (mem_discoverBy_iff hn hm hsources).2 ⟨hs, ⟨x, hleads, hregular⟩, List.contains_iff_mem.2 hextension⟩
  have hpaths := nodup_map_path hn hm hdistinct hsources
  exact ⟨rfl, List.count_eq_one_of_mem (List.Nodup.of_map _ hpaths) hmem,
    fun s' hs' heq => List.inj_on_of_nodup_map hpaths hs' hmem heq⟩

end Machine

namespace CommandLine

variable {m : Machine} {r : BuildRequest} {snippets : List SourceSnippet} {text : Text} {x : SourceSnippet}

/-- What is printed of a snippet, or of one of its slices. -/
def printedOf (s : Snippet) (slice : Option Text) (format : Format) (settings : Settings) : Except CommandError Text := do
  let lines ← requestedLines s slice
  printed s { file := [], slice, format } lines settings

/-- The snippet that is extracted from a source of an index is the one in the index. -/
theorem extract_eq_of_indexText (hm : m.WellFormed) (htext : indexText m r = .ok (snippets, text)) (hx : x ∈ snippets)
    (slice : Option Text) (format : Format) : ∃ base settings, baseDirectory m = .ok base ∧
      loadSettings m base r.jsonIndent = .ok settings ∧
      extract m { file := x.path.text, slice, format, jsonIndent := r.jsonIndent } =
        printedOf x.snippet slice format settings := by
  obtain ⟨base, settings, directory, sources, hsurveys, hread, -⟩ := indexText_eq_ok_iff.1 htext
  obtain ⟨s, hs, hsx⟩ := exists_mem_of_forall₂ hread.flip hx
  have hadmitted := Machine.admitFile_of_mem_discover hm hsurveys.admitDirectory_eq hsurveys.discover_eq hs
  refine ⟨base, settings, hsurveys.baseDirectory_eq, hsurveys.loadSettings_eq, ?_⟩
  rw [extract, hsurveys.baseDirectory_eq]
  simp only [bind, Except.bind, hsurveys.loadSettings_eq, hsx.path_eq, hadmitted, Except.mapError, hsx.snippet_eq]
  rfl

/-- A discovery in an admitted directory comes to an end if the directory and its groups can be looked through, and the
system has refused something if it does not. What is discovered is admitted by its own path. What stands in the
directory, or in a group of it, and is admitted has been discovered there once, and in no other group. The snippet of
each source of an index is the one that is extracted from its path. -/
theorem discover_agrees {raw : Text} {base directory : Path} (hm : m.WellFormed)
    (hdistinct : m.root.hasDistinctNames = true) (hdirectory : m.admitDirectory raw base = .ok directory)
    (extensions : List Text) :
    (m.LooksThrough directory → (∀ g, m.IsGroupIn directory g → m.LooksThrough g) →
      ∃ sources, m.discover extensions directory = .ok sources) ∧
    (∀ e, m.discover extensions directory = .error e → e.isSystem = true) ∧
    (∀ sources, m.discover extensions directory = .ok sources →
      (∀ s ∈ sources, m.admitFile s.path.text base extensions = .ok s.path) ∧
      ∀ s q, m.StandsIn directory s → m.admitFile s.path.text base extensions = .ok q →
        q = s.path ∧ sources.count s = 1 ∧ ∀ s' ∈ sources, s'.path = s.path → s' = s) ∧
    (∀ r snippets text, indexText m r = .ok (snippets, text) → ∀ x ∈ snippets, ∀ slice format,
      ∃ base settings, baseDirectory m = .ok base ∧ loadSettings m base r.jsonIndent = .ok settings ∧
        extract m { file := x.path.text, slice, format, jsonIndent := r.jsonIndent } =
          printedOf x.snippet slice format settings) := by
  obtain ⟨n, hn, -, -⟩ := Machine.exists_leadsTo_of_admitDirectory hm hdirectory
  refine ⟨fun hlooks hgroups => Machine.exists_discoverBy hn hm hlooks hgroups _,
    fun _ he => hn.isSystem_of_discoverBy hm he, fun sources hsources => ⟨fun _ hs => ?_, fun _ _ hs h => ?_⟩,
    fun _ _ _ htext _ hx => extract_eq_of_indexText hm htext hx⟩
  · exact Machine.admitFile_of_mem_discover hm hdirectory hsources hs
  · exact Machine.mem_discover_of_admitFile hm hdistinct hdirectory hsources hs h

theorem collection_agrees :
    (∀ s ∈ collected, collection.admitFile s.path.text ⟨.root, []⟩ [defaultExtension] = .ok s.path) ∧
    collected.count ⟨some "g".toList, ⟨.root, [defaultSnippetsDir, "g".toList, "b.swift".toList]⟩⟩ = 1 ∧
    ∃ settings, extract collection { file := "/Snippets/a.swift".toList } =
      printedOf (.extract ['x']) none .text settings := by
  obtain ⟨-, -, hagrees, hextracted⟩ :=
    discover_agrees collection_wellFormed (by decide) (collection_surveys none).admitDirectory_eq [defaultExtension]
  obtain ⟨hadmitted, hdiscovered⟩ := hagrees _ (collection_surveys none).discover_eq
  have hshown (p : Path) (name : Text) (hname : Path.IsPart name) (hhidden : Path.isHiddenName name = false) :
      p.ShownIn (p.child name) := ⟨name, hname, hhidden, rfl⟩
  have hstands : collection.StandsIn ⟨.root, [defaultSnippetsDir]⟩
      ⟨some "g".toList, ⟨.root, [defaultSnippetsDir, "g".toList, "b.swift".toList]⟩⟩ :=
    .grouped (hshown ⟨.root, [defaultSnippetsDir]⟩ "g".toList ⟨by decide, by decide, by decide⟩ (by decide)) rfl rfl
      (hshown _ "b.swift".toList ⟨by decide, by decide, by decide⟩ (by decide))
  have hb := hadmitted ⟨some "g".toList, ⟨.root, [defaultSnippetsDir, "g".toList, "b.swift".toList]⟩⟩
    (List.mem_cons_of_mem _ List.mem_cons_self)
  obtain ⟨-, settings, -, -, hextract⟩ :=
    hextracted {} _ _ (collection_indexText none) _ List.mem_cons_self none .text
  exact ⟨hadmitted, (hdiscovered _ _ hstands hb).2.1, settings, hextract⟩

end CommandLine

namespace Machine

/-- A directory with a source, beside a directory that may not be read. -/
def shut : Machine where
  root := .directory
    [("S".toList, .directory [("a.swift".toList, .file [] 0o644), ("g".toList, .directory [] 0)] 0o755)] 0o755

/-- Not everything that stands in an admitted directory and is admitted is discovered there, since a directory that may
not be listed ends the discovery. -/
theorem not_forall_mem_discover :
    ¬ ∀ (m : Machine) (raw : Text) (base directory : Path) (extensions : List Text) (s : SourceFile),
      m.WellFormed → m.root.hasDistinctNames = true → m.admitDirectory raw base = .ok directory →
        m.StandsIn directory s → m.admitFile s.path.text base extensions = .ok s.path →
          ∃ sources, m.discover extensions directory = .ok sources ∧ s ∈ sources := by
  intro h
  have hstands : shut.StandsIn ⟨.root, ["S".toList]⟩ ⟨none, ⟨.root, ["S".toList, "a.swift".toList]⟩⟩ :=
    .top ⟨"a.swift".toList, ⟨by decide, by decide, by decide⟩, by decide, rfl⟩
  obtain ⟨sources, hsources, -⟩ := h shut "S".toList ⟨.root, []⟩ _ [".swift".toList] _
    ⟨rfl, by decide, fun _ => ⟨_, rfl, rfl⟩⟩ (by decide) (by decide +kernel) hstands (by decide +kernel)
  have hfailed : shut.discover [".swift".toList] ⟨.root, ["S".toList]⟩ =
      .error (.unlistable ⟨.root, ["S".toList, "g".toList]⟩ { errno := .denied, path := "/S/g".toList }) := by cbv
  rw [hfailed] at hsources
  cases hsources

end Machine
end CodeSnippets
