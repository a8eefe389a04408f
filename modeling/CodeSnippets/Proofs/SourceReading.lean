import CodeSnippets.Proofs.Discovery
import CodeSnippets.Source.Reading

/-!
# Reading sources

The snippet of a file is that of the text of the file. The snippets of a directory are those of the sources that are
discovered in it, one by one.

* `acceptedBy_map_text`, `readSnippet_draft_eq_ok`: settings that have been checked are used as they are.
* `readSnippetUpTo_eq_ok_iff`: the snippet of a file.
* `IsReadFrom`, `readDirectory_eq_ok_iff`: the snippets of a directory.
-/

namespace CodeSnippets

open Text

namespace Machine

variable {m : Machine} {p : Path} {n : Node} {s : Snippet} {maxSize : Int} {settings : Settings}

/-- The extensions of checked settings are accepted as they are. -/
theorem acceptedBy_map_text (ts : List Text) : acceptedBy (.list (ts.map .text)) = .ok ts.contains := by
  have htexts : (ts.map Value.text).filterMap Value.asText? = ts := by
    rw [List.filterMap_map]
    exact List.filterMap_some
  simp only [acceptedBy, Value.members?, htexts]

/-- The snippet of a file is that of its text, if the file is not too large and its bytes are those of a text. -/
theorem readSnippetUpTo_eq_ok_iff (h : m.status p.text false = .ok n) : m.readSnippetUpTo maxSize p = .ok s ↔
    n.isRegular = true ∧ (n.bytes.length : Int) ≤ maxSize ∧ n.mayRead = true ∧
      ∃ source, textOfBytes n.bytes = .ok source ∧ s = .extract source := by
  unfold readSnippetUpTo inspect checkSize
  simp only [h]
  cases hregular : n.isRegular with
  | false => cases n.isLink <;> simp [Except.mapError, bind, Except.bind]
  | true =>
    have hkind : n.isLink = false ∧ n.isDirectory = false := by
      cases n <;> simp_all [Node.isRegular, Node.isLink, Node.isDirectory]
    -- What is no link is read where it was looked at.
    have hstatus := status_eq_of_not_link h hkind.1
    by_cases hsize : maxSize < n.bytes.length
    · simp [hkind, hsize, Int.not_le.2 hsize, Except.mapError, bind, Except.bind]
    · cases hread : n.mayRead with
      | false => simp [readBytes, hstatus, hkind, hread, hsize, Except.mapError, bind, Except.bind]
      | true =>
        cases htext : textOfBytes n.bytes <;>
          simp [readBytes, hstatus, hkind, hread, hsize, Except.mapError, bind, Except.bind, htext, pure, Except.pure,
            eq_comm, Int.not_lt.1 hsize]

/-- A snippet has been read from a source that was discovered. -/
structure IsReadFrom (m : Machine) (settings : Settings) (source : SourceFile) (x : SourceSnippet) : Prop where
  identifier_eq : x.identifier = source.path.stem
  group_eq : x.group = source.group
  path_eq : x.path = source.path
  snippet_eq : m.readSnippet settings.draft source.path = .ok x.snippet

/-- The snippets of a directory are read from the sources that are discovered there, all of them and in order. -/
theorem readDirectory_eq_ok_iff {snippets : List SourceSnippet} :
    m.readDirectory settings.draft p = .ok snippets ↔
      ∃ sources, m.discover settings.extensions p = .ok sources ∧ List.Forall₂ (m.IsReadFrom settings) sources snippets := by
  have hread {source : SourceFile} {x : SourceSnippet} : (do
      return {
        identifier := source.path.stem
        group := source.group
        path := source.path
        snippet := ← m.readSnippet settings.draft source.path } : Except SourceError SourceSnippet) = .ok x ↔
      m.IsReadFrom settings source x := by
    rw [bind_eq_ok_iff]
    constructor
    · rintro ⟨s, hs, h⟩
      obtain rfl := Except.ok.inj h
      exact ⟨rfl, rfl, rfl, hs⟩
    · rintro ⟨hidentifier, hgroup, hpath, hsnippet⟩
      obtain ⟨identifier, group, path, snippet⟩ := x
      obtain rfl : identifier = _ := hidentifier
      obtain rfl : group = _ := hgroup
      obtain rfl : path = _ := hpath
      exact ⟨_, hsnippet, rfl⟩
  -- The extensions of settings are texts, so that the check of their kinds finds nothing.
  have haccepted : acceptedBy settings.draft.extensions = .ok settings.extensions.contains :=
    acceptedBy_map_text settings.extensions
  unfold readDirectory
  rw [haccepted, bind_eq_ok_iff]
  constructor
  · rintro ⟨accepts, haccepts, h⟩
    obtain rfl := Except.ok.inj haccepts
    obtain ⟨sources, hsources, h⟩ := bind_eq_ok_iff.1 h
    exact ⟨sources, mapError_eq_ok_iff.1 hsources, (mapM_eq_ok_iff.1 h).imp fun _ _ => hread.1⟩
  · rintro ⟨sources, hsources, h⟩
    exact ⟨_, rfl, bind_eq_ok_iff.2
      ⟨sources, mapError_eq_ok_iff.2 hsources, mapM_eq_ok_iff.2 (h.imp fun _ _ => hread.2)⟩⟩

end Machine
end CodeSnippets
