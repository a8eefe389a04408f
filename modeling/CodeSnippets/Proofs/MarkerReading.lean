import CodeSnippets.Proofs.OutlineSteps

/-!
# What markers say

The last name behind the keyword says what a marker does, however the marker is spelled. A closing marker closes at the
depth at which the path before its last name opens, so the two markers of a path always belong together. What opens a
slice always has a path that can be told from every other path by the name of its slice.

* `Holds`: a line is read as a marker, on its own and in a source text.
* `holds_opening`, `holds_closing`, `holds_visibility`: what the markers of the four kinds of last names do.
* `openSlice_opened_closing`: a path opens where its closing marker closes.
* `spellings_read`: the reading of markers.
-/

namespace CodeSnippets.Marker

open Text

/-- A line is read as a marker. -/
def Holds (line : Text) (m : Marker) : Prop := ofLine? line = some m ∧ LineKind.ofLine line = .marker m

theorem holds_iff {line : Text} {m : Marker} : Holds line m ↔ ofLine? line = some m :=
  ⟨And.left, fun h => ⟨h, LineKind.ofLine_eq_marker_iff.2 h⟩⟩

/-- A last name that opens a slice: it loses no white space at its end, and is no keyword in any case. -/
structure Opens (name : Text) : Prop where
  endsSolid : EndsSolid name
  ne_show : lower name ≠ showKeyword
  ne_hide : lower name ≠ hideKeyword
  ne_end : lower name ≠ endKeyword

section Spelled

variable {path : List Text} {last line : Text}

theorem holds_opening (hpath : IsPath path) (hlast : ∀ name ∈ path.getLast?, Opens name) (h : IsSpelled path line) :
    Holds line (.opening path) := by
  have hopens : Opens (path.getLast hpath.ne_nil) := hlast _ (List.getLast?_eq_some_getLast hpath.ne_nil)
  rw [holds_iff, ofLine?_of_isSpelled h (fun name => hpath.isName) fun name hname => (hlast name hname).endsSolid, ofPath?,
    List.getLast?_eq_some_getLast hpath.ne_nil, Option.map_some, if_neg hopens.ne_show, if_neg hopens.ne_hide,
    if_neg hopens.ne_end]

/-- A line whose last name is a keyword is read as its names say. -/
theorem ofLine?_of_keyword {keyword : Text} (hkeyword : keyword.all Char.isAlpha = true) (hne : keyword ≠ [])
    (hnames : ∀ name ∈ path, IsName name) (hlast : IsVariant keyword last) (h : IsSpelled (path ++ [last]) line) :
    ofLine? line = ofPath? (path ++ [last]) := by
  refine ofLine?_of_isSpelled h ?_ fun name hname => ?_
  · exact List.forall_mem_append.2 ⟨hnames, List.forall_mem_singleton.2 (hlast.isName hne hkeyword)⟩
  · rw [List.getLast?_concat, Option.mem_some_iff] at hname
    exact hname ▸ hlast.endsSolid hkeyword

/-- The depth is that of the path before the last name. -/
theorem holds_closing (hpath : IsPath path) (hlast : IsVariant endKeyword last) (h : IsSpelled (path ++ [last]) line) :
    Holds line (.closing (path.length - 1)) := by
  have hlower : lower last = endKeyword := hlast.lower_eq (by decide)
  have hkeywords : endKeyword ≠ showKeyword ∧ endKeyword ≠ hideKeyword := by decide
  rw [holds_iff, ofLine?_of_keyword (by decide) (by decide) (fun name => hpath.isName) hlast h, ofPath?,
    List.getLast?_concat, Option.map_some, hlower, if_neg hkeywords.1, if_neg hkeywords.2, if_pos rfl, List.length_append]
  rfl

/-- Markers that set what is kept need no path before their last name. -/
theorem holds_visibility (hnames : ∀ name ∈ path, IsName name) (shown : Bool)
    (hlast : IsVariant (if shown then showKeyword else hideKeyword) last) (h : IsSpelled (path ++ [last]) line) :
    Holds line (.visibility shown) := by
  have hletters : (if shown then showKeyword else hideKeyword).all Char.isAlpha = true := by cases shown <;> decide
  rw [holds_iff, ofLine?_of_keyword hletters (by cases shown <;> decide) hnames hlast h, ofPath?, List.getLast?_concat,
    Option.map_some, hlast.lower_eq hletters]
  cases shown with
  | true => rfl
  | false => rfl

/-- A path opens at the depth at which its closing marker closes: the marker takes back what opened, and nothing else. -/
theorem openSlice_opened_closing (hpath : IsPath path) (hclosing : Holds line (.closing (path.length - 1))) (o : Outline) :
    (o.openSlice path).opened =
        (o.read line).opened ++ [(((path.length - 1 : ℕ) : ℤ), ⟨joined ['.'] path, o.count⟩)] ∧
      ((o.openSlice path).read line).opened = (o.read line).opened := by
  have hdepth : ((path.length - 1 : ℕ) : ℤ) = path.length - 1 := by
    have := hpath.length_pos
    omega
  have hread : ∀ o : Outline, o.read line = o.close (path.length - 1) := fun o => by
    rw [Outline.read, hclosing.2]
    exact congrArg o.close hdepth
  rw [hread, hread, hdepth, Outline.close_eq (o.openSlice path), Outline.openSlice_opened]
  -- What stays open lies above the depth of the path, so that closing there again leaves it alone.
  simp [Outline.close_eq, List.filter_filter]

end Spelled

/-- Markers are read in every spelling. A path opens a slice unless its last name is a keyword; with a closing name
behind it, it closes at the depth where it opens; with `show` or `hide` as its last name it sets what is kept. Whatever
opens a slice has names that are not empty and hold no dot, so that slices of different paths have different names; and
comments for the documentation are no markers. -/
theorem spellings_read :
    (∀ path line, IsPath path → (∀ name ∈ path.getLast?, Opens name) → IsSpelled path line →
      Holds line (.opening path)) ∧
    (∀ path last line, IsPath path → IsVariant endKeyword last → IsSpelled (path ++ [last]) line →
      Holds line (.closing (path.length - 1)) ∧ ∀ o : Outline,
        (o.openSlice path).opened =
            (o.read line).opened ++ [(((path.length - 1 : ℕ) : ℤ), ⟨joined ['.'] path, o.count⟩)] ∧
          ((o.openSlice path).read line).opened = (o.read line).opened) ∧
    (∀ path last line shown, (∀ name ∈ path, IsName name) → IsVariant (if shown then showKeyword else hideKeyword) last →
      IsSpelled (path ++ [last]) line → Holds line (.visibility shown)) ∧
    (∀ line path, ofLine? line = some (.opening path) ∨ LineKind.ofLine line = .marker (.opening path) → IsPath path) ∧
    (∀ path other, IsPath path → IsPath other → joined ['.'] path = joined ['.'] other → path = other) ∧
    ∀ line, startsWith (trimStart line) docCommentStart = true →
      ofLine? line = none ∧ ∀ m, LineKind.ofLine line ≠ .marker m := by
  refine ⟨fun _ _ hpath hlast h => holds_opening hpath hlast h, fun _ _ _ hpath hlast h => ?_,
    fun _ _ _ shown hnames hlast h => holds_visibility hnames shown hlast h, fun _ _ h => ?_,
    fun _ _ hpath hother heq => hpath.joined_inj hother heq, fun _ h => ?_⟩
  · have hclosing := holds_closing hpath hlast h
    exact ⟨hclosing, openSlice_opened_closing hpath hclosing⟩
  · exact isPath_of_opening (h.elim id LineKind.ofLine_eq_marker_iff.1)
  · have hnone := ofLine?_of_docComment h
    exact ⟨hnone, fun m hm => by rw [LineKind.ofLine_eq_marker_iff, hnone] at hm; cases hm⟩

/-- The markers of a slice `a.b c`, with dots and white space of all kinds. -/
theorem spellings_read_sample :
    Holds "\t//\u3000SNIPpet..a...b c \u2003".toList (.opening ["a".toList, "b c".toList]) ∧
    Holds "//snippet.a.b c..END".toList (.closing 1) ∧
    (Outline.read (Outline.openSlice {} ["a".toList, "b c".toList]) "//snippet.a.b c..END".toList).opened = [] ∧
    Holds "// Snippet.HIDE\x0c".toList (.visibility false) ∧
    IsPath ["a".toList, "b c".toList] ∧
    joined ['.'] ["a".toList, "b c".toList] ≠ joined ['.'] ["a".toList, "b".toList] ∧
    ofLine? "  /// snippet.a".toList = none := by
  obtain ⟨hopening, hclosing, hvisibility, hisPath, hinj, hdoc⟩ := spellings_read
  have hpath : IsPath ["a".toList, "b c".toList] := ⟨by decide, by decide, by decide⟩
  have hopens : Opens "b c".toList := ⟨by rintro _ ⟨⟩; decide, by decide, by decide, by decide⟩
  have hspelled : IsSpelled ["a".toList, "b c".toList] "\t//\u3000SNIPpet..a...b c \u2003".toList :=
    ⟨"SNIPpet".toList, "\t".toList, "\u3000".toList, _, " \u2003".toList, by decide, by decide, by decide, by decide,
      .name _ 1 (.name _ 2 (.last _)), by decide⟩
  have hended : IsSpelled (["a".toList, "b c".toList] ++ ["END".toList]) "//snippet.a.b c..END".toList :=
    ⟨"snippet".toList, [], [], _, [], by decide, by decide, by decide, by decide,
      .name _ 0 (.name _ 0 (.name _ 1 (.last _))), by decide⟩
  have hhidden : IsSpelled ([] ++ ["HIDE".toList]) "// Snippet.HIDE\x0c".toList :=
    ⟨"Snippet".toList, [], " ".toList, _, "\x0c".toList, by decide, by decide, by decide, by decide,
      .name _ 0 (.last _), by decide⟩
  have hopened := hopening _ _ hpath (by rintro _ ⟨⟩; exact hopens) hspelled
  refine ⟨hopened, (hclosing _ _ _ hpath (by decide) hended).1, ?_,
    hvisibility [] _ _ false (by simp) (by decide) hhidden, hisPath _ _ (.inl hopened.1), fun h => ?_,
    (hdoc _ (by decide)).1⟩
  · exact ((hclosing _ _ _ hpath (by decide) hended).2 {}).2.trans (by decide)
  · exact absurd (hinj _ _ hpath ⟨by decide, by decide, by decide⟩ h) (by decide)

end CodeSnippets.Marker
