import CodeSnippets.Proofs.LowerCase
import CodeSnippets.Snippet.Marker
import Mathlib.Data.List.Basic

/-!
# Spellings of markers

A marker may be spelled in many ways: with white space around the slashes and behind the path, with more than one dot
between two names, and with its keywords in upper or lower case. All spellings of a path are one marker.

* `Spells`, `IsSpelled`: the spellings of a path, and of the line of its marker.
* `ofLine?_of_isSpelled`: every spelling of a line is read as its path says.
* `ofLine?_of_docComment`: comments for the documentation are no markers.
-/

namespace CodeSnippets

open Text

namespace Marker

/-! ### Keywords in any case -/

/-- A keyword in some letters of which upper case stands for lower case. -/
def IsVariant (keyword t : Text) : Prop := t.map Char.toLower = keyword

instance (keyword t : Text) : Decidable (IsVariant keyword t) :=
  inferInstanceAs (Decidable (t.map Char.toLower = keyword))

theorem isAlpha_iff {c : Char} : c.isAlpha = true ↔ 65 ≤ c.toNat ∧ c.toNat ≤ 90 ∨ 97 ≤ c.toNat ∧ c.toNat ≤ 122 := by
  show (decide ('A'.val ≤ c.val ∧ c.val ≤ 'Z'.val) || (decide ('a'.val ≤ c.val) && decide (c.val ≤ 'z'.val))) = true ↔ _
  simp [UInt32.le_iff_toNat_le]

theorem isAlpha_of_isAlpha_toLower {c : Char} (h : c.toLower.isAlpha = true) : c.isAlpha = true := by
  by_cases hcapital : 'A'.val ≤ c.val ∧ c.val ≤ 'Z'.val
  · exact Bool.or_eq_true_iff.2 (.inl (decide_eq_true hcapital))
  · have hsame : c.toLower = c := dif_neg hcapital
    rwa [hsame] at h

/-- A letter of ASCII is neither a dot nor white space. -/
theorem of_isAlpha {c : Char} (h : c.isAlpha = true) : c.toNat < 0x80 ∧ c ≠ '.' ∧ isBlankChar c = false := by
  rw [isAlpha_iff] at h
  refine ⟨by omega, ?_, ?_⟩
  · rintro rfl
    exact absurd h (by decide)
  · rw [Bool.eq_false_iff, isBlankChar]
    simp only [ne_eq, Bool.or_eq_true, Bool.and_eq_true, decide_eq_true_eq, beq_iff_eq]
    omega

section Variant

variable {keyword t : Text}

theorem IsVariant.isAlpha (h : IsVariant keyword t) (hkeyword : keyword.all Char.isAlpha = true) :
    ∀ c ∈ t, c.isAlpha = true := fun _ hc =>
  isAlpha_of_isAlpha_toLower (List.all_eq_true.1 hkeyword _ (h ▸ List.mem_map_of_mem hc))

theorem IsVariant.ne_nil (h : IsVariant keyword t) (hne : keyword ≠ []) : t ≠ [] := by
  rintro rfl
  exact hne h.symm

theorem IsVariant.lower_eq (h : IsVariant keyword t) (hkeyword : keyword.all Char.isAlpha = true) :
    lower t = keyword :=
  (lower_of_ascii fun _ hc => (of_isAlpha (h.isAlpha hkeyword _ hc)).1).trans h

end Variant

/-! ### Paths in any spelling -/

/-- A name: it is not empty and holds no dot. -/
def IsName (name : Text) : Prop := name ≠ [] ∧ '.' ∉ name

/-- A name may end a text without losing white space. -/
def EndsSolid (name : Text) : Prop := ∀ c ∈ name.getLast?, isBlankChar c = false

theorem IsVariant.isName {keyword t : Text} (h : IsVariant keyword t) (hne : keyword ≠ [])
    (hkeyword : keyword.all Char.isAlpha = true) : IsName t :=
  ⟨h.ne_nil hne, fun hdot => (of_isAlpha (h.isAlpha hkeyword _ hdot)).2.1 rfl⟩

theorem IsVariant.endsSolid {keyword t : Text} (h : IsVariant keyword t)
    (hkeyword : keyword.all Char.isAlpha = true) : EndsSolid t := fun c hc =>
  (of_isAlpha (h.isAlpha hkeyword c (List.mem_of_mem_getLast? hc))).2.2

/-- A text that has the names of a path, in order, with one or more dots between each two. -/
inductive Spells : List Text → Text → Prop
  | last (name : Text) : Spells [name] name
  | name (name : Text) (dots : ℕ) {path : List Text} {t : Text} (h : Spells path t) :
      Spells (name :: path) (name ++ List.replicate (dots + 1) '.' ++ t)

theorem names_append_dot (t u : Text) : names (t ++ '.' :: u) = names t ++ names u := by
  rw [names, pieces_append, List.filter_append]
  rfl

theorem names_replicate_append (dots : ℕ) (t : Text) : names (List.replicate dots '.' ++ t) = names t := by
  induction dots with
  | zero => rfl
  | succ dots ih =>
    have hdot : names ([] ++ '.' :: (List.replicate dots '.' ++ t)) = names [] ++ names (List.replicate dots '.' ++ t) :=
      names_append_dot [] _
    rw [List.replicate_succ, List.cons_append]
    rw [List.nil_append, ih] at hdot
    exact hdot

theorem names_eq_singleton {name : Text} (h : IsName name) : names name = [name] := by
  simp [names, pieces_eq_singleton h.2, h.1]

namespace Spells

variable {path : List Text} {t : Text}

/-- However a path is spelled, its names are read from it. -/
theorem names_eq (h : Spells path t) (hpath : ∀ name ∈ path, IsName name) : names t = path := by
  induction h with
  | last name => exact names_eq_singleton (hpath name List.mem_cons_self)
  | name name dots _ ih =>
    obtain ⟨hname, hpath⟩ := List.forall_mem_cons.1 hpath
    rw [List.replicate_succ, List.append_assoc, List.cons_append, names_append_dot, names_eq_singleton hname,
      names_replicate_append, ih hpath, List.singleton_append]

theorem head?_eq {name : Text} (h : Spells (name :: path) t) (hname : name ≠ []) : t.head? = name.head? := by
  obtain ⟨c, name, rfl⟩ := List.exists_cons_of_ne_nil hname
  cases h <;> rfl

theorem ne_nil (h : Spells path t) (hpath : ∀ name ∈ path, IsName name) : t ≠ [] := by
  cases h with
  | last => exact (hpath t List.mem_cons_self).1
  | name => simp

theorem getLast?_eq (h : Spells path t) (hpath : ∀ name ∈ path, IsName name) :
    t.getLast? = (path.getLast?.getD []).getLast? := by
  induction h with
  | last name => rfl
  | @name name dots path t h ih =>
    have hrest := (List.forall_mem_cons.1 hpath).2
    have hne : path ≠ [] := by
      rintro rfl
      cases h
    rw [getLast?_append_of_ne_nil _ (h.ne_nil hrest), ih hrest, List.getLast?_cons_of_ne_nil hne]

end Spells

/-- A line of a marker with a path: white space, two slashes, white space, the keyword and the path, white space. -/
def IsSpelled (path : List Text) (line : Text) : Prop :=
  ∃ first before gap t after, IsVariant keyword first ∧ isBlank before = true ∧ isBlank gap = true ∧
    isBlank after = true ∧ Spells (first :: path) t ∧ line = before ++ commentStart ++ gap ++ t ++ after

/-- A line in any spelling is read as its path says. -/
theorem ofLine?_of_isSpelled {path : List Text} {line : Text} (h : IsSpelled path line)
    (hpath : ∀ name ∈ path, IsName name) (hlast : ∀ name ∈ path.getLast?, EndsSolid name) :
    ofLine? line = ofPath? path := by
  obtain ⟨first, before, gap, t, after, hfirst, hbefore, hgap, hafter, ht, rfl⟩ := h
  have hletters : keyword.all Char.isAlpha = true := by decide
  have hname : IsName first := hfirst.isName (by decide) hletters
  have hnames : ∀ name ∈ first :: path, IsName name := List.forall_mem_cons.2 ⟨hname, hpath⟩
  -- The marker has no white space at its ends, so that trimming takes the gaps and no more.
  have hhead : ∀ c ∈ t.head?, isBlankChar c = false := by
    rw [ht.head?_eq hname.1]
    exact fun c hc => (of_isAlpha (hfirst.isAlpha hletters c (List.mem_of_mem_head? hc))).2.2
  have hend : ∀ c ∈ t.getLast?, isBlankChar c = false := by
    rw [ht.getLast?_eq hnames, List.getLast?_cons]
    cases hpathLast : path.getLast? with
    | none => exact hfirst.endsSolid hletters
    | some name => exact hlast name hpathLast
  have htrim : trim (gap ++ t ++ after) = t := trim_append_append hgap hafter (ht.ne_nil hnames) hhead hend
  have hcomment : commentText? (before ++ commentStart ++ gap ++ t ++ after) = some (gap ++ t ++ after) := by
    have hstart : trimStart (before ++ (commentStart ++ (gap ++ t ++ after))) = commentStart ++ (gap ++ t ++ after) :=
      trimStart_append hbefore (by simpa [commentStart] using by decide)
    rw [commentText?, dropStart?_eq_some_iff, ← hstart]
    simp only [List.append_assoc]
  rw [ofLine?, hcomment]
  simp only [Option.bind_eq_bind, Option.bind_some, htrim, ht.names_eq hnames, hfirst.lower_eq hletters, if_true]

/-! ### Comments for the documentation -/

/-- The first character of a text is that of its first name. -/
theorem names_cons {c : Char} (hc : c ≠ '.') (t : Text) : ∃ name path, names (c :: t) = (c :: name) :: path := by
  rw [names, pieces, if_neg hc]
  split
  · exact ⟨[], [], rfl⟩
  · rename_i p ps _
    exact ⟨p, ps.filter (!·.isEmpty), rfl⟩

/-- A comment that starts with three slashes is no marker. -/
theorem ofLine?_of_docComment {line : Text} (h : startsWith (trimStart line) docCommentStart = true) :
    ofLine? line = none := by
  obtain ⟨content, hcontent⟩ := Option.isSome_iff_exists.1 h
  have hcomment : commentText? line = some ('/' :: content) := by
    have hline : trimStart line = docCommentStart ++ content := dropStart?_eq_some_iff.1 hcontent
    exact dropStart?_eq_some_iff.2 hline
  have htrim : trim ('/' :: content) = '/' :: trimEnd content := trimEnd_cons (by decide) content
  obtain ⟨name, path, hnames⟩ := names_cons (c := '/') (by decide) (trimEnd content)
  -- The third slash begins the first name, and no keyword begins with a slash.
  have hkeyword : lower ('/' :: name) ≠ keyword := by
    have hlower : lower ('/' :: name) = lowerChar '/' ++ lowerAfter ['/'] name := rfl
    rw [hlower, lowerChar_of_ascii (by decide)]
    exact fun heq => absurd (List.cons.inj heq).1 (by decide)
  rw [ofLine?, hcomment]
  simp only [Option.bind_eq_bind, Option.bind_some, htrim, hnames, if_neg hkeyword]

end Marker
end CodeSnippets
