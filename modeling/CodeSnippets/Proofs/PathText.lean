import CodeSnippets.Machine.Basic

/-!
# Paths and their texts

A path that has been read from a text, or put together from such paths, is written so that the system reads its
parts back, one by one.

* `Path.IsRead`: no part of the path is empty, stands for the directory itself, or holds a slash.
* `isRead_ofText`, `IsRead.child`: paths of this kind.
* `steps_text`, `startsAtRoot_text`: what the system reads in the text of a path.
* `text_prefix_text`: a path that goes on is written behind the path before it.
-/

namespace CodeSnippets

open Text

namespace Path

/-- A part of a path that has been read from a text: it is not empty, does not stand for the directory itself, and
holds no slash. -/
structure IsPart (part : Text) : Prop where
  ne_nil : part ≠ []
  ne_dot : part ≠ dot
  slash_notMem : '/' ∉ part

/-- The parts of the path are as they are read from a text. -/
def IsRead (p : Path) : Prop := ∀ part ∈ p.parts, IsPart part

variable {p : Path}

theorem isPart_dotDot : IsPart dotDot := ⟨by decide, by decide, by decide⟩

theorem isRead_ofText (t : Text) : (ofText t).IsRead := by
  intro part hpart
  obtain ⟨hmem, hkept⟩ := List.mem_filter.1 hpart
  simp only [Bool.and_eq_true, Bool.not_eq_true', List.isEmpty_eq_false_iff, decide_eq_true_eq] at hkept
  exact ⟨hkept.1, hkept.2, not_mem_of_mem_pieces hmem⟩

theorem IsRead.child (h : p.IsRead) {name : Text} (hname : IsPart name) : (p.child name).IsRead :=
  fun part hpart => (List.mem_append.1 hpart).elim (h part) fun hlast => List.mem_singleton.1 hlast ▸ hname

theorem IsRead.of_prefix {parts : List Text} (h : p.IsRead) (hparts : parts <+: p.parts) :
    IsRead { p with parts } := fun part hpart => h part (hparts.subset hpart)

/-- The names that the system walks from the text of the path. An empty path stands for a place itself, the root or
the working directory. -/
def steps (p : Path) : List Text := if p.parts = [] then [if p.isAbsolute then [] else dot] else p.parts

theorem steps_eq_parts (h : p.parts ≠ []) : p.steps = p.parts := if_neg h

theorem text_eq (h : p.parts ≠ []) : p.text = p.anchor.text ++ joined ['/'] p.parts := by
  obtain ⟨anchor, parts⟩ := p
  obtain ⟨part, rest, rfl⟩ := List.exists_cons_of_ne_nil h
  cases anchor <;> rfl

theorem mem_text_of_mem_parts {part : Text} (hpart : part ∈ p.parts) {c : Char} (hc : c ∈ part) : c ∈ p.text := by
  rw [text_eq (List.ne_nil_of_mem hpart)]
  exact List.mem_append_right _ (mem_joined_of_mem hpart hc)

/-- A character of the text of a path other than a slash or a dot is one of a part. -/
theorem exists_part_of_mem_text {c : Char} (hc : c ∈ p.text) (hslash : c ≠ '/') (hdot : c ≠ '.') :
    ∃ part ∈ p.parts, c ∈ part := by
  by_cases hparts : p.parts = []
  · obtain ⟨anchor, parts⟩ := p
    obtain rfl : parts = [] := hparts
    cases anchor <;> simp_all [text, Anchor.text, dot]
  · rw [text_eq hparts, List.mem_append] at hc
    rcases hc with hanchor | hjoined
    · cases hp : p.anchor <;> simp_all [Anchor.text]
    · rcases mem_joined hjoined with hsep | h
      · exact absurd (List.mem_singleton.1 hsep) hslash
      · exact h

theorem text_ne_nil (h : p.IsRead) : p.text ≠ [] := by
  by_cases hparts : p.parts = []
  · obtain ⟨anchor, parts⟩ := p
    obtain rfl : parts = [] := hparts
    cases anchor <;> simp [text, Anchor.text, dot]
  · obtain ⟨part, rest, hcons⟩ := List.exists_cons_of_ne_nil hparts
    have hpart := h part (by simp [hcons])
    obtain ⟨c, hc⟩ := List.exists_mem_of_ne_nil part hpart.ne_nil
    exact List.ne_nil_of_mem (mem_text_of_mem_parts (by simp [hcons]) hc)

theorem startsAtRoot_text (h : p.IsRead) : Machine.startsAtRoot p.text = p.isAbsolute := by
  by_cases hparts : p.parts = []
  · obtain ⟨anchor, parts⟩ := p
    obtain rfl : parts = [] := hparts
    cases anchor <;> rfl
  · obtain ⟨part, rest, hcons⟩ := List.exists_cons_of_ne_nil hparts
    have hpart := h part (by simp [hcons])
    obtain ⟨c, t, rfl⟩ := List.exists_cons_of_ne_nil hpart.ne_nil
    have hc : c ≠ '/' := by
      rintro rfl
      exact hpart.slash_notMem List.mem_cons_self
    have hhead : (joined ['/'] p.parts).head? = some c := by
      rw [hcons]
      cases rest <;> rfl
    rw [text_eq hparts, isAbsolute]
    cases p.anchor with
    | relative => simp [Machine.startsAtRoot, Anchor.text, hhead, hc]
    | root => rfl
    | doubleRoot => rfl

theorem pieces_text (h : p.IsRead) (hparts : p.parts ≠ []) :
    (pieces '/' p.text).filter (!·.isEmpty) = p.parts := by
  have hjoined : pieces '/' (joined ['/'] p.parts) = p.parts := pieces_joined hparts fun t ht => (h t ht).slash_notMem
  have hkept : p.parts.filter (!·.isEmpty) = p.parts :=
    List.filter_eq_self.2 fun part hpart => by simpa using (h part hpart).ne_nil
  rw [text_eq hparts]
  -- Slashes at the start make empty pieces, which are left out.
  cases p.anchor with
  | relative => rw [Anchor.text, List.nil_append, hjoined, hkept]
  | root =>
    show ([] :: pieces '/' (joined ['/'] p.parts)).filter _ = _
    rw [hjoined]
    exact hkept
  | doubleRoot =>
    show ([] :: [] :: pieces '/' (joined ['/'] p.parts)).filter _ = _
    rw [hjoined]
    exact hkept

/-- The system reads the parts of the path in its text. -/
theorem steps_text (h : p.IsRead) : Machine.steps p.text = p.steps := by
  by_cases hparts : p.parts = []
  · obtain ⟨anchor, parts⟩ := p
    obtain rfl : parts = [] := hparts
    cases anchor <;> decide
  · obtain ⟨rest, part, hconcat⟩ := (List.eq_nil_or_concat p.parts).resolve_left hparts
    rw [List.concat_eq_append] at hconcat
    have hmem : part ∈ p.parts := by simp [hconcat]
    have hpart := h part hmem
    have hlast : p.text.getLast? ≠ some '/' := by
      have hjoined : joined ['/'] p.parts ≠ [] := by
        obtain ⟨c, hc⟩ := List.exists_mem_of_ne_nil part hpart.ne_nil
        exact List.ne_nil_of_mem (mem_joined_of_mem hmem hc)
      rw [text_eq hparts, getLast?_append_of_ne_nil _ hjoined, hconcat, getLast?_joined hpart.ne_nil]
      exact fun hslash => hpart.slash_notMem (List.mem_of_getLast? hslash)
    rw [Machine.steps, pieces_text h hparts, if_neg hlast, List.append_nil, steps, if_neg hparts]

/-- The text of a path that goes on begins with the text of the path before it. -/
theorem text_prefix_text {parts : List Text} (hparts : parts <+: p.parts) (hne : parts ≠ [] ∨ p.isAbsolute = true) :
    text { p with parts } <+: p.text := by
  obtain ⟨rest, hrest⟩ := hparts
  obtain ⟨anchor, all⟩ := p
  obtain rfl : parts ++ rest = all := hrest
  by_cases hnil : parts = []
  · subst hnil
    cases anchor with
    | relative => simp [isAbsolute] at hne
    | root => exact List.prefix_append _ _
    | doubleRoot => exact List.prefix_append _ _
  · by_cases hrest : rest = []
    · subst hrest
      simp
    · rw [text_eq hnil, text_eq (p := ⟨anchor, parts ++ rest⟩) (by simp [hnil]), joined_append hnil hrest,
        ← List.append_assoc, ← List.append_assoc, List.append_assoc]
      exact List.prefix_append _ _

end Path
end CodeSnippets
