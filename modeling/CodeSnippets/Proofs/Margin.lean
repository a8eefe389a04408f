import CodeSnippets.Snippet.Margin
import Mathlib.Data.List.Basic
import Mathlib.Data.List.DropRight
import Mathlib.Data.List.TakeWhile

/-!
# Solid lines

A line is *solid* if it is not blank. Taking the margin off and dropping the blank lines at the end
keep every solid line at its position.

* `solidAt_dedent`, `solidAt_dropBlankEnd`: the positions of the solid lines stay the same.
* `IsIndentation`: the ways to measure indentation, by spaces or by all white space.
* `shared_dedent`, `dedent_map_unindent`: lines that have lost their margin have none, and a part of the margin
  may go before the rest.
* `dropBlankEnd_dedent`: the margin and the blank lines at the end may go in any order.
* `dedent_take_dedent`: what the first lines of a text look like once the margin of the text is off.
* `dropBlankEnds_append_append`: what `dropBlankEnds` leaves of blank lines, lines that begin and end
  solid, and blank lines.
-/

namespace CodeSnippets.Margin

open Text

/-- There is a line at position `i`, and it is not blank. -/
def SolidAt (ls : List Text) (i : ℕ) : Prop := ∃ l, ls[i]? = some l ∧ isBlank l = false

theorem SolidAt.lt_length {ls : List Text} {i : ℕ} (h : SolidAt ls i) : i < ls.length := by
  obtain ⟨l, hl, -⟩ := h
  exact (List.getElem?_eq_some_iff.1 hl).1

theorem SolidAt.isBlank_eq {ls : List Text} {i : ℕ} {l : Text} (h : SolidAt ls i) (hl : ls[i]? = some l) :
    isBlank l = false := by
  obtain ⟨k, hk, hsolid⟩ := h
  cases hk.symm.trans hl
  exact hsolid

theorem not_solidAt_of_isBlank {ls : List Text} {i : ℕ} {l : Text} (hl : ls[i]? = some l)
    (hb : isBlank l = true) : ¬ SolidAt ls i := by
  intro h
  rw [h.isBlank_eq hl] at hb
  cases hb

/-- A line that is there and not solid is blank. -/
theorem isBlank_of_not_solidAt {ls : List Text} {i : ℕ} {l : Text} (hl : ls[i]? = some l)
    (h : ¬ SolidAt ls i) : isBlank l = true := by
  by_contra hb
  exact h ⟨l, hl, by simpa using hb⟩

/-- Lines that come later do not move the solid lines before them. -/
theorem solidAt_append {ls more : List Text} {i : ℕ} (hi : i < ls.length) : SolidAt (ls ++ more) i ↔ SolidAt ls i := by
  rw [SolidAt, SolidAt, List.getElem?_append_left hi]

/-! ### Margins -/

/-- Characters taken off a text do not count any more among those at its start for which `p` holds. -/
theorem length_takeWhile_drop {p : Char → Bool} {n : ℕ} {l : Text} (h : n ≤ (l.takeWhile p).length) :
    ((l.drop n).takeWhile p).length = (l.takeWhile p).length - n := by
  induction l generalizing n with
  | nil => simp
  | cons c l ih =>
    cases n with
    | zero => rfl
    | succ n =>
      by_cases hc : p c = true
      · rw [List.takeWhile_cons_of_pos hc, List.length_cons] at h ⊢
        rw [List.drop_succ_cons, ih (Nat.le_of_succ_le_succ h), Nat.add_sub_add_right]
      · simp [hc] at h

/-- White space that has been taken off the start of a text would have been trimmed. -/
theorem trimStart_drop {n : ℕ} {l : Text} (h : n ≤ leadingBlanks l) : trimStart (l.drop n) = trimStart l := by
  have hsplit : l.drop n = (l.takeWhile isBlankChar).drop n ++ l.dropWhile isBlankChar := by
    conv_lhs => rw [← List.takeWhile_append_dropWhile (p := isBlankChar) (l := l), List.drop_append_of_le_length h]
  have hblank : ∀ c ∈ (l.takeWhile isBlankChar).drop n, isBlankChar c = true := fun c hc =>
    List.mem_takeWhile_imp (List.mem_of_mem_drop hc)
  rw [trimStart, hsplit, List.dropWhile_append_of_pos hblank, List.dropWhile_idempotent, trimStart]

/-- A measure of indentation counts white space at the start of a line, and less of it as it is taken off. -/
structure IsIndentation (indentation : Text → ℕ) : Prop where
  le_leadingBlanks : ∀ l, indentation l ≤ leadingBlanks l
  drop_eq : ∀ {n l}, n ≤ indentation l → indentation (l.drop n) = indentation l - n

theorem isIndentation_leadingBlanks : IsIndentation leadingBlanks := ⟨fun _ => le_rfl, length_takeWhile_drop⟩

theorem isIndentation_leadingSpaces : IsIndentation leadingSpaces where
  le_leadingBlanks l := by
    induction l with
    | nil => exact Nat.zero_le _
    | cons c l ih =>
      rw [leadingSpaces_cons]
      split
      · -- A space is blank.
        rename_i hc
        subst hc
        exact Nat.succ_le_succ ih
      · exact Nat.zero_le _
  drop_eq := length_takeWhile_drop

namespace IsIndentation

variable {indentation : Text → ℕ}

theorem trimStart_unindent (h : IsIndentation indentation) (n : ℕ) (l : Text) :
    trimStart (unindent indentation n l) = trimStart l :=
  trimStart_drop ((Nat.min_le_left _ _).trans (h.le_leadingBlanks l))

theorem isBlank_unindent (h : IsIndentation indentation) (n : ℕ) (l : Text) :
    isBlank (unindent indentation n l) = isBlank l := by
  rw [Bool.eq_iff_iff, ← trimStart_eq_nil_iff, ← trimStart_eq_nil_iff, h.trimStart_unindent]

theorem unindent_eq (h : IsIndentation indentation) (n : ℕ) (l : Text) :
    indentation (unindent indentation n l) = indentation l - n := by
  rw [unindent, h.drop_eq (Nat.min_le_left _ _)]
  omega

end IsIndentation

@[simp]
theorem trimStart_unindent (n : ℕ) (l : Text) : trimStart (unindent leadingSpaces n l) = trimStart l :=
  isIndentation_leadingSpaces.trimStart_unindent n l

@[simp]
theorem isBlank_unindent (n : ℕ) (l : Text) : isBlank (unindent leadingSpaces n l) = isBlank l :=
  isIndentation_leadingSpaces.isBlank_unindent n l

@[simp]
theorem length_dedent (ls : List Text) : (dedent ls).length = ls.length := length_dedentBy leadingSpaces ls

/-- Taking the margin off keeps the solid lines at their positions. -/
theorem solidAt_dedent {ls : List Text} {i : ℕ} : SolidAt (dedent ls) i ↔ SolidAt ls i := by
  simp only [SolidAt, dedent, dedentBy, List.getElem?_map, Option.map_eq_some_iff]
  constructor
  · rintro ⟨_, ⟨l, hl, rfl⟩, hb⟩
    exact ⟨l, hl, by rwa [isBlank_unindent] at hb⟩
  · rintro ⟨l, hl, hb⟩
    exact ⟨_, ⟨l, hl, rfl⟩, by rwa [isBlank_unindent]⟩

theorem forall_solid_dedent {ls : List Text} (h : ∀ l ∈ ls, isBlank l = false) : ∀ l ∈ dedent ls, isBlank l = false := by
  intro l hl
  obtain ⟨k, hk, rfl⟩ := List.mem_map.1 hl
  rw [isBlank_unindent]
  exact h k hk

section Shared

variable {indentation : Text → ℕ} {ls : List Text}

theorem shared_le {l : Text} (hl : l ∈ ls) (hb : isBlank l = false) : shared indentation ls ≤ indentation l := by
  have hmem : indentation l ∈ (ls.filter fun l => !isBlank l).map indentation :=
    List.mem_map_of_mem (List.mem_filter.2 ⟨hl, by simp [hb]⟩)
  rw [shared]
  cases hmin : ((ls.filter fun l => !isBlank l).map indentation).min? with
  | none => exact Nat.zero_le _
  | some m => exact (List.min?_eq_some_iff.1 hmin).2 _ hmem

/-- A line has no more than the indentation that is shared, or every line is blank and none is shared. -/
theorem exists_eq_shared (indentation : Text → ℕ) (ls : List Text) :
    (∃ l ∈ ls, isBlank l = false ∧ indentation l = shared indentation ls) ∨
      ((∀ l ∈ ls, isBlank l = true) ∧ shared indentation ls = 0) := by
  rw [shared]
  cases hmin : ((ls.filter fun l => !isBlank l).map indentation).min? with
  | none =>
    rw [List.min?_eq_none_iff, List.map_eq_nil_iff, List.filter_eq_nil_iff] at hmin
    exact .inr ⟨fun l hl => by simpa using hmin l hl, rfl⟩
  | some m =>
    obtain ⟨l, hl, hm⟩ := List.mem_map.1 (List.min?_eq_some_iff.1 hmin).1
    obtain ⟨hl, hb⟩ := List.mem_filter.1 hl
    exact .inl ⟨l, hl, by simpa using hb, hm⟩

/-- If not all lines are blank, one that is not has no more than the indentation that is shared. -/
theorem exists_mem_eq_shared (indentation : Text → ℕ) (h : ∃ l ∈ ls, isBlank l = false) :
    ∃ l ∈ ls, isBlank l = false ∧ indentation l = shared indentation ls := by
  rcases exists_eq_shared indentation ls with hleast | ⟨hblank, -⟩
  · exact hleast
  · obtain ⟨l, hl, hb⟩ := h
    rw [hblank l hl] at hb
    cases hb

theorem unindent_zero (indentation : Text → ℕ) : unindent indentation 0 = id :=
  funext fun l => by simp [unindent]

theorem dedent_eq_self (h : shared leadingSpaces ls = 0) : dedent ls = ls := by
  rw [dedent, dedentBy, h, unindent_zero, List.map_id]

/-- What is shared is the indentation of a line that is not blank, if no such line has less. -/
theorem shared_eq {n : ℕ} (hle : ∀ l ∈ ls, isBlank l = false → n ≤ indentation l)
    (hleast : ∃ l ∈ ls, isBlank l = false ∧ indentation l = n) : shared indentation ls = n := by
  obtain ⟨l, hl, hb, rfl⟩ := hleast
  refine Nat.le_antisymm (shared_le hl hb) ?_
  obtain ⟨k, hk, hkb, hshared⟩ := exists_mem_eq_shared indentation ⟨l, hl, hb⟩
  rw [← hshared]
  exact hle k hk hkb

/-- More lines share no more indentation, as long as one of the lines is not blank. -/
theorem shared_anti {ks : List Text} (hsub : ls ⊆ ks) (hsolid : ∃ l ∈ ls, isBlank l = false) :
    shared indentation ks ≤ shared indentation ls := by
  obtain ⟨l, hl, hb, hshared⟩ := exists_mem_eq_shared indentation hsolid
  rw [← hshared]
  exact shared_le (hsub hl) hb

/-- Blank lines have no say in what is shared. -/
theorem shared_append_of_blank (indentation : Text → ℕ) (ls : List Text) {blanks : List Text}
    (h : ∀ l ∈ blanks, isBlank l = true) : shared indentation (ls ++ blanks) = shared indentation ls := by
  have hnone : blanks.filter (fun l => !isBlank l) = [] := by simpa using h
  rw [shared, shared, List.filter_append, hnone, List.append_nil]

/-- Spaces that are taken off in two goes are taken off in one. -/
theorem unindent_unindent (m n : ℕ) (l : Text) :
    unindent leadingSpaces n (unindent leadingSpaces m l) = unindent leadingSpaces (m + n) l := by
  rw [unindent, unindent, unindent, isIndentation_leadingSpaces.drop_eq (Nat.min_le_left _ _), List.drop_drop]
  -- A line that runs out of spaces in the first go loses none in the second.
  congr 1
  omega

theorem IsIndentation.shared_map_unindent (h : IsIndentation indentation) {n : ℕ} (hn : n ≤ shared indentation ls) :
    shared indentation (ls.map (unindent indentation n)) = shared indentation ls - n := by
  rcases exists_eq_shared indentation ls with ⟨l, hl, hb, hshared⟩ | ⟨-, hshared⟩
  · apply shared_eq
    · intro k hk hkb
      obtain ⟨l, hl, rfl⟩ := List.mem_map.1 hk
      rw [h.isBlank_unindent] at hkb
      have hle : shared indentation ls ≤ indentation l := shared_le hl hkb
      rw [h.unindent_eq]
      omega
    · -- The line that had the least indentation still has the least.
      exact ⟨_, List.mem_map_of_mem hl, by rwa [h.isBlank_unindent], by rw [h.unindent_eq, hshared]⟩
  · -- Nothing is shared, and nothing is taken off.
    obtain rfl : n = 0 := by omega
    rw [unindent_zero, List.map_id, Nat.sub_zero]

/-- Blank lines at the end change nothing in the lines before them, and stay blank. -/
theorem dedent_append_of_blank (ls : List Text) {blanks : List Text} (h : ∀ l ∈ blanks, isBlank l = true) :
    ∃ blanks', (∀ l ∈ blanks', isBlank l = true) ∧ blanks'.length = blanks.length ∧
      dedent (ls ++ blanks) = dedent ls ++ blanks' := by
  refine ⟨blanks.map (unindent leadingSpaces (shared leadingSpaces ls)), fun l hl => ?_, List.length_map _, ?_⟩
  · obtain ⟨k, hk, rfl⟩ := List.mem_map.1 hl
    rw [isBlank_unindent, h k hk]
  · rw [dedent, dedentBy, shared_append_of_blank leadingSpaces ls h, List.map_append]
    rfl

/-- A part of the margin that is taken off before is not missed. -/
theorem dedent_map_unindent {n : ℕ} (h : n ≤ shared leadingSpaces ls) :
    dedent (ls.map (unindent leadingSpaces n)) = dedent ls := by
  rw [dedent, dedentBy, isIndentation_leadingSpaces.shared_map_unindent h, List.map_map, dedent, dedentBy]
  refine List.map_congr_left fun l _ => ?_
  rw [Function.comp_apply, unindent_unindent, Nat.add_sub_cancel' h]

/-- Once the shared indentation is off none is shared. -/
theorem IsIndentation.shared_dedentBy (h : IsIndentation indentation) (ls : List Text) :
    shared indentation (dedentBy indentation ls) = 0 := by
  rw [dedentBy, h.shared_map_unindent le_rfl, Nat.sub_self]

theorem shared_dedent (ls : List Text) : shared leadingSpaces (dedent ls) = 0 :=
  isIndentation_leadingSpaces.shared_dedentBy ls

end Shared

/-! ### Blank lines at the start -/

/-- Blank lines are dropped from the start up to a solid line at the latest. -/
theorem dropBlankStart_append_cons (xs ys : List Text) {line : Text} (h : isBlank line = false) :
    dropBlankStart (xs ++ line :: ys) = dropBlankStart xs ++ line :: ys := by
  rw [dropBlankStart, List.dropWhile_append, dropBlankStart]
  split
  · rename_i hempty
    rw [List.isEmpty_iff.1 hempty, List.dropWhile_cons_of_neg (by simp [h]), List.nil_append]
  · rfl

/-- Lines that come later are kept if a line before them is. -/
theorem dropBlankStart_append {xs : List Text} (h : dropBlankStart xs ≠ []) (ys : List Text) :
    dropBlankStart (xs ++ ys) = dropBlankStart xs ++ ys := by
  rw [dropBlankStart, List.dropWhile_append, if_neg (by simpa [dropBlankStart] using h), dropBlankStart]

/-- Nothing is dropped from the start of lines whose first one is solid. -/
theorem dropBlankStart_eq_self {ls : List Text} (h : ∀ l ∈ ls.head?, isBlank l = false) :
    dropBlankStart ls = ls := by
  cases ls with
  | nil => rfl
  | cons l ls => exact dropBlankStart_append_cons [] ls (h l rfl)

/-- The first line that is left is solid. -/
theorem isBlank_head?_dropBlankStart (ls : List Text) : ∀ l ∈ (dropBlankStart ls).head?, isBlank l = false := by
  intro l hl
  have hnot := List.head?_dropWhile_not isBlank ls
  rw [dropBlankStart] at hl
  rw [Option.mem_def.1 hl] at hnot
  simpa using hnot

theorem dropBlankStart_map {f : Text → Text} (hf : ∀ l, isBlank (f l) = isBlank l) (ls : List Text) :
    dropBlankStart (ls.map f) = (dropBlankStart ls).map f := by
  rw [dropBlankStart, dropBlankStart, List.dropWhile_map]
  congr 2
  exact funext hf

/-! ### Blank lines at the end -/

/-- What is left without the blank lines at the end is a beginning of the lines. -/
theorem dropBlankEnd_prefix_self (ls : List Text) : dropBlankEnd ls <+: ls := by
  obtain ⟨blanks, -, h⟩ := dropBlankEnd_append ls
  exact ⟨blanks, h.symm⟩

theorem dropBlankEnd_eq_take (ls : List Text) : dropBlankEnd ls = ls.take (dropBlankEnd ls).length :=
  List.prefix_iff_eq_take.1 (dropBlankEnd_prefix_self ls)

/-- Dropping the blank lines at the end keeps the solid lines at their positions. -/
theorem solidAt_dropBlankEnd {ls : List Text} {i : ℕ} : SolidAt (dropBlankEnd ls) i ↔ SolidAt ls i := by
  obtain ⟨blanks, hblanks, h⟩ := dropBlankEnd_append ls
  constructor
  · rintro ⟨l, hl, hb⟩
    refine ⟨l, ?_, hb⟩
    rw [h, List.getElem?_append_left (SolidAt.lt_length ⟨l, hl, hb⟩)]
    exact hl
  · rintro ⟨l, hl, hb⟩
    rw [h] at hl
    rcases Nat.lt_or_ge i (dropBlankEnd ls).length with hi | hi
    · rw [List.getElem?_append_left hi] at hl
      exact ⟨l, hl, hb⟩
    · -- Behind what is left there are blank lines only.
      rw [List.getElem?_append_right hi] at hl
      rw [hblanks l (List.mem_of_getElem? hl)] at hb
      exact Bool.noConfusion hb

theorem SolidAt.lt_length_dropBlankEnd {ls : List Text} {i : ℕ} (h : SolidAt ls i) :
    i < (dropBlankEnd ls).length :=
  (solidAt_dropBlankEnd.2 h).lt_length

/-- Lines that come later keep what is left without the blank lines at the end. -/
theorem dropBlankEnd_mono {ls ks : List Text} (h : ls <+: ks) : dropBlankEnd ls <+: dropBlankEnd ks := by
  obtain ⟨more, rfl⟩ := h
  rw [dropBlankEnd.eq_def (ls ++ more), List.reverse_append, List.dropWhile_append]
  split
  · -- What comes later is blank, and is dropped as well.
    exact List.prefix_rfl
  · rw [List.reverse_append, List.reverse_reverse]
    exact (dropBlankEnd_prefix_self ls).trans (List.prefix_append _ _)

/-- Nothing is dropped from the end of lines whose last one is solid. -/
theorem dropBlankEnd_eq_self {ls : List Text} (h : ∀ l ∈ ls.getLast?, isBlank l = false) : dropBlankEnd ls = ls := by
  have hreverse : dropBlankStart ls.reverse = ls.reverse := dropBlankStart_eq_self (by simpa using h)
  show (dropBlankStart ls.reverse).reverse = ls
  rw [hreverse, List.reverse_reverse]

theorem head?_dropBlankEnd {ls : List Text} {l : Text} (h : l ∈ (dropBlankEnd ls).head?) : l ∈ ls.head? := by
  obtain ⟨blanks, -, heq⟩ := dropBlankEnd_append ls
  rw [heq, List.head?_append, h]
  rfl

/-- The last line that is left is solid. -/
theorem isBlank_getLast?_dropBlankEnd (ls : List Text) : ∀ l ∈ (dropBlankEnd ls).getLast?, isBlank l = false := by
  intro l hl
  change l ∈ (dropBlankStart ls.reverse).reverse.getLast? at hl
  rw [List.getLast?_reverse] at hl
  exact isBlank_head?_dropBlankStart _ l hl

/-- The blank lines at the end have no say in the margin. -/
theorem shared_dropBlankEnd (indentation : Text → ℕ) (ls : List Text) :
    shared indentation (dropBlankEnd ls) = shared indentation ls := by
  obtain ⟨blanks, hblanks, h⟩ := dropBlankEnd_append ls
  conv_rhs => rw [h, shared_append_of_blank indentation _ hblanks]

theorem dropBlankEnd_append_of_blank (ls : List Text) {blanks : List Text} (h : ∀ l ∈ blanks, isBlank l = true) :
    dropBlankEnd (ls ++ blanks) = dropBlankEnd ls := by
  rw [dropBlankEnd, List.reverse_append, List.dropWhile_append_of_pos (by simpa using h), dropBlankEnd]

/-- It makes no difference whether the margin or the blank lines at the end go first. -/
theorem dropBlankEnd_dedent (ls : List Text) : dropBlankEnd (dedent ls) = dedent (dropBlankEnd ls) := by
  have hmap : (dropBlankStart (ls.reverse.map (unindent leadingSpaces (shared leadingSpaces ls)))).reverse =
      (dropBlankEnd ls).map (unindent leadingSpaces (shared leadingSpaces ls)) := by
    rw [dropBlankStart_map (isBlank_unindent _), ← List.map_reverse]
    rfl
  rw [dedent, dedentBy, dedent, dedentBy, shared_dropBlankEnd, ← hmap, List.map_reverse]
  rfl

/-- The first lines of a text without its margin, without what is still their margin, are these lines without
their margin in the text. -/
theorem dedent_take_dedent {ls ks : List Text} (hbegin : ls <+: ks) (hsolid : ∃ l ∈ ls, isBlank l = false) :
    dedent ((dedent ks).take ls.length) = dedent ls := by
  have htake : (dedent ks).take ls.length = ls.map (unindent leadingSpaces (shared leadingSpaces ks)) := by
    rw [dedent, dedentBy, ← List.map_take, ← List.prefix_iff_eq_take.1 hbegin]
  rw [htake, dedent_map_unindent (shared_anti hbegin.subset hsolid)]

/-! ### Blank lines at both ends -/

/-- Blank lines around lines that begin and end solid are dropped, and nothing else is. -/
theorem dropBlankEnds_append_append {xs ys zs : List Text} (hxs : ∀ l ∈ xs, isBlank l = true)
    (hzs : ∀ l ∈ zs, isBlank l = true) (hfirst : ∀ l ∈ ys.head?, isBlank l = false)
    (hlast : ∀ l ∈ ys.getLast?, isBlank l = false) : dropBlankEnds (xs ++ ys ++ zs) = ys := by
  rw [dropBlankEnds, dropBlankEnd_append_of_blank _ hzs]
  rcases List.eq_nil_or_concat' ys with rfl | ⟨init, l, rfl⟩
  · -- Nothing lies between the blank lines, and the ones before it are dropped from the end too.
    have hall : (xs ++ []).reverse.dropWhile isBlank = [] := List.dropWhile_eq_nil_iff.2 (by simpa using hxs)
    rw [dropBlankEnd, hall]
    rfl
  · -- The last line stops the dropping from the end, the first line that from the start.
    have hl : isBlank l = false := hlast l (by simp)
    have hkeep : dropBlankEnd (xs ++ (init ++ [l])) = xs ++ (init ++ [l]) := by
      simp [dropBlankEnd, hl]
    rw [hkeep, dropBlankStart, List.dropWhile_append_of_pos hxs]
    cases init with
    | nil => simp [hl]
    | cons k init =>
      have hk : isBlank k = false := hfirst k (by simp)
      simp [hk]

theorem dropBlankEnds_append_of_blank (ls : List Text) {blanks : List Text} (h : ∀ l ∈ blanks, isBlank l = true) :
    dropBlankEnds (ls ++ blanks) = dropBlankEnds ls := by
  rw [dropBlankEnds, dropBlankEnd_append_of_blank ls h, dropBlankEnds]

/-- Nothing is left of blank lines. -/
theorem dropBlankEnds_of_blank {ls : List Text} (h : ∀ l ∈ ls, isBlank l = true) : dropBlankEnds ls = [] := by
  have hnone : dropBlankEnds (ls ++ [] ++ []) = [] :=
    dropBlankEnds_append_append h (by simp) (by simp) (by simp)
  simpa using hnone

/-- Lines are those that are left of them between the blank ones at both ends. -/
theorem exists_eq_append_dropBlankEnds (ls : List Text) : ∃ before after, ls = before ++ dropBlankEnds ls ++ after ∧
    ∀ l ∈ before ++ after, isBlank l = true := by
  obtain ⟨after, hafter, hend⟩ := dropBlankEnd_append ls
  refine ⟨(dropBlankEnd ls).takeWhile isBlank, after, ?_, List.forall_mem_append.2 ⟨fun l hl => ?_, hafter⟩⟩
  · rw [dropBlankEnds, dropBlankStart, List.takeWhile_append_dropWhile]
    exact hend
  · exact List.mem_takeWhile_imp hl

/-- The last line that is left is solid. -/
theorem isBlank_getLast?_dropBlankEnds (ls : List Text) : ∀ l ∈ (dropBlankEnds ls).getLast?, isBlank l = false := by
  intro l hl
  obtain ⟨blanks, hblanks⟩ : dropBlankEnds ls <:+ dropBlankEnd ls := List.dropWhile_suffix isBlank
  refine isBlank_getLast?_dropBlankEnd ls l ?_
  rw [← hblanks, List.getLast?_append, Option.mem_def.1 hl]
  rfl

theorem dropBlankEnds_subset (ls : List Text) : dropBlankEnds ls ⊆ ls :=
  ((List.dropWhile_sublist _).trans (dropBlankEnd_prefix_self ls).sublist).subset

/-- The blank lines at both ends have no say in the margin. -/
theorem shared_dropBlankEnds (indentation : Text → ℕ) (ls : List Text) :
    shared indentation (dropBlankEnds ls) = shared indentation ls := by
  have hnone : ((dropBlankEnd ls).takeWhile isBlank).filter (fun l => !isBlank l) = [] := by
    simpa using fun l hl => List.mem_takeWhile_imp hl
  rw [← shared_dropBlankEnd indentation ls]
  conv_rhs => rw [← List.takeWhile_append_dropWhile (p := isBlank) (l := dropBlankEnd ls), shared, List.filter_append,
    hnone, List.nil_append]
  rfl

end CodeSnippets.Margin
