import CodeSnippets.Proofs.Body
import CodeSnippets.Proofs.MarkerPath
import Mathlib.Data.Nat.Find

/-!
# Where slices open and close

Which slices a source text has, and which lines of the body each covers, can be read off the positions of
its markers. A slice is opened by a marker and closed by the first later marker that opens a slice with
as many names or fewer, or that closes at its depth or above, or else by the end of the lines. Of the
markers that open slices of one name, and are followed by a line of the body before they close, the last
one counts.

* `closePosition`: where a slice closes.
* `Fills`, `FillsLast`: the markers that open a slice which is not empty, and the last of them.
* `IsOpen`, `FillsLastBefore`: the slices that are open, or have closed, before a position.
* `IsOpen.length_lt`: of two open slices the one opened later is deeper.
-/

namespace CodeSnippets

open Text Body

namespace Layout

/-! ### Positions of markers -/

/-- The line closes slices whose path has `k` names. -/
def closesLine (k : ℕ) (line : Text) : Bool :=
  match Marker.ofLine? line with
  | some (.opening path) => path.length ≤ k
  | some (.closing depth) => depth < k
  | some (.visibility _) => false
  | none => false

/-- The position of the first line after position `j` that closes a slice whose path has `k` names, or the
number of lines. -/
def closePosition (lines : List Text) (j k : ℕ) : ℕ := j + 1 + (lines.drop (j + 1)).findIdx (closesLine k)

/-- At position `j` stands a marker that opens a slice with the path `path`. -/
def OpensAt (lines : List Text) (j : ℕ) (path : List Text) : Prop :=
  ∃ line, lines[j]? = some line ∧ Marker.ofLine? line = some (.opening path)

section Positions

variable {lines : List Text} {i j k n : ℕ} {path : List Text}

theorem lt_closePosition (lines : List Text) (j k : ℕ) : j < closePosition lines j k := by
  rw [closePosition]
  omega

theorem closePosition_le_length (hj : j < lines.length) : closePosition lines j k ≤ lines.length := by
  -- The search runs over the lines after `j` and stops behind the last one at the latest.
  have hidx : (lines.drop (j + 1)).findIdx (closesLine k) ≤ (lines.drop (j + 1)).length :=
    List.findIdx_le_length
  rw [List.length_drop] at hidx
  rw [closePosition]
  omega

/-- A later line that closes the slice comes at its closing position or after it. -/
theorem closePosition_le (hjn : j < n) (hn : n < lines.length) (hc : closesLine k lines[n] = true) :
    closePosition lines j k ≤ n := by
  rw [closePosition]
  by_contra hlt
  have hbefore : n - (j + 1) < (lines.drop (j + 1)).findIdx (closesLine k) := by omega
  have hnot := List.not_of_lt_findIdx hbefore
  simp only [List.getElem_drop, Nat.add_sub_cancel' (Nat.succ_le_of_lt hjn)] at hnot
  exact Bool.noConfusion (hnot.symm.trans hc)

/-- A slice that has not closed before position `n` closes there if the line there closes it. -/
theorem closePosition_eq_iff (hjn : j < n) (hn : n < lines.length) (hle : n ≤ closePosition lines j k) :
    closePosition lines j k = n ↔ closesLine k lines[n] = true := by
  constructor
  · intro heq
    have hidx : (lines.drop (j + 1)).findIdx (closesLine k) = n - (j + 1) := by
      rw [closePosition] at heq
      omega
    have hlt : (lines.drop (j + 1)).findIdx (closesLine k) < (lines.drop (j + 1)).length := by
      rw [hidx, List.length_drop]
      omega
    have hfound := List.findIdx_getElem (w := hlt)
    simpa only [hidx, List.getElem_drop, Nat.add_sub_cancel' (Nat.succ_le_of_lt hjn)] using hfound
  · exact fun hc => Nat.le_antisymm (closePosition_le hjn hn hc) hle

/-- A marker that opens a slice closes those with as many names or more. -/
theorem closesLine_of_opening {line : Text} (hm : Marker.ofLine? line = some (.opening path)) :
    closesLine k line = true ↔ path.length ≤ k := by
  rw [closesLine, hm]
  exact decide_eq_true_iff

/-- A closing marker closes the slices at its depth and below. -/
theorem closesLine_of_closing {line : Text} {depth : ℕ} (hm : Marker.ofLine? line = some (.closing depth)) :
    closesLine k line = true ↔ depth < k := by
  rw [closesLine, hm]
  exact decide_eq_true_iff

theorem closesLine_of_visibility {line : Text} {shown : Bool}
    (hm : Marker.ofLine? line = some (.visibility shown)) : closesLine k line = false := by
  rw [closesLine, hm]

theorem closesLine_of_none {line : Text} (hm : Marker.ofLine? line = none) : closesLine k line = false := by
  rw [closesLine, hm]

/-- What closes a slice closes every slice with more names. -/
theorem closesLine_mono {line : Text} {l : ℕ} (hkl : k ≤ l) (h : closesLine k line = true) :
    closesLine l line = true := by
  cases hm : Marker.ofLine? line with
  | none =>
    rw [closesLine_of_none hm] at h
    cases h
  | some m =>
    cases m with
    | visibility shown =>
      rw [closesLine_of_visibility hm] at h
      cases h
    | opening path => exact (closesLine_of_opening hm).2 (((closesLine_of_opening hm).1 h).trans hkl)
    | closing depth => exact (closesLine_of_closing hm).2 (Nat.lt_of_lt_of_le ((closesLine_of_closing hm).1 h) hkl)

/-- A slice closes no later than a slice with fewer names that closes after it has opened. -/
theorem closePosition_le_closePosition {l : ℕ} (hi : i < lines.length) (hj : i < closePosition lines j k)
    (hkl : k ≤ l) : closePosition lines i l ≤ closePosition lines j k := by
  rcases Nat.lt_or_ge (closePosition lines j k) lines.length with hlt | hge
  · -- The line that closes the outer slice closes the inner one, if it is still open.
    have hcloses := (closePosition_eq_iff (lt_closePosition lines j k) hlt le_rfl).1 rfl
    exact closePosition_le hj hlt (closesLine_mono hkl hcloses)
  · exact (closePosition_le_length hi).trans hge

/-- A slice opens at a position if the line there is a marker that opens one. -/
theorem opensAt_iff (hn : n < lines.length) :
    OpensAt lines n path ↔ Marker.ofLine? lines[n] = some (.opening path) := by
  constructor
  · rintro ⟨line, hline, hm⟩
    rw [List.getElem?_eq_getElem hn, Option.some.injEq] at hline
    rwa [hline]
  · exact fun hm => ⟨_, List.getElem?_eq_getElem hn, hm⟩

namespace OpensAt

theorem lt_length (h : OpensAt lines j path) : j < lines.length := by
  obtain ⟨line, hline, -⟩ := h
  exact (List.getElem?_eq_some_iff.1 hline).1

theorem isPath (h : OpensAt lines j path) : Marker.IsPath path := by
  obtain ⟨line, -, hm⟩ := h
  exact Marker.isPath_of_opening hm

theorem unique {other : List Text} (h : OpensAt lines j path) (h' : OpensAt lines j other) : path = other := by
  obtain ⟨line, hline, hm⟩ := h
  obtain ⟨line', hline', hm'⟩ := h'
  rw [hline, Option.some.injEq] at hline'
  rw [← hline', hm] at hm'
  cases hm'
  rfl

/-- A slice closes at the latest where another one opens that has as many names or fewer. -/
theorem closePosition_le (h : OpensAt lines i path) (hji : j < i) (hk : path.length ≤ k) :
    closePosition lines j k ≤ i := by
  obtain ⟨line, hline, hm⟩ := h
  obtain ⟨hi, rfl⟩ := List.getElem?_eq_some_iff.1 hline
  exact Layout.closePosition_le hji hi ((closesLine_of_opening hm).2 hk)

end OpensAt

end Positions

/-! ### Slices -/

/-- How many lines of the body come before the slice opened at position `j` closes. -/
def closeCount (lines : List Text) (j : ℕ) (path : List Text) : ℕ :=
  countBefore lines (closePosition lines j path.length)

/-- A marker at position `j` opens the slice `name` with the path `path`, and a line of the body comes
before it closes. -/
structure Fills (lines : List Text) (name : Text) (j : ℕ) (path : List Text) : Prop where
  opens : OpensAt lines j path
  name_eq : joined ['.'] path = name
  filled : countBefore lines j < closeCount lines j path

/-- The marker at position `j` is the last one that opens the slice `name` so that it is not empty. -/
structure FillsLast (lines : List Text) (name : Text) (j : ℕ) (path : List Text) : Prop
    extends Fills lines name j path where
  last : ∀ i other, Fills lines name i other → i ≤ j

/-- The lines of the body that the slice opened at position `j` covers. -/
def spanAt (lines : List Text) (j : ℕ) (path : List Text) : Span :=
  ⟨countBefore lines j, closeCount lines j path⟩

/-- The slice opened at `j` is still open when the lines before position `n` have been read. -/
structure IsOpen (lines : List Text) (n j : ℕ) (path : List Text) : Prop where
  opens : OpensAt lines j path
  before : j < n
  not_closed : n ≤ closePosition lines j path.length

/-- The slice `name` opened at `j` is not empty, and closes before position `n`. -/
structure FillsBefore (lines : List Text) (n : ℕ) (name : Text) (j : ℕ) (path : List Text) : Prop
    extends Fills lines name j path where
  closed : closePosition lines j path.length < n

/-- The slice `name` opened at `j` is not empty, and closes at position `n`. -/
structure FillsAt (lines : List Text) (n : ℕ) (name : Text) (j : ℕ) (path : List Text) : Prop
    extends Fills lines name j path where
  closed : closePosition lines j path.length = n

/-- The slice `name` opened at `j` is the last one of its name that is not empty and closes before
position `n`. -/
structure FillsLastBefore (lines : List Text) (n : ℕ) (name : Text) (j : ℕ) (path : List Text) : Prop
    extends FillsBefore lines n name j path where
  last : ∀ i other, FillsBefore lines n name i other → i ≤ j

section Slices

variable {lines : List Text} {n i j : ℕ} {name : Text} {path other : List Text}

theorem Fills.path_eq (h : Fills lines name j path) (h' : Fills lines name i other) : path = other :=
  h.opens.isPath.joined_inj h'.opens.isPath (h.name_eq.trans h'.name_eq.symm)

/-- Of two open slices the one opened later is deeper. -/
theorem IsOpen.length_lt (h : IsOpen lines n j path) (h' : IsOpen lines n i other) (hji : j < i) :
    path.length < other.length := by
  by_contra hle
  -- Otherwise the later one has closed the earlier one where it opens.
  have := h'.opens.closePosition_le hji (Nat.le_of_not_lt hle)
  have := h.not_closed
  have := h'.before
  omega

/-- No two open slices have the same depth. -/
theorem IsOpen.eq_of_length_eq (h : IsOpen lines n j path) (h' : IsOpen lines n i other)
    (heq : path.length = other.length) : j = i := by
  rcases Nat.lt_trichotomy j i with hlt | rfl | hlt
  · have := h.length_lt h' hlt
    omega
  · rfl
  · have := h'.length_lt h hlt
    omega

/-- Before the next position those slices are open that do not close here, and the one that opens here. -/
theorem isOpen_succ_iff : IsOpen lines (n + 1) j path ↔
    (IsOpen lines n j path ∧ n < closePosition lines j path.length) ∨ (j = n ∧ OpensAt lines n path) := by
  constructor
  · intro h
    rcases Nat.lt_or_eq_of_le (Nat.le_of_lt_succ h.before) with hlt | rfl
    · exact .inl ⟨⟨h.opens, hlt, Nat.le_of_succ_le h.not_closed⟩, h.not_closed⟩
    · exact .inr ⟨rfl, h.opens⟩
  · rintro (⟨h, hlt⟩ | ⟨rfl, h⟩)
    · exact ⟨h.opens, Nat.lt_succ_of_lt h.before, hlt⟩
    · exact ⟨h, Nat.lt_succ_self j, lt_closePosition lines j path.length⟩

/-- A slice that closes at a position is open there. -/
theorem FillsAt.isOpen (h : FillsAt lines n name j path) : IsOpen lines n j path :=
  ⟨h.opens, h.closed ▸ lt_closePosition lines j path.length, h.closed.ge⟩

/-- Before the next position those slices have closed that have closed before, or close here. -/
theorem fillsBefore_succ_iff : FillsBefore lines (n + 1) name j path ↔
    FillsBefore lines n name j path ∨ FillsAt lines n name j path := by
  constructor
  · intro h
    rcases Nat.lt_or_eq_of_le (Nat.le_of_lt_succ h.closed) with hlt | heq
    · exact .inl ⟨h.toFills, hlt⟩
    · exact .inr ⟨h.toFills, heq⟩
  · rintro (h | h)
    · exact ⟨h.toFills, Nat.lt_succ_of_lt h.closed⟩
    · exact ⟨h.toFills, Nat.lt_succ_of_le h.closed.le⟩

/-- A slice that is open was opened after every slice of its name that has closed. -/
theorem FillsBefore.lt_of_isOpen (h : FillsBefore lines n name j path) (h' : IsOpen lines n i path) : j < i := by
  have hclosed := h.closed
  have hopen := h'.not_closed
  rcases Nat.lt_trichotomy j i with hlt | rfl | hlt
  · exact hlt
  · omega
  · -- Opened after `i` with as many names, it would have closed the slice at `i`.
    have := h.opens.closePosition_le hlt le_rfl
    have := lt_closePosition lines j path.length
    omega

/-- A slice that closes here takes the place of the last one of its name that has closed. -/
theorem fillsLastBefore_succ_iff : FillsLastBefore lines (n + 1) name j path ↔
    FillsAt lines n name j path ∨
      ((∀ i other, ¬ FillsAt lines n name i other) ∧ FillsLastBefore lines n name j path) := by
  constructor
  · intro h
    rcases fillsBefore_succ_iff.1 h.toFillsBefore with hbefore | hat
    · -- One that closes here would have been opened later, so none does.
      refine .inr ⟨fun i other hi => ?_, hbefore, fun i other hi => ?_⟩
      · obtain rfl := hi.path_eq hbefore.toFills
        have hle := h.last i other (fillsBefore_succ_iff.2 (.inr hi))
        exact Nat.not_lt.2 hle (hbefore.lt_of_isOpen hi.isOpen)
      · exact h.last i other (fillsBefore_succ_iff.2 (.inl hi))
    · exact .inl hat
  · rintro (h | ⟨hnone, h⟩)
    · -- It is still open here, hence opened after all that have closed.
      refine ⟨fillsBefore_succ_iff.2 (.inr h), fun i other hi => ?_⟩
      obtain rfl := h.path_eq hi.toFills
      rcases fillsBefore_succ_iff.1 hi with hi | hi
      · exact (hi.lt_of_isOpen h.isOpen).le
      · exact (hi.isOpen.eq_of_length_eq h.isOpen rfl).le
    · refine ⟨fillsBefore_succ_iff.2 (.inl h.toFillsBefore), fun i other hi => ?_⟩
      rcases fillsBefore_succ_iff.1 hi with hi | hi
      · exact h.last i other hi
      · exact absurd hi (hnone i other)

/-- A slice that opens while the body lines of another one are still read is deeper, and closes no
later. -/
theorem OpensAt.nested (h : OpensAt lines i other) (hji : j < i)
    (hshare : countBefore lines i < closeCount lines j path) :
    path.length < other.length ∧ closePosition lines i other.length ≤ closePosition lines j path.length := by
  -- Body lines of the outer slice follow position `i`, so it has not closed there.
  have hopen : i < closePosition lines j path.length := by
    by_contra hle
    exact Nat.not_lt.2 (countBefore_mono lines (Nat.le_of_not_lt hle)) hshare
  have hdeeper : path.length < other.length := by
    by_contra hle
    have := h.closePosition_le hji (Nat.le_of_not_lt hle)
    omega
  exact ⟨hdeeper, closePosition_le_closePosition h.lt_length hopen hdeeper.le⟩

/-- Every slice closes before the end, or at it. -/
theorem fillsBefore_length_iff :
    FillsBefore lines (lines.length + 1) name j path ↔ Fills lines name j path :=
  ⟨fun h => h.toFills,
    fun h => ⟨h, Nat.lt_succ_of_le (closePosition_le_length h.opens.lt_length)⟩⟩

theorem fillsLastBefore_length_iff :
    FillsLastBefore lines (lines.length + 1) name j path ↔ FillsLast lines name j path := by
  constructor
  · exact fun h => ⟨h.toFills, fun i other h' => h.last i other (fillsBefore_length_iff.2 h')⟩
  · exact fun h => ⟨fillsBefore_length_iff.2 h.toFills,
      fun i other h' => h.last i other (fillsBefore_length_iff.1 h')⟩

/-- A name that some marker opens so that the slice is not empty has a last such marker. -/
theorem exists_fillsLast (h : Fills lines name j path) : ∃ i other, FillsLast lines name i other := by
  classical
  let P : ℕ → Prop := fun i => ∃ other, Fills lines name i other
  have hbound : ∀ i, P i → i ≤ lines.length := fun i ⟨_, hi⟩ => hi.opens.lt_length.le
  have hj : P j := ⟨path, h⟩
  obtain ⟨other, hlast⟩ := Nat.findGreatest_spec (P := P) (hbound j hj) hj
  exact ⟨_, other, hlast, fun i p hi => Nat.le_findGreatest (hbound i ⟨p, hi⟩) ⟨p, hi⟩⟩

end Slices

end Layout
end CodeSnippets
