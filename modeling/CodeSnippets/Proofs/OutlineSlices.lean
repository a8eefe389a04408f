import CodeSnippets.Proofs.Layout
import Mathlib.Data.List.Induction

/-!
# The slices of an outline

Reading the lines one by one, the outline has in `opened` the slices that are open, under their depths,
and in `slices` those that have closed and are not empty, each with the lines of the body it covers.

* `ClosesFrom`: the depth from which a line, or the end of the lines, closes slices.
* `HoldsSlices`: what the outline holds before a position.
* `HoldsSlices.opened_close`, `HoldsSlices.slices_close`: what closing at this depth leaves open and notes.
* `HoldsSlices.read`: what every line keeps.
* `holdsSlices_foldl_read`: it holds after all lines.
* `get?_slices_ofLines`: the slices after all lines, all closed.
-/

namespace CodeSnippets.Outline

open Text Body Layout

/-! ### Operations on the slices -/

theorem mem_close_opened {o : Outline} {depth : ℤ} {e : ℤ × OpenSlice} :
    e ∈ (o.close depth).opened ↔ e ∈ o.opened ∧ e.1 < depth := by
  rw [close, List.mem_filter, decide_eq_true_eq]

theorem mem_insertOpened {depth : ℤ} {slice : OpenSlice} {opened : List (ℤ × OpenSlice)}
    (hnew : ∀ e ∈ opened, e.1 ≠ depth) {e : ℤ × OpenSlice} :
    e ∈ insertOpened depth slice opened ↔ e = (depth, slice) ∨ e ∈ opened := by
  induction opened with
  | nil => simp [insertOpened]
  | cons f rest ih =>
    obtain ⟨d, s⟩ := f
    have hd : depth ≠ d := (hnew _ List.mem_cons_self).symm
    rw [insertOpened]
    split
    · rw [List.mem_cons]
    · rw [List.mem_cons, List.mem_cons, ih fun f hf => hnew f (List.mem_cons_of_mem _ hf)]
      exact or_left_comm

theorem get?_record (count : ℤ) (slices : Named Span) (slice : OpenSlice) (name : Text) :
    (record count slices slice).get? name =
      if slice.start < count ∧ slice.name = name then some ⟨slice.start, count⟩ else slices.get? name := by
  rw [record]
  split
  · -- An empty slice is not noted.
    rename_i hge
    rw [if_neg fun h => absurd h.1 (Int.not_lt.2 hge)]
  · rename_i hlt
    rw [Named.get?_put]
    by_cases hname : slice.name = name
    · rw [if_pos hname, if_pos ⟨Int.not_le.1 hlt, hname⟩]
    · rw [if_neg hname, if_neg fun h => hname h.2]

theorem nodup_names_record {count : ℤ} {slices : Named Span} (h : slices.names.Nodup) (slice : OpenSlice) :
    (record count slices slice).names.Nodup := by
  rw [record]
  split
  · exact h
  · exact Named.nodup_names_put h _ _

/-- Of slices with different names, each that is not empty is noted under its name. -/
theorem get?_foldl_record {count : ℤ} {slices : Named Span} {closed : List (ℤ × OpenSlice)}
    (hnames : ∀ e ∈ closed, ∀ f ∈ closed, e.2.name = f.2.name → e = f) {name : Text} {span : Span} :
    (closed.foldl (fun t e => record count t e.2) slices).get? name = some span ↔
      (∃ e ∈ closed, e.2.start < count ∧ e.2.name = name ∧ span = ⟨e.2.start, count⟩) ∨
        (∀ e ∈ closed, ¬ (e.2.start < count ∧ e.2.name = name)) ∧ slices.get? name = some span := by
  -- The last slice noted wins, so the induction takes slices off the end.
  induction closed using List.reverseRecOn with
  | nil => simp
  | append_singleton closed e ih =>
    have he' : e ∈ closed ++ [e] := List.mem_append_right _ List.mem_cons_self
    rw [List.foldl_append, List.foldl_cons, List.foldl_nil, get?_record]
    by_cases he : e.2.start < count ∧ e.2.name = name
    · -- It is noted under the name, and no other slice of the list has this name.
      rw [if_pos he, Option.some.injEq]
      constructor
      · rintro rfl
        exact .inl ⟨e, he', he.1, he.2, rfl⟩
      · rintro (⟨f, hf, -, hname, rfl⟩ | ⟨hnone, -⟩)
        · rw [hnames f hf e he' (hname.trans he.2.symm)]
        · exact absurd he (hnone e he')
    · -- It is empty or has another name, and the slices before it decide.
      have hinit : ∀ f ∈ closed, f ∈ closed ++ [e] := fun f hf => List.mem_append_left _ hf
      rw [if_neg he, ih fun f hf g hg => hnames f (hinit f hf) g (hinit g hg)]
      constructor
      · rintro (⟨f, hf, h⟩ | ⟨hnone, hspan⟩)
        · exact .inl ⟨f, hinit f hf, h⟩
        · refine .inr ⟨fun f hf => ?_, hspan⟩
          rcases List.mem_append.1 hf with hf | hf
          · exact hnone f hf
          · rwa [List.mem_singleton.1 hf]
      · rintro (⟨f, hf, hlt, hname, hspan⟩ | ⟨hnone, hspan⟩)
        · rcases List.mem_append.1 hf with hf | hf
          · exact .inl ⟨f, hf, hlt, hname, hspan⟩
          · rw [List.mem_singleton.1 hf] at hlt hname
            exact absurd ⟨hlt, hname⟩ he
        · exact .inr ⟨fun f hf => hnone f (hinit f hf), hspan⟩

/-- Under the name of no slice that is not empty nothing new is noted. -/
theorem get?_foldl_record_of_not_filled {count : ℤ} {slices : Named Span} {closed : List (ℤ × OpenSlice)} {name : Text}
    (h : ∀ e ∈ closed, ¬ (e.2.start < count ∧ e.2.name = name)) :
    (closed.foldl (fun t e => record count t e.2) slices).get? name = slices.get? name := by
  induction closed generalizing slices with
  | nil => rfl
  | cons e closed ih =>
    obtain ⟨he, hclosed⟩ := List.forall_mem_cons.1 h
    rw [List.foldl_cons, ih hclosed, get?_record, if_neg he]

/-! ### Depths at which slices close -/

/-- Of the slices that are open before position `n`, those at this depth and below close there. -/
def ClosesFrom (lines : List Text) (n : ℕ) (depth : ℤ) : Prop :=
  ∀ j path, IsOpen lines n j path →
    (closePosition lines j path.length = n ↔ depth ≤ (path.length : ℤ) - 1)

section ClosesFrom

variable {lines : List Text} {n : ℕ}

/-- A closing marker closes from its depth on. -/
theorem closesFrom_of_closing (hn : n < lines.length) {depth : ℕ}
    (hm : Marker.ofLine? lines[n] = some (.closing depth)) : ClosesFrom lines n depth := by
  intro j path hj
  rw [closePosition_eq_iff hj.before hn hj.not_closed, closesLine_of_closing hm]
  omega

/-- A marker that opens a slice closes from the depth of this slice on. -/
theorem closesFrom_of_opening (hn : n < lines.length) {path : List Text}
    (hm : Marker.ofLine? lines[n] = some (.opening path)) : ClosesFrom lines n ((path.length : ℤ) - 1) := by
  intro j other hj
  rw [closePosition_eq_iff hj.before hn hj.not_closed, closesLine_of_opening hm]
  omega

/-- At the end every slice closes that is still open. -/
theorem closesFrom_length (lines : List Text) : ClosesFrom lines lines.length 0 := by
  intro j path hj
  have hend := Nat.le_antisymm (closePosition_le_length hj.opens.lt_length) hj.not_closed
  -- Every path has a name, so no slice lies above depth zero.
  have hpos := hj.opens.isPath.length_pos
  exact iff_of_true hend (by omega)

end ClosesFrom

/-! ### What the outline holds -/

/-- How the outline keeps the slice opened at position `j` while it is open. -/
def entryAt (lines : List Text) (j : ℕ) (path : List Text) : ℤ × OpenSlice :=
  ((path.length : ℤ) - 1, ⟨joined ['.'] path, countBefore lines j⟩)

/-- The outline is the one after the lines before position `n`, as far as slices are concerned. -/
structure HoldsSlices (lines : List Text) (n : ℕ) (o : Outline) : Prop where
  opened : ∀ e, e ∈ o.opened ↔ ∃ j path, IsOpen lines n j path ∧ e = entryAt lines j path
  slices : ∀ name span, o.slices.get? name = some span ↔
    ∃ j path, FillsLastBefore lines n name j path ∧ span = spanAt lines j path

namespace HoldsSlices

variable {lines : List Text} {n : ℕ} {o p : Outline}

/-- No two open slices have the same name. -/
theorem eq_of_name_eq (h : o.HoldsSlices lines n) {e f : ℤ × OpenSlice} (he : e ∈ o.opened)
    (hf : f ∈ o.opened) (hname : e.2.name = f.2.name) : e = f := by
  obtain ⟨j, path, hj, rfl⟩ := (h.opened e).1 he
  obtain ⟨i, other, hi, rfl⟩ := (h.opened f).1 hf
  obtain rfl : path = other := hj.opens.isPath.joined_inj hi.opens.isPath hname
  obtain rfl : j = i := hj.eq_of_length_eq hi rfl
  rfl

/-- Closing at a depth leaves the slices open that do not close here, if the slices that close here are
those at this depth and below. -/
theorem opened_close (h : o.HoldsSlices lines n) {depth : ℤ} (hcloses : ClosesFrom lines n depth)
    (e : ℤ × OpenSlice) :
    e ∈ (o.close depth).opened ↔
      ∃ j path, (IsOpen lines n j path ∧ n < closePosition lines j path.length) ∧ e = entryAt lines j path := by
  rw [mem_close_opened, h.opened]
  constructor
  · rintro ⟨⟨j, path, hj, rfl⟩, hdepth⟩
    have hne : closePosition lines j path.length ≠ n := fun heq =>
      absurd ((hcloses j path hj).1 heq) (Int.not_le.2 hdepth)
    exact ⟨j, path, ⟨hj, Nat.lt_of_le_of_ne hj.not_closed hne.symm⟩, rfl⟩
  · rintro ⟨j, path, ⟨hj, hlt⟩, rfl⟩
    refine ⟨⟨j, path, hj, rfl⟩, Int.not_le.1 fun hdepth => ?_⟩
    have := (hcloses j path hj).2 hdepth
    omega

/-- The entries that closing at a depth notes under a name are the slices of this name that are not empty
and close here, if the slices that close here are those at this depth and below. -/
theorem mem_closed_iff (h : o.HoldsSlices lines n) (hcount : o.count = countBefore lines n) {depth : ℤ}
    (hcloses : ClosesFrom lines n depth) {name : Text} {e : ℤ × OpenSlice} :
    (e ∈ o.opened.filter (fun e => depth ≤ e.1) ∧ e.2.start < o.count ∧ e.2.name = name) ↔
      ∃ j path, FillsAt lines n name j path ∧ e = entryAt lines j path := by
  rw [List.mem_filter, h.opened, decide_eq_true_eq, hcount]
  constructor
  · rintro ⟨⟨⟨j, path, hopen, rfl⟩, hdepth⟩, hlt, hname⟩
    have heq := (hcloses j path hopen).2 hdepth
    refine ⟨j, path, ⟨⟨hopen.opens, hname, ?_⟩, heq⟩, rfl⟩
    rw [closeCount, heq]
    exact Int.ofNat_lt.1 hlt
  · rintro ⟨j, path, hat, rfl⟩
    refine ⟨⟨⟨j, path, hat.isOpen, rfl⟩, (hcloses j path hat.isOpen).1 hat.closed⟩, ?_, hat.name_eq⟩
    have hlt := hat.filled
    rw [closeCount, hat.closed] at hlt
    exact Int.ofNat_lt.2 hlt

/-- Closing at a depth notes the slices that are not empty and close here, if the slices that close here
are those at this depth and below. -/
theorem slices_close (h : o.HoldsSlices lines n) (hcount : o.count = countBefore lines n) {depth : ℤ}
    (hcloses : ClosesFrom lines n depth) (name : Text) (span : Span) :
    (o.close depth).slices.get? name = some span ↔
      ∃ j path, FillsLastBefore lines (n + 1) name j path ∧ span = spanAt lines j path := by
  let closed := o.opened.filter fun e => depth ≤ e.1
  have hclosed : ∀ e ∈ closed, e ∈ o.opened := fun e he => (List.mem_filter.1 he).1
  have hspan : ∀ j path, FillsAt lines n name j path →
      spanAt lines j path = ⟨(entryAt lines j path).2.start, o.count⟩ := by
    intro j path hat
    rw [spanAt, closeCount, hat.closed, hcount]
    rfl
  change (closed.foldl (fun t e => record o.count t e.2) o.slices).get? name = some span ↔ _
  rw [get?_foldl_record fun e he f hf => h.eq_of_name_eq (hclosed e he) (hclosed f hf), h.slices]
  constructor
  · rintro (⟨e, he, hlt, hname, rfl⟩ | ⟨hnone, j, path, hlast, rfl⟩)
    · -- A slice noted here has just closed.
      obtain ⟨j, path, hat, rfl⟩ := (h.mem_closed_iff hcount hcloses).1 ⟨he, hlt, hname⟩
      exact ⟨j, path, fillsLastBefore_succ_iff.2 (.inl hat), (hspan j path hat).symm⟩
    · -- A slice that stays was noted before, and none of its name closes here.
      refine ⟨j, path, fillsLastBefore_succ_iff.2 (.inr ⟨fun i other hat => ?_, hlast⟩), rfl⟩
      obtain ⟨hmem, hfilled⟩ := (h.mem_closed_iff hcount hcloses).2 ⟨i, other, hat, rfl⟩
      exact hnone _ hmem hfilled
  · rintro ⟨j, path, hlast, rfl⟩
    rcases fillsLastBefore_succ_iff.1 hlast with hat | ⟨hnone, hlast⟩
    · obtain ⟨hmem, hlt, hname⟩ := (h.mem_closed_iff hcount hcloses).2 ⟨j, path, hat, rfl⟩
      exact .inl ⟨_, hmem, hlt, hname, hspan j path hat⟩
    · refine .inr ⟨fun e he hfilled => ?_, j, path, hlast, rfl⟩
      obtain ⟨i, other, hat, -⟩ := (h.mem_closed_iff hcount hcloses).1 ⟨he, hfilled⟩
      exact hnone i other hat

/-- A line that neither opens nor closes slices leaves them as they are. -/
private theorem next (h : o.HoldsSlices lines n) (hn : n < lines.length)
    (hstay : ∀ k, closesLine k lines[n] = false) (hnone : ∀ path, ¬ OpensAt lines n path)
    (hopened : p.opened = o.opened) (hslices : p.slices = o.slices) : p.HoldsSlices lines (n + 1) := by
  -- No open slice closes at a line that closes none.
  have hopen : ∀ j path, IsOpen lines n j path → closePosition lines j path.length ≠ n := by
    intro j path hj heq
    have hc := (closePosition_eq_iff hj.before hn hj.not_closed).1 heq
    rw [hstay] at hc
    cases hc
  constructor
  · intro e
    rw [hopened, h.opened]
    refine exists_congr fun j => exists_congr fun path => and_congr_left fun _ => ?_
    rw [isOpen_succ_iff]
    constructor
    · exact fun hj => .inl ⟨hj, Nat.lt_of_le_of_ne hj.not_closed (hopen j path hj).symm⟩
    · rintro (hj | ⟨-, hj⟩)
      · exact hj.1
      · exact absurd hj (hnone path)
  · intro name span
    rw [hslices, h.slices]
    refine exists_congr fun j => exists_congr fun path => and_congr_left fun _ => ?_
    have hat : ∀ i other, ¬ FillsAt lines n name i other := fun i other hi => hopen i other hi.isOpen hi.closed
    rw [fillsLastBefore_succ_iff]
    constructor
    · exact fun hlast => .inr ⟨hat, hlast⟩
    · rintro (hi | hlast)
      · exact absurd hi (hat j path)
      · exact hlast.2

/-- Reading a marker that closes slices. -/
private theorem close (h : o.HoldsSlices lines n) (hcount : o.count = countBefore lines n)
    (hn : n < lines.length) {depth : ℕ} (hm : Marker.ofLine? lines[n] = some (.closing depth)) :
    (o.close depth).HoldsSlices lines (n + 1) := by
  have hcloses := closesFrom_of_closing hn hm
  refine ⟨fun e => ?_, h.slices_close hcount hcloses⟩
  rw [h.opened_close hcloses]
  refine exists_congr fun j => exists_congr fun path => and_congr_left fun _ => ?_
  rw [isOpen_succ_iff, opensAt_iff hn, hm]
  simp

/-- Reading a marker that opens a slice. -/
private theorem openSlice (h : o.HoldsSlices lines n) (hcount : o.count = countBefore lines n)
    (hn : n < lines.length) {path : List Text} (hm : Marker.ofLine? lines[n] = some (.opening path)) :
    (o.openSlice path).HoldsSlices lines (n + 1) := by
  have hcloses := closesFrom_of_opening hn hm
  refine ⟨fun e => ?_, h.slices_close hcount hcloses⟩
  -- What stays open lies above the new slice, so its depth is free.
  have hnew : ∀ e ∈ (o.close ((path.length : ℤ) - 1)).opened, e.1 ≠ (path.length : ℤ) - 1 :=
    fun e he => Int.ne_of_lt (mem_close_opened.1 he).2
  change e ∈ insertOpened ((path.length : ℤ) - 1) ⟨joined ['.'] path, o.count⟩ _ ↔ _
  rw [mem_insertOpened hnew, h.opened_close hcloses]
  constructor
  · rintro (rfl | ⟨j, other, hj, rfl⟩)
    · exact ⟨n, path, isOpen_succ_iff.2 (.inr ⟨rfl, (opensAt_iff hn).2 hm⟩), by rw [entryAt, hcount]⟩
    · exact ⟨j, other, isOpen_succ_iff.2 (.inl hj), rfl⟩
  · rintro ⟨j, other, hj, rfl⟩
    rcases isOpen_succ_iff.1 hj with hj | ⟨rfl, hj⟩
    · exact .inr ⟨j, other, hj, rfl⟩
    · obtain rfl := hj.unique ((opensAt_iff hn).2 hm)
      exact .inl (by rw [entryAt, hcount])

/-- Reading the line at position `n`. -/
theorem read (h : o.HoldsSlices lines n) (hcount : o.count = countBefore lines n) (hn : n < lines.length) :
    (o.read lines[n]).HoldsSlices lines (n + 1) := by
  cases hm : Marker.ofLine? lines[n] with
  | some m =>
    rw [Outline.read, LineKind.ofLine_eq_marker_iff.2 hm]
    cases m with
    | visibility shown =>
      refine h.next hn (fun k => closesLine_of_visibility hm) (fun path => ?_) rfl rfl
      simp [opensAt_iff hn, hm]
    | opening path =>
      have hopen := h.openSlice hcount hn hm
      exact ⟨hopen.opened, hopen.slices⟩
    | closing depth => exact h.close hcount hn hm
  | none =>
    have hstay : ∀ k, closesLine k lines[n] = false := fun k => closesLine_of_none hm
    have hnone : ∀ path, ¬ OpensAt lines n path := fun path => by simp [opensAt_iff hn, hm]
    rw [Outline.read]
    split
    · exact absurd (LineKind.ofLine_eq_marker_iff.1 ‹_›) (by simp [hm])
    · exact h.next hn hstay hnone (append_opened o _) (append_slices o _)
    · exact h.next hn hstay hnone rfl rfl

end HoldsSlices

theorem holdsSlices_start (lines : List Text) : HoldsSlices lines 0 {} := by
  refine ⟨fun e => ?_, fun name span => ?_⟩
  · constructor
    · intro he
      cases he
    · rintro ⟨j, path, hj, -⟩
      exact absurd hj.before (Nat.not_lt_zero j)
  · constructor
    · intro hspan
      cases hspan
    · rintro ⟨j, path, hj, -⟩
      exact absurd hj.closed (Nat.not_lt_zero _)

/-- After all lines the outline holds the slices that are open or have closed. -/
theorem holdsSlices_foldl_read (lines : List Text) :
    (lines.foldl Outline.read {}).HoldsSlices lines lines.length := by
  -- What is noted of a slice needs the count of body lines, so both are carried along.
  have hboth : (lines.foldl Outline.read {}).HoldsBody lines lines.length ∧
      (lines.foldl Outline.read {}).HoldsSlices lines lines.length :=
    foldl_read_induction lines (P := fun n o => o.HoldsBody lines n ∧ o.HoldsSlices lines n)
      ⟨holdsBody_start lines, holdsSlices_start lines⟩
      fun n hn o h => ⟨h.1.read hn, h.2.read h.1.count hn⟩
  exact hboth.2

/-- The slices of an outline are those that some marker opens so that they are not empty, each with the
span of the last such marker. -/
theorem get?_slices_ofLines {lines : List Text} {name : Text} {span : Span} :
    (ofLines lines).slices.get? name = some span ↔
      ∃ j path, FillsLast lines name j path ∧ span = spanAt lines j path := by
  rw [ofLines, (holdsSlices_foldl_read lines).slices_close (holdsBody_foldl_read lines).count
    (closesFrom_length lines)]
  simp only [fillsLastBefore_length_iff]

/-- Closing slices notes no name twice. -/
theorem nodup_names_close {o : Outline} (h : o.slices.names.Nodup) (depth : ℤ) :
    (o.close depth).slices.names.Nodup := by
  change ((o.opened.filter fun e => depth ≤ e.1).foldl (fun t e => record o.count t e.2) o.slices).names.Nodup
  induction o.opened.filter fun e => depth ≤ e.1 using List.reverseRecOn with
  | nil => exact h
  | append_singleton closed e ih =>
    rw [List.foldl_append]
    exact nodup_names_record ih e.2

theorem nodup_names_read {o : Outline} (h : o.slices.names.Nodup) (line : Text) :
    (o.read line).slices.names.Nodup := by
  rw [read]
  split
  · rename_i m _
    cases m with
    | visibility shown => exact h
    | opening path => exact nodup_names_close h _
    | closing depth => exact nodup_names_close h depth
  · rwa [append_slices]
  · exact h

/-- No two slices of an outline have the same name. -/
theorem nodup_names_ofLines (lines : List Text) : (ofLines lines).slices.names.Nodup :=
  nodup_names_close
    (foldl_read_induction lines (P := fun _ o => o.slices.names.Nodup) List.nodup_nil
      fun _ _ _ h => nodup_names_read h _) 0

end CodeSnippets.Outline
