import CodeSnippets.Proofs.Extension
import CodeSnippets.Proofs.MarkerPath

/-!
# Steps of an outline

An outline changes step by step: a slice opens, slices close, code is shown or hidden from here on, or a line
is kept. Reading lines is taking such steps. Whatever steps are taken, and in whatever order, the open slices
lie below one another in the order in which they were opened, the spans of the others lie in the code, and
code is only added at its end.

* `Step`, `step`, `run`: the steps, and what they do to an outline.
* `WellFormed`: how an outline looks that steps have led to.
* `WellFormed.step`, `wellFormed_run`: every step keeps it so, and therefore every run of steps.
* `code_prefix_step`, `code_prefix_run`: code grows at its end.
* `exists_steps_foldl_read`: reading lines is taking steps.
* `run_invariant`: what holds after any steps from the start.
-/

namespace CodeSnippets.Outline

open Text

/-- A change of an outline. -/
inductive Step where
  /-- A slice opens. Its path has a name, and none of its names is empty or holds a dot. -/
  | openSlice (path : List Text) (isPath : Marker.IsPath path)
  /-- Slices at a depth and below close. -/
  | close (depth : ℕ)
  /-- From here on code is kept, or left out. -/
  | setVisible (shown : Bool)
  /-- A line of code is kept, if code is kept at all. -/
  | append (line : Text)

/-- What a step does to an outline. -/
def step (o : Outline) : Step → Outline
  | .openSlice path _ => o.openSlice path
  | .close depth => o.close depth
  | .setVisible shown => { o with visible := shown }
  | .append line => o.append line

/-- What steps do to an outline, one after the other. -/
def run (o : Outline) (steps : List Step) : Outline := steps.foldl step o

theorem run_append (o : Outline) (steps more : List Step) : o.run (steps ++ more) = (o.run steps).run more :=
  List.foldl_append

/-! ### What every step keeps -/

/-- How an outline looks that steps have led to. -/
structure WellFormed (o : Outline) : Prop where
  count_eq : o.count = o.code.length
  /-- Code begins with a solid line. -/
  first_solid : ∀ l ∈ o.code.head?, isBlank l = false
  /-- The name of an open slice has one part more than its depth says. -/
  length_name : ∀ e ∈ o.opened, ((pieces '.' e.2.name).length : ℤ) = e.1 + 1
  start_nonneg : ∀ e ∈ o.opened, 0 ≤ e.2.start
  start_le : ∀ e ∈ o.opened, e.2.start ≤ o.count
  /-- No two open slices have the same depth, and a deeper one does not start before one above it. -/
  ordered : o.opened.Pairwise fun e f => e.1 < f.1 ∧ e.2.start ≤ f.2.start
  /-- The slices that have closed are not empty, and lie in the code. -/
  closed : ∀ e ∈ o.slices, 0 ≤ e.2.start ∧ e.2.start < e.2.stop ∧ e.2.stop ≤ o.count

theorem wellFormed_start : WellFormed {} := by
  refine ⟨rfl, ?_, ?_, ?_, ?_, List.Pairwise.nil, ?_⟩ <;> simp

/-- Closing notes the slices that are not empty, each with the lines from its start on. -/
theorem mem_foldl_record {count : ℤ} {slices : Named Span} {closed : List (ℤ × OpenSlice)} {e : Text × Span}
    (h : e ∈ closed.foldl (fun t f => record count t f.2) slices) :
    e ∈ slices ∨ ∃ f ∈ closed, f.2.start < count ∧ e = (f.2.name, ⟨f.2.start, count⟩) := by
  induction closed generalizing slices with
  | nil => exact .inl h
  | cons f closed ih =>
    rcases ih h with hmem | ⟨g, hg, hlt, heq⟩
    · -- The entry was there once the first of the slices had been noted.
      change e ∈ record count slices f.2 at hmem
      rw [record] at hmem
      split at hmem
      · exact .inl hmem
      · rename_i hlt
        rcases Named.mem_put hmem with rfl | hmem
        · exact .inr ⟨f, List.mem_cons_self, Int.not_le.1 hlt, rfl⟩
        · exact .inl hmem
    · exact .inr ⟨g, List.mem_cons_of_mem f hg, hlt, heq⟩

/-- The slice that opens lies below all that stay open. -/
theorem openSlice_opened (o : Outline) (path : List Text) :
    (o.openSlice path).opened = (o.close ((path.length : ℤ) - 1)).opened ++
      [((path.length : ℤ) - 1, ⟨joined ['.'] path, o.count⟩)] := by
  rw [openSlice]
  apply insertOpened_of_forall_lt
  intro e he
  simpa using (List.mem_filter.1 he).2

namespace WellFormed

variable {o : Outline}

/-- No two open slices have the same depth. -/
theorem eq_of_depth_eq (h : o.WellFormed) {e f : ℤ × OpenSlice} (he : e ∈ o.opened) (hf : f ∈ o.opened)
    (heq : e.1 = f.1) : e = f := by
  obtain ⟨i, hi, rfl⟩ := List.getElem_of_mem he
  obtain ⟨j, hj, rfl⟩ := List.getElem_of_mem hf
  have hordered := List.pairwise_iff_getElem.1 h.ordered
  -- Of two entries at different places the first one lies above the other.
  rcases Nat.lt_trichotomy i j with hlt | rfl | hlt
  · exact absurd heq (Int.ne_of_lt (hordered i j hi hj hlt).1)
  · rfl
  · exact absurd heq.symm (Int.ne_of_lt (hordered j i hj hi hlt).1)

/-- No two open slices have the same name, because the name tells the depth. -/
theorem eq_of_name_eq (h : o.WellFormed) {e f : ℤ × OpenSlice} (he : e ∈ o.opened) (hf : f ∈ o.opened)
    (hname : e.2.name = f.2.name) : e = f := by
  refine h.eq_of_depth_eq he hf ?_
  have hdepth := h.length_name e he
  rw [hname, h.length_name f hf] at hdepth
  omega

theorem close (h : o.WellFormed) (depth : ℤ) : (o.close depth).WellFormed := by
  have hstay : ∀ e ∈ (o.close depth).opened, e ∈ o.opened := fun e he => (List.mem_filter.1 he).1
  refine ⟨h.count_eq, h.first_solid, fun e he => h.length_name e (hstay e he),
    fun e he => h.start_nonneg e (hstay e he), fun e he => h.start_le e (hstay e he), h.ordered.filter _, ?_⟩
  intro e he
  rcases mem_foldl_record he with he | ⟨f, hf, hlt, rfl⟩
  · exact h.closed e he
  · -- A slice that closes here ends with the code kept so far.
    exact ⟨h.start_nonneg f (List.mem_filter.1 hf).1, hlt, Int.le_refl _⟩

theorem openSlice (h : o.WellFormed) {path : List Text} (hpath : Marker.IsPath path) :
    (o.openSlice path).WellFormed := by
  have hclose := h.close ((path.length : ℤ) - 1)
  have hcount : 0 ≤ o.count := by
    rw [h.count_eq]
    exact Int.natCast_nonneg _
  -- An open slice is the one that opens here, or has stayed open.
  have hopened : ∀ e ∈ (o.openSlice path).opened, e ∈ (o.close ((path.length : ℤ) - 1)).opened ∨
      e = ((path.length : ℤ) - 1, ⟨joined ['.'] path, o.count⟩) := by
    intro e he
    rw [openSlice_opened] at he
    simpa using he
  refine ⟨h.count_eq, h.first_solid, fun e he => ?_, fun e he => ?_, fun e he => ?_, ?_, hclose.closed⟩
  · rcases hopened e he with he | rfl
    · exact hclose.length_name e he
    · rw [hpath.pieces_joined]
      omega
  · rcases hopened e he with he | rfl
    · exact hclose.start_nonneg e he
    · exact hcount
  · rcases hopened e he with he | rfl
    · exact hclose.start_le e he
    · exact Int.le_refl _
  · -- What stays open lies above the new slice, and started no later than now.
    rw [openSlice_opened, List.pairwise_append]
    refine ⟨hclose.ordered, List.pairwise_singleton _ _, fun e he f hf => ?_⟩
    rw [List.mem_singleton.1 hf]
    exact ⟨by simpa using (List.mem_filter.1 he).2, hclose.start_le e he⟩

theorem append (h : o.WellFormed) (line : Text) : (o.append line).WellFormed := by
  rw [Outline.append]
  split
  · exact h
  · rename_i hkept
    refine ⟨?_, ?_, h.length_name, h.start_nonneg, fun e he => ?_, h.ordered, fun e he => ?_⟩
    · simp [h.count_eq]
    · -- A line that becomes the first one is solid, or it would have been left out.
      intro l hl
      cases hcode : o.code with
      | nil => simp_all
      | cons k code => exact h.first_solid l (by simpa [hcode] using hl)
    · have := h.start_le e he
      show e.2.start ≤ o.count + 1
      omega
    · have := h.closed e he
      show 0 ≤ e.2.start ∧ e.2.start < e.2.stop ∧ e.2.stop ≤ o.count + 1
      omega

/-- A slice that has closed covers lines of the code, and at least one. -/
theorem exists_span (h : o.WellFormed) {name : Text} {span : Span} (hspan : o.slices.get? name = some span) :
    ∃ a b : ℕ, span = ⟨a, b⟩ ∧ a < b ∧ b ≤ o.code.length := by
  obtain ⟨hstart, hlt, hstop⟩ := h.closed _ (Named.mem_of_get?_eq_some hspan)
  rw [h.count_eq] at hstop
  obtain ⟨a, ha⟩ := Int.eq_ofNat_of_zero_le hstart
  obtain ⟨b, hb⟩ := Int.eq_ofNat_of_zero_le (Int.le_of_lt (Int.lt_of_le_of_lt hstart hlt))
  exact ⟨a, b, by rw [← ha, ← hb], by omega, by omega⟩

/-- Every step keeps an outline well-formed. -/
theorem step (h : o.WellFormed) (s : Step) : (o.step s).WellFormed := by
  cases s with
  | openSlice path hpath => exact h.openSlice hpath
  | close depth => exact h.close depth
  | setVisible shown =>
    exact ⟨h.count_eq, h.first_solid, h.length_name, h.start_nonneg, h.start_le, h.ordered, h.closed⟩
  | append line => exact h.append line

theorem run (h : o.WellFormed) (steps : List Step) : (o.run steps).WellFormed := by
  induction steps generalizing o with
  | nil => exact h
  | cons s steps ih => exact ih (h.step s)

end WellFormed

/-! ### Growth of the code -/

/-- No step changes the code that has been kept. -/
theorem code_prefix_step (o : Outline) (s : Step) : o.code <+: (o.step s).code := by
  cases s with
  | openSlice path hpath => exact List.prefix_rfl
  | close depth => exact List.prefix_rfl
  | setVisible shown => exact List.prefix_rfl
  | append line =>
    show o.code <+: (o.append line).code
    rw [append]
    split
    · exact List.prefix_rfl
    · exact List.prefix_append _ _

theorem code_prefix_run (o : Outline) (steps : List Step) : o.code <+: (o.run steps).code := by
  induction steps generalizing o with
  | nil => exact List.prefix_rfl
  | cons s steps ih => exact (code_prefix_step o s).trans (ih (o.step s))

/-! ### Lines as steps -/

/-- Reading a line is taking steps. -/
theorem exists_steps_read (o : Outline) (line : Text) : ∃ steps, o.read line = o.run steps := by
  cases hkind : LineKind.ofLine line with
  | marker m =>
    cases m with
    | visibility shown => exact ⟨[.setVisible shown], by rw [read, hkind]; rfl⟩
    | opening path =>
      have hpath := Marker.isPath_of_opening (LineKind.ofLine_eq_marker_iff.1 hkind)
      exact ⟨[.openSlice path hpath, .setVisible true], by rw [read, hkind]; rfl⟩
    | closing depth => exact ⟨[.close depth], by rw [read, hkind]; rfl⟩
  | code => exact ⟨[.append line], by rw [read, hkind]; rfl⟩
  | skipped => exact ⟨[], by rw [read, hkind]; rfl⟩

theorem exists_steps_foldl_read (o : Outline) (lines : List Text) :
    ∃ steps, lines.foldl read o = o.run steps := by
  induction lines generalizing o with
  | nil => exact ⟨[], rfl⟩
  | cons line lines ih =>
    obtain ⟨first, hfirst⟩ := exists_steps_read o line
    obtain ⟨rest, hrest⟩ := ih (o.read line)
    refine ⟨first ++ rest, ?_⟩
    rw [List.foldl_cons, hrest, hfirst, run_append]

theorem WellFormed.foldl_read {o : Outline} (h : o.WellFormed) (lines : List Text) : (lines.foldl read o).WellFormed := by
  obtain ⟨steps, hsteps⟩ := exists_steps_foldl_read o lines
  rw [hsteps]
  exact h.run steps

theorem code_prefix_foldl_read (o : Outline) (lines : List Text) : o.code <+: (lines.foldl read o).code := by
  obtain ⟨steps, hsteps⟩ := exists_steps_foldl_read o lines
  rw [hsteps]
  exact code_prefix_run o steps

/-- After any steps from the start the outline is well-formed, no two open slices have the same name, and no
later step changes the code kept so far. -/
theorem run_invariant (steps : List Step) :
    let o : Outline := run {} steps
    o.WellFormed ∧ (∀ e ∈ o.opened, ∀ f ∈ o.opened, e.2.name = f.2.name → e = f) ∧
      ∀ more, o.code <+: (run {} (steps ++ more)).code := by
  intro o
  have h : o.WellFormed := wellFormed_start.run steps
  refine ⟨h, fun e he f hf => h.eq_of_name_eq he hf, fun more => ?_⟩
  rw [run_append]
  exact code_prefix_run o more

end CodeSnippets.Outline
