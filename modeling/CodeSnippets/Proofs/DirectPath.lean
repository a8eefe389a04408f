import CodeSnippets.Proofs.Containment

/-!
# Paths that lead by name alone

A path from the root on which there is neither a link nor a name of the directory above stands for the place that its
parts name. Such a path is resolved to itself, and it is admitted as it is written.

* `LeadsTo`: a path of this kind and the node that it leads to.
* `LeadsTo.of_prefix`, `LeadsTo.exists_finds_child`: the paths before it, and those directly below it.
* `LeadsTo.admitPath_text`, `eq_of_admitPath_text`: its text is admitted as the path itself, and as no other.
-/

namespace CodeSnippets

open Text

namespace Path

variable {p : Path}

/-- The text of a path from the root is read as the path again. -/
theorem ofText_text (h : p.IsRead) (hanchor : p.anchor = .root) : ofText p.text = p := by
  obtain ⟨anchor, parts⟩ := p
  obtain rfl : anchor = .root := hanchor
  by_cases hparts : parts = []
  · subst hparts
    rfl
  -- The first part does not start with a slash, so that there is one at the start of the text.
  obtain ⟨part, rest, hcons⟩ := List.exists_cons_of_ne_nil hparts
  have hpart := h part (by simp [hcons])
  obtain ⟨c, t, hc⟩ := List.exists_cons_of_ne_nil hpart.ne_nil
  have hslash : c ≠ '/' := by
    rintro rfl
    exact hpart.slash_notMem (by simp [hc])
  have htext : ∃ t, text ⟨.root, parts⟩ = '/' :: c :: t := by
    rw [text_eq (p := ⟨.root, parts⟩) hparts, hcons, hc]
    cases rest with
    | nil => exact ⟨t, rfl⟩
    | cons u rest => exact ⟨_, rfl⟩
  obtain ⟨t, ht⟩ := htext
  have hanchor : Anchor.ofText (text ⟨.root, parts⟩) = .root := by
    simp [ht, Anchor.ofText, hslash]
  have hread : ((pieces '/' (text ⟨.root, parts⟩)).filter (!·.isEmpty)).filter (· ≠ dot) = parts := by
    rw [pieces_text h hparts]
    exact List.filter_eq_self.2 fun part hpart => by simpa using (h part hpart).ne_dot
  rw [ofText, hanchor, Path.mk.injEq]
  refine ⟨rfl, ?_⟩
  rw [List.filter_filter] at hread
  simpa only [Bool.and_comm] using hread

end Path

namespace Machine

variable {m : Machine} {p q base : Path} {n : Node} {name : Text} {extensions : List Text}

/-- A path from the root leads to a node by the names of its parts alone, and the system finds the node there. -/
structure LeadsTo (m : Machine) (p : Path) (n : Node) : Prop where
  anchor_eq : p.anchor = .root
  get? : m.root.get? p.parts = some n
  not_link : n.isLink = false
  status_eq : m.status p.text false = .ok n

theorem isAbsolute_of_anchor_eq (h : p.anchor = .root) : p.isAbsolute = true := by
  rw [Path.isAbsolute, h]
  rfl

theorem LeadsTo.isName (h : m.LeadsTo p n) (hm : m.WellFormed) : ∀ name ∈ p.parts, isName name = true :=
  Node.isName_of_get? hm.hasNames h.get?

theorem LeadsTo.isRead (h : m.LeadsTo p n) (hm : m.WellFormed) : p.IsRead :=
  fun name hname => (isPart_of_isName (h.isName hm name hname)).1

theorem LeadsTo.dotDot_notMem (h : m.LeadsTo p n) (hm : m.WellFormed) : dotDot ∉ p.parts :=
  fun hmem => (isPart_of_isName (h.isName hm _ hmem)).2 rfl

theorem LeadsTo.status (h : m.LeadsTo p n) : ∀ followLast, m.status p.text followLast = .ok n
  | false => h.status_eq
  | true => status_eq_of_not_link h.status_eq h.not_link

/-- A path leads by name alone if anything at all is found at it. -/
theorem leadsTo_of_status (hm : m.WellFormed) (hanchor : p.anchor = .root) (hget : m.root.get? p.parts = some n)
    (hn : n.isLink = false) {followLast : Bool} {x : Node} (hstatus : m.status p.text followLast = .ok x) :
    m.LeadsTo p n := by
  obtain ⟨y, hy, -, hfound⟩ :=
    status_of_prefix hm (isAbsolute_of_anchor_eq hanchor) hget hn hstatus (List.prefix_refl _)
  obtain rfl := Option.some.inj (hget.symm.trans hy)
  exact ⟨hanchor, hget, hn, hfound false⟩

theorem LeadsTo.of_prefix (h : m.LeadsTo p n) (hm : m.WellFormed) {parts : List Text} (hparts : parts <+: p.parts) :
    ∃ y, m.LeadsTo { p with parts } y := by
  obtain ⟨y, hy, hlink, hstatus⟩ :=
    status_of_prefix hm (isAbsolute_of_anchor_eq h.anchor_eq) h.get? h.not_link h.status_eq hparts
  exact ⟨y, h.anchor_eq, hy, hlink, hstatus false⟩

/-- What is found at the path of a name below a path stands in the directory to which that path leads. -/
theorem LeadsTo.exists_finds_child (h : m.LeadsTo p n) (hm : m.WellFormed) (hname : Path.IsPart name)
    (hdotDot : name ≠ dotDot) {followLast : Bool} {x : Node}
    (hstatus : m.status (p.child name).text followLast = .ok x) :
    ∃ child, m.root.Finds p.parts name child ∧ m.status (p.child name).text false = .ok child := by
  have habsolute : (p.child name).isAbsolute = true := isAbsolute_of_anchor_eq h.anchor_eq
  have hread : (p.child name).IsRead := (h.isRead hm).child hname
  have horigin : m.origin (p.child name) = [] := if_pos habsolute
  have hsteps : (p.child name).steps = p.parts ++ [name] := Path.steps_eq_parts (by simp [Path.child])
  obtain ⟨htakes, location, hfollow, -⟩ := (status_eq_ok_iff hread (.inl habsolute)).1 hstatus
  rw [horigin, hsteps] at hfollow
  obtain ⟨hwalk, hlast⟩ := follow_append_of_get? hm.hasNames h.get? h.not_link hfollow
  -- The name has been looked up, whether the node is a link or not.
  obtain ⟨w, hw⟩ := walk_of_follow_eq_ok hlast
  obtain ⟨child, hfinds⟩ := exists_finds_of_walk_cons hw hname hdotDot
  refine ⟨child, hfinds, (status_eq_ok_iff hread (.inl habsolute)).2 ⟨htakes, p.parts ++ [name], ?_, hfinds.get?⟩⟩
  rw [horigin, hsteps, follow_congr (walk_append_of_arrived hwalk [name])]
  exact follow_singleton_of_finds hfinds

end Machine

/-! ### Resolution -/

namespace Resolver

variable {m : Machine} {p q : Path} {n : Node} {init rest : List Text} {known : List (String × Path)} {fuel : Nat}

/-- A path that leads by name alone is gone along name by name. -/
theorem run_of_leadsTo (hm : m.WellFormed) (h : m.LeadsTo p n) (hparts : init ++ rest = p.parts)
    (hfuel : rest.length < fuel) : run m true fuel ⟨⟨.root, init⟩, rest, [], known⟩ = .ok p := by
  induction rest generalizing init fuel with
  | nil =>
    obtain ⟨fuel, rfl⟩ := Nat.exists_eq_succ_of_ne_zero (Nat.ne_of_gt hfuel)
    obtain ⟨anchor, parts⟩ := p
    obtain rfl : anchor = .root := h.anchor_eq
    obtain rfl : init = parts := by simpa using hparts
    rfl
  | cons part rest ih =>
    obtain ⟨fuel, rfl⟩ := Nat.exists_eq_succ_of_ne_zero (Nat.ne_of_gt (Nat.zero_lt_of_lt hfuel))
    have happend : init ++ [part] ++ rest = p.parts := by simpa using hparts
    obtain ⟨hpart, hdotDot⟩ := isPart_of_isName (h.isName hm part (by simp [← hparts]))
    obtain ⟨x, hx⟩ := h.of_prefix hm ⟨rest, happend⟩
    have hstatus : m.status (Path.text ((⟨.root, init⟩ : Path).child part)) false = .ok x := by
      have := hx.status_eq
      rw [h.anchor_eq] at this
      exact this
    -- There is no link at the next name, so that the step is one down.
    have hstep : step m true ⟨⟨.root, init⟩, part :: rest, [], known⟩ =
        .next ⟨⟨.root, init ++ [part]⟩, rest, [], known⟩ := by
      have hisStep : isStep part = true := by simp [isStep, hpart.ne_nil, hpart.ne_dot]
      have hlink := hx.not_link
      simp only [step, hisStep, hstatus]
      cases x <;> simp_all [Node.isLink, Path.child]
    rw [run, hstep]
    exact ih happend (by simpa using hfuel)

/-- Where no name on the way is that of a link, a path from the root is resolved to itself, if to anything. -/
theorem eq_of_run_eq_ok (hanchor : p.anchor = .root) (hp : p.IsRead) (hup : dotDot ∉ p.parts)
    (hlink : ∀ parts, parts <+: p.parts → ∀ n, m.status (Path.text { p with parts }) false = .ok n → n.isLink = false)
    (hparts : init ++ rest = p.parts) (h : run m true fuel ⟨⟨.root, init⟩, rest, [], []⟩ = .ok q) : q = p := by
  induction fuel generalizing init rest with
  | zero => cases h
  | succ fuel ih =>
    obtain ⟨anchor, parts⟩ := p
    obtain rfl : anchor = .root := hanchor
    obtain rfl : init ++ rest = parts := hparts
    rw [run] at h
    cases rest with
    | nil =>
      obtain rfl : ⟨.root, init⟩ = q := Except.ok.inj h
      simp
    | cons part rest =>
      have hpart := hp part (by simp)
      have hdotDot : part ≠ dotDot := by
        rintro rfl
        exact hup (by simp)
      split at h
      · -- A name is left, so that the resolution is not done yet.
        rename_i path hdone
        exact absurd (done_of_step_eq_done hdone).1 (by simp)
      · cases h
      · rename_i r hnext
        have hnotLink {target : Text} :
            m.status (Path.text ((⟨.root, init⟩ : Path).child part)) false ≠ .ok (.link target) := fun hstatus => by
          simpa [Node.isLink] using hlink (init ++ [part]) ⟨rest, by simp⟩ _ hstatus
        cases steps_of_step_eq_next hnext with
        | stay hstay => simp [isStep, hpart.ne_nil, hpart.ne_dot] at hstay
        | up => exact absurd rfl hdotDot
        | down => exact ih (by simp) h
        | again _ _ hstatus => exact absurd hstatus hnotLink
        | enter _ _ hstatus => exact absurd hstatus hnotLink

end Resolver

namespace Machine

variable {m : Machine} {p q base : Path} {n : Node} {name raw : Text} {extensions : List Text}

theorem absolute_eq_self (hanchor : p.anchor = .root) (hp : p.IsRead) (hup : dotDot ∉ p.parts) :
    m.absolute p = .ok p := by
  obtain ⟨anchor, parts⟩ := p
  obtain rfl : anchor = .root := hanchor
  show Except.ok (Path.mk .root (Path.collapseParts true parts)) = _
  rw [Path.collapseParts_eq_along hp, Location.along_eq_append [] hp hup, List.nil_append]

theorem LeadsTo.resolveStrict_eq (h : m.LeadsTo p n) (hm : m.WellFormed) : m.resolveStrict p = .ok p := by
  have hrun : Resolver.run m true (Resolver.fuel m p.parts.length) (Resolver.start p) = .ok p := by
    rw [Resolver.start, if_pos (isAbsolute_of_anchor_eq h.anchor_eq)]
    exact Resolver.run_of_leadsTo hm h rfl (Nat.lt_succ_of_le (Nat.le_add_right _ _))
  rw [resolveStrict, Resolver.resolve, hrun]
  simp [bind, Except.bind, absolute_eq_self h.anchor_eq (h.isRead hm) (h.dotDot_notMem hm), Except.mapError]

/-! ### Admission -/

theorem expandHome_of_anchor_eq (hanchor : p.anchor = .root) : m.expandHome p = .ok p := by
  obtain ⟨anchor, parts⟩ := p
  obtain rfl : anchor = .root := hanchor
  rfl

/-- The text of a path below a base directory is admitted as the path itself if the path leads by name alone. -/
theorem LeadsTo.admitPath_text (h : m.LeadsTo p n) (hm : m.WellFormed) (hbase : p.anchor = base.anchor)
    (hbelow : base.parts <+: p.parts) : m.admitPath p.text base = .ok p := by
  have hpasses : m.passesLink p = false := by
    rw [passesLink, List.any_eq_false]
    intro q hq
    obtain ⟨parts, hparts, rfl⟩ := Path.mem_selfAndParents.1 hq
    obtain ⟨x, hx⟩ := h.of_prefix hm hparts
    rw [hx.status_eq]
    simpa using hx.not_link
  have hrelative : p.relativeTo? base = some ⟨.relative, p.parts.drop base.parts.length⟩ :=
    if_pos ⟨hbase, List.isPrefixOf_iff_prefix.2 hbelow⟩
  rw [admitPath, Path.ofText_text (h.isRead hm) h.anchor_eq, expandHome_of_anchor_eq h.anchor_eq]
  simp [bind, Except.bind, Except.mapError, hpasses, h.resolveStrict_eq hm, hrelative, pure, Except.pure]

/-- The text of a path from the root that holds no name of the directory above is admitted as the path itself, if at
all. -/
theorem eq_of_admitPath_text (hanchor : p.anchor = .root) (hp : p.IsRead) (hup : dotDot ∉ p.parts)
    (h : m.admitPath p.text base = .ok q) : q = p := by
  obtain ⟨path, hhome, hpasses, hresolved, -⟩ := admitPath_eq_ok h
  rw [Path.ofText_text hp hanchor, expandHome_of_anchor_eq hanchor] at hhome
  obtain rfl := Except.ok.inj hhome
  rw [resolveStrict, Resolver.resolve, Resolver.start, if_pos (isAbsolute_of_anchor_eq hanchor)] at hresolved
  obtain ⟨resolved, hrun, habsolute⟩ := bind_eq_ok_iff.1 hresolved
  have hlink : ∀ parts, parts <+: p.parts → ∀ n, m.status (Path.text { p with parts }) false = .ok n →
      n.isLink = false := by
    intro parts hparts n hn
    have := List.any_eq_false.1 hpasses _ (Path.mem_selfAndParents.2 ⟨parts, hparts, rfl⟩)
    simpa [hn] using this
  obtain rfl := Resolver.eq_of_run_eq_ok hanchor hp hup hlink rfl hrun
  rw [mapError_eq_ok_iff, absolute_eq_self hanchor hp hup] at habsolute
  exact (Except.ok.inj habsolute).symm

/-- The text of the path of a source file is admitted as the path itself. -/
theorem LeadsTo.admitFile_text (h : m.LeadsTo p n) (hm : m.WellFormed) (hn : n.isRegular = true)
    (hextension : lower p.suffix ∈ extensions) (hbase : p.anchor = base.anchor) (hbelow : base.parts <+: p.parts) :
    m.admitFile p.text base extensions = .ok p := by
  have hregular : m.isRegular p = .ok true := probe_any_eq_ok_true_iff.2 ⟨n, h.status true, hn⟩
  simp [admitFile, h.admitPath_text hm hbase hbelow, bind, Except.bind, hregular, Except.mapError, hasExtension,
    hextension, pure, Except.pure]

/-- An admitted path at which there is something leads there by name alone. -/
theorem exists_leadsTo_of_admitPath (hm : m.WellFormed) (h : m.admitPath raw base = .ok p) {x : Node}
    (hstatus : m.status p.text true = .ok x) :
    m.LeadsTo p x ∧ p.anchor = base.anchor ∧ base.parts <+: p.parts := by
  obtain ⟨path, hhome, -, hresolved, hbase, hbelow⟩ := admitPath_eq_ok h
  obtain ⟨hanchor, n, hget, hn⟩ := get?_of_resolveStrict_eq_ok hm (Path.isRead_of_expandHome hhome) hresolved
  have hleads := leadsTo_of_status hm hanchor hget hn hstatus
  obtain rfl := Except.ok.inj ((hleads.status true).symm.trans hstatus)
  exact ⟨hleads, hbase, hbelow⟩

theorem exists_leadsTo_of_admitDirectory (hm : m.WellFormed) (h : m.admitDirectory raw base = .ok directory) :
    ∃ n, m.LeadsTo directory n ∧ directory.anchor = base.anchor ∧ base.parts <+: directory.parts := by
  obtain ⟨hadmitted, n, hn, -⟩ := admitDirectory_eq_ok h
  exact ⟨n, exists_leadsTo_of_admitPath hm hadmitted hn⟩

end Machine
end CodeSnippets
