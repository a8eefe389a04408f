import CodeSnippets.Machine.Resolution
import CodeSnippets.Proofs.Lookup

/-!
# What a path resolves to

Where every name must be there, a path is resolved to a place of the tree that is no link, and below directories only.

* `Settled`: a path on which every name has been looked at and no link has been found.
* `Steps`, `steps_of_step_eq_next`: the steps of a resolution, one rule for each.
* `exists_of_run_eq_ok`: what every step keeps holds at the end of a resolution.
* `Sound.of_steps`, `settled_of_run_eq_ok`: what one step keeps, and what a whole resolution comes to.
* `get?_of_resolveStrict_eq_ok`: what there is at a resolved path.
-/

namespace CodeSnippets

open Text

namespace Machine

variable {m : Machine} {p : Path} {part : Text}

/-! ### Paths without links -/

/-- Every name of the path has been looked at, and none is a link. -/
structure Settled (m : Machine) (p : Path) : Prop where
  anchor_ne : p.anchor ≠ .doubleRoot
  isRead : p.IsRead
  dotDot_notMem : p.isAbsolute = true → dotDot ∉ p.parts
  free : m.HasOrigin p → ∀ init, init <+: p.parts →
    ∃ n, m.root.get? ((m.origin p).along init) = some n ∧ n.isLink = false

theorem settled_of_parts_eq_nil (hm : m.WellFormed) (hanchor : p.anchor ≠ .doubleRoot) (hparts : p.parts = []) :
    m.Settled p where
  anchor_ne := hanchor
  isRead := by simp [Path.IsRead, hparts]
  dotDot_notMem := by simp [hparts]
  free horigin init hinit := by
    obtain ⟨entries, mode, hdirectory⟩ := hm.exists_origin horigin
    rw [hparts, List.prefix_nil] at hinit
    exact ⟨_, by rw [hinit]; exact hdirectory, rfl⟩

theorem Settled.parent (h : m.Settled p) : m.Settled p.parent where
  anchor_ne := h.anchor_ne
  isRead := h.isRead.of_prefix (List.dropLast_prefix _)
  dotDot_notMem habsolute hmem := h.dotDot_notMem habsolute (List.dropLast_subset _ hmem)
  free horigin init hinit := h.free horigin init (hinit.trans (List.dropLast_prefix _))

/-- What is found at the path of a name below a settled path stands in the directory to which that path leads. -/
theorem Settled.finds (h : m.Settled p) (horigin : m.HasOrigin p) (hpart : Path.IsPart part) (hdotDot : part ≠ dotDot)
    {n : Node} (hstatus : m.status (p.child part).text false = .ok n) :
    m.root.Finds ((m.origin p).along p.parts) part n := by
  obtain ⟨-, location, hfollow, hn⟩ := (status_eq_ok_iff (h.isRead.child hpart) horigin).1 hstatus
  have hsteps : (p.child part).steps = p.parts ++ [part] := Path.steps_eq_parts (by simp [Path.child])
  rw [hsteps] at hfollow
  obtain ⟨-, hlast⟩ := follow_along hfollow fun init hinit x hx => by
    obtain ⟨y, hy, hlink⟩ := h.free horigin init hinit
    obtain rfl := Option.some.inj (hy.symm.trans hx)
    exact hlink
  obtain ⟨child, hfinds, rfl⟩ := finds_of_follow_singleton hlast hpart hdotDot
  obtain rfl := Option.some.inj (hfinds.get?.symm.trans hn)
  exact hfinds

theorem Settled.child (h : m.Settled p) (hpart : Path.IsPart part) (hdotDot : part ≠ dotDot) {n : Node}
    (hstatus : m.status (p.child part).text false = .ok n) (hn : n.isLink = false) : m.Settled (p.child part) where
  anchor_ne := h.anchor_ne
  isRead := h.isRead.child hpart
  dotDot_notMem habsolute hmem :=
    (List.mem_append.1 hmem).elim (h.dotDot_notMem habsolute) (by simpa using Ne.symm hdotDot)
  free horigin init hinit := by
    rcases List.prefix_concat_iff.1 hinit with rfl | hinit
    · have hfinds := h.finds horigin hpart hdotDot hstatus
      refine ⟨n, ?_, hn⟩
      rw [Location.along_append_singleton, Location.move_name _ hpart.ne_nil hpart.ne_dot hdotDot]
      exact hfinds.get?
    · exact h.free horigin init hinit

/-- The path one directory up leads one directory up. -/
theorem Settled.along_up (h : m.Settled p) :
    (m.origin p).along (Resolver.up p).parts = ((m.origin p).along p.parts).dropLast := by
  have hparent (hlast : ∀ part, p.parts.getLast? = some part → part ≠ dotDot) (hne : p.parts ≠ []) :
      (m.origin p).along p.parent.parts = ((m.origin p).along p.parts).dropLast := by
    obtain ⟨init, part, hconcat⟩ := (List.eq_nil_or_concat p.parts).resolve_left hne
    rw [List.concat_eq_append] at hconcat
    have hpart := h.isRead part (by simp [hconcat])
    have hdotDot : part ≠ dotDot := hlast part (by simp [hconcat])
    -- The name that is taken away has led down, so that the path without it leads one directory up.
    rw [Path.parent, hconcat, Location.along_append_singleton, List.dropLast_concat,
      Location.move_name _ hpart.ne_nil hpart.ne_dot hdotDot, List.dropLast_concat]
  unfold Resolver.up
  split
  · rename_i habsolute
    by_cases hne : p.parts = []
    · simp [Path.parent, hne, origin, habsolute]
    · refine hparent (fun part hpart heq => h.dotDot_notMem habsolute ?_) hne
      exact heq ▸ List.mem_of_getLast? hpart
  · split
    · exact (Location.along_append_singleton _ _ _).trans (Location.move_dotDot _)
    · rename_i hlast
      refine hparent (fun part hpart heq => hlast (by simp [hpart, heq])) fun hnil => hlast (by simp [hnil])

theorem Settled.up (h : m.Settled p) (hm : m.WellFormed) : m.Settled (Resolver.up p) := by
  have hplace := h.along_up
  unfold Resolver.up at hplace ⊢
  split
  · exact h.parent
  · rename_i hrelative
    rw [if_neg hrelative] at hplace
    split
    · rename_i hlast
      rw [if_pos hlast] at hplace
      refine ⟨h.anchor_ne, h.isRead.child Path.isPart_dotDot, fun habsolute => absurd habsolute hrelative,
        fun horigin init hinit => ?_⟩
      rcases List.prefix_concat_iff.1 hinit with rfl | hinit
      · -- The path now ends in the directory above, which is a directory.
        obtain ⟨n, hn, -⟩ := h.free horigin p.parts (List.prefix_refl _)
        obtain ⟨entries, mode, hdirectory⟩ := Node.exists_directory_dropLast hm.root_isDirectory hn
        exact ⟨_, hplace ▸ hdirectory, rfl⟩
      · exact h.free horigin init hinit
    · exact h.parent

end Machine

namespace Resolver

variable {m : Machine} {r r' : Resolver} {p : Path}

/-! ### Steps of a resolution -/

/-- The steps of a resolution in which every name must be there. -/
inductive Steps (m : Machine) : Resolver → Resolver → Prop
  /-- The target of a link is done. -/
  | back {path : Path} {link : String} {names : List Text} {following : List (String × List Text)}
      {known : List (String × Path)} :
      Steps m ⟨path, [], (link, names) :: following, known⟩ ⟨path, names, following, (link, path) :: known⟩
  /-- A part that leads nowhere. -/
  | stay {path : Path} {part : Text} {names : List Text} {following : List (String × List Text)}
      {known : List (String × Path)} :
      isStep part = false → Steps m ⟨path, part :: names, following, known⟩ ⟨path, names, following, known⟩
  /-- The name of the directory above. -/
  | up {path : Path} {names : List Text} {following : List (String × List Text)} {known : List (String × Path)} :
      Steps m ⟨path, dotDot :: names, following, known⟩ ⟨up path, names, following, known⟩
  /-- The name of a node that is no link. -/
  | down {path : Path} {part : Text} {names : List Text} {following : List (String × List Text)}
      {known : List (String × Path)} {n : Node} :
      isStep part = true → part ≠ dotDot → m.status (path.child part).text false = .ok n → n.isLink = false →
        Steps m ⟨path, part :: names, following, known⟩ ⟨path.child part, names, following, known⟩
  /-- The name of a link that has been followed before. -/
  | again {path place : Path} {part target : Text} {link : String} {names : List Text}
      {following : List (String × List Text)} {known : List (String × Path)} :
      isStep part = true → part ≠ dotDot → m.status (path.child part).text false = .ok (.link target) →
        (link, place) ∈ known → Steps m ⟨path, part :: names, following, known⟩ ⟨place, names, following, known⟩
  /-- The name of a link that is followed now. -/
  | enter {path : Path} {part target : Text} {link : String} {names : List Text}
      {following : List (String × List Text)} {known : List (String × Path)} :
      isStep part = true → part ≠ dotDot → m.status (path.child part).text false = .ok (.link target) →
        Steps m ⟨path, part :: names, following, known⟩
          ⟨if Machine.startsAtRoot target then ⟨.root, []⟩ else path, pieces '/' target, (link, names) :: following, known⟩

/-- A resolution takes one of its steps, is done, or fails. -/
theorem step_spec (m : Machine) (r : Resolver) : match step m true r with
    | .done path => r.names = [] ∧ r.path = path
    | .failed _ => True
    | .next r' => Steps m r r' := by
  generalize h : step m true r = progress
  obtain ⟨path, names, following, known⟩ := r
  cases names with
  | nil =>
    cases following with
    | nil => exact h ▸ ⟨rfl, rfl⟩
    | cons e following => exact h ▸ .back
  | cons part names =>
    unfold step at h
    dsimp only at h
    split at h
    · rename_i hstep
      exact h ▸ .stay (by simpa using hstep)
    rename_i hstep
    replace hstep : isStep part = true := by simpa using hstep
    split at h
    · rename_i hdotDot
      exact h ▸ hdotDot ▸ .up
    rename_i hdotDot
    split at h
    · exact h ▸ trivial
    · -- A name that is not there ends the resolution.
      simp only [Bool.not_true, Bool.false_eq_true, if_false] at h
      split at h <;> exact h ▸ trivial
    · rename_i target hstatus
      split at h
      · rename_i link place hfind
        exact h ▸ .again hstep hdotDot hstatus (List.mem_of_find?_eq_some hfind)
      · split at h
        · exact h ▸ trivial
        · split at h
          · exact h ▸ trivial
          · exact h ▸ .enter hstep hdotDot hstatus
    · rename_i n hlink hstatus
      refine h ▸ .down hstep hdotDot hstatus ?_
      cases n with
      | link target => exact absurd rfl (hlink target)
      | _ => rfl

theorem steps_of_step_eq_next (h : step m true r = .next r') : Steps m r r' := by
  have hspec := step_spec m r
  rwa [h] at hspec

/-- A resolution is done when no name is left. -/
theorem done_of_step_eq_done (h : step m true r = .done p) : r.names = [] ∧ r.path = p := by
  have hspec := step_spec m r
  rwa [h] at hspec

/-! ### What a resolution keeps -/

/-- All that a resolution has found out are paths without links, and all that is left to be done are names. -/
structure Sound (m : Machine) (r : Resolver) : Prop where
  path : m.Settled r.path
  known : ∀ e ∈ r.known, m.Settled e.2
  names : ∀ name ∈ r.names, '/' ∉ name
  following : ∀ e ∈ r.following, ∀ name ∈ e.2, '/' ∉ name

theorem isPart_of_isStep {part : Text} (h : isStep part = true) (hslash : '/' ∉ part) : Path.IsPart part := by
  simp only [isStep, Bool.and_eq_true, Bool.not_eq_true', List.isEmpty_eq_false_iff, decide_eq_true_eq] at h
  exact ⟨h.1, h.2, hslash⟩

theorem settled_start (hm : m.WellFormed) (p : Path) : m.Settled (start p).path := by
  unfold start
  cases p.isAbsolute
  · exact Machine.settled_of_parts_eq_nil hm (by simp) rfl
  · exact Machine.settled_of_parts_eq_nil hm (by simp) rfl

theorem sound_start (hm : m.WellFormed) (hp : p.IsRead) : Sound m (start p) where
  path := settled_start hm p
  known := by simp [start]
  names name hname := (hp name hname).slash_notMem
  following := by simp [start]

theorem Sound.of_steps (h : Sound m r) (hm : m.WellFormed) (hsteps : Steps m r r') : Sound m r' := by
  obtain ⟨hpath, hknown, hnames, hfollowing⟩ := h
  cases hsteps with
  | back =>
    obtain ⟨hfirst, hrest⟩ := List.forall_mem_cons.1 hfollowing
    exact ⟨hpath, List.forall_mem_cons.2 ⟨hpath, hknown⟩, hfirst, hrest⟩
  | stay => exact ⟨hpath, hknown, (List.forall_mem_cons.1 hnames).2, hfollowing⟩
  | up => exact ⟨hpath.up hm, hknown, (List.forall_mem_cons.1 hnames).2, hfollowing⟩
  | down hstep hdotDot hstatus hn =>
    obtain ⟨hpart, hrest⟩ := List.forall_mem_cons.1 hnames
    exact ⟨hpath.child (isPart_of_isStep hstep hpart) hdotDot hstatus hn, hknown, hrest, hfollowing⟩
  | again _ _ _ hmem => exact ⟨hknown _ hmem, hknown, (List.forall_mem_cons.1 hnames).2, hfollowing⟩
  | enter =>
    -- The target is written from the root or from the directory of the link, and has no name with a slash.
    refine ⟨?_, hknown, fun name => not_mem_of_mem_pieces, List.forall_mem_cons.2
      ⟨(List.forall_mem_cons.1 hnames).2, hfollowing⟩⟩
    split
    · exact Machine.settled_of_parts_eq_nil hm (by simp) rfl
    · exact hpath

/-- What every step keeps holds where a resolution comes to an end. -/
theorem exists_of_run_eq_ok {fuel : Nat} {holds : Resolver → Prop}
    (hstep : ∀ r r', holds r → Steps m r r' → holds r') (h : holds r) (hrun : run m true fuel r = .ok p) :
    ∃ r', holds r' ∧ r'.path = p := by
  induction fuel generalizing r with
  | zero => cases hrun
  | succ fuel ih =>
    rw [run] at hrun
    split at hrun
    · rename_i path hdone
      obtain rfl := Except.ok.inj hrun
      exact ⟨r, h, (done_of_step_eq_done hdone).2⟩
    · cases hrun
    · rename_i next hnext
      exact ih (hstep _ _ h (steps_of_step_eq_next hnext)) hrun

/-- What a resolution comes to is a path without links. -/
theorem settled_of_run_eq_ok {fuel : Nat} (hm : m.WellFormed) (h : Sound m r) (hrun : run m true fuel r = .ok p) :
    m.Settled p := by
  obtain ⟨r', h', rfl⟩ := exists_of_run_eq_ok (fun _ _ h => h.of_steps hm) h hrun
  exact h'.path

end Resolver

namespace Machine

variable {m : Machine} {p q : Path}

/-- A path that has been resolved starts at the root and leads, name by name, to what is no link. -/
theorem get?_of_resolveStrict_eq_ok (hm : m.WellFormed) (hp : p.IsRead) (h : m.resolveStrict p = .ok q) :
    q.anchor = .root ∧ ∃ n, m.root.get? q.parts = some n ∧ n.isLink = false := by
  unfold resolveStrict Resolver.resolve at h
  cases hrun : Resolver.run m true (Resolver.fuel m p.parts.length) (Resolver.start p) with
  | error e => simp [hrun, Except.bind, bind] at h
  | ok resolved =>
    have hsettled := Resolver.settled_of_run_eq_ok hm (Resolver.sound_start hm hp) hrun
    replace h : m.absolute resolved = .ok q := by
      cases habsolute : m.absolute resolved with
      | error e => simp [hrun, habsolute, bind, Except.bind, Except.mapError] at h
      | ok q' => simpa [hrun, habsolute, bind, Except.bind, Except.mapError] using h
    obtain ⟨horigin, rfl⟩ := absolute_eq_ok hm hsettled.isRead h
    refine ⟨?_, hsettled.free horigin _ (List.prefix_refl _)⟩
    -- A path that starts at the root does so with one slash.
    have hanchor := hsettled.anchor_ne
    unfold Path.isAbsolute
    cases hcase : resolved.anchor <;> simp_all

end Machine
end CodeSnippets
