import CodeSnippets.Proofs.Containment
import Mathlib.Logic.Relation

/-!
# Links on the way of a path

Before a path is resolved, every part of it is looked at to see that none is a link. The system is asked for this, and
it follows the path as it is written, while a resolution takes away the name before a name for the directory above
without asking. The two agree as long as the system can look past such names.

* `FollowsLink`: the resolution of a path follows a link.
* `Tracks`, `Tracks.of_steps`: a resolution that has met no link is where the system is.
* `admit_eq_throughLink`: a path whose resolution follows a link is refused.
* `not_forall_followsLink_refused`: not so if a name for the directory above stands behind a file.
-/

namespace CodeSnippets

open Text

namespace Machine

/-- The resolution of a path, in which every name must be there, comes to follow a link. -/
def FollowsLink (m : Machine) (p : Path) : Prop :=
  ∃ r, Relation.ReflTransGen (fun r r' => Resolver.step m true r = .next r') (Resolver.start p) r ∧ r.following ≠ []

/-- The system can look at the parts of a path that name the directory above, as far as no link is before them. -/
def SeesAbove (m : Machine) (p : Path) : Prop :=
  ∀ q ∈ p.selfAndParents, q.name = dotDot → m.passesLink q = false → ∃ n, m.status q.text false = .ok n

theorem passesLink_eq_true_iff {m : Machine} {p : Path} : m.passesLink p = true ↔
    ∃ q ∈ p.selfAndParents, ∃ n, m.status q.text false = .ok n ∧ n.isLink = true := by
  rw [passesLink, List.any_eq_true]
  refine exists_congr fun q => and_congr_right fun _ => ?_
  cases m.status q.text false <;> simp

theorem passesLink_of_mem {m : Machine} {p q : Path} (hq : q ∈ p.selfAndParents) (h : m.passesLink q = true) :
    m.passesLink p = true := by
  obtain ⟨parts, hparts, rfl⟩ := Path.mem_selfAndParents.1 hq
  obtain ⟨x, hx, n, hstatus, hn⟩ := passesLink_eq_true_iff.1 h
  obtain ⟨parts', hparts', rfl⟩ := Path.mem_selfAndParents.1 hx
  exact passesLink_eq_true_iff.2 ⟨_, Path.mem_selfAndParents.2 ⟨parts', hparts'.trans hparts, rfl⟩, n, hstatus, hn⟩

end Machine

namespace Resolver

variable {m : Machine} {p : Path} {r r' : Resolver}

theorem isAbsolute_up (p : Path) : (up p).isAbsolute = p.isAbsolute := by
  unfold up
  split
  · rfl
  · split <;> rfl

/-- A resolution has met no link yet, and the names that are done lead the system to the same place. -/
structure Tracks (m : Machine) (p : Path) (r : Resolver) (done : List Text) : Prop where
  following : r.following = []
  known : r.known = []
  settled : m.Settled r.path
  isAbsolute : r.path.isAbsolute = p.isAbsolute
  parts : done ++ r.names = p.parts
  noNull : ∀ part ∈ done, '\x00' ∉ part
  walk : Machine.walk m.root true (m.origin p) done = .ok (.arrived ((m.origin p).along done))
  along : (m.origin p).along r.path.parts = (m.origin p).along done

theorem tracks_start (hm : m.WellFormed) (p : Path) : Tracks m p (start p) [] where
  following := rfl
  known := rfl
  settled := settled_start hm p
  isAbsolute := by
    unfold start
    cases p.isAbsolute <;> rfl
  parts := rfl
  noNull := by simp
  walk := rfl
  along := by
    unfold start
    cases p.isAbsolute <;> rfl

section Tracks

variable {done : List Text} {part : Text} {n : Node}

theorem Tracks.origin_eq (h : Tracks m p r done) : m.origin r.path = m.origin p := by
  rw [Machine.origin, h.isAbsolute, ← Machine.origin]

theorem Tracks.hasOrigin (h : Tracks m p r done) (horigin : m.HasOrigin p) : m.HasOrigin r.path := by
  rwa [Machine.HasOrigin, h.isAbsolute]

/-- What a resolution finds under a name, the system finds in the directory to which the names that are done lead. -/
theorem Tracks.finds (h : Tracks m p r done) (horigin : m.HasOrigin p) (hpart : Path.IsPart part)
    (hdotDot : part ≠ dotDot) (hstatus : m.status (r.path.child part).text false = .ok n) :
    m.root.Finds ((m.origin p).along done) part n := by
  have hfinds := h.settled.finds (h.hasOrigin horigin) hpart hdotDot hstatus
  rwa [h.origin_eq, h.along] at hfinds

theorem Tracks.null_notMem (h : Tracks m p r done) (horigin : m.HasOrigin p) (hpart : Path.IsPart part)
    (hstatus : m.status (r.path.child part).text false = .ok n) : '\x00' ∉ part := by
  obtain ⟨htakes, -⟩ := (Machine.status_eq_ok_iff (h.settled.isRead.child hpart) (h.hasOrigin horigin)).1 hstatus
  have hmem : part ∈ (r.path.child part).parts := by simp [Path.child]
  exact fun hnull => htakes.1 (Path.mem_text_of_mem_parts hmem hnull)

/-- The system can search the directory to which the names that are done lead if it can look at the one above. -/
theorem Tracks.searchable (h : Tracks m p r done) (hp : p.IsRead) (horigin : m.HasOrigin p) (hsees : m.SeesAbove p)
    (hlink : m.passesLink p = false) (hnext : done ++ [dotDot] <+: p.parts) :
    m.root.Searchable ((m.origin p).along done) := by
  have hmem : { p with parts := done ++ [dotDot] } ∈ p.selfAndParents := Path.mem_selfAndParents.2 ⟨_, hnext, rfl⟩
  have hbefore : m.passesLink { p with parts := done ++ [dotDot] } = false := by
    rw [Bool.eq_false_iff]
    intro hpasses
    simp [Machine.passesLink_of_mem hmem hpasses] at hlink
  obtain ⟨n, hn⟩ := hsees _ hmem (by simp [Path.name]) hbefore
  obtain ⟨-, location, hfollow, -⟩ := (Machine.status_eq_ok_iff (hp.of_prefix hnext) horigin).1 hn
  have hsteps : Path.steps { p with parts := done ++ [dotDot] } = done ++ [dotDot] := Path.steps_eq_parts (by simp)
  obtain ⟨w, hw⟩ := Machine.walk_of_follow_eq_ok hfollow
  replace hw : Machine.walk m.root false (m.origin p) (done ++ [dotDot]) = .ok w := hsteps ▸ hw
  rw [Machine.walk_append_of_arrived h.walk] at hw
  exact Machine.searchable_of_walk_dotDot hw

/-- The system finds a node at the path of the names that are done and the name of the node. -/
theorem Tracks.status_eq (h : Tracks m p r done) (hp : p.IsRead) (horigin : m.HasOrigin p)
    (hsize : Utf8.size p.text ≤ Machine.maxPathSize) (hnext : done ++ [part] <+: p.parts) (hnull : '\x00' ∉ part)
    (hfinds : m.root.Finds ((m.origin p).along done) part n) :
    m.status (Path.text { p with parts := done ++ [part] }) false = .ok n := by
  refine (Machine.status_eq_ok_iff (hp.of_prefix hnext) horigin).2 ⟨⟨fun hmem => ?_, ?_⟩, _, ?_, hfinds.get?⟩
  · -- No name that is done holds a null character, and neither does the next one.
    obtain ⟨part', hpart', hmem⟩ := Path.exists_part_of_mem_text hmem (by decide) (by decide)
    rcases List.mem_append.1 hpart' with hdone | hlast
    · exact h.noNull part' hdone hmem
    · exact hnull (List.mem_singleton.1 hlast ▸ hmem)
  · -- The path that is given goes on from here.
    exact Nat.le_trans (Utf8.size_le_of_prefix (Path.text_prefix_text hnext (.inl (by simp)))) hsize
  · have hsteps : Path.steps { p with parts := done ++ [part] } = done ++ [part] := Path.steps_eq_parts (by simp)
    rw [hsteps]
    exact (Machine.follow_congr (Machine.walk_append_of_arrived h.walk [part])).trans
      (Machine.follow_singleton_of_finds hfinds)

/-- A name leads the system to where the path leads that a resolution has come to. -/
theorem Tracks.advance {names : List Text} (h : Tracks m p r done) (hnames : r.names = part :: names) {path : Path}
    (hsettled : m.Settled path) (habsolute : path.isAbsolute = p.isAbsolute) (hnull : '\x00' ∉ part)
    (hwalk : Machine.walk m.root true ((m.origin p).along done) [part] =
      .ok (.arrived (((m.origin p).along done).move part)))
    (halong : (m.origin p).along path.parts = ((m.origin p).along done).move part) :
    Tracks m p { r with path, names } (done ++ [part]) where
  following := h.following
  known := h.known
  settled := hsettled
  isAbsolute := habsolute
  parts := by simp [← h.parts, hnames]
  noNull part' hpart' :=
    (List.mem_append.1 hpart').elim (h.noNull part') fun hlast => List.mem_singleton.1 hlast ▸ hnull
  walk := by rw [Machine.walk_append_of_arrived h.walk, hwalk, Location.along_append_singleton]
  along := by rw [halong, Location.along_append_singleton]

end Tracks

/-- As long as no link is met, a step of a resolution keeps it where the system is. -/
theorem Tracks.of_steps {done : List Text} (h : Tracks m p r done) (hm : m.WellFormed) (hp : p.IsRead)
    (horigin : m.HasOrigin p) (hsize : Utf8.size p.text ≤ Machine.maxPathSize) (hsees : m.SeesAbove p)
    (hlink : m.passesLink p = false) (hsteps : Steps m r r') : ∃ done, Tracks m p r' done := by
  cases hsteps with
  | back => cases h.following
  | again _ _ _ hmem =>
    obtain rfl := h.known
    cases hmem
  | @stay _ part _ _ _ hstep =>
    -- No part of a path that has been read is empty or stands for the directory itself.
    have hpart := hp part (by simp [← h.parts])
    simp [isStep, hpart.ne_nil, hpart.ne_dot] at hstep
  | @up path names following known =>
    -- The system goes up as well, since it can look past the name.
    have hsearch := h.searchable hp horigin hsees hlink ⟨names, by simp [← h.parts]⟩
    have hup := h.settled.along_up
    rw [h.origin_eq, h.along] at hup
    refine ⟨_, h.advance rfl (h.settled.up hm) ((isAbsolute_up path).trans h.isAbsolute) (by decide) ?_ ?_⟩
    · rw [Machine.walk_dotDot_cons hsearch, Location.move_dotDot]
      rfl
    · rw [hup, Location.move_dotDot]
  | @down path part names following known n hstep hdotDot hstatus hn =>
    -- The system goes down to the same node.
    have hpart := hp part (by simp [← h.parts])
    have hfinds := h.finds horigin hpart hdotDot hstatus
    have hmove (here : Location) := Location.move_name here hpart.ne_nil hpart.ne_dot hdotDot
    refine ⟨_, h.advance rfl (h.settled.child hpart hdotDot hstatus hn) h.isAbsolute
      (h.null_notMem horigin hpart hstatus) ?_ ?_⟩
    · rw [Machine.walk_cons_of_not_link hfinds hn, hmove]
      rfl
    · rw [← h.along]
      exact Location.along_append_singleton _ _ _
  | @enter path part target link names following known hstep hdotDot hstatus =>
    -- The system would have met the link as well.
    have hnext : done ++ [part] <+: p.parts := ⟨names, by simp [← h.parts]⟩
    have hpart := hp part (hnext.subset (by simp))
    have hfound := h.status_eq hp horigin hsize hnext (h.null_notMem horigin hpart hstatus)
      (h.finds horigin hpart hdotDot hstatus)
    have hpasses : m.passesLink p = true := Machine.passesLink_eq_true_iff.2
      ⟨_, Path.mem_selfAndParents.2 ⟨_, hnext, rfl⟩, _, hfound, rfl⟩
    simp [hlink] at hpasses

/-- A resolution is where the system is for as long as it goes on, so that it follows no link. -/
theorem Tracks.of_reflTransGen (hm : m.WellFormed) (hp : p.IsRead)
    (horigin : m.HasOrigin p) (hsize : Utf8.size p.text ≤ Machine.maxPathSize) (hsees : m.SeesAbove p)
    (hlink : m.passesLink p = false)
    (h : Relation.ReflTransGen (fun r r' => step m true r = .next r') (start p) r) : ∃ done, Tracks m p r done := by
  induction h with
  | refl => exact ⟨[], tracks_start hm p⟩
  | tail _ hstep ih =>
    obtain ⟨done, htracks⟩ := ih
    exact htracks.of_steps hm hp horigin hsize hsees hlink (steps_of_step_eq_next hstep)

end Resolver

namespace Machine

variable {m : Machine} {raw : Text} {p : Path}

theorem passesLink_of_followsLink (hm : m.WellFormed) (hp : p.IsRead) (horigin : m.HasOrigin p)
    (hsize : Utf8.size p.text ≤ maxPathSize) (hsees : m.SeesAbove p) (h : m.FollowsLink p) : m.passesLink p = true := by
  obtain ⟨r, hreach, hfollowing⟩ := h
  rw [← Bool.not_eq_false]
  intro hlink
  obtain ⟨done, htracks⟩ := Resolver.Tracks.of_reflTransGen hm hp horigin hsize hsees hlink hreach
  exact hfollowing htracks.following

theorem admitPath_of_passesLink (hhome : m.expandHome (.ofText raw) = .ok p) (h : m.passesLink p = true) (base : Path) :
    m.admitPath raw base = .error (.throughLink p) := by
  simp [admitPath, hhome, h, Except.mapError, bind, Except.bind]

/-- A path whose resolution follows a link is refused, if the system takes its text and can look at those parts of it
that name the directory above. -/
theorem admit_eq_throughLink (hm : m.WellFormed) (hcwd : m.cwd.removed = 0)
    (hhome : m.expandHome (.ofText raw) = .ok p) (hsize : Utf8.size p.text ≤ maxPathSize) (hsees : m.SeesAbove p)
    (h : m.FollowsLink p) (base : Path) (extensions : List Text) :
    m.admitFile raw base extensions = .error (.throughLink p) ∧
      m.admitDirectory raw base = .error (.throughLink p) := by
  have hlink := passesLink_of_followsLink hm (Path.isRead_of_expandHome hhome) (.inr hcwd) hsize hsees h
  have hrefused := admitPath_of_passesLink hhome hlink base
  simp [admitFile, admitDirectory, hrefused, bind, Except.bind]

theorem sample_admit_eq_throughLink :
    sample.admitFile "../link/A.S".toList ⟨.root, []⟩ [".s".toList] =
        .error (.throughLink ⟨.relative, ["..".toList, "link".toList, "A.S".toList]⟩) ∧
      sample.admitDirectory "../link/A.S".toList ⟨.root, []⟩ =
        .error (.throughLink ⟨.relative, ["..".toList, "link".toList, "A.S".toList]⟩) := by
  have hsees : sample.SeesAbove ⟨.relative, ["..".toList, "link".toList, "A.S".toList]⟩ := by
    intro q hq hname _
    obtain ⟨i, hi, rfl⟩ := List.mem_map.1 hq
    -- Of the path and those before it only the third one ends in the name of the directory above.
    match i, hi with
    | 0, _ => exact absurd hname (by decide)
    | 1, _ => exact absurd hname (by decide)
    | 2, _ => exact ⟨_, rfl⟩
    | 3, _ => exact absurd hname (by decide)
    | i + 4, hi => exact absurd (List.mem_range.1 hi) (by simp)
  exact admit_eq_throughLink sample_wellFormed rfl rfl (by decide) hsees
    ⟨_, .tail (.tail .refl rfl) rfl, by decide⟩ _ _

/-- A file beside a directory, and a link to the directory. -/
def misleading : Machine where
  root := .directory
    [("a".toList, .file [] 0o644), ("src".toList, .directory [("A.S".toList, .file [] 0o644)] 0o755),
      ("link".toList, .link "src".toList)] 0o755

/-- Not every path whose resolution follows a link is refused. The system does not look past a file, while a resolution
takes the name of the file away and goes on. -/
theorem not_forall_followsLink_refused :
    ¬ ∀ (m : Machine) (raw : Text) (base p : Path) (extensions : List Text), m.WellFormed → m.cwd.removed = 0 →
      m.expandHome (.ofText raw) = .ok p → m.FollowsLink p →
        (∃ e, m.admitFile raw base extensions = .error e) ∧ ∃ e, m.admitDirectory raw base = .error e := by
  intro h
  have hfollows : misleading.FollowsLink (.ofText "a/../link/A.S".toList) :=
    ⟨_, .tail (.tail (.tail .refl rfl) rfl) rfl, by decide⟩
  obtain ⟨⟨e, he⟩, -⟩ := h misleading "a/../link/A.S".toList ⟨.root, []⟩ _ [".s".toList]
    ⟨rfl, by decide, fun _ => ⟨_, rfl, rfl⟩⟩ rfl rfl hfollows
  have hanswer : misleading.admitFile "a/../link/A.S".toList ⟨.root, []⟩ [".s".toList] =
      .ok ⟨.root, ["src".toList, "A.S".toList]⟩ := rfl
  rw [hanswer] at he
  cases he

end Machine
end CodeSnippets
