import CodeSnippets.Proofs.Lookup

/-!
# The directory above the last name of a path

A path whose last name does not name the directory above leads to a place in the directory to which the path before it
leads, whether that one is taken as it is written or from the root.

* `follow_parts_of_steps`, `follow_steps_of_parts`: a path without parts stands for the place where it starts.
* `follow_parts_of_absolute`: the path from the root leads where the path does.
* `status_of_parent`: what there is at a path, in terms of the directory above its last name.
-/

namespace CodeSnippets

open Text

namespace Path

variable {p : Path}

theorem parts_eq_parent_append (h : p.parts ≠ []) : p.parts = p.parent.parts ++ [p.name] := by
  obtain ⟨init, part, hconcat⟩ := (List.eq_nil_or_concat p.parts).resolve_left h
  simp [parent, name, hconcat]

theorem name_mem_parts (h : p.parts ≠ []) : p.name ∈ p.parts := by
  rw [parts_eq_parent_append h]
  simp

theorem parent_parts_subset (p : Path) : p.parent.parts ⊆ p.parts := List.dropLast_subset _

theorem IsRead.parent (h : p.IsRead) : p.parent.IsRead := fun part hpart => h part (parent_parts_subset p hpart)

end Path

namespace Machine

section Steps

variable {root : Node} {followLast : Bool} {links : Nat} {here place : Location} {name : Text} {rest : List Text} {p : Path}

theorem walk_of_stays {w : Walk} (hname : name = [] ∨ name = dot) (h : walk root followLast here (name :: rest) = .ok w) :
    walk root followLast here rest = .ok w := by
  cases walks_of_walk_eq h with
  | slash _ hrest => exact hrest.walk_eq
  | stay _ hrest => exact hrest.walk_eq
  | up => simp [dotDot, dot] at hname
  | down hfinds _ _ => exact (hname.elim hfinds.ne_nil hfinds.ne_dot).elim
  | last hfinds _ => exact (hname.elim hfinds.ne_nil hfinds.ne_dot).elim
  | meet hfinds _ => exact (hname.elim hfinds.ne_nil hfinds.ne_dot).elim

theorem follow_parts_of_steps (h : follow root followLast links here p.steps = .ok place) :
    follow root followLast links here p.parts = .ok place := by
  unfold Path.steps at h
  split at h
  · rename_i hparts
    obtain ⟨w, hw⟩ := walk_of_follow_eq_ok h
    have hstays : (if p.isAbsolute then [] else dot) = [] ∨ (if p.isAbsolute then [] else dot) = dot := by
      cases p.isAbsolute <;> simp
    rw [hparts, ← h]
    exact follow_congr ((walk_of_stays hstays hw).trans hw.symm)
  · exact h

theorem follow_steps_of_parts (hsearch : root.Searchable place)
    (h : follow root followLast links here p.parts = .ok place) :
    follow root followLast links here p.steps = .ok place := by
  unfold Path.steps
  split
  · rename_i hparts
    rw [hparts, follow_of_arrived rfl] at h
    obtain rfl := Except.ok.inj h
    apply follow_of_arrived
    cases p.isAbsolute with
    | false => exact walk_dot_cons hsearch
    | true =>
      obtain ⟨entries, mode, hdirectory, -⟩ := hsearch
      exact walk_nil_cons hdirectory
  · exact h

end Steps

variable {m : Machine} {p directory : Path} {place : Location}

/-- The path from the root leads where the path does, if no name of the directory above is worked out on the way. -/
theorem follow_parts_of_absolute (hm : m.WellFormed) (hp : p.IsRead) (hup : dotDot ∉ p.parts)
    (habsolute : m.absolute p = .ok directory) (hlocate : m.locate directory.text true = .ok { location := place }) :
    m.HasOrigin p ∧ follow m.root true maxLinks (m.origin p) p.parts = .ok place := by
  obtain ⟨horigin, rfl⟩ := absolute_eq_ok hm hp habsolute
  rw [Location.along_eq_append _ hp hup] at hlocate
  obtain ⟨entries, mode, hdirectory⟩ := hm.exists_origin horigin
  have hread : Path.IsRead ⟨if p.isAbsolute then p.anchor else .root, m.origin p ++ p.parts⟩ := by
    intro part hpart
    rcases List.mem_append.1 hpart with hname | hpart
    · exact (isPart_of_isName (Node.isName_of_get? hm.hasNames hdirectory part hname)).1
    · exact hp part hpart
  have hroot : Path.isAbsolute ⟨if p.isAbsolute then p.anchor else .root, m.origin p ++ p.parts⟩ = true := by
    cases h : p.isAbsolute with
    | false => rfl
    | true => exact h
  obtain ⟨-, location, hfollow, heq⟩ := (locate_eq_ok_iff hread (.inl hroot)).1 hlocate
  obtain rfl : place = location := congrArg Position.location heq
  rw [origin, if_pos hroot] at hfollow
  exact ⟨horigin, (follow_append_of_get? hm.hasNames hdirectory rfl (follow_parts_of_steps hfollow)).2⟩

/-- What there is at a path is what there is in the directory above its last name. -/
theorem status_of_parent (hp : p.IsRead) (horigin : m.HasOrigin p) (hne : p.parts ≠ []) (hup : p.name ≠ dotDot)
    (htakes : Takes p) (hfollow : follow m.root true maxLinks (m.origin p) p.parent.parts = .ok place)
    (hsearch : m.root.Searchable place) :
    m.status p.text false =
      if maxNameSize < Utf8.size p.name then .error (.system .nameTooLong)
      else match m.root.get? (place ++ [p.name]) with
        | some n => .ok n
        | none => .error (.system .noEntry) := by
  have hsteps : p.steps = p.parent.parts ++ [p.name] := by
    rw [Path.steps_eq_parts hne, ← Path.parts_eq_parent_append hne]
  obtain ⟨left, hleft⟩ := follow_append hfollow (List.cons_ne_nil p.name [])
  have hlast : follow m.root false left place [p.name] = _ :=
    follow_singleton hsearch (hp _ (Path.name_mem_parts hne)) hup
  rw [status, locate_text hp horigin, if_neg (by simpa using htakes.1), if_neg (Nat.not_lt.2 htakes.2), hsteps, hleft,
    hlast]
  by_cases hsize : maxNameSize < Utf8.size p.name
  · simp [hsize, bind, Except.bind]
  · cases hn : m.root.get? (place ++ [p.name]) with
    | none => simp [hsize, bind, Except.bind]
    | some n => simp [hsize, bind, Except.bind, nodeAt?, hn]

theorem takes_of_parts_eq_nil (h : p.parts = []) : Takes p := by
  obtain ⟨anchor, parts⟩ := p
  obtain rfl : parts = [] := h
  cases anchor <;> exact ⟨by decide, by decide⟩

/-- The last name of a path is looked up in a directory. -/
structure LooksIn (m : Machine) (p : Path) (place : Location) : Prop where
  isRead : p.IsRead
  name_ne : p.name ≠ dotDot
  hasOrigin : m.HasOrigin p
  parts_ne_nil : p.parts ≠ []
  takes : Takes p
  size_le : Utf8.size p.name ≤ maxNameSize
  follow : follow m.root true maxLinks (m.origin p) p.parent.parts = .ok place
  searchable : m.root.Searchable place

theorem LooksIn.status_eq (h : m.LooksIn p place) :
    m.status p.text false = match m.root.get? (place ++ [p.name]) with
      | some n => .ok n
      | none => .error (.system .noEntry) := by
  rw [status_of_parent h.isRead h.hasOrigin h.parts_ne_nil h.name_ne h.takes h.follow h.searchable,
    if_neg (Nat.not_lt.2 h.size_le)]

/-- A path is looked up in the same place in every tree that has the same directories and links. -/
theorem LooksIn.of_keeps {root : Node} (h : m.LooksIn p place) (hkeeps : m.root.Keeps root) :
    LooksIn { m with root } p place :=
  { h with follow := follow_of_keeps hkeeps h.follow, searchable := h.searchable.of_keeps hkeeps }

theorem LooksIn.locate_parent (h : m.LooksIn p place) : m.locate p.parent.text true = .ok { location := place } := by
  have htakes : Takes p.parent := by
    by_cases hnil : p.parent.parts = []
    · exact takes_of_parts_eq_nil hnil
    · exact h.takes.of_prefix (List.dropLast_prefix _) (.inl hnil)
  exact (locate_eq_ok_iff h.isRead.parent h.hasOrigin).2
    ⟨htakes, place, follow_steps_of_parts h.searchable h.follow, rfl⟩

/-- A path that is known not to be a link, for which the system has to be asked, is looked up in the directory to which
the path before its last name leads. -/
theorem looksIn_of_isLink_eq_ok_false (hm : m.WellFormed) (hp : p.IsRead) (hup : dotDot ∉ p.parts)
    (hnull : '\x00' ∉ p.text) (hlink : m.isLink p = .ok false)
    (hregular : ∀ n, m.status p.text false = .ok n → n.isRegular = true)
    (habsolute : m.absolute p.parent = .ok directory) (hlocate : m.locate directory.text true = .ok { location := place })
    (hsearch : m.root.Searchable place) : m.LooksIn p place := by
  obtain ⟨horigin, hfollow⟩ := follow_parts_of_absolute hm hp.parent
    (fun hmem => hup (Path.parent_parts_subset p hmem)) habsolute hlocate
  replace horigin : m.HasOrigin p := horigin
  replace hfollow : follow m.root true maxLinks (m.origin p) p.parent.parts = .ok place := hfollow
  -- An error that does not mean that there is nothing would have been an answer to the question about a link.
  have hanswer {errno : Errno} (herror : m.status p.text false = .error (.system errno)) : errno.meansAbsent = true := by
    rcases probe_any_eq_ok_false_iff.1 hlink with h | ⟨errno', h, habsent⟩ | ⟨n, h, -⟩
    · simp [herror] at h
    · obtain rfl : errno = errno' := by simpa [herror] using h
      exact habsent
    · simp [herror] at h
  have htakes : Takes p := by
    refine ⟨hnull, Nat.not_lt.1 fun hsize => ?_⟩
    have herror : m.status p.text false = .error (.system .nameTooLong) := by
      rw [status, locate_text hp horigin, if_neg (by simpa using hnull), if_pos hsize]
      rfl
    cases hanswer herror
  have hne : p.parts ≠ [] := by
    intro hnil
    -- The path stands for the directory where it starts.
    have hparent : p.parent.parts = [] := by simp [Path.parent, hnil]
    rw [hparent, follow_of_arrived rfl] at hfollow
    obtain rfl := Except.ok.inj hfollow
    have hplace : follow m.root false maxLinks (m.origin p) p.parts = .ok (m.origin p) := by
      rw [hnil, follow_of_arrived rfl]
    obtain ⟨entries, mode, hdirectory, -⟩ := id hsearch
    have := hregular _ ((status_eq_ok_iff hp horigin).2
      ⟨htakes, _, follow_steps_of_parts hsearch hplace, hdirectory⟩)
    cases this
  have hname : p.name ≠ dotDot := fun heq => hup (heq ▸ Path.name_mem_parts hne)
  refine ⟨hp, hname, horigin, hne, htakes, Nat.not_lt.1 fun hsize => ?_, hfollow, hsearch⟩
  cases hanswer ((status_of_parent hp horigin hne hname htakes hfollow hsearch).trans (if_pos hsize))

end Machine
end CodeSnippets
