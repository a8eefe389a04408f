import CodeSnippets.Compiler.Run
import CodeSnippets.Proofs.LinkRefusal
import CodeSnippets.Proofs.ParentDirectory

/-!
# Faults of paths

A path that a user gives may come to a fault, which is no refusal of the path: there is no home directory for its tilde,
its links lead round in a loop where nobody has looked for links, or the system does not say what there is at the place
to which it leads.

* `status_eq_error`: the errors with which the system answers.
* `Settled.status_ne_tooManyLinks`, `resolveStrict_eq_error`: a resolution that meets no link comes to no loop.
* `status_of_resolveStrict`: what a path from the root is resolved to can be looked at.
* `LacksHome`, `expandHome_eq_error`: a tilde without a home directory.
* `AdmissionFault`: the faults to which the admission of a path comes.
* `NamingFault`, `findCompiler_eq_fault_iff`: those to which a path comes that is given for the compiler.
-/

namespace CodeSnippets

open Text

/-- The error says that there is no compiler. -/
def CompilerError.isAbsence : CompilerError → Bool
  | .missing _ _ | .notFound => true
  | _ => false

namespace Machine

variable {m : Machine} {root : Node} {here : Location} {names : List Text} {links : Nat} {followLast : Bool}
  {raw : Text} {p q : Path} {part : Text} {errno : Errno}

/-! ### Errors of the system -/

theorem walk_eq_error (h : walk root followLast here names = .error errno) :
    errno = .noEntry ∨ errno = .notDirectory ∨ errno = .denied ∨ errno = .nameTooLong := by
  induction names generalizing here with
  | nil => cases h
  | cons name rest ih =>
    rw [walk] at h
    split at h
    · -- A name leads on, or the walk ends with one of the errors.
      split at h
      · exact ih h
      split at h
      · obtain rfl := Except.error.inj h
        simp
      split at h
      · exact ih h
      split at h
      · exact ih h
      split at h
      · obtain rfl := Except.error.inj h
        simp
      split at h
      · obtain rfl := Except.error.inj h
        simp
      · split at h <;> cases h
      · exact ih h
    · obtain rfl := Except.error.inj h
      exact .inr (.inl rfl)

/-- Following links fails as a walk does, or for their number. -/
theorem follow_eq_error (h : follow root followLast links here names = .error errno) :
    errno.meansAbsent = true ∨ errno = .denied ∨ errno = .nameTooLong := by
  have hsorts {start : Location} {left : List Text} {e : Errno} (hwalk : walk root followLast start left = .error e) :
      e.meansAbsent = true ∨ e = .denied ∨ e = .nameTooLong := by
    rcases walk_eq_error hwalk with rfl | rfl | rfl | rfl <;> simp [Errno.meansAbsent]
  -- The induction is on the links that may still be followed.
  induction links generalizing here names with
  | zero =>
    rw [follow] at h
    split at h
    · rename_i hwalk
      obtain rfl := Except.error.inj h
      exact hsorts hwalk
    · cases h
    · obtain rfl := Except.error.inj h
      exact .inl rfl
  | succ links ih =>
    rw [follow] at h
    split at h
    · rename_i hwalk
      obtain rfl := Except.error.inj h
      exact hsorts hwalk
    · cases h
    · exact ih h

theorem leave_eq_error {position : Position} (h : position.leave names = .error errno) : errno = .noEntry := by
  induction names generalizing position with
  | nil => cases h
  | cons name rest ih =>
    rw [Position.leave] at h
    split_ifs at h
    · exact ih h
    · exact ih h
    · exact (Except.error.inj h).symm

/-- The system says that there is nothing at a path, or refuses to look. -/
theorem status_eq_error (h : m.status raw followLast = .error (.system errno)) :
    errno.meansAbsent = true ∨ errno = .denied ∨ errno = .nameTooLong := by
  unfold status at h
  rcases bind_eq_error_iff.1 h with hlocate | ⟨position, -, h⟩
  · unfold locate at hlocate
    split at hlocate
    · cases hlocate
    split at hlocate
    · cases hlocate
      exact .inl rfl
    split at hlocate
    · cases hlocate
      exact .inr (.inr rfl)
    split at hlocate
    · rename_i hleave
      cases hlocate
      rw [leave_eq_error hleave]
      exact .inl rfl
    · split at hlocate
      · split at hlocate
        · rename_i hfollow
          cases hlocate
          exact follow_eq_error hfollow
        · cases hlocate
      · cases hlocate
  · split at h
    · cases h
    · cases h
      exact .inl rfl

/-- The system does not say whether there is something of a kind at a path if it refuses to look there. -/
theorem probe_any_eq_error_iff {kind : Node → Bool} {e : SystemError} :
    (m.probe p followLast).map (·.any kind) = .error e ↔ ∃ errno, m.status p.text followLast = .error (.system errno) ∧
      (errno = .denied ∨ errno = .nameTooLong) ∧ e = { errno, path := p.text } := by
  rw [probe]
  cases hstatus : m.status p.text followLast with
  | ok n => simp [Except.map]
  | error e' =>
    cases e' with
    | nullCharacter => simp [Except.map]
    | system errno =>
      rcases status_eq_error hstatus with habsent | rfl | rfl
      · simp only [habsent, if_true, Except.map, reduceCtorEq, false_iff]
        rintro ⟨errno', heq, rfl | rfl, -⟩ <;> cases heq <;> cases habsent
      · simp [Except.map, Errno.meansAbsent, eq_comm]
      · simp [Except.map, Errno.meansAbsent, eq_comm]

/-! ### Resolutions that meet no link -/

theorem walk_singleton_ne_atLink {directory : Location} {target : Text} {rest : List Text} (hpart : Path.IsPart part)
    (hdotDot : part ≠ dotDot) : walk root false here [part] ≠ .ok (.atLink directory target rest) := by
  intro h
  cases walks_of_walk_eq h with
  | slash => exact absurd rfl hpart.ne_nil
  | stay => exact absurd rfl hpart.ne_dot
  | up => exact absurd rfl hdotDot
  | down _ _ hrest => cases hrest
  | meet _ hlast => simp at hlast

/-- On a path without links the system has no link to follow. -/
theorem Settled.status_ne_tooManyLinks (h : m.Settled p) (horigin : m.HasOrigin p) (hpart : Path.IsPart part)
    (hdotDot : part ≠ dotDot) : m.status (p.child part).text false ≠ .error (.system .tooManyLinks) := by
  intro hstatus
  have hfollow : follow m.root false maxLinks (m.origin p) (p.parts ++ [part]) = .error .tooManyLinks := by
    rcases bind_eq_error_iff.1 hstatus with hlocate | ⟨position, -, h⟩
    · rw [locate_text (h.isRead.child hpart) horigin] at hlocate
      split at hlocate
      · cases hlocate
      split at hlocate
      · cases hlocate
      split at hlocate
      · rename_i errno hfollow
        cases hlocate
        have hsteps : (p.child part).steps = p.parts ++ [part] := Path.steps_eq_parts (by simp [Path.child])
        exact hsteps ▸ hfollow
      · cases hlocate
    · split at h <;> cases h
  rw [follow] at hfollow
  split at hfollow
  · rename_i hwalk
    cases hfollow
    simpa using walk_eq_error hwalk
  · cases hfollow
  · -- The names of the path lead past no link, and the last name is not followed.
    rename_i directory target rest hwalk
    have harrived := walk_along hwalk fun init hinit n hn => by
      obtain ⟨x, hx, hlink⟩ := h.free horigin init hinit
      exact Option.some.inj (hx.symm.trans hn) ▸ hlink
    rw [walk_append_of_arrived harrived] at hwalk
    exact walk_singleton_ne_atLink hpart hdotDot hwalk

end Machine

namespace Resolver

variable {m : Machine} {p q : Path} {r r' : Resolver} {e : ResolutionError} {done : List Text}

/-- Why a step fails with which no link is being followed. -/
theorem step_eq_failed (hfollowing : r.following = []) (h : step m true r = .failed e) :
    e = .nullCharacter ∨ (∃ s, e = .system s) ∨ ∃ part ∈ r.names, isStep part = true ∧ part ≠ dotDot ∧
      m.status (r.path.child part).text false = .error (.system .tooManyLinks) := by
  obtain ⟨path, names, following, known⟩ := r
  obtain rfl : following = [] := hfollowing
  cases names with
  | nil => cases h
  | cons part names =>
    unfold step at h
    dsimp only at h
    split at h
    · cases h
    rename_i hstep
    split at h
    · cases h
    rename_i hdotDot
    split at h
    · cases h
      exact .inl rfl
    · rename_i errno hstatus
      simp only [Bool.not_true, Bool.false_eq_true, if_false] at h
      split at h
      · rename_i hmany
        exact .inr (.inr ⟨part, List.mem_cons_self, by simpa using hstep, hdotDot, hmany ▸ hstatus⟩)
      · cases h
        exact .inr (.inl ⟨_, rfl⟩)
    · -- The first link that is met is neither known nor one too many.
      split at h
      · cases h
      · split at h
        · rename_i hknown
          simp at hknown
        · split at h
          · rename_i hlength
            simp [maxFollowing] at hlength
          · cases h
    · cases h

/-- A step that neither starts nor ends with a link being followed deals with one name. -/
theorem Steps.length_lt (h : Steps m r r') (hfollowing : r.following = []) (hfollowing' : r'.following = []) :
    r'.names.length < r.names.length := by
  cases h with
  | back => cases hfollowing
  | enter => cases hfollowing'
  | _ => exact Nat.lt_succ_self _

/-- A resolution that is where the system is for as long as it goes on comes to no loop of links. -/
theorem run_eq_error {fuel : Nat} (htracks : Tracks m p r done) (hm : m.WellFormed) (hp : p.IsRead)
    (horigin : m.HasOrigin p) (hsize : Utf8.size p.text ≤ Machine.maxPathSize) (hsees : m.SeesAbove p)
    (hlink : m.passesLink p = false) (hfuel : r.names.length < fuel) (h : run m true fuel r = .error e) :
    e = .nullCharacter ∨ ∃ s, e = .system s := by
  -- The invariant is that the names that are done lead the system to the same place, so that no link has been met;
  -- each step then takes a name away, and the fuel lasts.
  induction fuel generalizing r done with
  | zero => cases hfuel
  | succ fuel ih =>
    rw [run] at h
    split at h
    · cases h
    · rename_i e' hfailed
      obtain rfl := Except.error.inj h
      rcases step_eq_failed htracks.following hfailed with hnull | hsystem | ⟨part, hmem, hstep, hdotDot, hstatus⟩
      · exact .inl hnull
      · exact .inr hsystem
      · have hpart := hp part (by simp [← htracks.parts, hmem])
        exact absurd hstatus (htracks.settled.status_ne_tooManyLinks (htracks.hasOrigin horigin) hpart hdotDot)
    · rename_i next hnext
      have hsteps := steps_of_step_eq_next hnext
      obtain ⟨done', htracks'⟩ := htracks.of_steps hm hp horigin hsize hsees hlink hsteps
      have hless := hsteps.length_lt htracks.following htracks'.following
      exact ih htracks' (by omega) h

end Resolver

namespace Machine

variable {m : Machine} {raw : Text} {p q : Path} {e : ResolutionError}

/-- A path on which no link has been found is not refused for a loop of links, or for links one inside the other, as long
as the system can look past its names for the directory above. -/
theorem resolveStrict_eq_error (hm : m.WellFormed) (hp : p.IsRead) (horigin : m.HasOrigin p)
    (hsize : Utf8.size p.text ≤ maxPathSize) (hsees : m.SeesAbove p) (hlink : m.passesLink p = false)
    (h : m.resolveStrict p = .error e) : e = .nullCharacter ∨ ∃ s, e = .system s := by
  rcases bind_eq_error_iff.1 h with hrun | ⟨resolved, -, habsolute⟩
  · have hfuel : (Resolver.start p).names.length < Resolver.fuel m p.parts.length := by
      simp only [Resolver.start, Resolver.fuel]
      omega
    exact Resolver.run_eq_error (Resolver.tracks_start hm p) hm hp horigin hsize hsees hlink hfuel hrun
  · obtain ⟨s, -, rfl⟩ := mapError_eq_error_iff.1 habsolute
    exact .inr ⟨s, rfl⟩

/-! ### Paths that have been resolved -/

/-- A path without links from the root stands for the location of its parts. -/
theorem Settled.get?_parts (h : m.Settled p) (habsolute : p.isAbsolute = true) :
    ∃ n, m.root.get? p.parts = some n ∧ n.isLink = false := by
  obtain ⟨n, hn, hlink⟩ := h.free (.inl habsolute) p.parts (List.prefix_refl _)
  rw [origin, if_pos habsolute, Location.along_eq_append [] h.isRead (h.dotDot_notMem habsolute), List.nil_append] at hn
  exact ⟨n, hn, hlink⟩

/-- The system has been asked about the path, which starts at the root, and has found something. -/
def Shows (m : Machine) (p : Path) : Prop := p.isAbsolute = true ∧ ∃ n, m.status p.text true = .ok n

theorem shows_root (hm : m.WellFormed) : m.Shows ⟨.root, []⟩ := by
  refine ⟨rfl, m.root, (status_eq_ok_iff (by simp [Path.IsRead]) (.inl rfl)).2 ⟨takes_of_parts_eq_nil rfl, [], ?_, rfl⟩⟩
  exact (follow_congr (walk_steps hm rfl true)).trans (follow_of_arrived rfl)

theorem Shows.up (h : m.Shows p) (hm : m.WellFormed) (hsettled : m.Settled p) : m.Shows (Resolver.up p) := by
  obtain ⟨habsolute, x, hx⟩ := h
  obtain ⟨n, hn, hlink⟩ := hsettled.get?_parts habsolute
  obtain ⟨y, -, -, hy⟩ := status_of_prefix hm habsolute hn hlink hx (List.dropLast_prefix _)
  rw [Resolver.up, if_pos habsolute]
  exact ⟨habsolute, y, hy true⟩

end Machine

namespace Resolver

variable {m : Machine} {p q : Path} {r r' : Resolver}

/-- All that a resolution has found out are paths about which the system has been asked. -/
structure Asks (m : Machine) (r : Resolver) : Prop where
  sound : Sound m r
  path : m.Shows r.path
  known : ∀ e ∈ r.known, m.Shows e.2

theorem asks_start (hm : m.WellFormed) (hp : p.IsRead) (habsolute : p.isAbsolute = true) : Asks m (start p) where
  sound := sound_start hm hp
  path := by
    rw [start, habsolute, if_pos rfl]
    exact Machine.shows_root hm
  known := by simp [start]

theorem Asks.of_steps (h : Asks m r) (hm : m.WellFormed) (hsteps : Steps m r r') : Asks m r' := by
  have hsound := h.sound.of_steps hm hsteps
  cases hsteps with
  | back => exact ⟨hsound, h.path, List.forall_mem_cons.2 ⟨h.path, h.known⟩⟩
  | stay => exact ⟨hsound, h.path, h.known⟩
  | up => exact ⟨hsound, h.path.up hm h.sound.path, h.known⟩
  | down _ _ hstatus hn =>
    exact ⟨hsound, ⟨h.path.1, _, Machine.status_eq_of_not_link hstatus hn⟩, h.known⟩
  | again _ _ _ hmem => exact ⟨hsound, h.known _ hmem, h.known⟩
  | enter =>
    refine ⟨hsound, ?_, h.known⟩
    dsimp only
    split
    · exact Machine.shows_root hm
    · exact h.path

theorem asks_of_run_eq_ok {fuel : Nat} (hm : m.WellFormed) (h : Asks m r) (hrun : run m true fuel r = .ok p) :
    m.Settled p ∧ m.Shows p := by
  obtain ⟨r', h', rfl⟩ := exists_of_run_eq_ok (fun _ _ h => h.of_steps hm) h hrun
  exact ⟨h'.sound.path, h'.path⟩

end Resolver

namespace Machine

variable {m : Machine} {raw : Text} {p q : Path} {e : ResolutionError}

/-- What a path from the root is resolved to the system does not refuse to look at. -/
theorem status_of_resolveStrict (hm : m.WellFormed) (hp : p.IsRead) (habsolute : p.isAbsolute = true)
    (h : m.resolveStrict p = .ok q) : ∃ n, m.status q.text true = .ok n := by
  obtain ⟨resolved, hrun, h⟩ := bind_eq_ok_iff.1 h
  obtain ⟨hsettled, hresolved, hshows⟩ := Resolver.asks_of_run_eq_ok hm (Resolver.asks_start hm hp habsolute) hrun
  obtain ⟨-, rfl⟩ := absolute_eq_ok hm hsettled.isRead (mapError_eq_ok_iff.1 h)
  -- The path starts at the root and has no name for the directory above, so that nothing is worked out by name.
  rw [if_pos hresolved, origin, if_pos hresolved,
    Location.along_eq_append [] hsettled.isRead (hsettled.dotDot_notMem hresolved)]
  exact hshows

/-! ### Home directories -/

/-- A path starts with a tilde and a name for which there is no home directory. One that starts with a tilde itself is
none. -/
def LacksHome (m : Machine) (raw : Text) : Prop :=
  ∃ name rest, Path.ofText raw = ⟨.relative, ('~' :: name) :: rest⟩ ∧
    ∀ home, m.home? name = some home → home.head? = some '~'

/-- Slashes at the end do not matter for how a text starts. -/
theorem head?_eq_tilde_iff (home : Text) :
    (home.reverse.dropWhile (· == '/')).reverse.head? = some '~' ↔ home.head? = some '~' := by
  have happend : (home.reverse.dropWhile (· == '/')).reverse ++ (home.reverse.takeWhile (· == '/')).reverse = home := by
    rw [← List.reverse_append, List.takeWhile_append_dropWhile, List.reverse_reverse]
  have hslashes : ∀ c ∈ (home.reverse.takeWhile (· == '/')).reverse, c = '/' := fun c hc => by
    simpa using List.all_eq_true.1 List.all_takeWhile c (List.mem_reverse.1 hc)
  generalize (home.reverse.dropWhile (· == '/')).reverse = start at happend ⊢
  generalize (home.reverse.takeWhile (· == '/')).reverse = slashes at happend hslashes
  subst happend
  cases start with
  | cons c start => rfl
  | nil =>
    rw [List.nil_append, List.head?_nil]
    refine ⟨nofun, fun h => ?_⟩
    exact absurd (hslashes _ (List.mem_of_mem_head? h)) (by decide)

theorem mem_of_mem_pieces {separator c : Char} {t piece : Text} (hpiece : piece ∈ pieces separator t) (hc : c ∈ piece) :
    c ∈ t := by
  rw [← joined_pieces separator t]
  exact mem_joined_of_mem hpiece hc

theorem mem_of_mem_parts_ofText {c : Char} {part : Text} (hpart : part ∈ (Path.ofText raw).parts) (hc : c ∈ part) :
    c ∈ raw := mem_of_mem_pieces (List.mem_filter.1 hpart).1 hc

theorem expandHome_eq_error {f : Fault} (h : m.expandHome (.ofText raw) = .error f) :
    m.LacksHome raw ∧ (f = .unknownHome ∨ f = .nullCharacter) := by
  unfold expandHome at h
  split at h
  · rename_i name rest hanchor hparts
    have hraw : Path.ofText raw = ⟨.relative, ('~' :: name) :: rest⟩ := by
      rw [← hanchor, ← hparts]
    split at h
    · rename_i hnone
      obtain rfl := Except.error.inj h
      refine ⟨⟨name, rest, hraw, fun home hhome => by simp [hnone] at hhome⟩, ?_⟩
      split
      · exact .inr rfl
      · exact .inl rfl
    · -- A home directory that begins with a tilde itself is as good as none.
      rename_i home hhome
      dsimp only at h
      split at h
      · rename_i htilde
        obtain rfl := Except.error.inj h
        refine ⟨⟨name, rest, hraw, fun home' hhome' => ?_⟩, .inl rfl⟩
        obtain rfl := Option.some.inj (hhome.symm.trans hhome')
        exact (head?_eq_tilde_iff home).1 htilde
      · cases h
  · cases h

/-- A path that lacks a home directory is not expanded. -/
theorem LacksHome.expandHome_eq (h : m.LacksHome raw) (hnull : '\x00' ∉ raw) :
    m.expandHome (.ofText raw) = .error .unknownHome := by
  obtain ⟨name, rest, hraw, hhome⟩ := h
  have hname : name.contains '\x00' = false := by
    have hpart : '~' :: name ∈ (Path.ofText raw).parts := by simp [hraw]
    simpa using fun hmem => hnull (mem_of_mem_parts_ofText hpart (List.mem_cons_of_mem _ hmem))
  rw [hraw, expandHome]
  cases hfound : m.home? name with
  | none => simp only [hfound, hname, Bool.false_eq_true, if_false]
  | some home => simp only [hfound, (head?_eq_tilde_iff home).2 (hhome home hfound), if_true]

/-! ### Admission -/

/-- The faults to which the admission of a path comes. -/
inductive AdmissionFault (m : Machine) (base : Path) (raw : Text) : Fault → Prop
  /-- There is no home directory for its tilde. -/
  | home (h : m.LacksHome raw) : AdmissionFault m base raw .unknownHome
  /-- Its links lead round in a loop, or are too many one inside the other, behind a name for the directory above past
  which the system cannot look. -/
  | loop {p : Path} {e : ResolutionError} (hhome : m.expandHome (.ofText raw) = .ok p) (hlink : m.passesLink p = false)
    (h : m.resolveStrict p = .error e) (hkind : e = .tooDeep ∨ ∃ link, e = .loop link)
    (hsees : m.HasOrigin p → Utf8.size p.text ≤ maxPathSize → ¬ m.SeesAbove p) : AdmissionFault m base raw e.fault
  /-- It is written from the working directory, and the system refuses to look at it from the root. -/
  | refused {p q : Path} {errno : Errno} (hhome : m.expandHome (.ofText raw) = .ok p) (hrelative : p.isAbsolute = false)
    (h : m.admitPath raw base = .ok q) (hstatus : m.status q.text true = .error (.system errno))
    (herrno : errno = .denied ∨ errno = .nameTooLong) : AdmissionFault m base raw (.system { errno, path := q.text })

variable {base : Path} {extensions : List Text} {f : Fault} {kind : Node → Bool}

theorem admissionFault_of_admitPath (hm : m.WellFormed) (h : m.admitPath raw base = .error (.fault f))
    (hf : f ≠ .nullCharacter) : m.AdmissionFault base raw f := by
  unfold admitPath at h
  rcases bind_eq_error_iff.1 h with hfailed | ⟨p, hhome, h⟩
  · obtain ⟨f', hhome, heq⟩ := mapError_eq_error_iff.1 hfailed
    obtain rfl := AdmissionError.fault.inj heq
    obtain ⟨hlacks, rfl | rfl⟩ := expandHome_eq_error hhome
    · exact .home hlacks
    · exact absurd rfl hf
  rw [mapError_eq_ok_iff] at hhome
  dsimp only at h
  cases hlink : m.passesLink p with
  | true =>
    rw [hlink, if_pos rfl] at h
    cases h
  | false =>
    rw [hlink, if_neg Bool.false_ne_true] at h
    split at h
    · rcases bind_eq_error_iff.1 h with h | ⟨resolved, -, h⟩
      · cases h
      · split at h <;> cases h
    · rcases bind_eq_error_iff.1 h with h | ⟨resolved, h, -⟩
      · have hrefused := Except.error.inj h
        split at hrefused <;> cases hrefused
      · cases h
    · rename_i e hnot hresolve
      rcases bind_eq_error_iff.1 h with h | ⟨resolved, h, -⟩
      · obtain rfl := AdmissionError.fault.inj (Except.error.inj h)
        -- Had the system looked past all names for the directory above, it would have met the links before.
        have hsees : m.HasOrigin p → Utf8.size p.text ≤ maxPathSize → ¬ m.SeesAbove p := by
          intro horigin hsize hsees
          rcases resolveStrict_eq_error hm (Path.isRead_of_expandHome hhome) horigin hsize hsees hlink hresolve with
            rfl | ⟨s, rfl⟩
          · exact hf rfl
          · exact hnot s rfl
        cases e with
        | nullCharacter => exact absurd rfl hf
        | loop link => exact .loop hhome hlink hresolve (.inr ⟨link, rfl⟩) hsees
        | tooDeep => exact .loop hhome hlink hresolve (.inl rfl) hsees
        | system s => exact absurd rfl (hnot s)
      · cases h

/-- The kind of thing at an admitted path is not told if the system refuses to look at it. -/
theorem admissionFault_of_status (hm : m.WellFormed) (hpath : m.admitPath raw base = .ok q) {e : SystemError}
    (h : (m.probe q true).map (·.any kind) = .error e) : m.AdmissionFault base raw (.system e) := by
  obtain ⟨errno, hstatus, herrno, rfl⟩ := probe_any_eq_error_iff.1 h
  obtain ⟨p, hhome, -, hresolve, -⟩ := admitPath_eq_ok hpath
  refine .refused hhome ?_ hpath hstatus herrno
  rw [Bool.eq_false_iff]
  intro habsolute
  obtain ⟨n, hn⟩ := status_of_resolveStrict hm (Path.isRead_of_expandHome hhome) habsolute hresolve
  simp [hstatus] at hn

/-- A fault of admission is of one of four sorts. -/
theorem AdmissionFault.sort (h : m.AdmissionFault base raw f) :
    f = .unknownHome ∨ f = .tooDeep ∨ (∃ link, f = .linkLoop link) ∨ ∃ e, f = .system e := by
  cases h with
  | home => exact .inl rfl
  | loop _ _ _ hkind =>
    obtain rfl | ⟨link, rfl⟩ := hkind
    · exact .inr (.inl rfl)
    · exact .inr (.inr (.inl ⟨_, rfl⟩))
  | refused => exact .inr (.inr (.inr ⟨_, rfl⟩))

theorem AdmissionFault.ne_nullCharacter (h : m.AdmissionFault base raw f) : f ≠ .nullCharacter := by
  rcases h.sort with rfl | rfl | ⟨_, rfl⟩ | ⟨_, rfl⟩ <;> simp

theorem AdmissionFault.ne_writeError (h : m.AdmissionFault base raw f) (e : Json.WriteError) : f ≠ e.fault := by
  rcases h.sort with rfl | rfl | ⟨_, rfl⟩ | ⟨_, rfl⟩ <;> cases e <;> simp [Json.WriteError.fault]

/-- A fault keeps the path from being admitted, or keeps the system from telling what there is at the admitted path. -/
theorem AdmissionFault.admitPath_eq (h : m.AdmissionFault base raw f) (hnull : '\x00' ∉ raw) :
    m.admitPath raw base = .error (.fault f) ∨ ∃ q e, m.admitPath raw base = .ok q ∧ f = .system e ∧
      ∀ kind : Node → Bool, (m.probe q true).map (·.any kind) = .error e := by
  cases h with
  | home h => exact .inl (bind_eq_error_iff.2 (.inl (mapError_eq_error_iff.2 ⟨_, h.expandHome_eq hnull, rfl⟩)))
  | @loop p e hhome hlink hresolve hkind =>
    refine .inl (bind_eq_error_iff.2 (.inr ⟨p, mapError_eq_ok_iff.2 hhome, ?_⟩))
    dsimp only
    rw [hlink, if_neg Bool.false_ne_true, hresolve]
    rcases hkind with rfl | ⟨link, rfl⟩ <;> rfl
  | refused _ _ hpath hstatus herrno =>
    exact .inr ⟨_, _, hpath, rfl, fun kind => probe_any_eq_error_iff.2 ⟨_, hstatus, herrno, rfl⟩⟩

section Kind

variable {next : Path → Bool → Except AdmissionError Path}

/-- Whatever is made of the kind of thing at an admitted path, there are no other faults. -/
theorem admissionFault_of_kind (hm : m.WellFormed) (kind : Node → Bool)
    (hnext : ∀ q answer f, next q answer ≠ .error (.fault f))
    (h : (m.admitPath raw base >>= fun q =>
      ((m.probe q true).map fun x => x.any kind).mapError (AdmissionError.fault ∘ .system) >>= next q) = .error (.fault f))
    (hf : f ≠ .nullCharacter) : m.AdmissionFault base raw f := by
  rcases bind_eq_error_iff.1 h with hpath | ⟨q, hpath, h⟩
  · exact admissionFault_of_admitPath hm hpath hf
  rcases bind_eq_error_iff.1 h with hkind | ⟨answer, -, h⟩
  · obtain ⟨e, he, heq⟩ := mapError_eq_error_iff.1 hkind
    obtain rfl := AdmissionError.fault.inj heq
    exact admissionFault_of_status hm hpath he
  · exact absurd h (hnext q answer f)

theorem AdmissionFault.kind_eq (h : m.AdmissionFault base raw f) (hnull : '\x00' ∉ raw) (kind : Node → Bool) :
    (m.admitPath raw base >>= fun q =>
      ((m.probe q true).map fun x => x.any kind).mapError (AdmissionError.fault ∘ .system) >>= next q) =
        .error (.fault f) := by
  rcases h.admitPath_eq hnull with hpath | ⟨q, e, hpath, rfl, hprobe⟩
  · exact bind_eq_error_iff.2 (.inl hpath)
  · exact bind_eq_error_iff.2 (.inr ⟨q, hpath,
      bind_eq_error_iff.2 (.inl (mapError_eq_error_iff.2 ⟨e, hprobe kind, rfl⟩))⟩)

end Kind

theorem admissionFault_of_admitFile (hm : m.WellFormed) (h : m.admitFile raw base extensions = .error (.fault f))
    (hf : f ≠ .nullCharacter) : m.AdmissionFault base raw f := by
  refine admissionFault_of_kind hm Node.isRegular (fun q answer f h => ?_) h hf
  dsimp only at h
  split at h
  · cases h
  · split at h <;> cases h

theorem admissionFault_of_admitDirectory (hm : m.WellFormed) (h : m.admitDirectory raw base = .error (.fault f))
    (hf : f ≠ .nullCharacter) : m.AdmissionFault base raw f := by
  refine admissionFault_of_kind hm Node.isDirectory (fun q answer f h => ?_) h hf
  dsimp only at h
  split at h <;> cases h

theorem AdmissionFault.admitFile_eq (h : m.AdmissionFault base raw f) (hnull : '\x00' ∉ raw) :
    m.admitFile raw base extensions = .error (.fault f) := h.kind_eq hnull Node.isRegular

/-- A link that leads to itself is not seen behind a file, but it is followed. -/
example : { root := .directory [("f".toList, .file [] 0o644), ("l".toList, .link "l".toList)] 0o755 : Machine }.admitFile
    "f/../l".toList ⟨.root, []⟩ [] = .error (.fault (.linkLoop "l".toList)) := by decide +kernel

theorem AdmissionFault.admitDirectory_eq (h : m.AdmissionFault base raw f) (hnull : '\x00' ∉ raw) :
    m.admitDirectory raw base = .error (.fault f) := h.kind_eq hnull Node.isDirectory

/-! ### The compiler -/

/-- The faults to which a path may come that a variable or a setting gives for the compiler. -/
inductive NamingFault (m : Machine) (t : Text) : Fault → Prop
  /-- There is no home directory for its tilde. -/
  | home (h : m.LacksHome t) : NamingFault m t .unknownHome
  /-- The system refuses to look at it. -/
  | refused {p : Path} {errno : Errno} (hhome : m.expandHome (.ofText t) = .ok p)
    (hstatus : m.status p.text true = .error (.system errno)) (herrno : errno = .denied ∨ errno = .nameTooLong) :
    NamingFault m t (.system { errno, path := p.text })

variable {source t : Text} {environment : Named Text} {setting : Option Text}

theorem namedCompiler?_eq_fault_iff (hnull : '\x00' ∉ t) (hgiven : t ≠ []) :
    m.namedCompiler? source (.text t) = .error (.fault f) ↔ m.NamingFault t f := by
  rw [namedCompiler?, if_neg (by simpa [Value.isGiven] using hgiven)]
  constructor
  · intro h
    rcases bind_eq_error_iff.1 h with hfailed | ⟨p, hhome, h⟩
    · obtain ⟨f', hhome, hf⟩ := mapError_eq_error_iff.1 hfailed
      obtain rfl := CompilerError.fault.inj hf
      have hlacks := (expandHome_eq_error hhome).1
      obtain rfl := Except.error.inj (hhome.symm.trans (hlacks.expandHome_eq hnull))
      exact .home hlacks
    rw [mapError_eq_ok_iff] at hhome
    rcases bind_eq_error_iff.1 h with hfailed | ⟨regular, -, h⟩
    · obtain ⟨e, he, hf⟩ := mapError_eq_error_iff.1 hfailed
      obtain rfl := CompilerError.fault.inj hf
      obtain ⟨errno, hstatus, herrno, rfl⟩ := probe_any_eq_error_iff.1 he
      exact .refused hhome hstatus herrno
    · split at h <;> cases h
  · rintro (hlacks | @⟨p, errno, hhome, hstatus, herrno⟩)
    · exact bind_eq_error_iff.2 (.inl (mapError_eq_error_iff.2 ⟨_, hlacks.expandHome_eq hnull, rfl⟩))
    · have hregular : m.isRegular p = .error { errno, path := p.text } :=
        probe_any_eq_error_iff.2 ⟨errno, hstatus, herrno, rfl⟩
      exact bind_eq_error_iff.2 (.inr ⟨p, mapError_eq_ok_iff.2 hhome,
        bind_eq_error_iff.2 (.inl (mapError_eq_error_iff.2 ⟨_, hregular, rfl⟩))⟩)

/-- The system does not look at a name of 256 characters. -/
example : { root := .directory [] 0o755 : Machine }.namedCompiler? compilerVariable (.text (List.replicate 256 'n')) =
    .error (.fault (.system { errno := .nameTooLong, path := List.replicate 256 'n' })) := by decide +kernel

/-- Exactly what is not given is passed over. -/
theorem namedCompiler?_eq_none_iff {candidate : Value} :
    m.namedCompiler? source candidate = .ok none ↔ ¬ candidate.isGiven = true := by
  unfold namedCompiler?
  by_cases hgiven : candidate.isGiven = true
  · rw [if_neg (by simpa using hgiven)]
    refine iff_of_false (fun h => ?_) (not_not_intro hgiven)
    split at h
    · obtain ⟨p, -, h⟩ := bind_eq_ok_iff.1 h
      obtain ⟨regular, -, h⟩ := bind_eq_ok_iff.1 h
      split at h <;> cases h
    · cases h
  · rw [if_pos (by simpa using hgiven)]
    exact iff_of_true rfl hgiven

/-- A path that is given settles the search. -/
theorem namedCompiler?_bind_eq_fault_iff (hnull : '\x00' ∉ t) (hgiven : t ≠ [])
    {next : Option Path → Except CompilerError Path} (hnext : ∀ p, next (some p) = .ok p) :
    m.namedCompiler? source (.text t) >>= next = .error (.fault f) ↔ m.NamingFault t f := by
  rw [bind_eq_error_iff, namedCompiler?_eq_fault_iff hnull hgiven, or_iff_left]
  rintro ⟨found, hfound, h⟩
  cases found with
  | none => exact namedCompiler?_eq_none_iff.1 hfound (by simpa [Value.isGiven] using hgiven)
  | some p =>
    rw [hnext] at h
    cases h

/-- The text that is given, if it is not empty. -/
def given? (x : Option Text) : Option Text := x.filter (!·.isEmpty)

theorem given?_eq_some_iff {x : Option Text} : given? x = some t ↔ x = some t ∧ t ≠ [] := by
  simp [given?, Option.filter_eq_some_iff]

theorem namedCompiler?_of_given?_eq_none {x : Option Text} (h : given? x = none) :
    m.namedCompiler? source ((x.map Value.text).getD .none) = .ok none := by
  rw [namedCompiler?_eq_none_iff]
  cases x with
  | none => exact Bool.false_ne_true
  | some t => simpa [given?, Value.isGiven] using h

/-- The path that is given for the compiler: by the variable, or else by the setting. -/
def compilerPath? (environment : Named Text) (setting : Option Text) : Option Text :=
  given? (environment.get? compilerVariable) <|> given? setting

/-- The search for the compiler comes to a fault exactly where the path does that is given for it. -/
theorem findCompiler_eq_fault_iff (hnull : ∀ t, compilerPath? environment setting = some t → '\x00' ∉ t) :
    m.findCompiler ((setting.map Value.text).getD .none) environment = .error (.fault f) ↔
      ∃ t, compilerPath? environment setting = some t ∧ m.NamingFault t f := by
  rw [compilerPath?] at hnull ⊢
  rw [findCompiler]
  cases hvariable : given? (environment.get? compilerVariable) with
  | some t =>
    obtain ⟨hvalue, hgiven⟩ := given?_eq_some_iff.1 hvariable
    rw [hvalue]
    refine (namedCompiler?_bind_eq_fault_iff (hnull t (by simp [hvariable])) hgiven fun p => rfl).trans ?_
    simp
  | none =>
    rw [namedCompiler?_of_given?_eq_none hvariable]
    cases hsetting : given? setting with
    | some t =>
      obtain ⟨rfl, hgiven⟩ := given?_eq_some_iff.1 hsetting
      refine (namedCompiler?_bind_eq_fault_iff (hnull t (by simp [hvariable, hsetting])) hgiven fun p => rfl).trans ?_
      simp
    | none =>
      -- Nothing is given, so that the search path is gone through, on which there is a compiler or none.
      rw [namedCompiler?_of_given?_eq_none hsetting]
      simp only [bind, Except.bind]
      split <;> simp [pure, Except.pure]

theorem namedCompiler?_eq_error {candidate : Value} {e : CompilerError}
    (h : m.namedCompiler? source candidate = .error e) : e.isAbsence = true ∨ ∃ f, e = .fault f := by
  unfold namedCompiler? at h
  split at h
  · cases h
  split at h
  · rcases bind_eq_error_iff.1 h with h | ⟨p, -, h⟩
    · obtain ⟨f, -, rfl⟩ := mapError_eq_error_iff.1 h
      exact .inr ⟨f, rfl⟩
    rcases bind_eq_error_iff.1 h with h | ⟨regular, -, h⟩
    · obtain ⟨e, -, rfl⟩ := mapError_eq_error_iff.1 h
      exact .inr ⟨_, rfl⟩
    split at h
    · cases h
    · obtain rfl := Except.error.inj h
      exact .inl rfl
  · obtain rfl := Except.error.inj h
    exact .inr ⟨_, rfl⟩

/-- Where it comes to no fault, the search finds a compiler or says that there is none. -/
theorem findCompiler_eq_error {candidate : Value} {e : CompilerError}
    (h : m.findCompiler candidate environment = .error e) : e.isAbsence = true ∨ ∃ f, e = .fault f := by
  rcases bind_eq_error_iff.1 h with h | ⟨named, -, h⟩
  · exact namedCompiler?_eq_error h
  cases named with
  | some p => cases h
  | none =>
    rcases bind_eq_error_iff.1 h with h | ⟨set, -, h⟩
    · exact namedCompiler?_eq_error h
    cases set with
    | some p => cases h
    | none =>
      dsimp only at h
      split at h
      · cases h
      · obtain rfl := Except.error.inj h
        exact .inl rfl

end Machine
end CodeSnippets
