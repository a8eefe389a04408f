import CodeSnippets.Proofs.Discovery
import CodeSnippets.Proofs.NameOrder

/-!
# The entries of a directory

A directory may be reached in every way that the system knows: from the root or from where the program stands, through
links, and by names for the directory above. What there is at a path in it is the entry of that name, unless the system
refuses to look.

* `Position.leave_append`, `exists_follow_child`: a path in a directory is followed from where the directory is.
* `status_child`: what the system says of an entry.
* `Legible`, `legible_iff`: directories that can be looked through.
* `sourcesIn_eq_ok_iff`, `groupsIn_eq_ok_iff`: what is found in one directory.
-/

namespace CodeSnippets

open Text

/-! ### The way to an entry -/

/-- A longer path leads out of removed directories as the one that it begins with, or goes on from where that one ends. -/
theorem Position.leave_append {start left : Position} {names rest : List Text} (h : start.leave names = .ok (left, rest))
    (more : List Text) :
    start.leave (names ++ more) = if left.removed = 0 then .ok (left, rest ++ more) else left.leave more := by
  -- Names are taken one by one until they leave the removed directories; what is left then stays as it is.
  induction names generalizing start with
  | nil =>
    obtain ⟨rfl, rfl⟩ := Prod.mk.inj (Except.ok.inj h)
    split
    · rename_i hremoved
      exact Machine.leave_of_removed_eq_zero hremoved _
    · rfl
  | cons name names ih =>
    rw [leave] at h
    rw [List.cons_append, leave]
    split at h
    · rename_i hremoved
      obtain ⟨rfl, rfl⟩ := Prod.mk.inj (Except.ok.inj h)
      rw [if_pos hremoved, if_pos hremoved, List.cons_append]
    · rename_i hremoved
      rw [if_neg hremoved]
      split at h
      · rename_i hstay
        rw [if_pos hstay]
        exact ih h
      · rename_i hstay
        rw [if_neg hstay]
        split at h
        · rename_i hup
          rw [if_pos hup]
          exact ih h
        · cases h

namespace Machine

variable {m : Machine} {p : Path} {n x : Node} {name : Text} {followLast : Bool}

/-- Where the names of a path start. -/
def startOf (m : Machine) (p : Path) : Position := if p.isAbsolute then {} else m.cwd

@[simp] theorem startOf_child : m.startOf (p.child name) = m.startOf p := rfl

/-- The position of a path, also of one that starts in a directory that has been removed. -/
theorem locate_text_eq (hp : p.IsRead) :
    m.locate p.text followLast =
      if p.text.contains '\x00' then .error .nullCharacter
      else if maxPathSize < Utf8.size p.text then .error (.system .nameTooLong)
      else match (m.startOf p).leave p.steps with
        | .error errno => .error (.system errno)
        | .ok (start, names) =>
          if start.removed = 0 then
            match follow m.root followLast maxLinks start.location names with
            | .error errno => .error (.system errno)
            | .ok location => .ok { location }
          else .ok start := by
  have hnil : p.text.isEmpty = false := by simpa using Path.text_ne_nil hp
  rw [locate, Path.startsAtRoot_text hp, Path.steps_text hp, hnil, ← startOf]
  rfl

/-- The name of a directory itself, and an empty one, leads nowhere else. -/
theorem follow_here {root : Node} {links : Nat} {here place : Location} (hname : name = [] ∨ name = dot)
    (h : follow root followLast links here [name] = .ok place) : place = here := by
  cases follow_eq_ok_iff.1 h with
  | arrive hw =>
    cases walks_of_walk_eq hw with
    | slash _ hrest | stay _ hrest =>
      cases hrest
      rfl
    | up => simp [dotDot, dot] at hname
    | down hfinds | last hfinds => exact absurd hname (not_or.2 ⟨hfinds.ne_nil, hfinds.ne_dot⟩)
  | through hw _ =>
    cases walks_of_walk_eq hw with
    | slash _ hrest | stay _ hrest => cases hrest
    | up _ hrest => cases hrest
    | down _ _ hrest => cases hrest
    | meet hfinds => exact absurd hname (not_or.2 ⟨hfinds.ne_nil, hfinds.ne_dot⟩)

/-- The way of a path to a directory with entries, which is none that has been removed. -/
theorem exists_follow_of_status (hp : p.IsRead) (h : m.status p.text followLast = .ok n) (hn : n.entries ≠ []) :
    '\x00' ∉ p.text ∧ ∃ start names place, (m.startOf p).leave p.steps = .ok (start, names) ∧ start.removed = 0 ∧
      follow m.root followLast maxLinks start.location names = .ok place ∧ m.root.get? place = some n := by
  rw [status, locate_text_eq hp] at h
  by_cases hnull : '\x00' ∈ p.text
  · simp [hnull, bind, Except.bind] at h
  refine ⟨hnull, ?_⟩
  rw [if_neg (by simpa using hnull)] at h
  obtain ⟨position, hposition, h⟩ := bind_eq_ok_iff.1 h
  split at hposition
  · cases hposition
  split at hposition
  · cases hposition
  rename_i start names hleave
  split at hposition
  swap
  · -- There are no entries in a removed directory.
    rename_i hremoved
    obtain rfl := Except.ok.inj hposition
    rw [nodeAt?, if_neg hremoved] at h
    obtain rfl := Except.ok.inj h
    exact absurd rfl hn
  rename_i hremoved
  split at hposition
  · cases hposition
  rename_i place hfollow
  obtain rfl := Except.ok.inj hposition
  refine ⟨start, names, place, hleave, hremoved, hfollow, ?_⟩
  rw [nodeAt?, if_pos rfl] at h
  split at h
  · rename_i y hy
    obtain rfl := Except.ok.inj h
    exact hy
  · cases h

/-- An entry is looked up where the directory is that its path leads to. -/
theorem exists_follow_child (hp : p.IsRead) (h : m.status p.text true = .ok n) (hn : n.entries ≠ []) (name : Text) :
    '\x00' ∉ p.text ∧ ∃ start names left place, (m.startOf p).leave (p.child name).steps = .ok (start, names) ∧
      start.removed = 0 ∧ m.root.get? place = some n ∧
        follow m.root false maxLinks start.location names = follow m.root false left place [name] := by
  obtain ⟨hnull, start, names, place, hleave, hremoved, hfollow, hplace⟩ := exists_follow_of_status hp h hn
  refine ⟨hnull, ?_⟩
  by_cases hparts : p.parts = []
  · -- The path stands for the place itself where the names start.
    have hchild : (p.child name).steps = [name] := by simp [Path.steps, Path.child, hparts]
    have hhere : ∃ c, p.steps = [c] ∧ (c = [] ∨ c = dot) := by
      rw [Path.steps, if_pos hparts]
      split
      · exact ⟨[], rfl, .inl rfl⟩
      · exact ⟨dot, rfl, .inr rfl⟩
    obtain ⟨c, hsteps, hc⟩ := hhere
    have hstart : start = m.startOf p ∧ names = [c] := by
      rw [hsteps, Position.leave] at hleave
      split at hleave
      · simpa [eq_comm] using hleave
      · rename_i hgone
        rw [if_pos (by simpa using hc)] at hleave
        obtain ⟨rfl, -⟩ := Prod.mk.inj (Except.ok.inj hleave)
        exact absurd hremoved hgone
    obtain ⟨rfl, rfl⟩ := hstart
    obtain rfl := follow_here hc hfollow
    exact ⟨_, _, maxLinks, _, by rw [hchild]; exact leave_of_removed_eq_zero hremoved _, hremoved, hplace, rfl⟩
  · have hchild : (p.child name).steps = p.steps ++ [name] := by simp [Path.steps, Path.child, hparts]
    obtain ⟨left, hleft⟩ := follow_append hfollow (List.cons_ne_nil name [])
    refine ⟨start, names ++ [name], left, place, ?_, hremoved, hplace, hleft false⟩
    rw [hchild, Position.leave_append hleave, if_pos hremoved]

theorem null_notMem_child (hnull : '\x00' ∉ p.text) (hname : isName name = true) : '\x00' ∉ (p.child name).text := by
  intro hmem
  obtain ⟨part, hmem, hin⟩ := Path.exists_part_of_mem_text hmem (by decide) (by decide)
  rcases List.mem_append.1 hmem with hmem | hmem
  · exact hnull (Path.mem_text_of_mem_parts hmem hin)
  · obtain rfl := List.mem_singleton.1 hmem
    exact null_notMem_of_isName hname hin

/-- An entry is found under its name, unless the system refuses to look it up. -/
theorem follow_entry {root : Node} {links : Nat} {place : Location} (hplace : root.get? place = some n)
    (hname : isName name = true) (hentry : n.entries.get? name = some x) :
    follow root false links place [name] =
      if n.mayRun = false then .error .denied
      else if maxNameSize < Utf8.size name then .error .nameTooLong
      else .ok (place ++ [name]) := by
  obtain ⟨hpart, hdotDot⟩ := isPart_of_isName hname
  obtain ⟨entries, mode, rfl⟩ : ∃ entries mode, n = .directory entries mode := by
    cases n with
    | directory entries mode => exact ⟨entries, mode, rfl⟩
    | _ => cases hentry
  cases hrun : (Node.directory entries mode).mayRun with
  | false =>
    rw [if_pos rfl, follow, walk, hplace]
    simp [hrun, hpart.ne_nil]
  | true =>
    have hget : root.get? (place ++ [name]) = some x :=
      Node.get?_append_singleton_eq_some_iff.2 ⟨entries, mode, hplace, hentry⟩
    rw [if_neg (by simp), follow_singleton ⟨entries, mode, hplace, hrun⟩ hpart hdotDot]
    by_cases hlong : maxNameSize < Utf8.size name
    · rw [if_pos hlong, if_pos hlong]
    · rw [if_neg hlong, if_neg hlong, if_neg (by simp [hget])]

/-- What the system says when it is asked what an entry is. -/
theorem status_child (hp : p.IsRead) (h : m.status p.text true = .ok n) (hname : isName name = true)
    (hentry : n.entries.get? name = some x) :
    m.status (p.child name).text false =
      if maxPathSize < Utf8.size (p.child name).text then .error (.system .nameTooLong)
      else if n.mayRun = false then .error (.system .denied)
      else if maxNameSize < Utf8.size name then .error (.system .nameTooLong)
      else .ok x := by
  -- A directory with an entry has not been removed, so that the way to it can be taken.
  have hentries : n.entries ≠ [] := by
    intro hnil
    rw [hnil] at hentry
    cases hentry
  obtain ⟨hnull, start, names, left, place, hleave, hremoved, hplace, hfollow⟩ := exists_follow_child hp h hentries name
  have hget : m.root.get? (place ++ [name]) = some x := by
    rw [Node.get?_append, hplace]
    exact Node.get?_singleton hentry
  have hnull' : ¬ (p.child name).text.contains '\x00' = true := by simpa using null_notMem_child hnull hname
  rw [status, locate_text_eq (hp.child (isPart_of_isName hname).1), if_neg hnull', startOf_child, hleave]
  simp only [hremoved, if_true, hfollow, follow_entry hplace hname hentry]
  split_ifs
  · rfl
  · rfl
  · rfl
  · simp [bind, Except.bind, nodeAt?, hget]

/-- An entry is looked at as what it is, or the system refuses to say whether it is there. -/
theorem status_child_eq_ok_or (hp : p.IsRead) (h : m.status p.text true = .ok n) (hname : isName name = true)
    (hentry : n.entries.get? name = some x) :
    m.status (p.child name).text false = .ok x ∨
      ∃ errno, m.status (p.child name).text false = .error (.system errno) ∧ errno.meansAbsent = false := by
  rw [status_child hp h hname hentry]
  split_ifs
  · exact .inr ⟨_, rfl, rfl⟩
  · exact .inr ⟨_, rfl, rfl⟩
  · exact .inr ⟨_, rfl, rfl⟩
  · exact .inl rfl

theorem size_le_of_status_child {y : Node} (hp : p.IsRead) (h : m.status p.text true = .ok n) (hname : isName name = true)
    (hentry : n.entries.get? name = some x) (hstatus : m.status (p.child name).text false = .ok y) :
    Utf8.size name ≤ maxNameSize := by
  rw [status_child hp h hname hentry] at hstatus
  split_ifs at hstatus with _ _ hlong
  exact Nat.not_lt.1 hlong

/-! ### Directories that can be looked through -/

/-- The system lists the directory that a path leads to, and says of every entry that is not hidden what it is. -/
structure Legible (m : Machine) (p : Path) (n : Node) : Prop where
  listed : ∃ entries, m.list p = .ok entries
  seen : ∀ name ∈ n.entries.names, Path.isHiddenName name = false → ∃ x, m.status (p.child name).text false = .ok x

theorem list_eq_ok_iff (h : m.status p.text true = .ok n) {entries : Named Node} :
    m.list p = .ok entries ↔ n.isDirectory = true ∧ n.mayRead = true ∧ entries = n.entries.sorted := by
  simp only [list, h]
  cases n.isDirectory <;> cases n.mayRead <;> simp [eq_comm]

theorem Legible.status_child (h : m.Legible p n) (hp : p.IsRead) (hn : m.status p.text true = .ok n)
    (hname : isName name = true) (hentry : n.entries.get? name = some x) (hshown : Path.isHiddenName name = false) :
    m.status (p.child name).text false = .ok x := by
  obtain ⟨y, hy⟩ := h.seen name (Named.mem_names_iff.2 ⟨x, hentry⟩) hshown
  refine (status_child_eq_ok_or hp hn hname hentry).resolve_right ?_
  rintro ⟨errno, herror, -⟩
  rw [hy] at herror
  cases herror

/-- A directory can be looked through if its permissions, and the sizes of its path and of the names in it, allow it. -/
theorem legible_iff (hp : p.IsRead) (hn : m.status p.text true = .ok n)
    (hnames : ∀ name ∈ n.entries.names, isName name = true) :
    m.Legible p n ↔ n.isDirectory = true ∧ n.mayRead = true ∧
      ∀ name ∈ n.entries.names, Path.isHiddenName name = false →
        Utf8.size (p.child name).text ≤ maxPathSize ∧ n.mayRun = true ∧ Utf8.size name ≤ maxNameSize := by
  have hseen (name : Text) (hmem : name ∈ n.entries.names) : (∃ x, m.status (p.child name).text false = .ok x) ↔
      Utf8.size (p.child name).text ≤ maxPathSize ∧ n.mayRun = true ∧ Utf8.size name ≤ maxNameSize := by
    obtain ⟨x, hx⟩ := Named.mem_names_iff.1 hmem
    rw [Machine.status_child hp hn (hnames name hmem) hx, ← Nat.not_lt, ← Nat.not_lt]
    split_ifs <;> simp_all
  constructor
  · rintro ⟨⟨entries, hentries⟩, h⟩
    obtain ⟨hdirectory, hread, -⟩ := (list_eq_ok_iff hn).1 hentries
    exact ⟨hdirectory, hread, fun name hmem hshown => (hseen name hmem).1 (h name hmem hshown)⟩
  · rintro ⟨hdirectory, hread, h⟩
    exact ⟨⟨_, (list_eq_ok_iff hn).2 ⟨hdirectory, hread, rfl⟩⟩,
      fun name hmem hshown => (hseen name hmem).2 (h name hmem hshown)⟩

/-! ### What is found in one directory -/

end Machine

namespace Node

/-- The entries of a directory that are of a kind and not hidden, in the order of their names. -/
def entriesOf (kind : Text → Node → Bool) (n : Node) : Named Node :=
  n.entries.sorted.filter fun e => !Path.isHiddenName e.1 && kind e.1 e.2

/-- The names of the sources in a directory, in order. -/
def sourceNames (accepts : Text → Bool) (n : Node) : List Text :=
  (n.entriesOf fun name x => x.isRegular && accepts (lower (Path.cutName name).2)).names

/-- The groups of a directory by name, in order. -/
def groups (n : Node) : Named Node := n.entriesOf fun _ x => x.isDirectory

end Node

namespace Machine

variable {m : Machine} {p : Path} {n x : Node} {name : Text} {question : Path → Except SystemError Bool}
  {kind : Text → Node → Bool} {qs : List Path}

/-- A question that is answered for an entry can be answered because the entry is hidden or can be looked at. -/
theorem LooksAt.question_child_eq_ok_iff (h : m.LooksAt question kind) (hp : p.IsRead) (hn : m.status p.text true = .ok n)
    (hname : isName name = true) (hentry : n.entries.get? name = some x) {answer : Bool} :
    question (p.child name) = .ok answer ↔
      (Path.isHiddenName name = false → ∃ y, m.status (p.child name).text false = .ok y) ∧
        answer = (!Path.isHiddenName name && kind name x) := by
  have hchild : (p.child name).name = name := Path.name_child p name
  cases hhidden : Path.isHiddenName name with
  | true =>
    rw [h.hidden _ (by rwa [hchild])]
    simp [eq_comm]
  | false =>
    rcases status_child_eq_ok_or hp hn hname hentry with hstatus | ⟨errno, hstatus, habsent⟩
    · rw [h.seen _ x (by rwa [hchild]) hstatus, hchild]
      simp [hstatus, eq_comm]
    · obtain ⟨e, he⟩ := h.unseen _ errno (by rwa [hchild]) hstatus habsent
      simp [he, hstatus]

/-- What is found in a directory by asking about each entry: the names, in order, of the entries of a kind. -/
theorem LooksAt.sift_eq_ok_iff (h : m.LooksAt question kind) (hp : p.IsRead) (hn : m.status p.text true = .ok n)
    (hnames : ∀ name ∈ n.entries.names, isName name = true) (hdistinct : n.entries.names.Nodup) :
    (m.pathsIn p >>= fun ps => (sift question ps).mapError (AccessError.fault ∘ .system)) = .ok qs ↔
      m.Legible p n ∧
        qs = (n.entriesOf kind).names.map p.child := by
  have hget {e : Text × Node} (he : e ∈ n.entries.sorted) :
      isName e.1 = true ∧ n.entries.get? e.1 = some e.2 := by
    rw [Named.mem_sorted] at he
    exact ⟨hnames e.1 (List.mem_map_of_mem he), (Named.get?_eq_some_iff_mem hdistinct).2 he⟩
  -- In a directory that can be looked through every question has an answer, which is the kind of the entry.
  have hfilter (hlegible : m.Legible p n) :
      (n.entries.sorted.names.map p.child).filter (fun q => question q = .ok true) =
        (n.entriesOf kind).names.map p.child := by
    rw [Named.names, Named.names, Node.entriesOf, List.map_map, List.map_map, List.filter_map]
    refine congrArg _ (List.filter_congr fun e he => ?_)
    obtain ⟨hname, hentry⟩ := hget he
    have hanswer := (h.question_child_eq_ok_iff hp hn hname hentry).2
      ⟨hlegible.seen e.1 (Named.mem_names_iff.2 ⟨_, hentry⟩), rfl⟩
    simp [hanswer]
  constructor
  · intro hqs
    obtain ⟨ps, hps, hqs⟩ := sift_pathsIn_eq_ok_iff.1 hqs
    obtain ⟨entries, hentries, hps⟩ := bind_eq_ok_iff.1 hps
    obtain rfl := Except.ok.inj hps
    obtain ⟨-, -, rfl⟩ := (list_eq_ok_iff hn).1 hentries
    obtain ⟨hanswers, rfl⟩ := Machine.sift_eq_ok_iff.1 hqs
    -- What has been answered for every entry has been looked at, if it is shown.
    have hlegible : m.Legible p n := by
      refine ⟨⟨_, hentries⟩, fun name hmem hshown => ?_⟩
      obtain ⟨x, hx⟩ := Named.mem_names_iff.1 hmem
      obtain ⟨answer, hanswer⟩ := hanswers (p.child name) (List.mem_map_of_mem (mem_names_sorted.2 hmem))
      exact ((h.question_child_eq_ok_iff hp hn (hnames name hmem) hx).1 hanswer).1 hshown
    exact ⟨hlegible, hfilter hlegible⟩
  · rintro ⟨hlegible, rfl⟩
    obtain ⟨entries, hentries⟩ := hlegible.listed
    obtain ⟨-, -, rfl⟩ := (list_eq_ok_iff hn).1 hentries
    refine sift_pathsIn_eq_ok_iff.2 ⟨_, bind_eq_ok_iff.2 ⟨_, hentries, rfl⟩, ?_⟩
    refine Machine.sift_eq_ok_iff.2 ⟨fun q hq => ?_, (hfilter hlegible).symm⟩
    obtain ⟨name, hname, rfl⟩ := List.mem_map.1 hq
    obtain ⟨e, he, rfl⟩ := List.mem_map.1 hname
    obtain ⟨hname, hentry⟩ := hget he
    exact ⟨_, (h.question_child_eq_ok_iff hp hn hname hentry).2
      ⟨hlegible.seen e.1 (Named.mem_names_iff.2 ⟨_, hentry⟩), rfl⟩⟩

/-- The sources in a directory are found exactly if it can be looked through. -/
theorem sourcesIn_eq_ok_iff (hp : p.IsRead) (hn : m.status p.text true = .ok n)
    (hnames : ∀ name ∈ n.entries.names, isName name = true) (hdistinct : n.entries.names.Nodup)
    {accepts : Text → Bool} :
    m.sourcesIn accepts p = .ok qs ↔ m.Legible p n ∧ qs = (n.sourceNames accepts).map p.child :=
  (looksAt_isSource accepts).sift_eq_ok_iff hp hn hnames hdistinct

/-- The groups of a directory are found exactly if it can be looked through. -/
theorem groupsIn_eq_ok_iff (hp : p.IsRead) (hn : m.status p.text true = .ok n)
    (hnames : ∀ name ∈ n.entries.names, isName name = true) (hdistinct : n.entries.names.Nodup) :
    m.groupsIn p = .ok qs ↔ m.Legible p n ∧ qs = n.groups.names.map p.child :=
  looksAt_isGroup.sift_eq_ok_iff hp hn hnames hdistinct

end Machine
end CodeSnippets
