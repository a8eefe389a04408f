import CodeSnippets.Proofs.DirectPath
import CodeSnippets.Source.Discovery
import Mathlib.Data.List.Nodup

/-!
# What is discovered in a directory

The sources that are discovered are the files in a directory, and in the directories directly below it, that are
neither hidden nor links and have an extension that is accepted. Each of them is discovered once.

* `IsSourceIn`, `IsGroupIn`: what is looked for in a directory.
* `sift_eq_ok_iff`: asking about paths, one after the other.
* `LooksAt`, `looksAt_isSource`, `looksAt_isGroup`: what is asked about a path.
* `mem_sourcesIn_iff`, `mem_groupsIn_iff`: what is found in one directory.
* `StandsIn`, `IsDiscoveredIn`, `mem_discoverBy_iff`: what is found in a directory and its groups.
* `nodup_map_path`: nothing is found twice.
* `LooksThrough`, `exists_discoverBy`: a discovery comes to an end where everything can be looked at.
-/

namespace CodeSnippets

open Text

namespace Path

variable {p : Path} {name : Text}

@[simp] theorem name_child (p : Path) (name : Text) : (p.child name).name = name := by
  simp [Path.name, child]

@[simp] theorem parent_child (p : Path) (name : Text) : (p.child name).parent = p := by
  simp [parent, child]

theorem child_ne (p : Path) (name : Text) : p.child name ≠ p := fun h => by
  simpa [child] using congrArg (·.parts.length) h

theorem child_injective (p : Path) : Function.Injective p.child := fun a b h => by
  simpa using congrArg Path.name h

/-- The path of a name in the directory of a path, the name not hidden. -/
def ShownIn (p q : Path) : Prop := ∃ name, IsPart name ∧ isHiddenName name = false ∧ q = p.child name

theorem ne_dotDot_of_isHiddenName (h : isHiddenName name = false) : name ≠ dotDot := by
  rintro rfl
  simp [isHiddenName, dotDot] at h

theorem ShownIn.parent_eq {q : Path} (h : p.ShownIn q) : q.parent = p := by
  obtain ⟨name, -, -, rfl⟩ := h
  exact parent_child p name

end Path

namespace SourceFile

theorem map_path_map_mk (group : Option Text) (qs : List Path) :
    (qs.map (SourceFile.mk group)).map SourceFile.path = qs := by
  rw [List.map_map]
  exact List.map_id qs

/-- The names by which a source is found in the directory that was searched. -/
def names (s : SourceFile) : List Text := s.group.toList ++ [s.path.name]

end SourceFile

namespace Machine

variable {m : Machine} {p q : Path} {n x : Node} {name : Text} {accepts : Text → Bool} {ps qs : List Path}

/-- A path is that of a source in a directory. -/
structure IsSourceIn (m : Machine) (accepts : Text → Bool) (p q : Path) : Prop where
  shown : p.ShownIn q
  leadsTo : ∃ n, m.LeadsTo q n ∧ n.isRegular = true
  accepted : accepts (lower q.suffix) = true

/-- A path is that of a group in a directory. -/
structure IsGroupIn (m : Machine) (p q : Path) : Prop where
  shown : p.ShownIn q
  leadsTo : ∃ n, m.LeadsTo q n ∧ n.isDirectory = true

/-! ### Asking about paths -/

/-- All paths have been asked about, and those with the answer yes are left. -/
theorem sift_eq_ok_iff {question : Path → Except SystemError Bool} : sift question ps = .ok qs ↔
    (∀ p ∈ ps, ∃ answer, question p = .ok answer) ∧ qs = ps.filter fun p => question p = .ok true := by
  induction ps generalizing qs with
  | nil => simp [sift, eq_comm]
  | cons p ps ih =>
    rw [sift]
    constructor
    · intro h
      obtain ⟨answer, hanswer, h⟩ := bind_eq_ok_iff.1 h
      obtain ⟨rest, hrest, h⟩ := bind_eq_ok_iff.1 h
      obtain ⟨hall, rfl⟩ := ih.1 hrest
      refine ⟨List.forall_mem_cons.2 ⟨⟨answer, hanswer⟩, hall⟩, ?_⟩
      obtain rfl := Except.ok.inj h
      cases answer <;> simp [hanswer]
    · rintro ⟨hall, rfl⟩
      obtain ⟨⟨answer, hanswer⟩, hall⟩ := List.forall_mem_cons.1 hall
      refine bind_eq_ok_iff.2 ⟨answer, hanswer, bind_eq_ok_iff.2 ⟨_, ih.2 ⟨hall, rfl⟩, ?_⟩⟩
      cases answer <;> simp [hanswer, pure, Except.pure]

theorem isLink_eq_ok_false (h : m.LeadsTo p n) : m.isLink p = .ok false :=
  probe_any_eq_ok_false_iff.2 (.inr (.inr ⟨n, h.status_eq, h.not_link⟩))

/-- A path below another one leads by name alone to a node of some kind if it is no link and such a node is found. -/
theorem exists_leadsTo_child_iff (h : m.LeadsTo p n) (hm : m.WellFormed) (hname : Path.IsPart name)
    (hdotDot : name ≠ dotDot) (kind : Node → Bool) :
    (∃ child, m.LeadsTo (p.child name) child ∧ kind child = true) ↔
      m.isLink (p.child name) = .ok false ∧ (m.probe (p.child name) true).map (·.any kind) = .ok true := by
  constructor
  · rintro ⟨child, hchild, hkind⟩
    exact ⟨isLink_eq_ok_false hchild, probe_any_eq_ok_true_iff.2 ⟨child, hchild.status true, hkind⟩⟩
  · rintro ⟨hlink, hkind⟩
    obtain ⟨x, hx, hkind⟩ := probe_any_eq_ok_true_iff.1 hkind
    obtain ⟨child, hfinds, hstatus⟩ := h.exists_finds_child hm hname hdotDot hx
    -- The node that stands there is no link, and so it is the one that is found.
    have hchild : child.isLink = false := by
      rcases probe_any_eq_ok_false_iff.1 hlink with h | ⟨errno, h, -⟩ | ⟨y, h, hy⟩
      · simp [hstatus] at h
      · simp [hstatus] at h
      · obtain rfl := Except.ok.inj (hstatus.symm.trans h)
        exact hy
    have hleads : m.LeadsTo (p.child name) child := ⟨h.anchor_eq, hfinds.get?, hchild, hstatus⟩
    obtain rfl := Except.ok.inj ((hleads.status true).symm.trans hx)
    exact ⟨child, hleads, hkind⟩

theorem isSource_eq_ok_true_iff : m.isSource accepts p = .ok true ↔ Path.isHiddenName p.name = false ∧
    m.isLink p = .ok false ∧ m.isRegular p = .ok true ∧ accepts (lower p.suffix) = true := by
  unfold isSource
  cases Path.isHiddenName p.name with
  | true => simp [pure, Except.pure]
  | false =>
    rcases hlink : m.isLink p with e | _ | _
    · simp [bind, Except.bind]
    · rcases hregular : m.isRegular p with e | _ | _ <;> simp [bind, Except.bind, pure, Except.pure]
    · simp [bind, Except.bind, pure, Except.pure]

theorem isGroup_eq_ok_true_iff : m.isGroup p = .ok true ↔ Path.isHiddenName p.name = false ∧
    m.isLink p = .ok false ∧ m.isDirectory p = .ok true := by
  unfold isGroup
  cases Path.isHiddenName p.name with
  | true => simp [pure, Except.pure]
  | false => rcases hlink : m.isLink p with e | _ | _ <;> simp [bind, Except.bind, pure, Except.pure]

/-- A question about a path is about its name and the node that stands there. What is hidden is not looked at; what cannot
be looked at leaves the question open. -/
structure LooksAt (m : Machine) (question : Path → Except SystemError Bool) (kind : Text → Node → Bool) : Prop where
  hidden : ∀ q, Path.isHiddenName q.name = true → question q = .ok false
  seen : ∀ q x, Path.isHiddenName q.name = false → m.status q.text false = .ok x → question q = .ok (kind q.name x)
  unseen : ∀ q errno, Path.isHiddenName q.name = false → m.status q.text false = .error (.system errno) →
    errno.meansAbsent = false → ∃ e, question q = .error e

theorem isLink_of_status (h : m.status p.text false = .ok x) : m.isLink p = .ok x.isLink := by
  rw [isLink, probe, h]
  rfl

theorem isLink_of_status_eq_error {errno : Errno} (h : m.status p.text false = .error (.system errno))
    (habsent : errno.meansAbsent = false) : m.isLink p = .error { errno, path := p.text } := by
  rw [isLink, probe, h]
  simp [habsent, Except.map]

theorem looksAt_isSource (accepts : Text → Bool) :
    m.LooksAt (m.isSource accepts) fun name x => x.isRegular && accepts (lower (Path.cutName name).2) where
  hidden q hhidden := by
    rw [isSource, hhidden]
    rfl
  seen q x hshown hx := by
    rw [isSource, hshown, isLink_of_status hx]
    cases hlink : x.isLink with
    | true =>
      cases x with
      | link => rfl
      | _ => cases hlink
    | false =>
      have hregular : m.isRegular q = .ok x.isRegular := by
        rw [isRegular, probe, status_eq_of_not_link hx hlink]
        rfl
      rw [hregular]
      cases x.isRegular <;> rfl
  unseen q errno hshown herror habsent := by
    rw [isSource, hshown, isLink_of_status_eq_error herror habsent]
    exact ⟨_, rfl⟩

theorem looksAt_isGroup : m.LooksAt m.isGroup fun _ x => x.isDirectory where
  hidden q hhidden := by
    rw [isGroup, hhidden]
    rfl
  seen q x hshown hx := by
    rw [isGroup, hshown, isLink_of_status hx]
    cases hlink : x.isLink with
    | true =>
      cases x with
      | link => rfl
      | _ => cases hlink
    | false =>
      show m.isDirectory q = _
      rw [isDirectory, probe, status_eq_of_not_link hx hlink]
      rfl
  unseen q errno hshown herror habsent := by
    rw [isGroup, hshown, isLink_of_status_eq_error herror habsent]
    exact ⟨_, rfl⟩

/-! ### Listing a directory -/

/-- The nodes of a directory are listed by name, in order. -/
theorem pathsIn_eq_ok (h : m.status p.text true = .ok n) (hps : m.pathsIn p = .ok ps) :
    n.isDirectory = true ∧ ps = n.entries.sorted.names.map p.child := by
  unfold pathsIn list at hps
  simp only [h] at hps
  obtain ⟨entries, hentries, hps⟩ := bind_eq_ok_iff.1 hps
  obtain rfl := Except.ok.inj hps
  split at hentries
  · cases hentries
  rename_i hdirectory
  split at hentries
  · cases hentries
  obtain rfl := Except.ok.inj hentries
  exact ⟨by simpa using hdirectory, rfl⟩

/-- What is found in a directory by a question is what is left of its paths. -/
theorem sift_pathsIn_eq_ok_iff {question : Path → Except SystemError Bool} :
    (m.pathsIn p >>= fun ps => (sift question ps).mapError (AccessError.fault ∘ .system)) = .ok qs ↔
      ∃ ps, m.pathsIn p = .ok ps ∧ sift question ps = .ok qs := by
  simp only [bind_eq_ok_iff, mapError_eq_ok_iff]

/-- A question about the paths in a directory that has no answer has been refused one by the system. -/
theorem isSystem_of_sift_pathsIn {question : Path → Except SystemError Bool} {e : AccessError} (hnull : '\x00' ∉ p.text)
    (h : (m.pathsIn p >>= fun ps => (sift question ps).mapError (AccessError.fault ∘ .system)) = .error e) :
    e.isSystem = true := by
  rcases bind_eq_error_iff.1 h with h | ⟨ps, -, h⟩
  · -- The directory cannot be listed.
    unfold pathsIn list at h
    rcases bind_eq_error_iff.1 h with h | ⟨entries, -, h⟩
    · split at h
      · rename_i hstatus
        exact absurd (status_eq_nullCharacter_iff.1 hstatus) hnull
      · obtain rfl := Except.error.inj h
        rfl
      split at h
      · obtain rfl := Except.error.inj h
        rfl
      split at h
      · obtain rfl := Except.error.inj h
        rfl
      · cases h
    · cases h
  · obtain ⟨e, -, rfl⟩ := mapError_eq_error_iff.1 h
    rfl

theorem mem_names_sorted {entries : Named Node} : name ∈ entries.sorted.names ↔ name ∈ entries.names :=
  ((List.mergeSort_perm entries _).map _).mem_iff

/-- A path is listed if there is a node at it. -/
theorem mem_pathsIn_iff (h : m.LeadsTo p n) (hps : m.pathsIn p = .ok ps) :
    p.child name ∈ ps ↔ ∃ child, m.root.get? (p.parts ++ [name]) = some child := by
  obtain ⟨hdirectory, rfl⟩ := pathsIn_eq_ok (h.status true) hps
  rw [List.mem_map_of_injective p.child_injective, mem_names_sorted, Named.mem_names_iff]
  cases n with
  | directory entries mode => simp [Node.get?_append, h.get?, Node.get?_cons, Node.entries]
  | _ => simp [Node.isDirectory] at hdirectory

/-- What has been found of the paths in a directory by asking about each of them. -/
theorem mem_sift_pathsIn_iff (h : m.LeadsTo p n) (hm : m.WellFormed) (hps : m.pathsIn p = .ok ps)
    {question : Path → Except SystemError Bool} (hqs : sift question ps = .ok qs) (kind : Node → Bool)
    (also : Path → Prop) (hquestion : ∀ q, question q = .ok true ↔ Path.isHiddenName q.name = false ∧
      m.isLink q = .ok false ∧ (m.probe q true).map (·.any kind) = .ok true ∧ also q) :
    q ∈ qs ↔ p.ShownIn q ∧ (∃ n, m.LeadsTo q n ∧ kind n = true) ∧ also q := by
  obtain ⟨-, rfl⟩ := sift_eq_ok_iff.1 hqs
  simp only [List.mem_filter, decide_eq_true_eq, hquestion]
  constructor
  · rintro ⟨hmem, hhidden, hlink, hkind, halso⟩
    obtain ⟨-, heq⟩ := pathsIn_eq_ok (h.status true) hps
    obtain ⟨name, -, rfl⟩ := List.mem_map.1 (heq ▸ hmem)
    obtain ⟨child, hchild⟩ := (mem_pathsIn_iff h hps).1 hmem
    have hname := (isPart_of_isName (Node.isName_of_get? hm.hasNames hchild name (by simp))).1
    rw [Path.name_child] at hhidden
    exact ⟨⟨name, hname, hhidden, rfl⟩, (exists_leadsTo_child_iff h hm hname
      (Path.ne_dotDot_of_isHiddenName hhidden) kind).2 ⟨hlink, hkind⟩, halso⟩
  · rintro ⟨⟨name, hname, hhidden, rfl⟩, hleads, halso⟩
    obtain ⟨hlink, hkind⟩ :=
      (exists_leadsTo_child_iff h hm hname (Path.ne_dotDot_of_isHiddenName hhidden) kind).1 hleads
    obtain ⟨child, hchild, -⟩ := hleads
    exact ⟨(mem_pathsIn_iff h hps).2 ⟨child, hchild.get?⟩, by rwa [Path.name_child], hlink, hkind, halso⟩

theorem mem_sourcesIn_iff (h : m.LeadsTo p n) (hm : m.WellFormed) (hqs : m.sourcesIn accepts p = .ok qs) :
    q ∈ qs ↔ m.IsSourceIn accepts p q := by
  obtain ⟨ps, hps, hqs⟩ := sift_pathsIn_eq_ok_iff.1 hqs
  rw [mem_sift_pathsIn_iff h hm hps hqs Node.isRegular (fun q => accepts (lower q.suffix) = true)
    fun q => isSource_eq_ok_true_iff]
  exact ⟨fun ⟨hshown, hleads, haccepted⟩ => ⟨hshown, hleads, haccepted⟩,
    fun ⟨hshown, hleads, haccepted⟩ => ⟨hshown, hleads, haccepted⟩⟩

theorem mem_groupsIn_iff (h : m.LeadsTo p n) (hm : m.WellFormed) (hqs : m.groupsIn p = .ok qs) :
    q ∈ qs ↔ m.IsGroupIn p q := by
  obtain ⟨ps, hps, hqs⟩ := sift_pathsIn_eq_ok_iff.1 hqs
  rw [mem_sift_pathsIn_iff h hm hps hqs Node.isDirectory (fun _ => True)
    fun q => by rw [isGroup_eq_ok_true_iff, and_true]; rfl]
  exact ⟨fun ⟨hshown, hleads, _⟩ => ⟨hshown, hleads⟩, fun ⟨hshown, hleads⟩ => ⟨hshown, hleads, trivial⟩⟩

/-- No path is listed twice, and so none is found twice. -/
theorem nodup_pathsIn (hdistinct : m.root.hasDistinctNames = true) (h : m.LeadsTo p n) (hps : m.pathsIn p = .ok ps) :
    ps.Nodup := by
  obtain ⟨hdirectory, rfl⟩ := pathsIn_eq_ok (h.status true) hps
  refine List.Nodup.map p.child_injective ?_
  cases n with
  | directory entries mode =>
    exact ((List.mergeSort_perm entries _).map _).nodup_iff.2 (Node.nodup_names_of_get? hdistinct h.get?)
  | _ => simp [Node.isDirectory] at hdirectory

theorem nodup_sift_pathsIn (hdistinct : m.root.hasDistinctNames = true) (h : m.LeadsTo p n)
    {question : Path → Except SystemError Bool}
    (hqs : (m.pathsIn p >>= fun ps => (sift question ps).mapError (AccessError.fault ∘ .system)) = .ok qs) :
    qs.Nodup := by
  obtain ⟨ps, hps, hqs⟩ := sift_pathsIn_eq_ok_iff.1 hqs
  rw [(sift_eq_ok_iff.1 hqs).2]
  exact (nodup_pathsIn hdistinct h hps).filter _

theorem nodup_sourcesIn (hdistinct : m.root.hasDistinctNames = true) (h : m.LeadsTo p n)
    (hqs : m.sourcesIn accepts p = .ok qs) : qs.Nodup := nodup_sift_pathsIn hdistinct h hqs

theorem nodup_groupsIn (hdistinct : m.root.hasDistinctNames = true) (h : m.LeadsTo p n)
    (hqs : m.groupsIn p = .ok qs) : qs.Nodup := nodup_sift_pathsIn hdistinct h hqs

/-! ### The directory and its groups -/

/-- A path stands in a directory, or in a group of it: a directory in it that is neither hidden nor a link. Its own name
is not hidden. -/
inductive StandsIn (m : Machine) (p : Path) : SourceFile → Prop
  | top {q : Path} : p.ShownIn q → StandsIn m p ⟨none, q⟩
  | grouped {g q : Path} {n : Node} : p.ShownIn g → m.status g.text false = .ok n → n.isDirectory = true →
      g.ShownIn q → StandsIn m p ⟨some g.name, q⟩

variable {s : SourceFile}

/-- What stands in a directory has its names below the directory. -/
theorem StandsIn.path_eq (h : m.StandsIn p s) : s.path = { p with parts := p.parts ++ s.names } ∧
    ∀ name ∈ s.names, Path.IsPart name ∧ name ≠ dotDot := by
  rcases h with @⟨q, hshown⟩ | @⟨g, q, n, hgroup, -, -, hshown⟩
  · obtain ⟨name, hname, hhidden, rfl⟩ := hshown
    exact ⟨by simp [SourceFile.names, Path.child, Path.name],
      by simpa [SourceFile.names] using ⟨hname, Path.ne_dotDot_of_isHiddenName hhidden⟩⟩
  · obtain ⟨group, hgroupName, hgroupHidden, rfl⟩ := hgroup
    obtain ⟨name, hname, hhidden, rfl⟩ := hshown
    exact ⟨by simp [SourceFile.names, Path.child, Path.name], by
      simpa [SourceFile.names] using ⟨⟨hgroupName, Path.ne_dotDot_of_isHiddenName hgroupHidden⟩,
        hname, Path.ne_dotDot_of_isHiddenName hhidden⟩⟩

/-- A source file is discovered in a directory if it stands there, leads to a file by name alone, and has an extension
that is accepted. -/
structure IsDiscoveredIn (m : Machine) (accepts : Text → Bool) (p : Path) (s : SourceFile) : Prop where
  standsIn : m.StandsIn p s
  leadsTo : ∃ n, m.LeadsTo s.path n ∧ n.isRegular = true
  accepted : accepts (lower s.path.suffix) = true

/-- The sources of a group. -/
def GroupsTo (m : Machine) (accepts : Text → Bool) (g : Path) (sources : List SourceFile) : Prop :=
  ∃ qs, m.sourcesIn accepts g = .ok qs ∧ sources = qs.map (SourceFile.mk (some g.name))

variable {sources : List SourceFile} {groups : List Path} {grouped : List (List SourceFile)}

theorem discoverBy_eq_ok_iff_exists : m.discoverBy accepts p = .ok sources ↔
    ∃ top groups grouped, m.sourcesIn accepts p = .ok top ∧ m.groupsIn p = .ok groups ∧
      List.Forall₂ (m.GroupsTo accepts) groups grouped ∧ sources = top.map (SourceFile.mk none) ++ grouped.flatten := by
  have hgroup (g : Path) (found : List SourceFile) :
      (do return (← m.sourcesIn accepts g).map (SourceFile.mk (some g.name)) :
        Except AccessError (List SourceFile)) = .ok found ↔ m.GroupsTo accepts g found := by
    rw [bind_eq_ok_iff]
    constructor
    · rintro ⟨qs, hqs, h⟩
      exact ⟨qs, hqs, (Except.ok.inj h).symm⟩
    · rintro ⟨qs, hqs, rfl⟩
      exact ⟨qs, hqs, rfl⟩
  constructor
  · intro h
    obtain ⟨top, htop, h⟩ := bind_eq_ok_iff.1 h
    obtain ⟨groups, hgroups, h⟩ := bind_eq_ok_iff.1 h
    obtain ⟨grouped, hgrouped, h⟩ := bind_eq_ok_iff.1 h
    exact ⟨top, groups, grouped, htop, hgroups, (mapM_eq_ok_iff.1 hgrouped).imp fun g found => (hgroup g found).1,
      (Except.ok.inj h).symm⟩
  · rintro ⟨top, groups, grouped, htop, hgroups, hgrouped, rfl⟩
    refine bind_eq_ok_iff.2 ⟨top, htop, bind_eq_ok_iff.2 ⟨groups, hgroups, bind_eq_ok_iff.2 ⟨grouped, ?_, rfl⟩⟩⟩
    exact mapM_eq_ok_iff.2 (hgrouped.imp fun g found => (hgroup g found).2)

/-- The sources of groups are those of each of them. -/
theorem mem_flatten_iff (hm : m.WellFormed) (hgroups : ∀ g ∈ groups, ∃ n, m.LeadsTo g n)
    (h : List.Forall₂ (m.GroupsTo accepts) groups grouped) :
    s ∈ grouped.flatten ↔ ∃ g ∈ groups, s.group = some g.name ∧ m.IsSourceIn accepts g s.path := by
  induction h with
  | nil => simp
  | @cons g sources groups grouped hg _ ih =>
    obtain ⟨⟨n, hn⟩, hgroups⟩ := List.forall_mem_cons.1 hgroups
    obtain ⟨qs, hqs, rfl⟩ := hg
    rw [List.flatten_cons, List.mem_append, ih hgroups, List.exists_mem_cons_iff, ← mem_sourcesIn_iff hn hm hqs]
    refine or_congr_left ?_
    rw [List.mem_map]
    constructor
    · rintro ⟨q, hq, rfl⟩
      exact ⟨rfl, hq⟩
    · rintro ⟨hgroup, hpath⟩
      exact ⟨s.path, hpath, by rw [← hgroup]⟩

/-- A path in a group leads by name alone past the group. -/
theorem isGroupIn_of_shownIn (hm : m.WellFormed) (hgroup : p.ShownIn q) (hstatus : m.status q.text false = .ok n)
    (hn : n.isDirectory = true) {x : Path} (hshown : q.ShownIn x) (hleads : ∃ n, m.LeadsTo x n) : m.IsGroupIn p q := by
  obtain ⟨name, -, -, rfl⟩ := hshown
  obtain ⟨y, hy⟩ := hleads
  -- The path of the group is a beginning of the path in it.
  obtain ⟨g, hg⟩ := hy.of_prefix hm (List.prefix_append q.parts [name])
  obtain rfl := Except.ok.inj (hg.status_eq.symm.trans hstatus)
  exact ⟨hgroup, g, hg, hn⟩

/-- What is discovered in a directory. -/
theorem mem_discoverBy_iff (h : m.LeadsTo p n) (hm : m.WellFormed) (hsources : m.discoverBy accepts p = .ok sources) :
    s ∈ sources ↔ m.IsDiscoveredIn accepts p s := by
  obtain ⟨top, groups, grouped, htop, hgroups, hgrouped, rfl⟩ := discoverBy_eq_ok_iff_exists.1 hsources
  have hgroup {g : Path} : g ∈ groups ↔ m.IsGroupIn p g := mem_groupsIn_iff h hm hgroups
  have hleads : ∀ g ∈ groups, ∃ n, m.LeadsTo g n := fun g hg =>
    (hgroup.1 hg).leadsTo.imp fun _ hn => hn.1
  rw [List.mem_append, mem_flatten_iff hm hleads hgrouped, List.mem_map]
  constructor
  · rintro (⟨q, hq, rfl⟩ | ⟨g, hg, hname, hsource⟩)
    · have hsource := (mem_sourcesIn_iff h hm htop).1 hq
      exact ⟨.top hsource.shown, hsource.leadsTo, hsource.accepted⟩
    · obtain ⟨group, path⟩ := s
      obtain rfl : group = some g.name := hname
      obtain ⟨hshown, x, hx, hdirectory⟩ := hgroup.1 hg
      exact ⟨.grouped hshown hx.status_eq hdirectory hsource.shown, hsource.leadsTo, hsource.accepted⟩
  · rintro ⟨hstands, hleadsTo, haccepted⟩
    cases hstands with
    | top hshown => exact .inl ⟨_, (mem_sourcesIn_iff h hm htop).2 ⟨hshown, hleadsTo, haccepted⟩, rfl⟩
    | grouped hg hstatus hdirectory hshown =>
      have hgroupIn := isGroupIn_of_shownIn hm hg hstatus hdirectory hshown (hleadsTo.imp fun _ hn => hn.1)
      exact .inr ⟨_, hgroup.2 hgroupIn, rfl, hshown, hleadsTo, haccepted⟩

/-- The sources of groups are in different directories. -/
theorem nodup_map_path_flatten (hm : m.WellFormed) (hdistinct : m.root.hasDistinctNames = true)
    (hgroups : ∀ g ∈ groups, ∃ n, m.LeadsTo g n) (hnodup : groups.Nodup)
    (h : List.Forall₂ (m.GroupsTo accepts) groups grouped) : (grouped.flatten.map SourceFile.path).Nodup := by
  induction h with
  | nil => exact List.nodup_nil
  | @cons g sources groups grouped hg hrest ih =>
    obtain ⟨⟨n, hn⟩, hgroups⟩ := List.forall_mem_cons.1 hgroups
    obtain ⟨hg', hnodup⟩ := List.nodup_cons.1 hnodup
    obtain ⟨qs, hqs, rfl⟩ := hg
    rw [List.flatten_cons, List.map_append, SourceFile.map_path_map_mk, List.nodup_append]
    refine ⟨nodup_sourcesIn hdistinct hn hqs, ih hgroups hnodup, fun q hq q' hq' heq => ?_⟩
    -- The directory of a source says which group it is in.
    subst heq
    obtain ⟨s, hs, rfl⟩ := List.mem_map.1 hq'
    obtain ⟨g', hmem, -, hsource⟩ := (mem_flatten_iff hm hgroups hrest).1 hs
    have hparent := ((mem_sourcesIn_iff hn hm hqs).1 hq).shown.parent_eq
    exact hg' ((hparent.symm.trans hsource.shown.parent_eq) ▸ hmem)

/-- No file is discovered twice. -/
theorem nodup_map_path (h : m.LeadsTo p n) (hm : m.WellFormed) (hdistinct : m.root.hasDistinctNames = true)
    (hsources : m.discoverBy accepts p = .ok sources) : (sources.map SourceFile.path).Nodup := by
  obtain ⟨top, groups, grouped, htop, hgroups, hgrouped, rfl⟩ := discoverBy_eq_ok_iff_exists.1 hsources
  have hgroup {g : Path} (hg : g ∈ groups) : m.IsGroupIn p g := (mem_groupsIn_iff h hm hgroups).1 hg
  have hleads : ∀ g ∈ groups, ∃ n, m.LeadsTo g n := fun g hg => (hgroup hg).leadsTo.imp fun _ hn => hn.1
  rw [List.map_append, SourceFile.map_path_map_mk, List.nodup_append]
  refine ⟨nodup_sourcesIn hdistinct h htop,
    nodup_map_path_flatten hm hdistinct hleads (nodup_groupsIn hdistinct h hgroups) hgrouped,
    fun q hq q' hq' heq => ?_⟩
  -- A source of the directory itself would have to be in a group that is the directory.
  subst heq
  obtain ⟨s, hs, rfl⟩ := List.mem_map.1 hq'
  obtain ⟨g, hg, -, hsource⟩ := (mem_flatten_iff hm hleads hgrouped).1 hs
  have hparent : p = g :=
    ((mem_sourcesIn_iff h hm htop).1 hq).shown.parent_eq.symm.trans hsource.shown.parent_eq
  obtain ⟨name, -, -, hchild⟩ := (hgroup hg).shown
  exact Path.child_ne p name (hchild.symm.trans hparent.symm)

/-! ### Discoveries that come to an end -/

/-- A directory can be looked through: it may be listed, and what is in it and not hidden can be looked at. -/
structure LooksThrough (m : Machine) (p : Path) : Prop where
  listed : ∃ entries, m.list p = .ok entries
  seen : ∀ q, p.ShownIn q → (∃ child, m.root.get? q.parts = some child) → ∃ x, m.status q.text false = .ok x

/-- What is hidden is not looked at, and what can be looked at is a source or none, and a group or none. -/
theorem LooksAt.exists_answer {question : Path → Except SystemError Bool} {kind : Text → Node → Bool}
    (h : m.LooksAt question kind) (hq : Path.isHiddenName q.name = true ∨ ∃ x, m.status q.text false = .ok x) :
    ∃ answer, question q = .ok answer := by
  by_cases hhidden : Path.isHiddenName q.name = true
  · exact ⟨_, h.hidden q hhidden⟩
  · obtain ⟨x, hx⟩ := hq.resolve_left hhidden
    exact ⟨_, h.seen q x (by simpa using hhidden) hx⟩

/-- A question that has an answer for all that can be looked at is answered for all paths of such a directory. -/
theorem LooksThrough.exists_sift (hlooks : m.LooksThrough p) (h : m.LeadsTo p n) (hm : m.WellFormed)
    (question : Path → Except SystemError Bool)
    (hquestion : ∀ q, Path.isHiddenName q.name = true ∨ (∃ x, m.status q.text false = .ok x) →
      ∃ answer, question q = .ok answer) : ∃ ps qs, m.pathsIn p = .ok ps ∧ sift question ps = .ok qs := by
  obtain ⟨entries, hentries⟩ := hlooks.listed
  have hps : m.pathsIn p = .ok (entries.names.map p.child) := bind_eq_ok_iff.2 ⟨entries, hentries, rfl⟩
  refine ⟨_, _, hps, sift_eq_ok_iff.2 ⟨fun q hq => hquestion q ?_, rfl⟩⟩
  obtain ⟨name, -, rfl⟩ := List.mem_map.1 hq
  obtain ⟨child, hchild⟩ := (mem_pathsIn_iff h hps).1 hq
  have hname := (isPart_of_isName (Node.isName_of_get? hm.hasNames hchild name (by simp))).1
  cases hhidden : Path.isHiddenName name with
  | true => exact .inl (by rwa [Path.name_child])
  | false => exact .inr (hlooks.seen _ ⟨name, hname, hhidden, rfl⟩ ⟨child, hchild⟩)

theorem LooksThrough.exists_sourcesIn (hlooks : m.LooksThrough p) (h : m.LeadsTo p n) (hm : m.WellFormed)
    (accepts : Text → Bool) : ∃ qs, m.sourcesIn accepts p = .ok qs := by
  obtain ⟨ps, qs, hps, hqs⟩ := hlooks.exists_sift h hm (m.isSource accepts) fun q hq => (looksAt_isSource accepts).exists_answer hq
  exact ⟨qs, sift_pathsIn_eq_ok_iff.2 ⟨ps, hps, hqs⟩⟩

theorem LooksThrough.exists_groupsIn (hlooks : m.LooksThrough p) (h : m.LeadsTo p n) (hm : m.WellFormed) :
    ∃ qs, m.groupsIn p = .ok qs := by
  obtain ⟨ps, qs, hps, hqs⟩ := hlooks.exists_sift h hm m.isGroup fun q hq => looksAt_isGroup.exists_answer hq
  exact ⟨qs, sift_pathsIn_eq_ok_iff.2 ⟨ps, hps, hqs⟩⟩

/-- A discovery comes to an end if the directory and its groups can be looked through. -/
theorem exists_discoverBy (h : m.LeadsTo p n) (hm : m.WellFormed) (hlooks : m.LooksThrough p)
    (hgroups : ∀ g, m.IsGroupIn p g → m.LooksThrough g) (accepts : Text → Bool) :
    ∃ sources, m.discoverBy accepts p = .ok sources := by
  obtain ⟨top, htop⟩ := hlooks.exists_sourcesIn h hm accepts
  obtain ⟨groups, hgroupsIn⟩ := hlooks.exists_groupsIn h hm
  have hgrouped : ∀ g ∈ groups, ∃ sources, (do
      return (← m.sourcesIn accepts g).map (SourceFile.mk (some g.name)) : Except AccessError (List SourceFile)) =
        .ok sources := by
    intro g hg
    have hgroup := (mem_groupsIn_iff h hm hgroupsIn).1 hg
    obtain ⟨x, hx, -⟩ := hgroup.leadsTo
    obtain ⟨qs, hqs⟩ := (hgroups g hgroup).exists_sourcesIn hx hm accepts
    exact ⟨_, bind_eq_ok_iff.2 ⟨qs, hqs, rfl⟩⟩
  obtain ⟨grouped, hgrouped⟩ := exists_mapM_eq_ok hgrouped
  exact ⟨_, bind_eq_ok_iff.2 ⟨top, htop, bind_eq_ok_iff.2 ⟨groups, hgroupsIn, bind_eq_ok_iff.2 ⟨grouped, hgrouped, rfl⟩⟩⟩⟩

end Machine
end CodeSnippets
