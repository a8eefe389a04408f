import CodeSnippets.Proofs.DirectoryEntries
import Mathlib.Data.List.Permutation

/-!
# Discovery in canonical order

What is discovered in a directory is settled by the nodes in it and in its groups: by their names and by what they are,
but neither by the order in which the system has them nor by anything further below.

* `Node.IsEligible`: the sources in a directory and its groups.
* `SourceFile.Precedes`: the order of sources.
* `Machine.discoverBy_eq_ok_iff`: a discovery that comes to an end, and what it finds.
* `Node.mem_discovered_iff`, `Node.pairwise_discovered`: all sources are found, in order.
* `Node.Alike`, `Node.discovered_congr`: the nodes that do not matter.
* `Machine.isSystem_of_discoverBy`: why a discovery comes to no end.
* `Machine.discover_canonical`: all of these.
* `Machine.not_forall_listed_discovered`: a directory that can be listed, and in which nothing can be looked at.
-/

namespace CodeSnippets

open Text

/-! ### The order of sources -/

namespace SourceFile

variable {s s' : SourceFile}

/-- The sources of a directory itself come first, in the order of their names, and then those of its groups in the order
of the names of group and file. -/
def Precedes (s s' : SourceFile) : Prop :=
  match s.group, s'.group with
  | none, none => Before s.path.name s'.path.name
  | none, some _ => True
  | some _, none => False
  | some g, some g' => Before g g' ∨ g = g' ∧ Before s.path.name s'.path.name

theorem Precedes.asymm (h : s.Precedes s') : ¬ s'.Precedes s := by
  obtain ⟨group, path⟩ := s
  obtain ⟨group', path'⟩ := s'
  cases group with
  | none =>
    cases group' with
    | none => exact Before.asymm h
    | some g' => exact id
  | some g =>
    cases group' with
    | none => exact h.elim
    | some g' =>
      rcases h with h | ⟨rfl, h⟩
      · rintro (h' | ⟨rfl, -⟩)
        · exact h.asymm h'
        · exact not_before_self _ h
      · rintro (h' | ⟨-, h'⟩)
        · exact not_before_self _ h'
        · exact h.asymm h'

theorem Precedes.ne (h : s.Precedes s') : s ≠ s' := by
  rintro rfl
  exact h.asymm h

end SourceFile

namespace Node

variable {n n' x x' : Node} {name f g : Text} {l : Location} {accepts : Text → Bool} {kind : Text → Node → Bool} {p : Path}
  {s : SourceFile} {depth : Nat}

/-! ### Nodes of a tree -/

theorem hasNames_of_get? (h : n.hasNames = true) (hx : n.get? l = some x) : x.hasNames = true :=
  of_get? (P := (·.hasNames = true)) (fun hnode hchild => (haveNames_get? (by simpa [hasNames] using hnode) hchild).2)
    h hx

theorem isName_of_mem_names (h : n.hasNames = true) (hname : name ∈ n.entries.names) : isName name = true := by
  obtain ⟨x, hx⟩ := Named.mem_names_iff.1 hname
  exact isName_of_get? h (get?_singleton hx) name (by simp)

theorem nodup_names (h : n.hasDistinctNames = true) : n.entries.names.Nodup := by
  cases n with
  | directory entries mode => exact nodup_names_of_get? (l := []) h rfl
  | _ => exact List.nodup_nil

/-! ### What is found -/

/-- A name in a directory is that of a source: it stands for a file, is not hidden, and has an extension that is
accepted. -/
structure HasSource (n : Node) (accepts : Text → Bool) (name : Text) : Prop where
  entry : ∃ x, n.entries.get? name = some x ∧ x.isRegular = true
  shown : Path.isHiddenName name = false
  accepted : accepts (lower (Path.cutName name).2) = true

/-- A name in a directory is that of a group: it stands for a directory and is not hidden. -/
structure HasGroup (n : Node) (name : Text) (x : Node) : Prop where
  entry : n.entries.get? name = some x
  directory : x.isDirectory = true
  shown : Path.isHiddenName name = false

/-- What is to be found in a directory: its sources, and those of its groups. -/
inductive IsEligible (n : Node) (accepts : Text → Bool) (p : Path) : SourceFile → Prop
  | top {f : Text} : n.HasSource accepts f → IsEligible n accepts p ⟨none, p.child f⟩
  | grouped {g f : Text} {x : Node} : n.HasGroup g x → x.HasSource accepts f →
      IsEligible n accepts p ⟨some g, (p.child g).child f⟩

/-- What is discovered in a directory. -/
def discovered (accepts : Text → Bool) (p : Path) (n : Node) : List SourceFile :=
  (n.sourceNames accepts).map (fun f => ⟨none, p.child f⟩) ++
    n.groups.flatMap fun e => (e.2.sourceNames accepts).map fun f => ⟨some e.1, (p.child e.1).child f⟩

theorem mem_entriesOf_iff (h : n.entries.names.Nodup) {e : Text × Node} :
    e ∈ n.entriesOf kind ↔
      n.entries.get? e.1 = some e.2 ∧ Path.isHiddenName e.1 = false ∧ kind e.1 e.2 = true := by
  rw [entriesOf, List.mem_filter, Named.mem_sorted, Named.get?_eq_some_iff_mem h]
  simp

theorem pairwise_names_entriesOf (h : n.entries.names.Nodup) : (n.entriesOf kind).names.Pairwise Before :=
  (Named.pairwise_names_sorted h).sublist (List.filter_sublist.map _)

theorem mem_sourceNames_iff (h : n.entries.names.Nodup) : f ∈ n.sourceNames accepts ↔ n.HasSource accepts f := by
  constructor
  · intro hf
    obtain ⟨e, he, rfl⟩ := List.mem_map.1 hf
    obtain ⟨hentry, hshown, hkind⟩ := (mem_entriesOf_iff h).1 he
    rw [Bool.and_eq_true] at hkind
    exact ⟨⟨e.2, hentry, hkind.1⟩, hshown, hkind.2⟩
  · rintro ⟨⟨x, hentry, hregular⟩, hshown, haccepted⟩
    have hmem : (f, x) ∈ n.entriesOf fun name x => x.isRegular && accepts (lower (Path.cutName name).2) :=
      (mem_entriesOf_iff h).2 ⟨hentry, hshown, by rw [hregular, haccepted]; rfl⟩
    exact List.mem_map_of_mem hmem

theorem mem_groups_iff (h : n.entries.names.Nodup) : (g, x) ∈ n.groups ↔ n.HasGroup g x := by
  rw [groups, mem_entriesOf_iff h]
  exact ⟨fun ⟨hentry, hshown, hdirectory⟩ => ⟨hentry, hdirectory, hshown⟩,
    fun ⟨hentry, hdirectory, hshown⟩ => ⟨hentry, hshown, hdirectory⟩⟩

theorem HasGroup.nodup_names (h : n.HasGroup g x) (hn : n.hasDistinctNames = true) : x.entries.names.Nodup :=
  Node.nodup_names (hasDistinctNames_of_get? hn (get?_singleton h.entry))

/-- All sources are discovered, and nothing else. -/
theorem mem_discovered_iff (hn : n.hasDistinctNames = true) : s ∈ n.discovered accepts p ↔ n.IsEligible accepts p s := by
  have hnodup := Node.nodup_names hn
  rw [discovered, List.mem_append, List.mem_map, List.mem_flatMap]
  constructor
  · rintro (⟨f, hf, rfl⟩ | ⟨⟨g, x⟩, hg, hs⟩)
    · exact .top ((mem_sourceNames_iff hnodup).1 hf)
    · have hgroup := (mem_groups_iff hnodup).1 hg
      obtain ⟨f, hf, rfl⟩ := List.mem_map.1 hs
      exact .grouped hgroup ((mem_sourceNames_iff (hgroup.nodup_names hn)).1 hf)
  · intro h
    cases h with
    | top hf => exact .inl ⟨_, (mem_sourceNames_iff hnodup).2 hf, rfl⟩
    | grouped hg hf =>
      exact .inr ⟨_, (mem_groups_iff hnodup).2 hg,
        List.mem_map_of_mem ((mem_sourceNames_iff (hg.nodup_names hn)).2 hf)⟩

/-- What is discovered is in order. -/
theorem pairwise_discovered (hn : n.hasDistinctNames = true) : (n.discovered accepts p).Pairwise SourceFile.Precedes := by
  have hnodup := Node.nodup_names hn
  rw [discovered, List.pairwise_append]
  refine ⟨?_, ?_, ?_⟩
  · refine List.pairwise_map.2 ((pairwise_names_entriesOf hnodup).imp fun {f f'} h => ?_)
    simpa [SourceFile.Precedes] using h
  · rw [List.pairwise_flatMap]
    constructor
    · rintro ⟨g, x⟩ hg
      have hgroup := (mem_groups_iff hnodup).1 hg
      refine List.pairwise_map.2 ((pairwise_names_entriesOf (hgroup.nodup_names hn)).imp fun {f f'} h => ?_)
      exact .inr ⟨rfl, by simpa using h⟩
    · have hgroups : n.groups.Pairwise fun e e' => Before e.1 e'.1 := List.pairwise_map.1 (pairwise_names_entriesOf hnodup)
      refine hgroups.imp fun {e e'} h s hs s' hs' => ?_
      obtain ⟨f, -, rfl⟩ := List.mem_map.1 hs
      obtain ⟨f', -, rfl⟩ := List.mem_map.1 hs'
      exact .inl h
  · -- The sources of the directory itself come before all others.
    intro s hs s' hs'
    obtain ⟨f, -, rfl⟩ := List.mem_map.1 hs
    obtain ⟨e, -, hs'⟩ := List.mem_flatMap.1 hs'
    obtain ⟨f', -, rfl⟩ := List.mem_map.1 hs'
    trivial

/-! ### Nodes that do not matter -/

/-- Two nodes are alike down to a depth: the same names stand in them for files, and for directories that may be listed
and looked into alike. Nothing is said of the order of entries, of what files hold, or of where links lead. -/
def Alike : Nat → Node → Node → Prop
  | 0, x, y => x.isRegular = y.isRegular ∧ x.isDirectory = y.isDirectory
  | depth + 1, x, y =>
    (x.isRegular = y.isRegular ∧ x.isDirectory = y.isDirectory) ∧
      (x.isDirectory = true → x.mayRead = y.mayRead ∧ x.mayRun = y.mayRun) ∧
        ∀ name, Option.Rel (Alike depth) (x.entries.get? name) (y.entries.get? name)

theorem Alike.kind_eq (h : Alike depth n n') : n.isRegular = n'.isRegular ∧ n.isDirectory = n'.isDirectory := by
  cases depth with
  | zero => exact h
  | succ depth => exact h.1

theorem Alike.symm (h : Alike depth n n') : Alike depth n' n := by
  induction depth generalizing n n' with
  | zero => exact ⟨h.1.symm, h.2.symm⟩
  | succ depth ih =>
    obtain ⟨⟨hregular, hdirectory⟩, hmay, hentries⟩ := h
    refine ⟨⟨hregular.symm, hdirectory.symm⟩, fun h => ?_, fun name => ?_⟩
    · obtain ⟨hread, hrun⟩ := hmay (hdirectory.trans h)
      exact ⟨hread.symm, hrun.symm⟩
    · have hentry := hentries name
      generalize n.entries.get? name = entry, n'.entries.get? name = entry' at hentry ⊢
      cases hentry with
      | some h => exact .some (ih h)
      | none => exact .none

theorem Alike.exists_entry (h : Alike (depth + 1) n n') (hx : n.entries.get? name = some x) :
    ∃ x', n'.entries.get? name = some x' ∧ Alike depth x x' := by
  have hentry := h.2.2 name
  rw [hx] at hentry
  cases hentry' : n'.entries.get? name with
  | none =>
    rw [hentry'] at hentry
    cases hentry
  | some x' =>
    rw [hentry'] at hentry
    cases hentry with
    | some h => exact ⟨x', rfl, h⟩

theorem HasSource.of_alike (hf : n.HasSource accepts f) (h : Alike (depth + 1) n n') : n'.HasSource accepts f := by
  obtain ⟨⟨x, hx, hregular⟩, hshown, haccepted⟩ := hf
  obtain ⟨x', hx', halike⟩ := h.exists_entry hx
  exact ⟨⟨x', hx', halike.kind_eq.1 ▸ hregular⟩, hshown, haccepted⟩

theorem HasGroup.exists_of_alike (hg : n.HasGroup g x) (h : Alike (depth + 1) n n') :
    ∃ x', n'.HasGroup g x' ∧ Alike depth x x' := by
  obtain ⟨x', hx', halike⟩ := h.exists_entry hg.entry
  exact ⟨x', ⟨hx', halike.kind_eq.2 ▸ hg.directory, hg.shown⟩, halike⟩

theorem IsEligible.of_alike (hs : n.IsEligible accepts p s) (h : Alike 2 n n') : n'.IsEligible accepts p s := by
  cases hs with
  | top hf => exact .top (hf.of_alike h)
  | grouped hg hf =>
    obtain ⟨x', hg', halike⟩ := hg.exists_of_alike h
    exact .grouped hg' (hf.of_alike halike)

/-- The order of sources leaves no choice: where the same is to be found, the same is discovered. -/
theorem discovered_congr (hn : n.hasDistinctNames = true) (hn' : n'.hasDistinctNames = true) (h : Alike 2 n n') :
    n.discovered accepts p = n'.discovered accepts p := by
  have hnodup {n : Node} (hn : n.hasDistinctNames = true) : (n.discovered accepts p).Nodup :=
    (pairwise_discovered hn).imp SourceFile.Precedes.ne
  refine List.Perm.eq_of_pairwise (fun s s' _ _ h h' => absurd h' h.asymm) (pairwise_discovered hn)
    (pairwise_discovered hn') ?_
  rw [List.perm_ext_iff_of_nodup (hnodup hn) (hnodup hn')]
  intro s
  rw [mem_discovered_iff hn, mem_discovered_iff hn']
  exact ⟨fun hs => hs.of_alike h, fun hs => hs.of_alike h.symm⟩

end Node

namespace Machine

variable {m m' : Machine} {p : Path} {n n' x x' : Node} {g : Text} {accepts : Text → Bool} {sources : List SourceFile}

/-! ### Discoveries -/

/-- A directory and all its groups can be looked through. -/
structure Explorable (m : Machine) (p : Path) (n : Node) : Prop where
  legible : m.Legible p n
  groups : ∀ g x, n.HasGroup g x → m.Legible (p.child g) x

/-- The nodes that paths lead to are nodes of the tree, or stand for directories that have been removed. -/
theorem hereditary_of_status {followLast : Bool} (hp : p.IsRead) (h : m.status p.text followLast = .ok n)
    {holds : Node → Bool} (hroot : ∀ l x, m.root.get? l = some x → holds x = true)
    (hnone : ∀ x : Node, x.entries = [] → holds x = true) : holds n = true := by
  by_cases hn : n.entries = []
  · exact hnone n hn
  · obtain ⟨-, -, -, place, -, -, -, hplace⟩ := exists_follow_of_status hp h hn
    exact hroot place n hplace

theorem hasNames_of_status {followLast : Bool} (hm : m.WellFormed) (hp : p.IsRead)
    (h : m.status p.text followLast = .ok n) : n.hasNames = true := by
  refine hereditary_of_status hp h (fun l x hx => Node.hasNames_of_get? hm.hasNames hx) fun x hx => ?_
  cases x with
  | directory entries mode =>
    obtain rfl : entries = [] := hx
    rfl
  | _ => rfl

theorem hasDistinctNames_of_status {followLast : Bool} (hdistinct : m.root.hasDistinctNames = true) (hp : p.IsRead)
    (h : m.status p.text followLast = .ok n) : n.hasDistinctNames = true := by
  refine hereditary_of_status hp h (fun l x hx => Node.hasDistinctNames_of_get? hdistinct hx) fun x hx => ?_
  cases x with
  | directory entries mode =>
    obtain rfl : entries = [] := hx
    rfl
  | _ => rfl

theorem isRead_child_of_hasGroup (hp : p.IsRead) (hnames : n.hasNames = true) (hg : n.HasGroup g x) :
    (p.child g).IsRead :=
  hp.child (isPart_of_isName (Node.isName_of_mem_names hnames (Named.mem_names_iff.2 ⟨x, hg.entry⟩))).1

/-- The path of a group leads to it. -/
theorem Legible.status_group (h : m.Legible p n) (hp : p.IsRead) (hn : m.status p.text true = .ok n)
    (hnames : n.hasNames = true) (hg : n.HasGroup g x) : m.status (p.child g).text true = .ok x := by
  have hname := Node.isName_of_mem_names hnames (Named.mem_names_iff.2 ⟨x, hg.entry⟩)
  refine status_eq_of_not_link (h.status_child hp hn hname hg.entry hg.shown) ?_
  cases x with
  | link => cases hg.directory
  | _ => rfl

/-- What is found in a group. -/
theorem Legible.groupsTo_iff (h : m.Legible p n) (hp : p.IsRead) (hn : m.status p.text true = .ok n)
    (hnames : n.hasNames = true) (hdistinct : n.hasDistinctNames = true) (hg : n.HasGroup g x) :
    m.GroupsTo accepts (p.child g) sources ↔ m.Legible (p.child g) x ∧
      sources = (x.sourceNames accepts).map fun f => ⟨some g, (p.child g).child f⟩ := by
  have hx := Node.hasNames_of_get? hnames (Node.get?_singleton hg.entry)
  have hsources {qs : List Path} : m.sourcesIn accepts (p.child g) = .ok qs ↔
      m.Legible (p.child g) x ∧ qs = (x.sourceNames accepts).map (p.child g).child :=
    sourcesIn_eq_ok_iff (isRead_child_of_hasGroup hp hnames hg) (h.status_group hp hn hnames hg)
      (fun _ => Node.isName_of_mem_names hx) (hg.nodup_names hdistinct)
  simp only [GroupsTo, hsources, Path.name_child]
  constructor
  · rintro ⟨_, ⟨hlegible, rfl⟩, rfl⟩
    exact ⟨hlegible, List.map_map⟩
  · rintro ⟨hlegible, rfl⟩
    exact ⟨_, ⟨hlegible, rfl⟩, List.map_map.symm⟩

/-- A discovery comes to an end exactly if the directory and its groups can be looked through. -/
theorem discoverBy_eq_ok_iff (hp : p.IsRead) (hn : m.status p.text true = .ok n) (hnames : n.hasNames = true)
    (hdistinct : n.hasDistinctNames = true) :
    m.discoverBy accepts p = .ok sources ↔ m.Explorable p n ∧ sources = n.discovered accepts p := by
  have hname : ∀ name ∈ n.entries.names, isName name = true := fun _ => Node.isName_of_mem_names hnames
  have hnodup := Node.nodup_names hdistinct
  -- Group by group, what is found in it is what it holds, if it can be looked through.
  have hgrouped (hlegible : m.Legible p n) {grouped : List (List SourceFile)} :
      List.Forall₂ (m.GroupsTo accepts) (n.groups.names.map p.child) grouped ↔
        (∀ e ∈ n.groups, m.Legible (p.child e.1) e.2) ∧
          grouped = n.groups.map fun e => (e.2.sourceNames accepts).map fun f => ⟨some e.1, (p.child e.1).child f⟩ := by
    rw [Named.names, List.map_map, List.forall₂_map_left_iff]
    exact forall₂_iff_of_forall_mem fun e he found =>
      hlegible.groupsTo_iff hp hn hnames hdistinct ((Node.mem_groups_iff hnodup).1 he)
  rw [discoverBy_eq_ok_iff_exists]
  simp only [sourcesIn_eq_ok_iff hp hn hname hnodup, groupsIn_eq_ok_iff hp hn hname hnodup]
  constructor
  · rintro ⟨_, _, grouped, ⟨hlegible, rfl⟩, ⟨-, rfl⟩, h, rfl⟩
    obtain ⟨hgroups, rfl⟩ := (hgrouped hlegible).1 h
    refine ⟨⟨hlegible, fun g x hg => hgroups (g, x) ((Node.mem_groups_iff hnodup).2 hg)⟩, ?_⟩
    rw [Node.discovered, List.map_map, List.flatMap_def]
    rfl
  · rintro ⟨hexplorable, rfl⟩
    have hgroups : ∀ e ∈ n.groups, m.Legible (p.child e.1) e.2 := fun e he =>
      hexplorable.groups e.1 e.2 ((Node.mem_groups_iff hnodup).1 he)
    refine ⟨_, _, _, ⟨hexplorable.legible, rfl⟩, ⟨hexplorable.legible, rfl⟩,
      (hgrouped hexplorable.legible).2 ⟨hgroups, rfl⟩, ?_⟩
    rw [Node.discovered, List.map_map, List.flatMap_def]
    rfl

/-- Whether a directory can be looked through is not a matter of the nodes that do not matter. -/
theorem Legible.of_alike {depth : Nat} (h : m.Legible p n) (hp : p.IsRead) (hn : m.status p.text true = .ok n)
    (hn' : m'.status p.text true = .ok n') (hnames : n.hasNames = true) (hnames' : n'.hasNames = true)
    (halike : Node.Alike (depth + 1) n n') : m'.Legible p n' := by
  obtain ⟨hdirectory, hread, hseen⟩ := (legible_iff hp hn fun _ => Node.isName_of_mem_names hnames).1 h
  have hsame := halike.kind_eq
  obtain ⟨hread', hrun'⟩ := halike.2.1 hdirectory
  refine (legible_iff hp hn' fun _ => Node.isName_of_mem_names hnames').2
    ⟨hsame.2 ▸ hdirectory, hread' ▸ hread, fun name hname hshown => ?_⟩
  obtain ⟨x', hx'⟩ := Named.mem_names_iff.1 hname
  obtain ⟨x, hx, -⟩ := halike.symm.exists_entry hx'
  obtain ⟨htext, hrun, hsize⟩ := hseen name (Named.mem_names_iff.2 ⟨x, hx⟩) hshown
  exact ⟨htext, hrun' ▸ hrun, hsize⟩

theorem Explorable.of_alike (h : m.Explorable p n) (hp : p.IsRead) (hn : m.status p.text true = .ok n)
    (hn' : m'.status p.text true = .ok n') (hnames : n.hasNames = true) (hnames' : n'.hasNames = true)
    (halike : Node.Alike 2 n n') : m'.Explorable p n' := by
  have hlegible := h.legible.of_alike hp hn hn' hnames hnames' halike
  refine ⟨hlegible, fun g x' hg' => ?_⟩
  obtain ⟨x, hg, hx⟩ := hg'.exists_of_alike halike.symm
  exact (h.groups g x hg).of_alike (isRead_child_of_hasGroup hp hnames hg) (h.legible.status_group hp hn hnames hg)
    (hlegible.status_group hp hn' hnames' hg') (Node.hasNames_of_get? hnames (Node.get?_singleton hg.entry))
    (Node.hasNames_of_get? hnames' (Node.get?_singleton hg'.entry)) hx.symm

/-- A discovery that comes to no end has been refused something by the system. -/
theorem isSystem_of_discoverBy {e : AccessError} (hn : m.status p.text true = .ok n) (hnames : n.hasNames = true)
    (h : m.discoverBy accepts p = .error e) : e.isSystem = true := by
  have hnull := null_notMem_of_status hn
  rcases bind_eq_error_iff.1 h with h | ⟨top, -, h⟩
  · exact isSystem_of_sift_pathsIn hnull h
  rcases bind_eq_error_iff.1 h with h | ⟨groups, hgroups, h⟩
  · exact isSystem_of_sift_pathsIn hnull h
  rcases bind_eq_error_iff.1 h with h | ⟨grouped, -, h⟩
  · -- The path of a group has no null character either.
    obtain ⟨g, hg, h⟩ := exists_mem_of_mapM_eq_error h
    obtain ⟨ps, hps, hsift⟩ := sift_pathsIn_eq_ok_iff.1 hgroups
    obtain ⟨-, rfl⟩ := sift_eq_ok_iff.1 hsift
    obtain ⟨-, rfl⟩ := pathsIn_eq_ok hn hps
    obtain ⟨name, hname, rfl⟩ := List.mem_map.1 (List.mem_of_mem_filter hg)
    have hisName := Node.isName_of_mem_names hnames (mem_names_sorted.1 hname)
    rcases bind_eq_error_iff.1 h with h | ⟨qs, -, h⟩
    · exact isSystem_of_sift_pathsIn (null_notMem_child hnull hisName) h
    · cases h
  · cases h

theorem LeadsTo.isSystem_of_discoverBy {e : AccessError} (h : m.LeadsTo p n) (hm : m.WellFormed)
    (he : m.discoverBy accepts p = .error e) : e.isSystem = true :=
  Machine.isSystem_of_discoverBy (h.status true) (hasNames_of_status hm (h.isRead hm) (h.status true)) he

/-- A discovery comes to an end exactly if the directory and its groups can be looked through; otherwise the system has
refused something, which is the error. It finds precisely the sources in the directory and in its groups, none of them
twice, those of the directory first and all in the order of their names; and on every machine that has a directory like it
at the same path, whatever the order of its entries and whatever lies below its groups, the same sources are discovered. -/
theorem discover_canonical (hm : m.WellFormed) (hdistinct : m.root.hasDistinctNames = true) (hp : p.IsRead)
    (hn : m.status p.text true = .ok n) (extensions : List Text) :
    ((∃ sources, m.discover extensions p = .ok sources) ↔ m.Explorable p n) ∧
    (∀ e, m.discover extensions p = .error e → e.isSystem = true) ∧
    ∀ sources, m.discover extensions p = .ok sources →
      (∀ s, s ∈ sources ↔ n.IsEligible extensions.contains p s) ∧ sources.Nodup ∧
      sources.Pairwise SourceFile.Precedes ∧
      ∀ (m' : Machine) (n' : Node), m'.WellFormed → m'.root.hasDistinctNames = true →
        m'.status p.text true = .ok n' → n.Alike 2 n' → m'.discover extensions p = .ok sources := by
  have hnames := hasNames_of_status hm hp hn
  have hdistinctNames := hasDistinctNames_of_status hdistinct hp hn
  have hiff {sources : List SourceFile} : m.discover extensions p = .ok sources ↔ _ :=
    discoverBy_eq_ok_iff hp hn hnames hdistinctNames
  refine ⟨⟨fun ⟨_, h⟩ => (hiff.1 h).1, fun h => ⟨_, hiff.2 ⟨h, rfl⟩⟩⟩, fun _ h => isSystem_of_discoverBy hn hnames h,
    fun sources hsources => ?_⟩
  obtain ⟨hexplorable, rfl⟩ := hiff.1 hsources
  have hordered : (n.discovered extensions.contains p).Pairwise SourceFile.Precedes :=
    Node.pairwise_discovered hdistinctNames
  refine ⟨fun s => Node.mem_discovered_iff hdistinctNames, hordered.imp SourceFile.Precedes.ne, hordered, ?_⟩
  -- What is discovered is a function of the node, and a node like it gives the same.
  intro m' n' hm' hdistinct' hn' halike
  have hnames' := hasNames_of_status hm' hp hn'
  have hdistinctNames' := hasDistinctNames_of_status hdistinct' hp hn'
  refine (discoverBy_eq_ok_iff hp hn' hnames' hdistinctNames').2
    ⟨hexplorable.of_alike hp hn hn' hnames hnames' halike, ?_⟩
  exact Node.discovered_congr hdistinctNames hdistinctNames' halike

/-- A source, and a group with another one. -/
def tidy : Machine where
  root := .directory [("S".toList, .directory
    [("a.swift".toList, .file [] 0o644),
      ("g".toList, .directory [("b.swift".toList, .file [] 0o644), ("d".toList, .directory [] 0o755)] 0o755)] 0o755)] 0o755

/-- The same the other way round, with more below the group. -/
def untidy : Machine where
  root := .directory [("S".toList, .directory
    [("g".toList, .directory
      [("d".toList, .directory [("c.swift".toList, .file [] 0o644)] 0), ("b.swift".toList, .file [120] 0)] 0o700),
      ("a.swift".toList, .file [120] 0)] 0o755)] 0o755

/-- Two entries may stand the other way round. -/
theorem rel_get?_swap {r : Node → Node → Prop} {a b : Text} {x y x' y' : Node} (hne : a ≠ b) (hx : r x x') (hy : r y y')
    (name : Text) : Option.Rel r (Named.get? [(a, x), (b, y)] name) (Named.get? [(b, y'), (a, x')] name) := by
  by_cases ha : a = name
  · subst ha
    simpa [Named.get?_cons, Ne.symm hne] using hx
  by_cases hb : b = name
  · subst hb
    simpa [Named.get?_cons, ha] using hy
  · simp [Named.get?_cons, ha, hb]

theorem tidy_canonical :
    tidy.discover [".swift".toList] ⟨.root, ["S".toList]⟩ =
      .ok [⟨none, ⟨.root, ["S".toList, "a.swift".toList]⟩⟩,
        ⟨some "g".toList, ⟨.root, ["S".toList, "g".toList, "b.swift".toList]⟩⟩] ∧
    untidy.discover [".swift".toList] ⟨.root, ["S".toList]⟩ = tidy.discover [".swift".toList] ⟨.root, ["S".toList]⟩ := by
  have hp : (⟨.root, ["S".toList]⟩ : Path).IsRead :=
    List.forall_mem_singleton.2 ⟨by decide, by decide, by decide⟩
  have hwellFormed : tidy.WellFormed := ⟨rfl, by decide, fun _ => ⟨_, rfl, rfl⟩⟩
  have hwellFormed' : untidy.WellFormed := ⟨rfl, by decide, fun _ => ⟨_, rfl, rfl⟩⟩
  obtain ⟨-, -, hfound⟩ := discover_canonical hwellFormed (by decide) hp rfl [".swift".toList]
  have hsources : tidy.discover [".swift".toList] ⟨.root, ["S".toList]⟩ =
      .ok [⟨none, ⟨.root, ["S".toList, "a.swift".toList]⟩⟩,
        ⟨some "g".toList, ⟨.root, ["S".toList, "g".toList, "b.swift".toList]⟩⟩] := by cbv
  obtain ⟨-, -, -, hlike⟩ := hfound _ hsources
  refine ⟨hsources, (hlike untidy _ hwellFormed' (by decide) rfl ?_).trans hsources.symm⟩
  refine ⟨⟨rfl, rfl⟩, fun _ => ⟨rfl, rfl⟩, rel_get?_swap (by decide) ?_ ?_⟩
  · exact ⟨⟨rfl, rfl⟩, fun h => absurd h (by decide), fun _ => .none⟩
  · exact ⟨⟨rfl, rfl⟩, fun _ => ⟨rfl, rfl⟩, rel_get?_swap (by decide) ⟨rfl, rfl⟩ ⟨rfl, rfl⟩⟩

/-! ### Directories in which nothing can be looked at -/

/-- A directory with a source. -/
def single : Machine where
  root := .directory [("S".toList, .directory [("a.swift".toList, .file [120] 0o644)] 0o755)] 0o755

/-- A path that goes in and out of a directory so often that the system takes no name behind it. -/
def winding : Path := ⟨.relative, "S".toList :: (List.replicate 818 [dotDot, "S".toList]).flatten⟩

theorem isRead_winding : winding.IsRead := by
  intro part hpart
  have hpart : part = "S".toList ∨ part = dotDot := by
    rcases List.mem_cons.1 hpart with hpart | hpart
    · exact .inl hpart
    · obtain ⟨parts, hparts, hpart⟩ := List.mem_flatten.1 hpart
      rw [List.eq_of_mem_replicate hparts] at hpart
      simpa [or_comm] using hpart
  rcases hpart with rfl | rfl
  · exact ⟨by decide, by decide, by decide⟩
  · exact Path.isPart_dotDot

theorem walk_winding (count : Nat) :
    walk single.root true [] ("S".toList :: (List.replicate count [dotDot, "S".toList]).flatten) =
      .ok (.arrived ["S".toList]) := by
  have hfinds : single.root.Finds [] "S".toList (.directory [("a.swift".toList, .file [120] 0o644)] 0o755) :=
    ⟨⟨_, _, rfl, rfl⟩, rfl, by decide, by decide, by decide, by decide⟩
  induction count with
  | zero =>
    rw [walk_cons_of_not_link hfinds rfl]
    rfl
  | succ count ih =>
    -- The way out of the directory leads back to where the way in starts.
    rw [walk_cons_of_not_link hfinds rfl, List.replicate_succ, List.flatten_cons, List.cons_append,
      walk_dotDot_cons ⟨_, _, rfl, rfl⟩]
    exact ih

theorem status_winding :
    single.status winding.text true = .ok (.directory [("a.swift".toList, .file [120] 0o644)] 0o755) := by
  refine (status_eq_ok_iff isRead_winding (.inr rfl)).2 ⟨⟨by decide +kernel, by decide +kernel⟩, ["S".toList], ?_, rfl⟩
  exact follow_of_arrived (walk_winding 818)

/-- Not every directory that can be listed, its groups included, is one in which a discovery comes to an end: behind a
path that is as long as can be there is no room for the names in the directory. -/
theorem not_forall_listed_discovered :
    ¬ ∀ (m : Machine) (p : Path) (n : Node) (extensions : List Text), m.WellFormed → m.root.hasDistinctNames = true →
      p.IsRead → m.status p.text true = .ok n → (∃ entries, m.list p = .ok entries) →
        (∀ g x, n.HasGroup g x → ∃ entries, m.list (p.child g) = .ok entries) →
          ∃ sources, m.discover extensions p = .ok sources := by
  intro h
  have hwellFormed : single.WellFormed := ⟨rfl, by decide, fun _ => ⟨_, rfl, rfl⟩⟩
  have hnames : ∀ name ∈ Named.names [("a.swift".toList, Node.file [120] 0o644)], isName name = true := by decide
  have hgroups (g : Text) (x : Node) : ¬ Node.HasGroup (.directory [("a.swift".toList, .file [120] 0o644)] 0o755) g x := by
    intro hg
    have hmem := Named.mem_of_get?_eq_some hg.entry
    obtain ⟨rfl, rfl⟩ := Prod.mk.inj (List.mem_singleton.1 hmem)
    cases hg.directory
  obtain ⟨sources, hsources⟩ := h single winding _ [".swift".toList] hwellFormed (by decide) isRead_winding status_winding
    ⟨_, (list_eq_ok_iff status_winding).2 ⟨rfl, rfl, rfl⟩⟩ fun g x hg => absurd hg (hgroups g x)
  have hexplorable := ((discoverBy_eq_ok_iff isRead_winding status_winding (by decide) (by decide)).1 hsources).1
  obtain ⟨-, -, hseen⟩ := (legible_iff isRead_winding status_winding hnames).1 hexplorable.legible
  have hsize : Utf8.size (winding.child "a.swift".toList).text ≤ maxPathSize :=
    (hseen "a.swift".toList List.mem_cons_self (by decide)).1
  exact absurd hsize (by decide +kernel)

end Machine
end CodeSnippets
