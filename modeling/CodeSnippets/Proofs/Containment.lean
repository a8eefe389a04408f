import CodeSnippets.Proofs.Resolution
import CodeSnippets.Source.Admission

/-!
# Where admitted paths lead

A path that a user gives is admitted only as a path from the root, on which there is no link and no name of the
directory above, and which goes on where the path of the base directory ends.

* `LiesUnder`: the paths of this kind.
* `status_of_prefix`: what there is at a path without links, and at those before it.
* `liesUnder_of_admitPath_eq_ok`, `admitted_liesUnder`: admitted paths are of this kind.
-/

namespace CodeSnippets

open Text

namespace Path

theorem isRead_of_expandHome {m : Machine} {raw : Text} {p : Path} (h : m.expandHome (.ofText raw) = .ok p) :
    p.IsRead := by
  have hraw := isRead_ofText raw
  unfold Machine.expandHome at h
  split at h
  · rename_i name rest _ hparts
    have hrest : ∀ part ∈ rest, IsPart part := fun part hpart => hraw part (by simp [hparts, hpart])
    split at h
    · cases h
    · rename_i home _
      dsimp only at h
      split at h
      · cases h
      · obtain rfl := Except.ok.inj h
        -- The parts of the home directory come before those that are given.
        intro part hpart
        rcases List.mem_append.1 hpart with hstart | hpart
        · split at hstart
          · cases hstart
          · exact isRead_ofText _ part hstart
        · exact hrest part hpart
  · obtain rfl := Except.ok.inj h
    exact hraw

theorem relativeTo?_eq_some {p base rest : Path} (h : p.relativeTo? base = some rest) :
    p.anchor = base.anchor ∧ base.parts <+: p.parts := by
  unfold relativeTo? at h
  split at h
  · rename_i hunder
    exact hunder.imp_right List.isPrefixOf_iff_prefix.1
  · cases h

theorem mem_selfAndParents {p q : Path} : q ∈ p.selfAndParents ↔ ∃ parts, parts <+: p.parts ∧ q = { p with parts } := by
  constructor
  · intro h
    obtain ⟨i, -, rfl⟩ := List.mem_map.1 h
    exact ⟨_, List.take_prefix _ _, rfl⟩
  · rintro ⟨parts, hparts, rfl⟩
    have hlength := hparts.length_le
    have hindex : p.parts.length - parts.length < p.parts.length + 1 := by omega
    refine List.mem_map.2 ⟨_, List.mem_range.2 hindex, ?_⟩
    rw [Nat.sub_sub_self hlength, ← List.prefix_iff_eq_take.1 hparts]

end Path

namespace Machine

variable {m : Machine} {raw : Text} {base p q : Path} {extensions : List Text}

/-- A path leads name by name, past no link, to a place below a base directory. -/
structure LiesUnder (m : Machine) (p base : Path) : Prop where
  isAbsolute : p.isAbsolute = true
  dotDot_notMem : dotDot ∉ p.parts
  not_link : ∀ q ∈ p.selfAndParents, ∃ n, m.status q.text false = .ok n ∧ n.isLink = false
  anchor_eq : p.anchor = base.anchor
  below : base.parts <+: p.parts

/-- If a path from the root leads to a node by name alone, so does every path before it, and what there is at it is
this node. -/
theorem status_of_prefix (hm : m.WellFormed) (habsolute : p.isAbsolute = true) {n x : Node}
    (hget : m.root.get? p.parts = some n) (hn : n.isLink = false) {followLast : Bool}
    (hstatus : m.status p.text followLast = .ok x) {parts : List Text} (hparts : parts <+: p.parts) :
    ∃ y, m.root.get? parts = some y ∧ y.isLink = false ∧
      ∀ followLast, m.status (Path.text { p with parts }) followLast = .ok y := by
  have hnames := fun name hname => isPart_of_isName (Node.isName_of_get? hm.hasNames hget name hname)
  have hread : p.IsRead := fun name hname => (hnames name hname).1
  have horigin : m.origin p = [] := if_pos habsolute
  obtain ⟨htakes, location, hfollow, -⟩ := (status_eq_ok_iff hread (.inl habsolute)).1 hstatus
  -- What is above the node is a directory.
  have hbefore : ∃ y, m.root.get? parts = some y ∧ y.isLink = false := by
    by_cases heq : parts = p.parts
    · exact ⟨n, heq ▸ hget, hn⟩
    · obtain ⟨entries, mode, hdirectory⟩ := Node.exists_directory_of_prefix hget hparts heq
      exact ⟨_, hdirectory, rfl⟩
  obtain ⟨y, hy, hlink⟩ := hbefore
  refine ⟨y, hy, hlink, fun followLast => ?_⟩
  obtain ⟨rest, hrest⟩ := hparts
  rw [horigin, follow_congr (walk_steps hm habsolute _), ← hrest] at hfollow
  obtain ⟨hwalk, -⟩ := follow_append_of_get? hm.hasNames hy hlink hfollow
  have hparts : parts <+: p.parts := ⟨rest, hrest⟩
  refine (status_eq_ok_iff (hread.of_prefix hparts) (.inl habsolute)).2
    ⟨htakes.of_prefix hparts (.inr habsolute), parts, ?_, hy⟩
  have horigin' : m.origin { p with parts } = [] := if_pos habsolute
  rw [horigin', follow_congr (walk_steps (p := { p with parts }) hm habsolute _)]
  exact follow_of_arrived (walk_eq_of_arrived hwalk)

/-- How a path comes to be admitted. -/
theorem admitPath_eq_ok (h : m.admitPath raw base = .ok p) :
    ∃ path, m.expandHome (.ofText raw) = .ok path ∧ m.passesLink path = false ∧ m.resolveStrict path = .ok p ∧
      p.anchor = base.anchor ∧ base.parts <+: p.parts := by
  unfold admitPath at h
  obtain ⟨path, hhome, h⟩ := bind_eq_ok_iff.1 h
  rw [mapError_eq_ok_iff] at hhome
  dsimp only at h
  cases hlink : m.passesLink path with
  | true =>
    rw [hlink, if_pos rfl] at h
    cases h
  | false =>
    rw [hlink, if_neg Bool.false_ne_true] at h
    split at h
    · -- The path is resolved before it is compared with the base directory.
      rename_i resolved hresolved
      obtain ⟨_, hsame, h⟩ := bind_eq_ok_iff.1 h
      obtain rfl := Except.ok.inj hsame
      split at h
      · rename_i hrelative
        obtain rfl := Except.ok.inj h
        exact ⟨path, hhome, hlink, hresolved, Path.relativeTo?_eq_some hrelative⟩
      · cases h
    · cases h
    · cases h

/-- An admitted path at which there is something leads to it by name, past no link, from the base directory. -/
theorem liesUnder_of_admitPath_eq_ok (hm : m.WellFormed) (h : m.admitPath raw base = .ok p) {x : Node}
    (hstatus : m.status p.text true = .ok x) : m.LiesUnder p base ∧ m.status p.text false = .ok x := by
  obtain ⟨path, hhome, -, hresolved, hanchor, hbelow⟩ := admitPath_eq_ok h
  obtain ⟨hroot, n, hget, hn⟩ := get?_of_resolveStrict_eq_ok hm (Path.isRead_of_expandHome hhome) hresolved
  have habsolute : p.isAbsolute = true := by rw [Path.isAbsolute, hroot]; rfl
  constructor
  · refine ⟨habsolute, fun hmem => ?_, fun q hq => ?_, hanchor, hbelow⟩
    · exact (isPart_of_isName (Node.isName_of_get? hm.hasNames hget _ hmem)).2 rfl
    · obtain ⟨parts, hparts, rfl⟩ := Path.mem_selfAndParents.1 hq
      obtain ⟨y, -, hlink, hy⟩ := status_of_prefix hm habsolute hget hn hstatus hparts
      exact ⟨y, hy false, hlink⟩
  · obtain ⟨y, -, -, hy⟩ := status_of_prefix hm habsolute hget hn hstatus (List.prefix_refl _)
    obtain rfl := Except.ok.inj ((hy true).symm.trans hstatus)
    exact hy false

/-- How a path comes to be admitted as that of a source file. -/
theorem admitFile_eq_ok (h : m.admitFile raw base extensions = .ok p) : m.admitPath raw base = .ok p ∧
    (∃ n, m.status p.text true = .ok n ∧ n.isRegular = true) ∧ lower p.suffix ∈ extensions := by
  unfold admitFile at h
  obtain ⟨resolved, hresolved, h⟩ := bind_eq_ok_iff.1 h
  obtain ⟨regular, hregular, h⟩ := bind_eq_ok_iff.1 h
  rw [mapError_eq_ok_iff] at hregular
  dsimp only at h
  split at h
  · cases h
  split at h
  · cases h
  rename_i hkind hextension
  obtain rfl := Except.ok.inj h
  obtain rfl : regular = true := by simpa using hkind
  exact ⟨hresolved, probe_any_eq_ok_true_iff.1 hregular, by simpa [hasExtension] using hextension⟩

/-- How a path comes to be admitted as that of a directory. -/
theorem admitDirectory_eq_ok (h : m.admitDirectory raw base = .ok p) :
    m.admitPath raw base = .ok p ∧ ∃ n, m.status p.text true = .ok n ∧ n.isDirectory = true := by
  unfold admitDirectory at h
  obtain ⟨resolved, hresolved, h⟩ := bind_eq_ok_iff.1 h
  obtain ⟨directory, hdirectory, h⟩ := bind_eq_ok_iff.1 h
  rw [mapError_eq_ok_iff] at hdirectory
  dsimp only at h
  split at h
  · cases h
  rename_i hkind
  obtain rfl := Except.ok.inj h
  obtain rfl : directory = true := by simpa using hkind
  exact ⟨hresolved, probe_any_eq_ok_true_iff.1 hdirectory⟩

/-- A path that is admitted leads, past no link, to a place below the base directory, and there is a source file or a
directory there, as the case may be. -/
theorem admitted_liesUnder (hm : m.WellFormed) (raw : Text) (base p : Path) (extensions : List Text) :
    (m.admitFile raw base extensions = .ok p → m.LiesUnder p base ∧
      (∃ n, m.status p.text false = .ok n ∧ n.isRegular = true) ∧ lower p.suffix ∈ extensions) ∧
    (m.admitDirectory raw base = .ok p → m.LiesUnder p base ∧
      ∃ n, m.status p.text false = .ok n ∧ n.isDirectory = true) := by
  constructor
  · intro h
    obtain ⟨haccepted, ⟨n, hn, hregular⟩, hextension⟩ := admitFile_eq_ok h
    obtain ⟨hunder, hstatus⟩ := liesUnder_of_admitPath_eq_ok hm haccepted hn
    exact ⟨hunder, ⟨n, hstatus, hregular⟩, hextension⟩
  · intro h
    obtain ⟨haccepted, n, hn, hdirectory⟩ := admitDirectory_eq_ok h
    obtain ⟨hunder, hstatus⟩ := liesUnder_of_admitPath_eq_ok hm haccepted hn
    exact ⟨hunder, n, hstatus, hdirectory⟩

/-- A machine with a source file in a directory, and with a link to this directory. -/
def sample : Machine where
  root := .directory
    [(['s', 'r', 'c'], .directory [(['A', '.', 'S'], .file [] 0o644), (['s', 'u', 'b'], .directory [] 0o755)] 0o755),
      (['s', 'r', 'c', '2'], .directory [] 0o755), (['l', 'i', 'n', 'k'], .link ['s', 'r', 'c'])] 0o755
  cwd := { location := [['s', 'r', 'c']] }

theorem sample_wellFormed : sample.WellFormed :=
  ⟨rfl, by decide, fun _ => ⟨_, rfl, rfl⟩⟩

theorem sample_admitted_liesUnder :
    (sample.LiesUnder ⟨.root, [['s', 'r', 'c'], ['A', '.', 'S']]⟩ ⟨.root, [['s', 'r', 'c']]⟩ ∧
      (∃ n, sample.status ['/', 's', 'r', 'c', '/', 'A', '.', 'S'] false = .ok n ∧ n.isRegular = true) ∧
      lower ['.', 'S'] ∈ [['.', 's']]) ∧
    (sample.LiesUnder ⟨.root, [['s', 'r', 'c'], ['s', 'u', 'b']]⟩ ⟨.root, [['s', 'r', 'c']]⟩ ∧
      ∃ n, sample.status ['/', 's', 'r', 'c', '/', 's', 'u', 'b'] false = .ok n ∧ n.isDirectory = true) :=
  ⟨(admitted_liesUnder sample_wellFormed ['s', 'u', 'b', '/', '.', '.', '/', '/', 'A', '.', 'S'] _ _ _).1 rfl,
    (admitted_liesUnder sample_wellFormed ['.', '.', '/', 's', 'r', 'c', '/', 's', 'u', 'b'] _ _ []).2 rfl⟩

/-- A directory beside the base directory is not under it, whatever its name begins with. -/
example : sample.admitDirectory ['.', '.', '/', 's', 'r', 'c', '2'] ⟨.root, [['s', 'r', 'c']]⟩ =
    .error (.outside ⟨.root, [['s', 'r', 'c', '2']]⟩ ⟨.root, [['s', 'r', 'c']]⟩) :=
  rfl

end Machine
end CodeSnippets
