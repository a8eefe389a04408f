import CodeSnippets.Proofs.CanonicalDiscovery
import CodeSnippets.Proofs.SettingsCheck

/-!
# Extensions as they are written and as they are meant

The check of a draft puts its extensions in normal form before it looks at them, and so do the commands before they read
a directory. Whoever reads the directory by the draft itself has its extensions taken as they are written. A file is read
alike in both ways, and a directory is if the extensions of its files are accepted alike.

* `IsFileName`, `extensionOf`: the names of files and their extensions.
* `Draft.written`, `acceptedBy_eq`: the extensions that a draft writes are those that are accepted.
* `Machine.discoverBy_congr`: the extensions that matter for a discovery.
* `Draft.Spells`, `spells_iff`: drafts that write their extensions as they are meant.
* `Machine.readDirectory_normalized`: which drafts can be put in normal form, the outcome being the same.
* `Machine.not_forall_readDirectory_normalized`: an extension without a dot.
-/

namespace CodeSnippets

open Text

/-! ### Names of files and their extensions -/

/-- A name that a file can have and that is not hidden. -/
structure IsFileName (name : Text) : Prop where
  isName : isName name = true
  shown : Path.isHiddenName name = false
  size_le : Utf8.size name ≤ Machine.maxNameSize

/-- The extension of a name in lower case. -/
def extensionOf (name : Text) : Text := lower (Path.cutName name).2

theorem Text.lower_ne_nil {t : Text} (h : t ≠ []) : lower t ≠ [] := by
  obtain ⟨c, t, rfl⟩ := List.exists_cons_of_ne_nil h
  have hchar : lowerChar c ≠ [] := by
    rw [← List.length_pos_iff, length_lowerChar]
    split <;> decide
  rw [lower, lowerAfter, Ne, List.append_eq_nil_iff, not_and]
  intro hnil
  split at hnil
  · cases hnil
  · exact absurd hnil hchar

/-- A name has no extension, or one that has a dot and more behind it. -/
theorem extensionOf_eq (name : Text) :
    extensionOf name = [] ∨ ∃ s, s ≠ [] ∧ extensionOf name = '.' :: lower s := by
  unfold extensionOf Path.cutName
  split
  · rename_i before after _
    split
    · exact .inl lower_nil
    · rename_i hne
      refine .inr ⟨after, ?_, lower_cons_dot after⟩
      rintro rfl
      simp at hne
  · exact .inl lower_nil

theorem lower_extensionOf (name : Text) : lower (extensionOf name) = extensionOf name := lower_lower _

/-! ### The extensions of a draft -/

namespace Draft

variable {d : Draft} {settings : Settings} {name t : Text} {ts : List Text}

/-- The extensions that a draft writes: the members of the setting that are texts, as they stand. -/
def written (d : Draft) : List Text := (d.extensions.members?.getD []).filterMap Value.asText?

theorem written_draft (settings : Settings) : settings.draft.written = settings.extensions := by
  show (settings.extensions.map Value.text).filterMap Value.asText? = settings.extensions
  rw [List.filterMap_map]
  exact List.filterMap_some

/-- What is written and is the extension of a name is meant as well. -/
theorem mem_of_mem_written (h : extensionList? d.extensions = some ts) (hwritten : extensionOf name ∈ d.written)
    (hne : extensionOf name ≠ []) : extensionOf name ∈ ts := by
  obtain ⟨s, hs, heq⟩ := (extensionOf_eq name).resolve_left hne
  have hextension : IsExtension (extensionOf name) := ⟨by rw [heq]; rfl, lower_extensionOf name⟩
  have hlist (xs : List Value) (hmem : extensionOf name ∈ xs.filterMap Value.asText?) :
      extensionOf name ∈ normalizedExtensions xs := by
    obtain ⟨x, hx, htext⟩ := List.mem_filterMap.1 hmem
    refine List.mem_map.2 ⟨extensionOf name, List.mem_filterMap.2 ⟨x, hx, ?_⟩, hextension.normalizedExtension_eq⟩
    rw [htext]
    simpa [Option.filter] using hne
  unfold written at hwritten
  cases hvalue : d.extensions with
  | text t =>
    -- The members of a text are its characters, and no extension consists of a dot alone.
    rw [hvalue] at hwritten
    obtain ⟨x, hx, htext⟩ := List.mem_filterMap.1 hwritten
    obtain ⟨c, -, rfl⟩ := List.mem_map.1 hx
    have hsingle : [c] = extensionOf name := Option.some.inj htext
    rw [heq] at hsingle
    exact absurd (List.cons.inj hsingle).2.symm (Text.lower_ne_nil hs)
  | list xs | tuple xs =>
    rw [hvalue] at h hwritten
    obtain rfl := Option.some.inj h
    exact hlist xs hwritten
  | _ =>
    rw [hvalue] at h
    cases h

/-- A draft writes its extensions as they are meant: none is empty, and each that a file can have is written in normal
form. -/
structure Spells (d : Draft) (settings : Settings) : Prop where
  nil_notMem : [] ∉ d.written
  mem_written : ∀ name, IsFileName name → extensionOf name ∈ settings.extensions → extensionOf name ∈ d.written

/-- These are the drafts by which the same names are accepted as by their normal form. -/
theorem spells_iff (h : d.checked = .ok settings) :
    d.Spells settings ↔
      ∀ name, IsFileName name → (extensionOf name ∈ d.written ↔ extensionOf name ∈ settings.extensions) := by
  obtain ⟨hholds, hvalid⟩ := checked_eq_ok_iff.1 h
  have hnil : [] ∉ settings.extensions := by
    intro hmem
    cases (hvalid.isExtension _ hmem).head?_eq
  constructor
  · intro hspells name hname
    refine ⟨fun hwritten => mem_of_mem_written hholds.extensions_eq hwritten ?_, hspells.mem_written name hname⟩
    intro hempty
    exact hspells.nil_notMem (hempty ▸ hwritten)
  · intro hiff
    have hletter : IsFileName ['a'] := ⟨by decide, by decide, by decide⟩
    exact ⟨fun hmem => hnil ((hiff ['a'] hletter).1 hmem), fun name hname hmem => (hiff name hname).2 hmem⟩

end Draft

namespace Machine

variable {m : Machine} {p q : Path} {n : Node} {name : Text} {accepts accepts' : Text → Bool} {d : Draft}
  {settings : Settings} {ps : List Path}

/-! ### Extensions that matter -/

/-- A path is listed in the directory of another one, and a file is found there that is neither hidden nor a link. -/
structure ListsFile (m : Machine) (p q : Path) : Prop where
  listed : ∃ ps, m.pathsIn p = .ok ps ∧ q ∈ ps
  shown : Path.isHiddenName q.name = false
  not_link : m.isLink q = .ok false
  regular : m.isRegular q = .ok true

/-- A file of a directory or of one of its groups. -/
def OffersFile (m : Machine) (p q : Path) : Prop :=
  m.ListsFile p q ∨ ∃ g, (∃ ps, m.pathsIn p = .ok ps ∧ g ∈ ps) ∧ m.ListsFile g q

theorem isSource_congr (h : Path.isHiddenName q.name = false → m.isLink q = .ok false → m.isRegular q = .ok true →
    accepts (lower q.suffix) = accepts' (lower q.suffix)) : m.isSource accepts q = m.isSource accepts' q := by
  unfold isSource
  cases hhidden : Path.isHiddenName q.name with
  | true => rfl
  | false =>
    rcases hlink : m.isLink q with e | _ | _
    · rfl
    · rcases hregular : m.isRegular q with e | _ | _
      · rfl
      · rfl
      · exact congrArg Except.ok (h hhidden hlink hregular)
    · rfl

theorem sift_congr {question question' : Path → Except SystemError Bool} (h : ∀ q ∈ ps, question q = question' q) :
    sift question ps = sift question' ps := by
  induction ps with
  | nil => rfl
  | cons q ps ih =>
    obtain ⟨hq, hps⟩ := List.forall_mem_cons.1 h
    rw [sift, sift, hq, ih hps]

theorem sourcesIn_congr (h : ∀ q, m.ListsFile p q → accepts (lower q.suffix) = accepts' (lower q.suffix)) :
    m.sourcesIn accepts p = m.sourcesIn accepts' p := by
  unfold sourcesIn
  cases hps : m.pathsIn p with
  | error e => rfl
  | ok ps =>
    refine congrArg (Except.mapError _) (sift_congr fun q hq => isSource_congr fun hshown hlink hregular => ?_)
    exact h q ⟨⟨ps, hps, hq⟩, hshown, hlink, hregular⟩

/-- A discovery depends on extensions only as far as files have them. -/
theorem discoverBy_congr (h : ∀ q, m.OffersFile p q → accepts (lower q.suffix) = accepts' (lower q.suffix)) :
    m.discoverBy accepts p = m.discoverBy accepts' p := by
  unfold discoverBy
  rw [sourcesIn_congr fun q hq => h q (.inl hq)]
  cases hgroups : m.groupsIn p with
  | error e => rfl
  | ok groups =>
    have hlisted : ∀ g ∈ groups, ∃ ps, m.pathsIn p = .ok ps ∧ g ∈ ps := by
      obtain ⟨ps, hps, hsift⟩ := bind_eq_ok_iff.1 hgroups
      obtain ⟨-, rfl⟩ := sift_eq_ok_iff.1 (mapError_eq_ok_iff.1 hsift)
      exact fun g hg => ⟨ps, hps, List.mem_of_mem_filter hg⟩
    have hgrouped : groups.mapM (fun g => do
        return (← m.sourcesIn accepts g).map (SourceFile.mk (some g.name)) : Path → Except AccessError (List SourceFile)) =
      groups.mapM fun g => do
        return (← m.sourcesIn accepts' g).map (SourceFile.mk (some g.name)) := by
      refine mapM_congr fun g hg => ?_
      rw [sourcesIn_congr fun q hq => h q (.inr ⟨g, hlisted g hg, hq⟩)]
    refine congrArg (m.sourcesIn accepts' p >>= ·) (funext fun top => ?_)
    exact congrArg (· >>= fun grouped => Except.ok (top.map (SourceFile.mk none) ++ grouped.flatten)) hgrouped

/-- Where a path that can be listed leads, and what is listed there. -/
theorem exists_of_mem_pathsIn (hm : m.WellFormed) (hp : p.IsRead) (hps : m.pathsIn p = .ok ps) (hq : q ∈ ps) :
    ∃ n x name, m.status p.text true = .ok n ∧ n.entries.get? name = some x ∧ isName name = true ∧ q = p.child name := by
  obtain ⟨entries, hentries, hps⟩ := bind_eq_ok_iff.1 hps
  obtain rfl := Except.ok.inj hps
  obtain ⟨name, hname, rfl⟩ := List.mem_map.1 hq
  cases hn : m.status p.text true with
  | error e =>
    unfold list at hentries
    rw [hn] at hentries
    cases e <;> cases hentries
  | ok n =>
    obtain ⟨-, -, rfl⟩ := (list_eq_ok_iff hn).1 hentries
    rw [mem_names_sorted] at hname
    obtain ⟨x, hx⟩ := Named.mem_names_iff.1 hname
    exact ⟨n, x, name, rfl, hx, Node.isName_of_mem_names (hasNames_of_status hm hp hn) hname, rfl⟩

/-- Files that are listed have names that files can have. -/
theorem ListsFile.exists_isFileName (h : m.ListsFile p q) (hm : m.WellFormed) (hp : p.IsRead) :
    ∃ name, IsFileName name ∧ q.name = name := by
  obtain ⟨ps, hps, hq⟩ := h.listed
  obtain ⟨n, x, name, hn, hx, hname, rfl⟩ := exists_of_mem_pathsIn hm hp hps hq
  refine ⟨name, ⟨hname, by simpa using h.shown, ?_⟩, Path.name_child p name⟩
  rcases status_child_eq_ok_or hp hn hname hx with hstatus | ⟨errno, herror, habsent⟩
  · exact size_le_of_status_child hp hn hname hx hstatus
  · -- Where the system refuses to look, it does not say that there is no link.
    have hlink := h.not_link
    rw [isLink_of_status_eq_error herror habsent] at hlink
    cases hlink

theorem OffersFile.exists_isFileName (h : m.OffersFile p q) (hm : m.WellFormed) (hp : p.IsRead) :
    ∃ name, IsFileName name ∧ q.name = name := by
  rcases h with h | ⟨g, ⟨ps, hps, hg⟩, h⟩
  · exact h.exists_isFileName hm hp
  · obtain ⟨_, _, name, -, -, hname, rfl⟩ := exists_of_mem_pathsIn hm hp hps hg
    exact h.exists_isFileName hm (hp.child (isPart_of_isName hname).1)

/-! ### Reading by a draft and by its normal form -/

/-- The extensions that are accepted are those that are written. -/
theorem acceptedBy_eq (h : d.checked = .ok settings) : acceptedBy d.extensions = .ok d.written.contains := by
  have hextensions := (Draft.checked_eq_ok_iff.1 h).1.extensions_eq
  unfold acceptedBy Draft.written
  cases hvalue : d.extensions with
  | text t | list xs | tuple xs => rfl
  | _ =>
    rw [hvalue] at hextensions
    cases hextensions

theorem checked_normalized (h : d.checked = .ok settings) : d.normalized.checked = .ok settings := by
  obtain ⟨hholds, hvalid⟩ := Draft.checked_eq_ok_iff.1 h
  rw [hholds.normalized_eq]
  exact Draft.checked_draft hvalid

theorem written_normalized (h : d.checked = .ok settings) : d.normalized.written = settings.extensions := by
  rw [(Draft.checked_eq_ok_iff.1 h).1.normalized_eq, Draft.written_draft]

theorem readSnippet_eq (h : d.checked = .ok settings) (p : Path) :
    m.readSnippet d p = m.readSnippetUpTo settings.maxFileSize p := by
  rw [readSnippet, h]
  rfl

/-- The snippet of a source that has been discovered. -/
def sourceSnippet (m : Machine) (maxSize : Int) (source : SourceFile) : Except SourceError SourceSnippet := do
  return {
    identifier := source.path.stem
    group := source.group
    path := source.path
    snippet := ← m.readSnippetUpTo maxSize source.path }

/-- A directory is read by the extensions that are written. -/
theorem readDirectory_eq (h : d.checked = .ok settings) (p : Path) :
    m.readDirectory d p =
      (m.discoverBy d.written.contains p).mapError .ofAccess >>= (·.mapM (m.sourceSnippet settings.maxFileSize)) := by
  rw [readDirectory, acceptedBy_eq h]
  simp only [readSnippet_eq h]
  rfl

/-- Nothing is read exactly if nothing is discovered. -/
theorem readDirectory_eq_ok_nil_iff (h : d.checked = .ok settings) :
    m.readDirectory d p = .ok [] ↔ m.discoverBy d.written.contains p = .ok [] := by
  rw [readDirectory_eq h, bind_eq_ok_iff]
  constructor
  · rintro ⟨sources, hsources, hread⟩
    obtain rfl : sources = [] := List.forall₂_nil_right_iff.1 (mapM_eq_ok_iff.1 hread)
    exact mapError_eq_ok_iff.1 hsources
  · intro hsources
    exact ⟨[], mapError_eq_ok_iff.2 hsources, rfl⟩

/-! ### A directory with one file -/

/-- A directory with one empty file. -/
def directoryOf (name : Text) : Node := .directory [(name, .file [] 0o644)] 0o755

/-- A machine with nothing else at its root. -/
def holding (name : Text) : Machine where
  root := directoryOf name

theorem get?_directoryOf {f : Text} {x : Node} :
    (directoryOf name).entries.get? f = some x ↔ f = name ∧ x = .file [] 0o644 := by
  show Named.get? [(name, Node.file [] 0o644)] f = some x ↔ _
  rw [Named.get?_cons]
  by_cases h : name = f <;> simp [h, eq_comm]

theorem hasNames_directoryOf (h : IsFileName name) : (directoryOf name).hasNames = true := by
  simp [directoryOf, Node.hasNames, Node.haveNames, h.isName]

theorem hasDistinctNames_directoryOf : (directoryOf name).hasDistinctNames = true := by
  simp [directoryOf, Node.hasDistinctNames, Node.haveDistinctNames, Named.names]

theorem holding_wellFormed (h : IsFileName name) : (holding name).WellFormed :=
  ⟨rfl, hasNames_directoryOf h, fun _ => ⟨_, rfl, rfl⟩⟩

theorem isRead_root : (⟨.root, []⟩ : Path).IsRead := nofun

theorem explorable_holding (h : IsFileName name) : (holding name).Explorable ⟨.root, []⟩ (directoryOf name) := by
  have hgroup (g : Text) (x : Node) : ¬ (directoryOf name).HasGroup g x := by
    intro hg
    obtain ⟨-, rfl⟩ := get?_directoryOf.1 hg.entry
    cases hg.directory
  have hread : (directoryOf name).mayRead = true := by simp [directoryOf, Node.mayRead, Node.mode]
  have hrun : (directoryOf name).mayRun = true := by simp [directoryOf, Node.mayRun, Node.mode]
  refine ⟨(legible_iff isRead_root rfl ?_).2 ⟨rfl, hread, ?_⟩, fun g x hg => absurd hg (hgroup g x)⟩
  · exact fun f => Node.isName_of_mem_names (hasNames_directoryOf h)
  · intro f hf _
    obtain rfl : f = name := List.mem_singleton.1 hf
    have htext : ((⟨.root, []⟩ : Path).child f).text = '/' :: f := rfl
    have hsize : Utf8.size ('/' :: f) = 1 + Utf8.size f := Utf8.size_append ['/'] f
    have hlength := h.size_le
    rw [htext, hsize]
    unfold maxNameSize at hlength
    unfold maxPathSize
    exact ⟨by omega, hrun, hlength⟩

/-- The file is discovered if its extension is accepted. -/
theorem discoverBy_holding (h : IsFileName name) :
    (holding name).discoverBy accepts ⟨.root, []⟩ = .ok [] ↔ accepts (extensionOf name) = false := by
  have hmem {s : SourceFile} : s ∈ (directoryOf name).discovered accepts ⟨.root, []⟩ ↔
      (directoryOf name).IsEligible accepts ⟨.root, []⟩ s := Node.mem_discovered_iff hasDistinctNames_directoryOf
  rw [discoverBy_eq_ok_iff isRead_root (n := directoryOf name) rfl (hasNames_directoryOf h) hasDistinctNames_directoryOf,
    eq_comm, List.eq_nil_iff_forall_not_mem]
  constructor
  · rintro ⟨-, hnone⟩
    rw [← Bool.not_eq_true]
    intro haccepted
    exact hnone _ (hmem.2 (.top ⟨⟨_, get?_directoryOf.2 ⟨rfl, rfl⟩, rfl⟩, h.shown, haccepted⟩))
  · refine fun hrefused => ⟨explorable_holding h, fun s hs => ?_⟩
    cases hmem.1 hs with
    | top hf =>
      obtain ⟨_, hentry, -⟩ := hf.entry
      obtain ⟨rfl, -⟩ := get?_directoryOf.1 hentry
      exact Bool.false_ne_true (hrefused.symm.trans hf.accepted)
    | grouped hg _ =>
      obtain ⟨-, rfl⟩ := get?_directoryOf.1 hg.entry
      cases hg.directory

/-! ### Drafts in normal form -/

/-- A file is read by a draft that passes the check as it is read by the normal form of the draft. A directory is read
alike, with the same snippets or the same error, if the extensions of its files and of those of its groups are written
exactly where they are meant; and every directory is, exactly if the draft writes no empty extension, and in normal form
each of those that a file can have. -/
theorem readDirectory_normalized (h : d.checked = .ok settings) :
    (∀ (m : Machine) (p : Path), m.readSnippet d p = m.readSnippet d.normalized p) ∧
    (∀ (m : Machine) (p : Path),
      (∀ q, m.OffersFile p q → (lower q.suffix ∈ d.written ↔ lower q.suffix ∈ settings.extensions)) →
        m.readDirectory d p = m.readDirectory d.normalized p) ∧
    (d.Spells settings ↔
      ∀ (m : Machine) (p : Path), m.WellFormed → p.IsRead → m.readDirectory d p = m.readDirectory d.normalized p) := by
  have hnormalized := checked_normalized h
  have hwritten := written_normalized h
  have hread (m : Machine) (p : Path)
      (hfiles : ∀ q, m.OffersFile p q → (lower q.suffix ∈ d.written ↔ lower q.suffix ∈ settings.extensions)) :
      m.readDirectory d p = m.readDirectory d.normalized p := by
    rw [readDirectory_eq h, readDirectory_eq hnormalized, hwritten, discoverBy_congr fun q hq => ?_]
    rw [Bool.eq_iff_iff, List.contains_iff_mem, List.contains_iff_mem]
    exact hfiles q hq
  refine ⟨fun m p => by rw [readSnippet_eq h, readSnippet_eq hnormalized], hread, fun hspells m p hm hp => ?_, fun hsame => ?_⟩
  · refine hread m p fun q hq => ?_
    obtain ⟨name, hname, rfl⟩ := hq.exists_isFileName hm hp
    exact (Draft.spells_iff h).1 hspells q.name hname
  · -- A directory with a single file tells whether the extension of the file is accepted.
    refine (Draft.spells_iff h).2 fun name hname => ?_
    have hnil : (holding name).readDirectory d ⟨.root, []⟩ = .ok [] ↔
        (holding name).readDirectory d.normalized ⟨.root, []⟩ = .ok [] := by
      rw [hsame (holding name) ⟨.root, []⟩ (holding_wellFormed hname) isRead_root]
    rw [readDirectory_eq_ok_nil_iff h, readDirectory_eq_ok_nil_iff hnormalized, hwritten, discoverBy_holding hname,
      discoverBy_holding hname] at hnil
    rw [← List.contains_iff_mem, ← List.contains_iff_mem]
    simpa using not_congr hnil

/-- A draft that writes one extension in three ways. -/
def redundant : Draft := { extensions := .list [.text ".swift".toList, .text "swift".toList, .text ".Swift".toList] }

/-- A draft that writes the first of two extensions as it is meant. -/
def uneven : Draft := { extensions := .list [.text ".swift".toList, .text "MD".toList] }

theorem pathsIn_single :
    single.pathsIn ⟨.relative, ["S".toList]⟩ = .ok [⟨.relative, ["S".toList, "a.swift".toList]⟩] := by cbv

/-- The one file of the machine has the first extension. -/
theorem OffersFile.eq_of_single (h : single.OffersFile ⟨.relative, ["S".toList]⟩ q) :
    q = ⟨.relative, ["S".toList, "a.swift".toList]⟩ := by
  have hfile {p : Path} (hlisted : ∃ ps, single.pathsIn ⟨.relative, ["S".toList]⟩ = .ok ps ∧ p ∈ ps) :
      p = ⟨.relative, ["S".toList, "a.swift".toList]⟩ := by
    obtain ⟨ps, hps, hmem⟩ := hlisted
    obtain rfl := Except.ok.inj (pathsIn_single.symm.trans hps)
    exact List.mem_singleton.1 hmem
  rcases h with h | ⟨g, hg, h⟩
  · exact hfile h.listed
  · -- A file is no group.
    obtain rfl := hfile hg
    have hrefused : ∃ e, single.pathsIn ⟨.relative, ["S".toList, "a.swift".toList]⟩ = .error e := ⟨_, by cbv⟩
    obtain ⟨e, hrefused⟩ := hrefused
    obtain ⟨ps, hps, -⟩ := h.listed
    cases hrefused.symm.trans hps

theorem uneven_readDirectory_normalized :
    (redundant.written ≠ redundant.normalized.written ∧ ∀ (m : Machine) (p : Path), m.WellFormed → p.IsRead →
      m.readDirectory redundant p = m.readDirectory redundant.normalized p) ∧
    (single.readDirectory uneven ⟨.relative, ["S".toList]⟩ ≠ .ok [] ∧
      single.readDirectory uneven ⟨.relative, ["S".toList]⟩ =
        single.readDirectory uneven.normalized ⟨.relative, ["S".toList]⟩) ∧
    ¬ ∀ (m : Machine) (p : Path), m.WellFormed → p.IsRead →
      m.readDirectory uneven p = m.readDirectory uneven.normalized p := by
  have hredundant : redundant.checked = .ok { extensions := [".swift".toList, ".swift".toList, ".swift".toList] } := by
    decide +kernel
  have huneven : uneven.checked = .ok { extensions := [".swift".toList, ".md".toList] } := by decide +kernel
  obtain ⟨-, -, hall⟩ := readDirectory_normalized hredundant
  obtain ⟨-, hsame, hiff⟩ := readDirectory_normalized huneven
  refine ⟨⟨by decide, hall.1 ⟨by decide, fun name _ hmem => ?_⟩⟩, ⟨?_, hsame single _ fun q hq => ?_⟩, fun hevery => ?_⟩
  · -- However often the extension is written, it is one of those that are written.
    have hsubset : [".swift".toList, ".swift".toList, ".swift".toList] ⊆ redundant.written := by decide
    exact hsubset hmem
  · have hfound : single.discoverBy uneven.written.contains ⟨.relative, ["S".toList]⟩ =
        .ok [⟨none, ⟨.relative, ["S".toList, "a.swift".toList]⟩⟩] := by cbv
    rw [ne_eq, readDirectory_eq_ok_nil_iff huneven, hfound]
    exact fun h => List.cons_ne_nil _ _ (Except.ok.inj h)
  · obtain rfl := hq.eq_of_single
    decide
  · -- No file with the other extension is found by the draft as it is written.
    have hname : IsFileName "a.md".toList := ⟨by decide, by decide, by decide⟩
    exact absurd ((hiff.2 hevery).mem_written _ hname (by decide)) (by decide)

/-- A draft that writes its extension without a dot. -/
def undotted : Draft := { extensions := .list [.text "swift".toList] }

/-- Not every draft that passes the check can be put in normal form with the same outcome: an extension without a dot is
the extension of no file. -/
theorem not_forall_readDirectory_normalized :
    ¬ ∀ (m : Machine) (p : Path) (d : Draft) (settings : Settings), m.WellFormed → p.IsRead →
      d.checked = .ok settings → m.readDirectory d p = m.readDirectory d.normalized p := by
  intro h
  have hchecked : undotted.checked = .ok {} := by decide +kernel
  have hread : (⟨.relative, ["S".toList]⟩ : Path).IsRead := List.forall_mem_singleton.2 ⟨by decide, by decide, by decide⟩
  have hnothing : single.readDirectory undotted ⟨.relative, ["S".toList]⟩ = .ok [] :=
    (readDirectory_eq_ok_nil_iff hchecked).2 (by cbv)
  rw [h single _ undotted {} ⟨rfl, by decide, fun _ => ⟨_, rfl, rfl⟩⟩ hread hchecked,
    readDirectory_eq_ok_nil_iff (checked_normalized hchecked), written_normalized hchecked] at hnothing
  have hfound : single.discoverBy ({} : Settings).extensions.contains ⟨.relative, ["S".toList]⟩ =
      .ok [⟨none, ⟨.relative, ["S".toList, "a.swift".toList]⟩⟩] := by cbv
  rw [hfound] at hnothing
  cases hnothing

end Machine
end CodeSnippets
