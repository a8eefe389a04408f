import CodeSnippets.Proofs.CompilerRuns

/-!
# Targets and their catalogs

The targets of a request fit together or are refused as a whole. Where they fit, no target and no catalog is lost, and
the order in which executables and catalogs are given does not matter.

* `TargetsFit`: what is asked of the names and the catalogs of a request.
* `pairCatalogs_eq_ok_iff`: catalogs are paired exactly if each has a target of its own.
* `targetsOf_eq_ok_iff`: the targets of a request that fits.
* `TargetError.Describes`: what an error says is so.
* `targets_paired`: the targets of every request, or why there are none.
-/

namespace CodeSnippets

open Text

variable {names executables catalogs executables' catalogs' : List Text} {name catalog : Text}
  {paired result : Named Path} {targets : List Target} {e : TargetError}

/-! ### Catalogs and the targets that they belong to -/

/-- The catalogs by the names of the targets that they belong to. -/
def catalogsByOwner (names catalogs : List Text) : Named Path :=
  catalogs.map fun catalog => (catalogOwner names catalog, .ofText catalog)

@[simp] theorem catalogsByOwner_cons :
    catalogsByOwner names (catalog :: catalogs) =
      (catalogOwner names catalog, .ofText catalog) :: catalogsByOwner names catalogs := rfl

theorem names_catalogsByOwner : (catalogsByOwner names catalogs).names = catalogs.map (catalogOwner names) := by
  simp [catalogsByOwner, Named.names]

theorem mem_catalogsByOwner {p : Path} :
    (name, p) ∈ catalogsByOwner names catalogs ↔ ∃ c ∈ catalogs, catalogOwner names c = name ∧ .ofText c = p := by
  simp [catalogsByOwner]

/-- A single target has all the catalogs. -/
theorem catalogOwner_single : catalogOwner [name] catalog = name := rfl

/-- Otherwise a catalog belongs to the target that it is named after. -/
theorem catalogOwner_of_several (h : names.length ≠ 1) : catalogOwner names catalog = (Path.ofText catalog).stem := by
  unfold catalogOwner
  split
  · exact absurd rfl h
  · rfl

/-- Two texts of one path belong to the same target. -/
theorem catalogOwner_congr {c d : Text} (h : Path.ofText c = Path.ofText d) :
    catalogOwner names c = catalogOwner names d := by
  unfold catalogOwner
  rw [h]

/-- Catalogs are paired with targets exactly if each belongs to a target, and no two to the same one. -/
theorem pairCatalogs_eq_ok_iff (hpaired : paired.names.Nodup) :
    pairCatalogs names paired catalogs = .ok result ↔
      (∀ c ∈ catalogs, catalogOwner names c ∈ names) ∧
        (paired.names ++ catalogs.map (catalogOwner names)).Nodup ∧
          result = paired ++ catalogsByOwner names catalogs := by
  -- The induction goes along the catalogs, with those that have been paired in front.
  induction catalogs generalizing paired with
  | nil => simp [pairCatalogs, catalogsByOwner, hpaired, eq_comm]
  | cons c rest ih =>
    by_cases hname : catalogOwner names c ∈ names
    swap
    · simp [pairCatalogs, hname]
    by_cases hnew : catalogOwner names c ∈ paired.names
    · have htwice : ¬ (paired.names ++ (c :: rest).map (catalogOwner names)).Nodup := fun h =>
        (List.nodup_append.1 h).2.2 _ hnew _ List.mem_cons_self rfl
      obtain ⟨p, hp⟩ := Named.mem_names_iff.1 hnew
      exact iff_of_false (by simp [pairCatalogs, hname, hp]) fun h => htwice h.2.1
    · have hput : paired.put (catalogOwner names c) (.ofText c) = paired ++ [(catalogOwner names c, .ofText c)] :=
        Named.put_of_notMem hnew _
      have hnames : (paired.put (catalogOwner names c) (.ofText c)).names = paired.names ++ [catalogOwner names c] := by
        simp [hput, Named.names]
      have hstep : pairCatalogs names paired (c :: rest) =
          pairCatalogs names (paired.put (catalogOwner names c) (.ofText c)) rest := by
        rw [pairCatalogs]
        simp [hname, Named.get?_eq_none_iff.2 hnew]
      rw [hstep, ih (Named.nodup_names_put hpaired _ _), hnames, hput]
      simp [hname]

/-! ### Requests that fit together -/

/-- What is asked of the targets of a request: each executable is one of them; a single target has one catalog at most,
and of several targets each has one at most, which is named after it. -/
structure TargetsFit (names executables catalogs : List Text) : Prop where
  executable_mem : ∀ name ∈ executables, name ∈ names
  single : names.eraseDups.length = 1 → catalogs.length ≤ 1
  several : names.eraseDups.length ≠ 1 →
    (∀ c ∈ catalogs, (Path.ofText c).stem ∈ names) ∧ (catalogs.map fun c => (Path.ofText c).stem).Nodup

/-- A target of a request. -/
def targetNamed (names executables catalogs : List Text) (name : Text) : Target where
  name
  kind := if executables.contains name then .executable else .library
  catalog := (catalogsByOwner names.eraseDups catalogs).get? name

/-- Catalogs fit exactly if each belongs to a target, and no two to the same one. -/
theorem owners_iff :
    ((∀ c ∈ catalogs, catalogOwner names.eraseDups c ∈ names.eraseDups) ∧
        (catalogs.map (catalogOwner names.eraseDups)).Nodup) ↔
      (names.eraseDups.length = 1 → catalogs.length ≤ 1) ∧
        (names.eraseDups.length ≠ 1 →
          (∀ c ∈ catalogs, (Path.ofText c).stem ∈ names) ∧ (catalogs.map fun c => (Path.ofText c).stem).Nodup) := by
  by_cases hone : names.eraseDups.length = 1
  · obtain ⟨name, hname⟩ := List.length_eq_one_iff.1 hone
    have howner : catalogOwner [name] = fun _ => name := funext fun _ => catalogOwner_single
    simp [hname, howner, List.map_const', List.nodup_replicate]
  · have howner : catalogOwner names.eraseDups = fun c => (Path.ofText c).stem :=
      funext fun _ => catalogOwner_of_several hone
    simp [hone, howner, List.mem_eraseDups]

/-- A request has targets exactly if it fits together, and then each name stands for one. -/
theorem targetsOf_eq_ok_iff :
    targetsOf names executables catalogs = .ok targets ↔
      TargetsFit names executables catalogs ∧
        targets = names.eraseDups.map (targetNamed names executables catalogs) := by
  rw [targetsOf, distinct_eq_eraseDups]
  cases hfind : executables.find? (!names.eraseDups.contains ·) with
  | some name =>
    have hname : name ∉ names := by simpa using List.find?_some hfind
    refine iff_of_false (fun h => by cases h) fun h => hname (h.1.executable_mem name (List.mem_of_find?_eq_some hfind))
  | none =>
    have hnamed : ∀ name ∈ executables, name ∈ names := by simpa using hfind
    have hnone : (Named.names ([] : Named Path)).Nodup := List.nodup_nil
    constructor
    · intro h
      obtain ⟨paired, hpaired, h⟩ := bind_eq_ok_iff.1 h
      obtain ⟨hmem, hnodup, rfl⟩ := (pairCatalogs_eq_ok_iff hnone).1 hpaired
      obtain ⟨hsingle, hseveral⟩ := owners_iff.1 ⟨hmem, hnodup⟩
      exact ⟨⟨hnamed, hsingle, hseveral⟩, (Except.ok.inj h).symm⟩
    · rintro ⟨hfit, rfl⟩
      obtain ⟨hmem, hnodup⟩ := owners_iff.2 ⟨hfit.single, hfit.several⟩
      exact bind_eq_ok_iff.2 ⟨_, (pairCatalogs_eq_ok_iff hnone).2 ⟨hmem, hnodup, rfl⟩, rfl⟩

namespace TargetsFit

theorem owner_mem (h : TargetsFit names executables catalogs) (hc : catalog ∈ catalogs) :
    catalogOwner names.eraseDups catalog ∈ names.eraseDups :=
  (owners_iff.2 ⟨h.single, h.several⟩).1 catalog hc

theorem nodup_owners (h : TargetsFit names executables catalogs) :
    (catalogsByOwner names.eraseDups catalogs).names.Nodup := by
  rw [names_catalogsByOwner]
  exact (owners_iff.2 ⟨h.single, h.several⟩).2

/-- Nothing is asked of the order of executables and catalogs. -/
theorem perm (h : TargetsFit names executables catalogs) (hexecutables : executables.Perm executables')
    (hcatalogs : catalogs.Perm catalogs') : TargetsFit names executables' catalogs' where
  executable_mem name hname := h.executable_mem name (hexecutables.mem_iff.2 hname)
  single hone := hcatalogs.length_eq ▸ h.single hone
  several hmany := by
    obtain ⟨hmem, hnodup⟩ := h.several hmany
    exact ⟨fun c hc => hmem c (hcatalogs.mem_iff.2 hc), (hcatalogs.map _).nodup_iff.1 hnodup⟩

/-- A target has a catalog exactly if the catalog is given and belongs to it. -/
theorem catalog_eq_some_iff (h : TargetsFit names executables catalogs) {p : Path} :
    (targetNamed names executables catalogs name).catalog = some p ↔
      ∃ c ∈ catalogs, catalogOwner names.eraseDups c = name ∧ .ofText c = p := by
  rw [targetNamed, Named.get?_eq_some_iff_mem h.nodup_owners, mem_catalogsByOwner]

/-- A catalog belongs to exactly one target. -/
theorem existsUnique_target (h : TargetsFit names executables catalogs) (hc : catalog ∈ catalogs) :
    ∃! t, t ∈ names.eraseDups.map (targetNamed names executables catalogs) ∧ t.catalog = some (.ofText catalog) := by
  refine ⟨targetNamed names executables catalogs (catalogOwner names.eraseDups catalog),
    ⟨List.mem_map_of_mem (h.owner_mem hc), h.catalog_eq_some_iff.2 ⟨catalog, hc, rfl, rfl⟩⟩, ?_⟩
  rintro t ⟨ht, hcatalog⟩
  obtain ⟨name, -, rfl⟩ := List.mem_map.1 ht
  obtain ⟨c, -, rfl, heq⟩ := h.catalog_eq_some_iff.1 hcatalog
  rw [catalogOwner_congr heq]

/-- The targets do not depend on the order of executables and catalogs. -/
theorem targetNamed_perm (h : TargetsFit names executables catalogs) (hexecutables : executables.Perm executables')
    (hcatalogs : catalogs.Perm catalogs') :
    targetNamed names executables catalogs name = targetNamed names executables' catalogs' name := by
  have hkind : executables.contains name = executables'.contains name := by
    rw [Bool.eq_iff_iff, List.contains_iff_mem, List.contains_iff_mem, hexecutables.mem_iff]
  have hcatalog : (targetNamed names executables catalogs name).catalog =
      (targetNamed names executables' catalogs' name).catalog := by
    ext p
    rw [h.catalog_eq_some_iff, (h.perm hexecutables hcatalogs).catalog_eq_some_iff]
    simp only [hcatalogs.mem_iff]
  rw [targetNamed, hkind]
  exact congrArg (Target.mk name _) hcatalog

end TargetsFit

/-! ### Requests that do not fit together -/

/-- What an error says of a request: which executable is no target, which catalog has no target, or which target has two
catalogs. -/
def TargetError.Describes (names executables catalogs : List Text) : TargetError → Prop
  | .unknownExecutable name => name ∈ executables ∧ name ∉ names
  | .unknownCatalog name catalog => catalog ∈ catalogs ∧ name = catalogOwner names.eraseDups catalog ∧ name ∉ names
  | .secondCatalog name => 1 < (catalogs.map (catalogOwner names.eraseDups)).count name

/-- A catalog that is not paired belongs to no target, or to one that has a catalog already. -/
theorem pairCatalogs_eq_error (h : pairCatalogs names paired catalogs = .error e) :
    (∃ c ∈ catalogs, e = .unknownCatalog (catalogOwner names c) c ∧ catalogOwner names c ∉ names) ∨
      ∃ name, e = .secondCatalog name ∧ 1 < (paired.names ++ catalogs.map (catalogOwner names)).count name := by
  induction catalogs generalizing paired with
  | nil => cases h
  | cons c rest ih =>
    rw [pairCatalogs] at h
    split at h
    · rename_i hname
      obtain rfl := Except.error.inj h
      exact .inl ⟨c, List.mem_cons_self, rfl, by simpa using hname⟩
    split at h
    · rename_i hsome
      obtain rfl := Except.error.inj h
      -- The owner has a catalog already: it is counted once there and once for this one.
      have hmem : catalogOwner names c ∈ paired.names := Named.mem_names_iff.2 (Option.isSome_iff_exists.1 hsome)
      have hfirst := List.count_pos_iff.2 hmem
      refine .inr ⟨_, rfl, ?_⟩
      rw [List.count_append, List.map_cons, List.count_cons_self]
      omega
    · rename_i hnew
      -- The owner is counted for the catalog that it gets now, as it was counted for the one on the list.
      have hput : (paired.put (catalogOwner names c) (.ofText c)).names = paired.names ++ [catalogOwner names c] := by
        rw [Named.names_put, if_neg fun hmem => hnew (Option.isSome_iff_exists.2 (Named.mem_names_iff.1 hmem))]
      rcases ih h with ⟨d, hd, hunknown⟩ | ⟨name, heq, hcount⟩
      · exact .inl ⟨d, List.mem_cons_of_mem _ hd, hunknown⟩
      · refine .inr ⟨name, heq, ?_⟩
        rwa [hput, List.append_assoc] at hcount

theorem describes_of_targetsOf (h : targetsOf names executables catalogs = .error e) :
    e.Describes names executables catalogs := by
  rw [targetsOf, distinct_eq_eraseDups] at h
  split at h
  · rename_i name hfind
    obtain rfl := Except.error.inj h
    exact ⟨List.mem_of_find?_eq_some hfind, by simpa using List.find?_some hfind⟩
  rcases bind_eq_error_iff.1 h with h | ⟨_, -, h⟩
  · rcases pairCatalogs_eq_error h with ⟨c, hc, rfl, hname⟩ | ⟨name, rfl, hcount⟩
    · exact ⟨hc, rfl, by simpa using hname⟩
    · exact hcount
  · cases h

/-! ### The targets of a request -/

open CommandLine in
/-- The targets of a request that fits together are the names that are given, in the order in which each was given first.
Those that are named as executables, and no others, are executables; each catalog belongs to exactly one target, which it
is named after if there are several, and no target has any other; and the order of executables and catalogs does not
matter. A request that does not fit together is refused, with a word on what does not fit, before anything is done. -/
theorem targets_paired :
    (TargetsFit names executables catalogs →
      ∃ targets, targetsOf names executables catalogs = .ok targets ∧
        targets.map Target.name = names.eraseDups ∧
        (∀ t ∈ targets, t.kind = .executable ↔ t.name ∈ executables) ∧
        (∀ c ∈ catalogs, ∃! t, t ∈ targets ∧ t.catalog = some (.ofText c)) ∧
        (∀ t ∈ targets, ∀ p, t.catalog = some p →
          ∃ c ∈ catalogs, p = .ofText c ∧ (targets.length ≠ 1 → t.name = p.stem)) ∧
        ∀ executables' catalogs', executables.Perm executables' → catalogs.Perm catalogs' →
          targetsOf names executables' catalogs' = .ok targets) ∧
    (¬ TargetsFit names executables catalogs →
      ∃ e, targetsOf names executables catalogs = .error e ∧ e.Describes names executables catalogs ∧
        ∀ (m : Machine) (r : DocumentRequest), r.targets = names → r.executables = executables →
          r.catalogs = catalogs → document m r = .failed m (.targets e)) := by
  refine ⟨fun h => ?_, fun h => ?_⟩
  · have hok := targetsOf_eq_ok_iff.2 ⟨h, rfl⟩
    refine ⟨_, hok, map_name_of_targetsOf hok, ?_, fun c hc => h.existsUnique_target hc, ?_, ?_⟩
    · intro t ht
      obtain ⟨name, -, rfl⟩ := List.mem_map.1 ht
      simp [targetNamed]
    · intro t ht p hp
      obtain ⟨name, -, rfl⟩ := List.mem_map.1 ht
      obtain ⟨c, hc, rfl, rfl⟩ := h.catalog_eq_some_iff.1 hp
      refine ⟨c, hc, rfl, fun hmany => ?_⟩
      rw [List.length_map] at hmany
      exact catalogOwner_of_several hmany
    · intro executables' catalogs' hexecutables hcatalogs
      -- Neither whether the request fits together nor what a target gets depends on the order.
      refine targetsOf_eq_ok_iff.2 ⟨h.perm hexecutables hcatalogs, ?_⟩
      exact List.map_congr_left fun name _ => h.targetNamed_perm hexecutables hcatalogs
  · cases htargets : targetsOf names executables catalogs with
    | ok targets => exact absurd (targetsOf_eq_ok_iff.1 htargets).1 h
    | error e =>
      refine ⟨e, rfl, describes_of_targetsOf htargets, ?_⟩
      rintro m r rfl rfl rfl
      rw [document, prepare, htargets]
      rfl

theorem kit_and_tool_paired :
    (∃ targets, targetsOf ["Kit".toList, "Tool".toList, "Kit".toList] ["Tool".toList] ["a/Kit.docc".toList] = .ok targets ∧
      targets.map Target.name = ["Kit".toList, "Tool".toList]) ∧
    ∃ e, targetsOf ["Kit".toList] [] ["Kit.docc".toList, "b.docc".toList] = .error e ∧
      e.Describes ["Kit".toList] [] ["Kit.docc".toList, "b.docc".toList] := by
  constructor
  · obtain ⟨targets, hok, hnames, -⟩ := targets_paired.1
      (show TargetsFit ["Kit".toList, "Tool".toList, "Kit".toList] ["Tool".toList] ["a/Kit.docc".toList] from
        ⟨by decide, by decide, by decide⟩)
    exact ⟨targets, hok, hnames⟩
  · obtain ⟨e, herror, hdescribes, -⟩ := targets_paired.2 fun
      (h : TargetsFit ["Kit".toList] [] ["Kit.docc".toList, "b.docc".toList]) => absurd (h.single (by decide)) (by decide)
    exact ⟨e, herror, hdescribes⟩

end CodeSnippets
