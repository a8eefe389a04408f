import CodeSnippets.Proofs.CompilerOptions
import CodeSnippets.Proofs.FlagReplacement

/-!
# Arguments are completed once

The compiler gets the arguments of the user in their order, less the flags that are not meant for it, and behind them a
default for every required option that the arguments do not mention. Arguments that have been completed are complete: to
complete them again changes nothing.

* `IsOwnFlag`, `transformedArguments_eq_filter`: the flags that are not meant for the compiler, and nothing else, are
  taken out.
* `Requirement.default`, `flatMap_supplement_eq`: the defaults are those of the options that are not mentioned.
* `IsComplete`, `isComplete_append_supplement`: with their defaults behind them arguments mention every option.
* `compilerArguments_completed`: the arguments for a target, and that they are completed once.
-/

namespace CodeSnippets

open Text

variable {names arguments : List Text} {argument : Text} {r : Requirement} {required : List Requirement} {action : Action}
  {target : Target} {symbolGraphs output : Path}

/-! ### Flags that are not meant for the compiler -/

namespace Flag

/-- A flag that nothing stands for is taken out, and all else stays in its order. -/
theorem transform_eq_filter {f : Flag} (h : f.replacements = []) (arguments : List Text) :
    f.transform arguments = arguments.filter (· ∉ f.spellings) := by
  by_cases hpresent : ∃ a ∈ arguments, a ∈ f.spellings
  · rw [transform_of_mem hpresent, supplied, h, List.filter_nil, List.eraseDups_nil, List.append_nil, kept]
  · -- Without the flag there is nothing to take out.
    have hnone : ∀ a ∈ arguments, a ∉ f.spellings := fun a ha hspelling => hpresent ⟨a, ha, hspelling⟩
    rw [transform_eq_self hnone]
    exact (List.filter_eq_self.2 fun a ha => by simpa using hnone a ha).symm

/-- Flags that nothing stands for are taken out together. -/
theorem foldl_transform_eq_filter {flags : List Flag} (h : ∀ f ∈ flags, f.replacements = []) (arguments : List Text) :
    flags.foldl (fun done f => f.transform done) arguments =
      arguments.filter fun a => ∀ f ∈ flags, a ∉ f.spellings := by
  induction flags generalizing arguments with
  | nil => exact (List.filter_eq_self.2 fun a _ => by simp).symm
  | cons f flags ih =>
    obtain ⟨hf, hflags⟩ := List.forall_mem_cons.1 h
    rw [List.foldl_cons, ih hflags, transform_eq_filter hf, List.filter_filter]
    refine List.filter_congr fun a _ => ?_
    simp [Bool.and_comm]

end Flag

/-- An argument is a flag that is not meant for the compiler. -/
def IsOwnFlag (argument : Text) : Prop := ∃ f ∈ Flag.all, argument ∈ f.spellings

instance : DecidablePred IsOwnFlag := fun argument =>
  inferInstanceAs (Decidable (∃ f ∈ Flag.all, argument ∈ f.spellings))

/-- The arguments of the user are kept, less the flags that are not meant for the compiler. -/
theorem transformedArguments_eq_filter (arguments : List Text) :
    transformedArguments arguments = arguments.filter (¬ IsOwnFlag ·) := by
  rw [transformedArguments, Flag.foldl_transform_eq_filter (by decide)]
  refine List.filter_congr fun a _ => ?_
  simp [IsOwnFlag]

theorem transformedArguments_eq_self (h : ∀ a ∈ arguments, ¬ IsOwnFlag a) : transformedArguments arguments = arguments := by
  rw [transformedArguments_eq_filter]
  exact List.filter_eq_self.2 fun a ha => by simpa using h a ha

/-! ### Defaults -/

/-- The default for a required option: the name that is used first, and the value. -/
def Requirement.default (r : Requirement) : List Text := [r.names.headD [], r.value]

/-- An option gets its default if no argument mentions it. -/
theorem Requirement.supplement_eq (r : Requirement) (arguments : List Text) :
    r.supplement arguments = if ∀ a ∈ arguments, ¬ Mentions r.names a then r.default else [] := by
  rw [supplement]
  cases hvalue : optionValue? r.names arguments with
  | none => rw [if_pos (optionValue?_eq_none_iff.1 hvalue), default]
  | some value =>
    rw [if_neg]
    intro hnone
    rw [optionValue?_eq_none_iff.2 hnone] at hvalue
    cases hvalue

/-- The defaults that arguments get are those of the options that they do not mention, in order. -/
theorem flatMap_supplement_eq (required : List Requirement) (arguments : List Text) :
    required.flatMap (·.supplement arguments) =
      (required.filter fun r => ∀ a ∈ arguments, ¬ Mentions r.names a).flatMap Requirement.default := by
  induction required with
  | nil => rfl
  | cons r required ih =>
    rw [List.flatMap_cons, ih, Requirement.supplement_eq, List.filter_cons]
    by_cases h : ∀ a ∈ arguments, ¬ Mentions r.names a
    · rw [if_pos h, if_pos (decide_eq_true h), List.flatMap_cons]
    · rw [if_neg h, if_neg (by simpa using h), List.nil_append]

/-- Arguments mention every required option. -/
def IsComplete (required : List Requirement) (arguments : List Text) : Prop :=
  ∀ r ∈ required, ∃ a ∈ arguments, Mentions r.names a

theorem Requirement.mentions_headD (h : r.names ≠ []) : Mentions r.names (r.names.headD []) :=
  ⟨_, r.headD_mem h, .inl rfl⟩

/-- Whatever the user has left out is mentioned by the defaults. -/
theorem isComplete_append_supplement (hnames : ∀ r ∈ required, r.names ≠ []) :
    IsComplete required (arguments ++ required.flatMap (·.supplement arguments)) := by
  intro r hr
  by_cases h : ∀ a ∈ arguments, ¬ Mentions r.names a
  · refine ⟨r.names.headD [], List.mem_append_right _ (List.mem_flatMap.2 ⟨r, hr, ?_⟩), Requirement.mentions_headD (hnames r hr)⟩
    rw [r.supplement_eq, if_pos h]
    exact List.mem_cons_self
  · obtain ⟨a, ha, hmention⟩ : ∃ a ∈ arguments, Mentions r.names a := by simpa using h
    exact ⟨a, List.mem_append_left _ ha, hmention⟩

/-- Complete arguments get no default. -/
theorem IsComplete.flatMap_supplement (h : IsComplete required arguments) :
    required.flatMap (·.supplement arguments) = [] := by
  rw [List.flatMap_eq_nil_iff]
  intro r hr
  obtain ⟨a, ha, hmention⟩ := h r hr
  rw [r.supplement_eq, if_neg fun hnone => hnone a ha hmention]

/-! ### The arguments for a target -/

theorem names_ne_nil_of_mem_requirements : ∀ r ∈ requirements target symbolGraphs output, r.names ≠ [] := by
  unfold requirements
  cases target.kind <;> simp [outputOptions]

/-- The defaults for a target are no flags if its name and the paths are none. -/
theorem not_isOwnFlag_of_mem_default (hname : ¬ IsOwnFlag target.name) (hgraphs : ¬ IsOwnFlag symbolGraphs.text)
    (houtput : ¬ IsOwnFlag output.text) :
    ∀ r ∈ requirements target symbolGraphs output, ∀ a ∈ r.default, ¬ IsOwnFlag a := by
  have hpair (name : Text) (names : List Text) (value : Text) (hfirst : ¬ IsOwnFlag name) (hvalue : ¬ IsOwnFlag value) :
      ∀ a ∈ Requirement.default ⟨name :: names, value⟩, ¬ IsOwnFlag a :=
    List.forall_mem_cons.2 ⟨hfirst, List.forall_mem_singleton.2 hvalue⟩
  rw [requirements, List.forall_mem_append]
  constructor
  · simp only [List.forall_mem_cons]
    exact ⟨hpair _ _ _ (by decide) hname, hpair _ _ _ (by decide) hname, hpair _ _ _ (by decide) hgraphs,
      hpair _ _ _ (by decide) houtput, by simp⟩
  · cases target.kind with
    | library => simp
    | executable => exact List.forall_mem_singleton.2 (hpair _ _ _ (by decide) (by decide))

/-- What comes before the arguments of the user: the action, and the catalog of the target if there is one. -/
def leadingArguments (action : Action) (target : Target) : List Text :=
  action.name :: (target.catalog.map Path.text).toList

/-- The arguments of the user that the compiler gets. -/
def keptArguments (arguments : List Text) : List Text := arguments.filter (¬ IsOwnFlag ·)

theorem compilerArguments_eq_append :
    compilerArguments action target symbolGraphs output arguments =
      leadingArguments action target ++ (keptArguments arguments ++
        (requirements target symbolGraphs output).flatMap (·.supplement (keptArguments arguments))) := by
  rw [compilerArguments, transformedArguments_eq_filter, List.append_assoc]
  rfl

/-- The compiler gets the action, the catalog, the arguments of the user in their order less the flags that are not meant
for it, and the defaults of exactly those options that no argument left mentions. So every option is mentioned behind the
catalog, and to complete what stands there gives the same arguments again. -/
theorem compilerArguments_completed :
    compilerArguments action target symbolGraphs output arguments =
      leadingArguments action target ++ keptArguments arguments ++
        ((requirements target symbolGraphs output).filter fun r =>
          ∀ a ∈ keptArguments arguments, ¬ Mentions r.names a).flatMap Requirement.default ∧
    IsComplete (requirements target symbolGraphs output)
      ((compilerArguments action target symbolGraphs output arguments).drop (leadingArguments action target).length) ∧
    (¬ IsOwnFlag target.name → ¬ IsOwnFlag symbolGraphs.text → ¬ IsOwnFlag output.text →
      compilerArguments action target symbolGraphs output
        ((compilerArguments action target symbolGraphs output arguments).drop (leadingArguments action target).length) =
          compilerArguments action target symbolGraphs output arguments) := by
  have hcomplete : IsComplete (requirements target symbolGraphs output) (keptArguments arguments ++
      (requirements target symbolGraphs output).flatMap (·.supplement (keptArguments arguments))) :=
    isComplete_append_supplement names_ne_nil_of_mem_requirements
  rw [compilerArguments_eq_append, List.drop_left]
  refine ⟨?_, hcomplete, fun hname hgraphs houtput => ?_⟩
  · rw [flatMap_supplement_eq, List.append_assoc]
  · -- No flag is left among the arguments of the user, and none comes in with a default.
    have hflags : ∀ a ∈ keptArguments arguments ++
        (requirements target symbolGraphs output).flatMap (·.supplement (keptArguments arguments)), ¬ IsOwnFlag a := by
      rw [List.forall_mem_append]
      constructor
      · intro a ha
        simpa using (List.mem_filter.1 ha).2
      · intro a ha
        rw [flatMap_supplement_eq] at ha
        obtain ⟨r, hr, ha⟩ := List.mem_flatMap.1 ha
        exact not_isOwnFlag_of_mem_default hname hgraphs houtput r (List.mem_filter.1 hr).1 a ha
    rw [compilerArguments, transformedArguments_eq_self hflags, hcomplete.flatMap_supplement, List.append_nil]
    rfl

/-- Arguments with a flag that is not meant for the compiler, and with an output path. -/
def kitArguments : List Text := ["--experimental-skip-synthesized-symbols".toList, "-o=out".toList, "--index".toList]

theorem kit_completed :
    compilerArguments .convert kit kitGraphs kitArchive kitArguments =
      ["convert".toList, "-o=out".toList, "--index".toList, "--fallback-display-name".toList, "Kit".toList,
        "--fallback-bundle-identifier".toList, "Kit".toList, "--additional-symbol-graph-dir".toList, "graphs".toList] ∧
    compilerArguments .convert kit kitGraphs kitArchive
      ((compilerArguments .convert kit kitGraphs kitArchive kitArguments).drop 1) =
        compilerArguments .convert kit kitGraphs kitArchive kitArguments := by
  obtain ⟨heq, -, hagain⟩ := @compilerArguments_completed kitArguments .convert kit kitGraphs kitArchive
  exact ⟨heq.trans (by decide), hagain (by decide) (by decide) (by decide)⟩

end CodeSnippets
