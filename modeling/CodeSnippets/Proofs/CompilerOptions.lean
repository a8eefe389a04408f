import CodeSnippets.Compiler.Arguments
import CodeSnippets.Proofs.PathText

/-!
# Options that the compiler gets

The compiler gets the arguments of the user and, behind them, a default for every required option that the user left out.
An option has the value that the user gave it, or else its default, unless the arguments of the user end in a name of the
option: then the name of the first default is taken for its value.

* `Mentions`, `optionValue?_eq_none_iff`: arguments that give an option a value.
* `EndsOpen`, `optionValue?_append_of_endsOpen`: arguments that end in a name of an option.
* `optionValue?_flatMap_supplement`: the defaults.
* `Requirement.IsServed`, `isServed_compilerArguments`: the value that each required option comes to have.
* `not_forall_optionValue?_compilerArguments`: an option at the end takes the name of another for its value.
-/

namespace CodeSnippets

open Text

/-- An argument that is no option. -/
def IsPlain (argument : Text) : Prop := argument.head? ≠ some '-'

/-- A name of an option starts with a dash and holds no equals sign. -/
structure IsOptionName (name : Text) : Prop where
  head?_eq : name.head? = some '-'
  equals_notMem : '=' ∉ name

/-- An argument is a name of an option, or gives it a value behind an equals sign. -/
def Mentions (names : List Text) (argument : Text) : Prop :=
  ∃ name ∈ names, argument = name ∨ name ++ ['='] <+: argument

/-- Arguments end in a name of an option, and nothing before mentions it. -/
def EndsOpen (names arguments : List Text) : Prop :=
  ∃ front last, arguments = front ++ [last] ∧ last ∈ names ∧ ∀ argument ∈ front, ¬ Mentions names argument

variable {names arguments front rest rest' more : List Text} {argument value : Text} {r q : Requirement}
  {required : List Requirement} {action : Action} {target : Target} {symbolGraphs output : Path}

instance : DecidablePred IsPlain := fun argument => inferInstanceAs (Decidable (argument.head? ≠ some '-'))

instance : DecidablePred IsOptionName := fun name =>
  decidable_of_iff (name.head? = some '-' ∧ '=' ∉ name) ⟨fun h => ⟨h.1, h.2⟩, fun h => ⟨h.1, h.2⟩⟩

instance : Decidable (Mentions names argument) :=
  inferInstanceAs (Decidable (∃ name ∈ names, argument = name ∨ name ++ ['='] <+: argument))

theorem IsOptionName.ne_nil {name : Text} (h : IsOptionName name) : name ≠ [] := by
  rintro rfl
  cases h.head?_eq

/-! ### The value of an option -/

theorem valueAt?_eq_none_iff : valueAt? names argument rest = none ↔ ¬ Mentions names argument := by
  simp only [valueAt?, List.findSome?_eq_none_iff, Mentions, not_exists, not_and, not_or]
  refine forall₂_congr fun name _ => ?_
  by_cases h : argument = name
  · simp [h]
  · rw [if_neg h, Option.eq_none_iff_forall_ne_some]
    simp only [ne_eq, dropStart?_eq_some_iff, h, not_false_eq_true, true_and, List.IsPrefix, not_exists]
    exact forall_congr' fun a => not_congr eq_comm

/-- Only where an argument is a name of the option does its value depend on what comes next. -/
theorem valueAt?_congr (h : argument ∈ names → rest.head?.getD [] = rest'.head?.getD []) :
    valueAt? names argument rest = valueAt? names argument rest' := by
  by_cases hmem : argument ∈ names
  · simp only [valueAt?, h hmem]
  · clear h
    induction names with
    | nil => rfl
    | cons name names ih =>
      obtain ⟨hne, hmem⟩ := not_or.1 fun h => hmem (List.mem_cons.2 h)
      simp only [valueAt?, List.findSome?_cons, if_neg hne] at ih ⊢
      rw [ih hmem]

/-- A name of an option gives it the next argument as its value. -/
theorem valueAt?_of_mem (hnames : ∀ name ∈ names, IsOptionName name) (h : argument ∈ names) :
    valueAt? names argument rest = some (rest.head?.getD []) := by
  have hsome : valueAt? names argument rest ≠ none := fun hnone =>
    valueAt?_eq_none_iff.1 hnone ⟨argument, h, .inl rfl⟩
  obtain ⟨value, hvalue⟩ := Option.ne_none_iff_exists'.1 hsome
  obtain ⟨name, -, hname⟩ := List.exists_of_findSome?_eq_some hvalue
  by_cases hargument : argument = name
  · rw [if_pos hargument] at hname
    rw [hvalue, hname]
  · -- A name holds no equals sign, so it is no value for another name.
    rw [if_neg hargument, dropStart?_eq_some_iff] at hname
    exact absurd (by simp [hname]) (hnames argument h).equals_notMem

/-- Arguments give an option no value if none of them mentions it. -/
theorem optionValue?_eq_none_iff :
    optionValue? names arguments = none ↔ ∀ argument ∈ arguments, ¬ Mentions names argument := by
  induction arguments with
  | nil => simp [optionValue?]
  | cons argument rest ih =>
    have hargument : valueAt? names argument rest = none ↔ ¬ Mentions names argument := valueAt?_eq_none_iff
    rw [optionValue?, List.forall_mem_cons, ← ih, ← hargument]
    cases valueAt? names argument rest <;> simp

/-- What does not mention an option is passed over. -/
theorem optionValue?_append_of_not_mentions (h : ∀ argument ∈ front, ¬ Mentions names argument) :
    optionValue? names (front ++ rest) = optionValue? names rest := by
  induction front with
  | nil => rfl
  | cons argument front ih =>
    obtain ⟨hargument, hfront⟩ := List.forall_mem_cons.1 h
    rw [List.cons_append, optionValue?, valueAt?_eq_none_iff.2 hargument, ih hfront]
    rfl

/-- The value that an option has been given is the one that its first mention gives it. -/
theorem optionValue?_eq_some_iff : optionValue? names arguments = some value ↔ ∃ front argument rest,
    arguments = front ++ argument :: rest ∧ (∀ a ∈ front, ¬ Mentions names a) ∧
      valueAt? names argument rest = some value := by
  constructor
  · intro h
    induction arguments with
    | nil => cases h
    | cons argument rest ih =>
      rw [optionValue?] at h
      cases hvalue : valueAt? names argument rest with
      | some v =>
        rw [hvalue] at h
        exact ⟨[], argument, rest, rfl, by simp, hvalue.trans h⟩
      | none =>
        rw [hvalue] at h
        obtain ⟨front, argument', rest', rfl, hfront, hvalue'⟩ := ih h
        exact ⟨argument :: front, argument', rest', rfl,
          List.forall_mem_cons.2 ⟨valueAt?_eq_none_iff.1 hvalue, hfront⟩, hvalue'⟩
  · rintro ⟨front, argument, rest, rfl, hfront, hvalue⟩
    rw [optionValue?_append_of_not_mentions hfront, optionValue?, hvalue]
    rfl

/-- A value stays what it is when more arguments follow, unless it is still to come. -/
theorem optionValue?_append_of_some (hopen : ¬ EndsOpen names arguments)
    (h : optionValue? names arguments = some value) : optionValue? names (arguments ++ more) = some value := by
  obtain ⟨front, argument, rest, rfl, hfront, hvalue⟩ := optionValue?_eq_some_iff.1 h
  refine optionValue?_eq_some_iff.2 ⟨front, argument, rest ++ more, by simp, hfront, ?_⟩
  rw [← hvalue]
  refine valueAt?_congr fun hmem => ?_
  cases rest with
  | nil => exact absurd ⟨front, argument, rfl, hmem, hfront⟩ hopen
  | cons next rest => rfl

/-- An option whose name stands at the end takes what follows for its value. -/
theorem optionValue?_append_of_endsOpen (hnames : ∀ name ∈ names, IsOptionName name) (h : EndsOpen names arguments) :
    optionValue? names (arguments ++ more) = some (more.head?.getD []) := by
  obtain ⟨front, last, rfl, hlast, hfront⟩ := h
  exact optionValue?_eq_some_iff.2 ⟨front, last, more, by simp, hfront, valueAt?_of_mem hnames hlast⟩

/-- What is no option mentions none. -/
theorem IsPlain.not_mentions (hargument : IsPlain argument) (hnames : ∀ name ∈ names, IsOptionName name) :
    ¬ Mentions names argument := by
  rintro ⟨name, hname, hmention⟩
  refine hargument ?_
  rcases hmention with rfl | ⟨rest, rfl⟩
  · exact (hnames _ hname).head?_eq
  · rw [List.append_assoc, List.head?_append, (hnames name hname).head?_eq]
    rfl

/-! ### The defaults -/

/-- A requirement as it can be met: its option has names, and its default is no option. -/
structure Requirement.IsProper (r : Requirement) : Prop where
  names_ne_nil : r.names ≠ []
  isOptionName : ∀ name ∈ r.names, IsOptionName name
  isPlain : IsPlain r.value

/-- The default of one requirement does not mention the option of another. -/
def Requirement.IsApart (r q : Requirement) : Prop :=
  ¬ Mentions r.names (q.names.headD []) ∧ ¬ Mentions q.names (r.names.headD [])

/-- The first requirement that arguments leave out. -/
def firstMissing? (required : List Requirement) (arguments : List Text) : Option Requirement :=
  required.find? fun r => (optionValue? r.names arguments).isNone

theorem Requirement.headD_mem (h : r.names ≠ []) : r.names.headD [] ∈ r.names := by
  obtain ⟨name, names, hr⟩ := List.exists_cons_of_ne_nil h
  simp [hr]

/-- The defaults begin with a name of the first option that is missing. -/
theorem head?_flatMap_supplement : (required.flatMap (·.supplement arguments)).head? =
    (firstMissing? required arguments).map (·.names.headD []) := by
  induction required with
  | nil => rfl
  | cons r required ih =>
    rw [List.flatMap_cons, firstMissing?, List.find?_cons, Requirement.supplement]
    cases optionValue? r.names arguments with
    | none => rfl
    | some value => exact ih

/-- An option that was left out has its default. -/
theorem optionValue?_flatMap_supplement (hproper : ∀ q ∈ required, q.IsProper)
    (hapart : required.Pairwise Requirement.IsApart) (hr : r ∈ required) (hnone : optionValue? r.names arguments = none) :
    optionValue? r.names (required.flatMap (·.supplement arguments)) = some r.value := by
  induction required with
  | nil => cases hr
  | cons q required ih =>
    obtain ⟨hq, hrequired⟩ := List.forall_mem_cons.1 hproper
    obtain ⟨hapartq, hapart⟩ := List.pairwise_cons.1 hapart
    rw [List.flatMap_cons]
    rcases List.mem_cons.1 hr with rfl | hr
    · rw [Requirement.supplement, hnone]
      show optionValue? r.names (r.names.headD [] :: r.value :: _) = _
      rw [optionValue?, valueAt?_of_mem hq.isOptionName (r.headD_mem hq.names_ne_nil)]
      rfl
    · rw [optionValue?_append_of_not_mentions, ih hrequired hapart hr]
      -- What is supplied for another option mentions this one neither by name nor by value.
      intro argument hargument
      rw [Requirement.supplement] at hargument
      split at hargument
      · cases hargument
      · rcases List.mem_cons.1 hargument with rfl | hargument
        · exact (hapartq r hr).2
        · rw [List.mem_singleton.1 hargument]
          exact hq.isPlain.not_mentions (hrequired r hr).isOptionName

/-- What an option has been given, and what it has with the defaults behind. Where the given arguments end in a name of
the option, the first default is taken for its value: the name of the first option that is missing. -/
structure Requirement.IsServed (r : Requirement) (required : List Requirement) (given received : List Text) : Prop where
  default : optionValue? r.names given = none → optionValue? r.names received = some r.value
  kept : ∀ value, optionValue? r.names given = some value → ¬ EndsOpen r.names given →
    optionValue? r.names received = some value
  taken : EndsOpen r.names given → optionValue? r.names given = some [] ∧
    optionValue? r.names received = some (((firstMissing? required given).map (·.names.headD [])).getD [])

theorem isServed_append_supplement (hproper : ∀ q ∈ required, q.IsProper)
    (hapart : required.Pairwise Requirement.IsApart) (hr : r ∈ required) :
    r.IsServed required arguments (arguments ++ required.flatMap (·.supplement arguments)) where
  default hnone := by
    rw [optionValue?_append_of_not_mentions (optionValue?_eq_none_iff.1 hnone)]
    exact optionValue?_flatMap_supplement hproper hapart hr hnone
  kept value hsome hopen := optionValue?_append_of_some hopen hsome
  taken hopen := by
    constructor
    · rw [← List.append_nil arguments, optionValue?_append_of_endsOpen (hproper r hr).isOptionName hopen]
      rfl
    · rw [optionValue?_append_of_endsOpen (hproper r hr).isOptionName hopen, head?_flatMap_supplement]

/-! ### The options of a target -/

theorem isApart_requirements : (requirements target symbolGraphs output).Pairwise Requirement.IsApart := by
  unfold requirements
  cases target.kind <;> simp [Requirement.IsApart] <;> decide

theorem isProper_of_isPlain (hnames : names ≠ [] ∧ ∀ name ∈ names, IsOptionName name) (hvalue : IsPlain value) :
    Requirement.IsProper ⟨names, value⟩ := ⟨hnames.1, hnames.2, hvalue⟩

theorem isProper_of_mem_requirements (hname : IsPlain target.name) (hgraphs : IsPlain symbolGraphs.text)
    (houtput : IsPlain output.text) : ∀ r ∈ requirements target symbolGraphs output, r.IsProper := by
  rw [requirements, List.forall_mem_append]
  constructor
  · simp only [List.forall_mem_cons]
    exact ⟨isProper_of_isPlain (by decide) hname, isProper_of_isPlain (by decide) hname,
      isProper_of_isPlain (by decide) hgraphs, isProper_of_isPlain (by decide) houtput, by simp⟩
  · cases target.kind with
    | library => simp
    | executable =>
      simp only [List.forall_mem_cons]
      exact ⟨isProper_of_isPlain (by decide) (by decide), by simp⟩

/-- The action and the catalog mention no option. -/
theorem optionValue?_compilerArguments_eq (hcatalog : ∀ catalog ∈ target.catalog, IsPlain catalog.text)
    (hnames : ∀ name ∈ names, IsOptionName name) :
    optionValue? names (compilerArguments action target symbolGraphs output arguments) =
      optionValue? names (transformedArguments arguments ++
        (requirements target symbolGraphs output).flatMap (·.supplement (transformedArguments arguments))) := by
  have haction : IsPlain action.name := by cases action <;> decide
  rw [compilerArguments, List.append_assoc]
  refine optionValue?_append_of_not_mentions (List.forall_mem_cons.2 ⟨haction.not_mentions hnames, ?_⟩)
  intro text htext
  obtain ⟨catalog, hmem, rfl⟩ := Option.map_eq_some_iff.1 (Option.mem_toList.1 htext)
  exact (hcatalog catalog hmem).not_mentions hnames

/-- The compiler gets for every required option the value that the user gave it, and its default where the user gave it
none, unless the arguments of the user end in a name of the option. The output path is the one that the compiler gets. -/
theorem isServed_compilerArguments (hname : IsPlain target.name)
    (hcatalog : ∀ catalog ∈ target.catalog, IsPlain catalog.text) (hgraphs : IsPlain symbolGraphs.text)
    (houtput : IsPlain output.text) (hread : output.IsRead) :
    let given := transformedArguments arguments
    let required := requirements target symbolGraphs output
    let received := compilerArguments action target symbolGraphs output arguments
    (∀ r ∈ required, r.IsServed required given received) ∧
    (optionValue? outputOptions given = none → outputPath? received = some output.text) ∧
    (optionValue? outputOptions given ≠ none → ¬ EndsOpen outputOptions given →
      outputPath? received = outputPath? given) ∧
    (EndsOpen outputOptions given → outputPath? given = none ∧
      outputPath? received = (firstMissing? required given).map (·.names.headD [])) := by
  intro given required received
  have hproper := isProper_of_mem_requirements hname hgraphs houtput
  have hserved : ∀ r ∈ required, r.IsServed required given received := by
    intro r hr
    -- The action and the catalog mention no option, so that the arguments behind them decide.
    have heq : optionValue? r.names received =
        optionValue? r.names (given ++ required.flatMap (·.supplement given)) :=
      optionValue?_compilerArguments_eq hcatalog (hproper r hr).isOptionName
    have happended : r.IsServed required given (given ++ required.flatMap (·.supplement given)) :=
      isServed_append_supplement hproper isApart_requirements hr
    exact ⟨heq ▸ happended.default, heq ▸ happended.kept, heq ▸ happended.taken⟩
  obtain ⟨hdefault, hkept, htaken⟩ := hserved ⟨outputOptions, output.text⟩ (by simp [required, requirements])
  refine ⟨hserved, fun hnone => ?_, fun hsome hopen => ?_, fun hopen => ⟨?_, ?_⟩⟩
  · rw [outputPath?, hdefault hnone]
    simp [Path.text_ne_nil hread]
  · obtain ⟨value, hvalue⟩ := Option.ne_none_iff_exists'.1 hsome
    rw [outputPath?, outputPath?, hkept value hvalue hopen, hvalue]
  · rw [outputPath?, (htaken hopen).1]
    rfl
  · rw [outputPath?, (htaken hopen).2]
    cases hmissing : firstMissing? required given with
    | none => rfl
    | some q =>
      -- The name that is taken for a value is no empty text, so that it is a path.
      have hq := hproper q (List.mem_of_find?_eq_some hmissing)
      have hne := (hq.isOptionName _ (q.headD_mem hq.names_ne_nil)).ne_nil
      exact Option.filter_some_pos (by simpa using hne)

/-- A module of a package. -/
def kit : Target where
  name := "Kit".toList

/-- Where the symbol graphs of the module are. -/
def kitGraphs : Path := .ofText "graphs".toList

/-- Where the archive of the module goes. -/
def kitArchive : Path := .ofText "Kit.doccarchive".toList

theorem kit_isPlain : IsPlain kit.name ∧ (∀ catalog ∈ kit.catalog, IsPlain catalog.text) ∧ IsPlain kitGraphs.text ∧
    IsPlain kitArchive.text := by
  refine ⟨by decide, by simp [kit], by decide, by decide⟩

theorem kit_served : EndsOpen outputOptions (transformedArguments ["--output-path".toList]) ∧
    outputPath? (compilerArguments .convert kit kitGraphs kitArchive ["--output-path".toList]) =
      some "--fallback-display-name".toList := by
  obtain ⟨hname, hcatalog, hgraphs, houtput⟩ := kit_isPlain
  have hopen : EndsOpen outputOptions (transformedArguments ["--output-path".toList]) :=
    ⟨[], "--output-path".toList, rfl, by decide, by simp⟩
  exact ⟨hopen, ((isServed_compilerArguments hname hcatalog hgraphs houtput (Path.isRead_ofText _)).2.2.2 hopen).2⟩

/-- Not every option keeps the value that the user gave it: an output path that is still to come at the end becomes the
name of an option. -/
theorem not_forall_optionValue?_compilerArguments : ¬ ∀ (action : Action) (target : Target) (symbolGraphs output : Path)
    (arguments : List Text), IsPlain target.name → (∀ catalog ∈ target.catalog, IsPlain catalog.text) →
      IsPlain symbolGraphs.text → IsPlain output.text → ∀ r ∈ requirements target symbolGraphs output, ∀ value,
        optionValue? r.names (transformedArguments arguments) = some value →
          optionValue? r.names (compilerArguments action target symbolGraphs output arguments) = some value := by
  intro h
  obtain ⟨hname, hcatalog, hgraphs, houtput⟩ := kit_isPlain
  have := h .convert kit kitGraphs kitArchive ["--output-path".toList] hname hcatalog hgraphs houtput
    ⟨outputOptions, kitArchive.text⟩ (by decide) [] (by decide)
  revert this
  decide

end CodeSnippets
