import CodeSnippets.CommandLine.Document
import CodeSnippets.Proofs.Lookup
import Mathlib.Data.List.TakeWhile

/-!
# Runs of the compiler

The compiler is run for one target after the other, until a run fails or the arguments of a run cannot be made.

* `distinct_eq_eraseDups`: the targets, each where it was first named.
* `Machine.runCompiler_eq_ok`: one run, its arguments recorded.
* `Settled`: what there must be before the first run.
* `runTargets_append`: the runs for the targets that come first.
* `document_runs`: the runs for all targets of a request.
-/

namespace CodeSnippets

open Text

/-! ### Targets -/

/-- Each name stays where it was given first. -/
theorem distinct_eq_eraseDups (names : List Text) : distinct names = names.eraseDups := by
  have key : ∀ (names done : List Text),
      names.foldl (fun done name => if done.contains name then done else done ++ [name]) done =
        List.eraseDupsBy.loop (· == ·) names done.reverse := by
    intro names
    induction names with
    | nil => intro done; simp [List.eraseDupsBy.loop]
    | cons name names ih =>
      intro done
      have hany : done.reverse.any (name == ·) = done.contains name := by
        rw [List.any_reverse, List.contains_eq_any_beq]
      rw [List.foldl_cons, ih, List.eraseDupsBy.loop, hany]
      cases done.contains name <;> simp
  exact key names []

theorem map_name_of_targetsOf {names executables catalogs : List Text} {targets : List Target}
    (h : targetsOf names executables catalogs = .ok targets) : targets.map (·.name) = names.eraseDups := by
  simp only [targetsOf] at h
  split at h
  · cases h
  · obtain ⟨paired, -, h⟩ := bind_eq_ok_iff.1 h
    obtain rfl := Except.ok.inj h
    rw [List.map_map, ← distinct_eq_eraseDups]
    exact List.map_id _

namespace Machine

variable {m : Machine} {done : List (List Text)} {start : Start} {program : Path} {arguments : List Text}

/-! ### One run -/

/-- What is started when more arguments follow. -/
def Start.append (s : Start) (arguments : List Text) : Start := { s with words := s.words ++ arguments }

/-- How the run with a number ends. -/
def Start.status (s : Start) (run : Nat) : Int := if s.readable then codeOf s.codes run else unreadableStatus

/-- How runs end from the one with a number on. -/
def Start.statuses (s : Start) (run count : Nat) : List Int := (List.range' run count).map s.status

/-- Number of runs that are made of so many that could be: those up to the first that does not end with status zero. -/
def Start.performed (s : Start) (run count : Nat) : Nat :=
  min count (((s.statuses run count).takeWhile (· = 0)).length + 1)

/-- What the runs with these arguments leave behind. A compiler that the program of the system cannot read leaves
nothing. -/
def Start.recorded (s : Start) (lists : List (List Text)) : List (List Text) :=
  if s.readable then lists.map (s.words ++ ·) else []

variable {s : Start} {run : Nat}

theorem Start.statuses_succ (count : Nat) : s.statuses run (count + 1) = s.status run :: s.statuses (run + 1) count := by
  simp [statuses, List.range'_succ]

theorem Start.performed_succ_of_eq_zero (h : s.status run = 0) (count : Nat) :
    s.performed run (count + 1) = s.performed (run + 1) count + 1 := by
  rw [performed, performed, statuses_succ, List.takeWhile_cons_of_pos (by simp [h]), List.length_cons,
    Nat.add_min_add_right]

theorem Start.performed_succ_of_ne_zero (h : s.status run ≠ 0) (count : Nat) : s.performed run (count + 1) = 1 := by
  rw [performed, statuses_succ, List.takeWhile_cons_of_neg (by simp [h])]
  exact Nat.min_eq_right (by simp)

theorem Start.recorded_append (front back : List (List Text)) :
    s.recorded (front ++ back) = s.recorded front ++ s.recorded back := by
  unfold recorded
  cases s.readable <;> simp

/-- A run that ends with status zero has been one of the compiler. -/
theorem Start.readable_of_status_eq_zero (h : s.status run = 0) : s.readable = true := by
  by_contra hnot
  rw [status, if_neg hnot] at h
  cases h

/-- What is started depends neither on the arguments nor on the runs before. -/
theorem launch_append (stages : Nat) (raw : Text) (front back : List Text) :
    { m with runs := done }.launch stages raw (front ++ back) = (m.launch stages raw front).map (·.append back) := by
  induction stages generalizing raw front with
  | zero =>
    rw [launch, launch]
    show m.executable raw >>= _ = (m.executable raw >>= _).map _
    cases m.executable raw <;> rfl
  | succ stages ih =>
    rw [launch, launch]
    show m.executable raw >>= _ = (m.executable raw >>= _).map _
    cases m.executable raw with
    | error errno => rfl
    | ok n =>
      cases n with
      | compiler codes mode => cases stages <;> rfl
      | _ =>
        simp only [bind, Except.bind]
        split
        · rfl
        · rw [← List.cons_append, ← List.append_assoc, ih]

theorem launchFirst_append (arguments raws : List Text) (kept : Option Errno) (last : Errno) :
    { m with runs := done }.launchFirst arguments raws kept last =
      (m.launchFirst [] raws kept last).map (·.append arguments) := by
  induction raws generalizing kept last with
  | nil => rfl
  | cons raw raws ih =>
    rw [launchFirst, launchFirst, ← List.nil_append arguments, launch_append]
    cases m.launch maxStages raw [] with
    | ok start => rfl
    | error errno => exact ih _ _

/-- The system can be given a program and its arguments: none of them holds a null character. -/
def CanPass (program : Path) (arguments : List Text) : Prop := ∀ word ∈ program.text :: arguments, '\x00' ∉ word

instance : Decidable (CanPass program arguments) :=
  inferInstanceAs (Decidable (∀ word ∈ program.text :: arguments, '\x00' ∉ word))

theorem canPass_iff : CanPass program arguments ↔ (program.text :: arguments).any (·.contains '\x00') = false := by
  simp [CanPass]

theorem runCompiler_of_not_canPass (h : ¬ CanPass program arguments) :
    m.runCompiler program arguments = (m, .error (.fault .nullCharacter)) := by
  rw [runCompiler, if_pos (Bool.not_eq_false _ ▸ mt canPass_iff.2 h)]

/-- A compiler that can be started is run: it gets the arguments behind the words that it is started with. -/
theorem runCompiler_eq_ok (h : CanPass program arguments)
    (hstart : m.launchFirst [] (m.startPaths program.text) none .noEntry = .ok start) :
    { m with runs := done }.runCompiler program arguments =
      ({ m with runs := done ++ start.recorded [arguments] }, .ok (start.status done.length)) := by
  have hlaunch : { m with runs := done }.launchFirst arguments ({ m with runs := done }.startPaths program.text) none
      .noEntry = .ok (start.append arguments) := by
    rw [launchFirst_append]
    exact congrArg (Except.map _) hstart
  simp only [runCompiler, canPass_iff.1 h, hlaunch]
  cases hreadable : start.readable <;> simp [Start.append, Start.recorded, Start.status, hreadable]

/-- A compiler that cannot be started is not run. -/
theorem runCompiler_eq_error {errno : Errno} (h : CanPass program arguments)
    (hstart : m.launchFirst [] (m.startPaths program.text) none .noEntry = .error errno) :
    { m with runs := done }.runCompiler program arguments =
      ({ m with runs := done }, .error (.notStarted program { errno, path := program.text })) := by
  have hlaunch : { m with runs := done }.launchFirst arguments ({ m with runs := done }.startPaths program.text) none
      .noEntry = .error errno := by
    rw [launchFirst_append]
    exact congrArg (Except.map _) hstart
  simp only [runCompiler, canPass_iff.1 h, hlaunch]
  rfl

end Machine

namespace CommandLine

open Machine

variable {m : Machine} {r : DocumentRequest} {program : Path} {target : Target} {targets front back rest : List Target}
  {lists : List (List Text)} {arguments : List Text} {done : List (List Text)} {start : Start} {o : Outcome}
  {f : Fault} {code : Int}

/-! ### The runs for several targets -/

/-- Where the symbol graphs of a target are if it has some of its own. -/
def ownGraphs (r : DocumentRequest) (target : Target) : Path := (Path.ofText r.symbolGraphs).join (.ofText target.name)

theorem requestArguments_eq_ok_iff : requestArguments m r target = .ok arguments ↔
    ∃ own, m.isDirectory (ownGraphs r target) = .ok own ∧
      arguments = compilerArguments r.action target (if own then ownGraphs r target else .ofText r.symbolGraphs)
        (target.archivePath (.ofText r.archiveDir)) r.arguments := by
  simp only [requestArguments, symbolGraphsFor, bind_eq_ok_iff, mapError_eq_ok_iff, pure, Except.pure, Except.ok.injEq]
  constructor
  · rintro ⟨_, ⟨own, hown, rfl⟩, rfl⟩
    exact ⟨own, hown, rfl⟩
  · rintro ⟨own, hown, rfl⟩
    exact ⟨_, ⟨own, hown, rfl⟩, rfl⟩

theorem requestArguments_eq_error {e : SystemError} (h : m.isDirectory (ownGraphs r target) = .error e) :
    requestArguments m r target = .error (.system e) := by
  have hgraphs : symbolGraphsFor m (.ofText r.symbolGraphs) target = .error (.system e) :=
    bind_eq_error_iff.2 (.inl (mapError_eq_error_iff.2 ⟨e, h, rfl⟩))
  exact bind_eq_error_iff.2 (.inl hgraphs)

/-- The arguments of the run for a target: its own symbol graphs if there is a directory of them, or else those of all,
and an archive that is named after it. -/
structure IsArguments (m : Machine) (r : DocumentRequest) (program : Path) (target : Target) (arguments : List Text) :
    Prop where
  eq : ∃ own, m.isDirectory (ownGraphs r target) = .ok own ∧
    arguments = compilerArguments r.action target (if own then ownGraphs r target else .ofText r.symbolGraphs)
      (target.archivePath (.ofText r.archiveDir)) r.arguments
  canPass : CanPass program arguments

/-- Why there is no run for a target: the system does not say whether the target has symbol graphs of its own, or there
is an argument that it does not take. -/
inductive IsBlocked (m : Machine) (r : DocumentRequest) (program : Path) (target : Target) : Fault → Prop where
  | unknown {e : SystemError} (h : m.isDirectory (ownGraphs r target) = .error e) : IsBlocked m r program target (.system e)
  | nullCharacter {arguments : List Text} (h : requestArguments m r target = .ok arguments)
    (hpass : ¬ CanPass program arguments) : IsBlocked m r program target .nullCharacter

theorem isArguments_or_isBlocked (m : Machine) (r : DocumentRequest) (program : Path) (target : Target) :
    (∃ arguments, IsArguments m r program target arguments) ∨ ∃ f, IsBlocked m r program target f := by
  cases hown : m.isDirectory (ownGraphs r target) with
  | error e => exact .inr ⟨_, .unknown hown⟩
  | ok own =>
    obtain ⟨arguments, harguments⟩ : ∃ arguments, requestArguments m r target = .ok arguments :=
      ⟨_, requestArguments_eq_ok_iff.2 ⟨own, hown, rfl⟩⟩
    by_cases hpass : CanPass program arguments
    · exact .inl ⟨arguments, requestArguments_eq_ok_iff.1 harguments, hpass⟩
    · exact .inr ⟨_, .nullCharacter harguments hpass⟩

theorem IsArguments.not_isBlocked (h : IsArguments m r program target arguments) : ¬ IsBlocked m r program target f := by
  intro hblocked
  have hrequest := requestArguments_eq_ok_iff.2 h.eq
  cases hblocked with
  | unknown hown => cases hrequest.symm.trans (requestArguments_eq_error hown)
  | nullCharacter hother hpass => exact hpass (Except.ok.inj (hrequest.symm.trans hother) ▸ h.canPass)

theorem IsArguments.unique {arguments' : List Text} (h : IsArguments m r program target arguments)
    (h' : IsArguments m r program target arguments') : arguments = arguments' :=
  Except.ok.inj ((requestArguments_eq_ok_iff.2 h.eq).symm.trans (requestArguments_eq_ok_iff.2 h'.eq))

/-- One run: it is recorded, and has failed if it does not end with status zero. -/
theorem runTarget_of_isArguments (h : IsArguments m r program target arguments)
    (hstart : m.launchFirst [] (m.startPaths program.text) none .noEntry = .ok start)
    (ho : o.machine = { m with runs := done }) (herror : o.error = none) :
    (runTarget r program o target).machine = { m with runs := done ++ start.recorded [arguments] } ∧
    (runTarget r program o target).error =
      if start.status done.length = 0 then none
      else some (.compiler (.failed (start.status done.length) r.action)) := by
  have hrequest : requestArguments { m with runs := done } r target = .ok arguments := requestArguments_eq_ok_iff.2 h.eq
  have hrun : ({ m with runs := done } : Machine).runCompiler program arguments = _ := runCompiler_eq_ok h.canPass hstart
  unfold runTarget
  by_cases hzero : start.status done.length = 0
  · simp only [ho, hrequest, hrun, checkEnd, if_pos hzero]
    exact ⟨trivial, herror⟩
  · simp only [ho, hrequest, hrun, checkEnd, if_neg hzero]
    exact ⟨trivial, rfl⟩

/-- A target that there is no run for. -/
theorem runTarget_of_isBlocked (h : IsBlocked m r program target f) (ho : o.machine = { m with runs := done }) :
    (runTarget r program o target).machine = o.machine ∧ (runTarget r program o target).error = some (.fault f) := by
  cases h with
  | unknown h =>
    have hrequest : requestArguments { m with runs := done } r target = _ := requestArguments_eq_error h
    unfold runTarget
    simp only [ho, hrequest, and_self]
  | nullCharacter h hpass =>
    have hrequest : requestArguments { m with runs := done } r target = _ := h
    unfold runTarget
    simp only [ho, hrequest, runCompiler_of_not_canPass hpass]
    exact ⟨trivial, rfl⟩

/-- A compiler that cannot be started. -/
theorem runTarget_of_not_started {errno : Errno} (h : IsArguments m r program target arguments)
    (hstart : m.launchFirst [] (m.startPaths program.text) none .noEntry = .error errno)
    (ho : o.machine = { m with runs := done }) :
    (runTarget r program o target).machine = o.machine ∧
    (runTarget r program o target).error = some (.compiler (.notStarted program { errno, path := program.text })) := by
  have hrequest : requestArguments { m with runs := done } r target = .ok arguments := requestArguments_eq_ok_iff.2 h.eq
  unfold runTarget
  simp only [ho, hrequest, runCompiler_eq_error h.canPass hstart]
  exact ⟨trivial, rfl⟩

/-- The run for the target that comes first; the others follow if it has not failed. -/
theorem runTargets_cons (r : DocumentRequest) (program : Path) (first : Bool) (o : Outcome) (target : Target)
    (rest : List Target) : ∃ o' : Outcome, o'.machine = o.machine ∧ o'.error = o.error ∧
      runTargets r program first o (target :: rest) =
        if (runTarget r program o' target).error.isSome then runTarget r program o' target
        else runTargets r program false (runTarget r program o' target) rest := by
  cases first
  · exact ⟨{ o with stderr := o.stderr ++ ['\n'] }, rfl, rfl, rfl⟩
  · exact ⟨o, rfl, rfl, rfl⟩

/-- The targets that come first are run for up to the first run that does not end with status zero, which ends the
command. If there is none, the other targets come next. -/
theorem runTargets_append (first : Bool) (back : List Target) (h : List.Forall₂ (IsArguments m r program) front lists)
    (hstart : m.launchFirst [] (m.startPaths program.text) none .noEntry = .ok start)
    (ho : o.machine = { m with runs := done }) (herror : o.error = none) :
    let statuses := start.statuses done.length front.length
    let after := { m with runs := done ++ start.recorded (lists.take (start.performed done.length front.length)) }
    (∀ code, statuses.find? (· ≠ 0) = some code → (runTargets r program first o (front ++ back)).machine = after ∧
      (runTargets r program first o (front ++ back)).error = some (.compiler (.failed code r.action))) ∧
    (statuses.find? (· ≠ 0) = none → ∃ (first' : Bool) (o' : Outcome), o'.machine = after ∧ o'.error = none ∧
      runTargets r program first o (front ++ back) = runTargets r program first' o' back) := by
  induction h generalizing done first o with
  | nil => exact ⟨by simp [Start.statuses], fun _ => ⟨first, o, by simpa [Start.recorded] using ho, herror, rfl⟩⟩
  | @cons target arguments front lists hargs _ ih =>
    obtain ⟨o₁, ho₁, herror₁, heq⟩ := runTargets_cons r program first o target (front ++ back)
    obtain ⟨hmachine, hcode⟩ := runTarget_of_isArguments hargs hstart (ho₁.trans ho) (herror₁.trans herror)
    dsimp only at ih ⊢
    rw [List.cons_append, List.length_cons, Start.statuses_succ, heq]
    -- A run that succeeds is recorded, and the run after it takes the next status.
    by_cases hzero : start.status done.length = 0
    · rw [if_pos hzero] at hcode
      have hlength : (done ++ start.recorded [arguments]).length = done.length + 1 := by
        simp [Start.recorded, Start.readable_of_status_eq_zero hzero]
      have htake : start.recorded ((arguments :: lists).take (start.performed done.length (front.length + 1))) =
          start.recorded [arguments] ++
            start.recorded (lists.take (start.performed (done.length + 1) front.length)) := by
        rw [Start.performed_succ_of_eq_zero hzero, List.take_succ_cons, ← Start.recorded_append, List.singleton_append]
      rw [hcode, List.find?_cons_of_neg (by simp [hzero]), htake, ← List.append_assoc, ← hlength]
      exact ih false hmachine hcode
    · rw [if_neg hzero] at hcode
      rw [hcode, List.find?_cons_of_pos (by simp [hzero]), Start.performed_succ_of_ne_zero hzero]
      refine ⟨fun code h => ?_, nofun⟩
      obtain rfl := Option.some.inj h
      exact ⟨hmachine, hcode⟩

/-- A target that there is no run for ends the command. -/
theorem runTargets_cons_of_isBlocked (first : Bool) (rest : List Target) (h : IsBlocked m r program target f)
    (ho : o.machine = { m with runs := done }) :
    (runTargets r program first o (target :: rest)).machine = o.machine ∧
    (runTargets r program first o (target :: rest)).error = some (.fault f) := by
  obtain ⟨o', ho', -, heq⟩ := runTargets_cons r program first o target rest
  obtain ⟨hmachine, herror⟩ := runTarget_of_isBlocked h (ho'.trans ho)
  rw [heq, herror]
  exact ⟨hmachine.trans ho', herror⟩

/-- A compiler that cannot be started ends the command before there is a run. -/
theorem runTargets_of_not_started {errno : Errno} (first : Bool)
    (hstart : m.launchFirst [] (m.startPaths program.text) none .noEntry = .error errno)
    (ho : o.machine = { m with runs := done }) :
    (runTargets r program first o targets).machine = o.machine ∧
    (targets ≠ [] → (runTargets r program first o targets).error ≠ none) := by
  cases targets with
  | nil => exact ⟨rfl, fun h => absurd rfl h⟩
  | cons target rest =>
    rcases isArguments_or_isBlocked m r program target with ⟨arguments, hargs⟩ | ⟨f, hblocked⟩
    · obtain ⟨o', ho', -, heq⟩ := runTargets_cons r program first o target rest
      obtain ⟨hmachine, herror⟩ := runTarget_of_not_started hargs hstart (ho'.trans ho)
      rw [heq, herror]
      exact ⟨hmachine.trans ho', fun _ => by simp [herror]⟩
    · obtain ⟨hmachine, herror⟩ := runTargets_cons_of_isBlocked first rest hblocked ho
      exact ⟨hmachine, fun _ => by simp [herror]⟩

/-! ### The runs of a request -/

/-- What there must be before the first run: targets that fit together, a single one if it is to be previewed, settings
that are valid, and a compiler. -/
structure Settled (m : Machine) (r : DocumentRequest) (targets : List Target) (program : Path) : Prop where
  targets_eq : targetsOf r.targets r.executables r.catalogs = .ok targets
  length_le_one : r.action = .preview → targets.length ≤ 1
  found : ∃ base settings, baseDirectory m = .ok base ∧ loadSettings m base none = .ok settings ∧
    m.findCompiler settings.draft.doccExecutable m.environment = .ok program

theorem prepare_eq_ok_iff : prepare m r = .ok (targets, program) ↔ Settled m r targets program := by
  constructor
  · intro h
    obtain ⟨targets', htargets, h⟩ := bind_eq_ok_iff.1 h
    split at h
    · cases h
    · rename_i hsingle
      obtain ⟨base, hbase, h⟩ := bind_eq_ok_iff.1 h
      obtain ⟨settings, hsettings, h⟩ := bind_eq_ok_iff.1 h
      obtain ⟨program', hprogram, h⟩ := bind_eq_ok_iff.1 h
      obtain ⟨rfl, rfl⟩ := Prod.mk.inj (Except.ok.inj h)
      exact ⟨mapError_eq_ok_iff.1 htargets, fun hpreview => by simpa [hpreview] using hsingle, base, settings, hbase,
        hsettings, mapError_eq_ok_iff.1 hprogram⟩
  · rintro ⟨htargets, hsingle, base, settings, hbase, hsettings, hprogram⟩
    refine bind_eq_ok_iff.2 ⟨targets, mapError_eq_ok_iff.2 htargets, ?_⟩
    rw [if_neg fun h => absurd (hsingle h.1) (by omega)]
    exact bind_eq_ok_iff.2 ⟨base, hbase, bind_eq_ok_iff.2 ⟨settings, hsettings, bind_eq_ok_iff.2
      ⟨program, mapError_eq_ok_iff.2 hprogram, rfl⟩⟩⟩

theorem document_eq_runTargets (h : Settled m r targets program) :
    document m r = runTargets r program true { machine := m } targets := by
  rw [document, prepare_eq_ok_iff.2 h]

/-- There are runs for the targets up to the first that there is none for. -/
theorem exists_append_isBlocked (m : Machine) (r : DocumentRequest) (program : Path) (targets : List Target) :
    ∃ front back lists, targets = front ++ back ∧ List.Forall₂ (IsArguments m r program) front lists ∧
      ∀ target ∈ back.head?, ∃ f, IsBlocked m r program target f := by
  induction targets with
  | nil => exact ⟨[], [], [], rfl, .nil, by simp⟩
  | cons target rest ih =>
    rcases isArguments_or_isBlocked m r program target with ⟨arguments, hargs⟩ | hblocked
    · obtain ⟨front, back, lists, rfl, hlists, hback⟩ := ih
      exact ⟨target :: front, back, arguments :: lists, rfl, .cons hargs hlists, hback⟩
    · exact ⟨[], target :: rest, [], rfl, .nil, by simpa using hblocked⟩

/-- Without targets that fit together, valid settings and a compiler there is no run. Otherwise the compiler is run for
one target after the other, each where it was first named, with the arguments of the target, up to the first run that
does not end with status zero: the command fails with its status, or succeeds if there is none. A target that there is
no run for ends the command with a fault if it is reached. -/
theorem document_runs (m : Machine) (r : DocumentRequest) :
    ((¬ ∃ targets program, Settled m r targets program) → (document m r).machine = m ∧ (document m r).error ≠ none) ∧
    ∀ targets program, Settled m r targets program →
      targets.map (·.name) = r.targets.eraseDups ∧
      (∀ errno, m.launchFirst [] (m.startPaths program.text) none .noEntry = .error errno →
        (document m r).machine = m ∧ (targets ≠ [] → (document m r).error ≠ none)) ∧
      ∀ start, m.launchFirst [] (m.startPaths program.text) none .noEntry = .ok start →
        ∃ front back lists, targets = front ++ back ∧ List.Forall₂ (IsArguments m r program) front lists ∧
          (∀ target ∈ back.head?, ∃ f, IsBlocked m r program target f) ∧
          let statuses := start.statuses m.runs.length front.length
          let performed := start.performed m.runs.length front.length
          (document m r).machine = { m with runs := m.runs ++ start.recorded (lists.take performed) } ∧
          (∀ code, statuses.find? (· ≠ 0) = some code →
            (document m r).error = some (.compiler (.failed code r.action))) ∧
          (statuses.find? (· ≠ 0) = none → back = [] → (document m r).error = none) ∧
          (statuses.find? (· ≠ 0) = none → ∀ target ∈ back.head?, ∀ f, IsBlocked m r program target f →
            (document m r).error = some (.fault f)) := by
  refine ⟨fun hnot => ?_, fun targets program hsettled => ⟨map_name_of_targetsOf hsettled.targets_eq, ?_, ?_⟩⟩
  · rw [document]
    cases hprepare : prepare m r with
    | error e => exact ⟨rfl, by simp [Outcome.failed]⟩
    | ok settled => exact absurd ⟨settled.1, settled.2, prepare_eq_ok_iff.1 hprepare⟩ hnot
  · intro errno herror
    rw [document_eq_runTargets hsettled]
    exact runTargets_of_not_started true herror (o := { machine := m }) rfl
  · intro start hstart
    obtain ⟨front, back, lists, rfl, hlists, hback⟩ := exists_append_isBlocked m r program targets
    refine ⟨front, back, lists, rfl, hlists, hback, ?_⟩
    obtain ⟨hstop, hgo⟩ := runTargets_append true back hlists hstart (o := { machine := m }) rfl rfl
    rw [document_eq_runTargets hsettled]
    dsimp only
    -- The targets behind `front` matter only if no run before them has failed.
    cases hfailed : (start.statuses m.runs.length front.length).find? (· ≠ 0) with
    | some code =>
      obtain ⟨hmachine, herror⟩ := hstop code hfailed
      exact ⟨hmachine, fun code' hcode' => Option.some.inj hcode' ▸ herror, nofun, nofun⟩
    | none =>
      obtain ⟨first, o, ho, herror, heq⟩ := hgo hfailed
      rw [heq]
      cases back with
      | nil => exact ⟨ho, nofun, fun _ _ => herror, nofun⟩
      | cons target rest =>
        obtain ⟨f, hblocked⟩ := hback target rfl
        refine ⟨(runTargets_cons_of_isBlocked first rest hblocked ho).1.trans ho, nofun, nofun, ?_⟩
        intro _ target' htarget f' hblocked'
        obtain rfl : target = target' := Option.some.inj htarget
        exact (runTargets_cons_of_isBlocked first rest hblocked' ho).2

/-- A machine with a compiler whose second run fails, and a directory of symbol graphs in which one target has its
own. -/
def studio : Machine where
  root := .directory [("docc".toList, .compiler [0, 3] 0o755),
    ("graphs".toList, .directory [("Kit".toList, .directory [] 0o755)] 0o755)] 0o755
  environment := [("DOCC_EXEC".toList, "/docc".toList)]

/-- A request for some targets. -/
def studioRequest (targets : List Text) : DocumentRequest where
  action := .convert
  targets
  symbolGraphs := "graphs".toList

/-- A request for three targets, one of which is named twice. -/
def bundle : DocumentRequest := studioRequest ["Kit".toList, "App".toList, "Kit".toList, "Lib".toList]

/-- Its targets. -/
def bundled : List Target :=
  [⟨"Kit".toList, .library, none⟩, ⟨"App".toList, .library, none⟩, ⟨"Lib".toList, .library, none⟩]

/-- The arguments of the run for one of them. -/
def bundleArguments (name graphs : Text) : List Text :=
  compilerArguments .convert ⟨name, .library, none⟩ (.ofText graphs)
    (.ofText (defaultArchiveDir ++ '/' :: name ++ ".doccarchive".toList)) []

theorem studio_launchFirst :
    studio.launchFirst [] (studio.startPaths "/docc".toList) none .noEntry = .ok ⟨["/docc".toList], [0, 3], true⟩ := by
  decide +kernel

theorem studio_document :
    Settled studio bundle bundled ⟨.root, ["docc".toList]⟩ ∧
    (document studio bundle).machine.runs =
      ["/docc".toList :: bundleArguments "Kit".toList "graphs/Kit".toList,
        "/docc".toList :: bundleArguments "App".toList "graphs".toList] ∧
    (document studio bundle).error = some (.compiler (.failed 3 .convert)) := by
  have hsettled : Settled studio bundle bundled ⟨.root, ["docc".toList]⟩ := prepare_eq_ok_iff.1 (by decide +kernel)
  -- The system says of every target whether it has a directory of its own, and no argument holds a null character.
  have harguments : List.Forall₂ (IsArguments studio bundle ⟨.root, ["docc".toList]⟩) bundled
      [bundleArguments "Kit".toList "graphs/Kit".toList, bundleArguments "App".toList "graphs".toList,
        bundleArguments "Lib".toList "graphs".toList] :=
    .cons ⟨requestArguments_eq_ok_iff.1 (by decide +kernel), by decide +kernel⟩
      (.cons ⟨requestArguments_eq_ok_iff.1 (by decide +kernel), by decide +kernel⟩
        (.cons ⟨requestArguments_eq_ok_iff.1 (by decide +kernel), by decide +kernel⟩ .nil))
  obtain ⟨front, back, lists, htargets, hlists, hback, hmachine, herror, -⟩ :=
    ((document_runs studio _).2 _ _ hsettled).2.2 _ studio_launchFirst
  obtain rfl : back = [] := by
    -- There is a run for each target.
    cases back with
    | nil => rfl
    | cons target rest =>
      obtain ⟨f, hblocked⟩ := hback target rfl
      obtain ⟨arguments, -, h⟩ := exists_mem_of_forall₂ harguments (htargets ▸ List.mem_append_cons_self)
      exact absurd hblocked h.not_isBlocked
  obtain rfl : bundled = front := by simpa using htargets
  obtain rfl := Relator.RightUnique.forall₂ (fun _ _ _ h h' => h.unique h') hlists harguments
  refine ⟨hsettled, ?_, herror 3 (by decide)⟩
  rw [hmachine]
  rfl

/-- Not every run has its arguments whatever the name of the target is: a name that is too long for the system ends the
command before the run. -/
theorem not_forall_document_runs : ¬ ∀ (m : Machine) (r : DocumentRequest) (targets : List Target) (program : Path)
    (start : Start) (lists : List (List Text)), Settled m r targets program →
      m.launchFirst [] (m.startPaths program.text) none .noEntry = .ok start →
      List.Forall₂ (fun target arguments => CanPass program arguments ∧ arguments = compilerArguments r.action target
        (if m.isDirectory (ownGraphs r target) = .ok true then ownGraphs r target else .ofText r.symbolGraphs)
        (target.archivePath (.ofText r.archiveDir)) r.arguments) targets lists →
      (document m r).machine.runs =
        m.runs ++ start.recorded (lists.take (start.performed m.runs.length targets.length)) := by
  intro h
  have hsettled : Settled studio (studioRequest [List.replicate 256 'n']) [⟨List.replicate 256 'n', .library, none⟩]
      ⟨.root, ["docc".toList]⟩ := prepare_eq_ok_iff.1 (by decide +kernel)
  have hruns := h studio _ _ _ _ _ hsettled studio_launchFirst (.cons ⟨by decide +kernel, rfl⟩ .nil)
  revert hruns
  decide +kernel

end CommandLine
end CodeSnippets
