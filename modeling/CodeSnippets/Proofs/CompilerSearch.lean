import CodeSnippets.Proofs.PathFaults

/-!
# What the search for the compiler depends on

The search for the compiler is given variables, which need not be those of the environment. A path that they or the
settings give is all that is looked at, and a search path that they give is the only one that is gone through; of the
environment then only the home directory is used, for a tilde. Variables that hold no search path leave the search to the
environment.

* `inEnvironment`: a machine with other variables in its environment.
* `namedCompiler?_inEnvironment`: of the environment the paths that are given use the home directory.
* `NamesCompiler`, `findCompiler_of_not_namesCompiler`: a search to which no path is given goes through a search path.
* `findCompiler_inEnvironment_iff`: when the outcome is the same in all environments.
* `not_forall_findCompiler_inEnvironment`: it is not where the variables hold no search path.
-/

namespace CodeSnippets.Machine

/-- The machine with other variables in its environment. -/
def inEnvironment (m : Machine) (e : Named Text) : Machine := { m with environment := e }

/-- A path is given for the compiler: by its variable or by the setting. -/
def NamesCompiler (setting : Value) (environment : Named Text) : Prop :=
  (((environment.get? compilerVariable).map Value.text).getD .none).isGiven = true ∨ setting.isGiven = true

/-- The search path of the variables, or else that of the machine. -/
def searchPath (m : Machine) (environment : Named Text) : Text :=
  (environment.get? "PATH".toList <|> m.setting? "PATH".toList).getD defaultSearchPath

variable {m : Machine} {e e' environment : Named Text} {setting : Value}

@[simp]
theorem setting?_inEnvironment (m : Machine) (e : Named Text) (name : Text) :
    (m.inEnvironment e).setting? name = e.get? name := rfl

@[simp]
theorem isRegular_inEnvironment (m : Machine) (e : Named Text) (p : Path) :
    (m.inEnvironment e).isRegular p = m.isRegular p := rfl

@[simp]
theorem search?_inEnvironment (m : Machine) (e : Named Text) (searchPath name : Text) :
    (m.inEnvironment e).search? searchPath name = m.search? searchPath name := rfl

/-! ### Paths that are given -/

/-- A tilde stands for the home directory of the environment, or of an account. -/
theorem expandHome_inEnvironment (hhome : e.get? "HOME".toList = e'.get? "HOME".toList) (p : Path) :
    (m.inEnvironment e).expandHome p = (m.inEnvironment e').expandHome p := by
  have hdirectory (name : Text) : (m.inEnvironment e).home? name = (m.inEnvironment e').home? name := by
    rw [home?, home?, setting?_inEnvironment, setting?_inEnvironment, hhome]
    rfl
  unfold expandHome
  simp only [hdirectory]

theorem namedCompiler?_inEnvironment (hhome : e.get? "HOME".toList = e'.get? "HOME".toList) (source : Text)
    (candidate : Value) :
    (m.inEnvironment e).namedCompiler? source candidate = (m.inEnvironment e').namedCompiler? source candidate := by
  unfold namedCompiler?
  simp only [expandHome_inEnvironment hhome, isRegular_inEnvironment]

/-! ### The search -/

/-- A search to which no path is given goes through the search path of the variables, or else of the machine. -/
theorem findCompiler_of_not_namesCompiler (h : ¬ NamesCompiler setting environment) :
    m.findCompiler setting environment =
      match m.search? (m.searchPath environment) compilerName with
      | some found => .ok (.ofText found)
      | none => .error .notFound := by
  rw [NamesCompiler, not_or] at h
  rw [findCompiler, namedCompiler?_eq_none_iff.2 h.1, namedCompiler?_eq_none_iff.2 h.2]
  rfl

/-- A path that is given decides, whatever the search path is. -/
theorem findCompiler_of_namesCompiler (h : NamesCompiler setting environment)
    (hhome : e.get? "HOME".toList = e'.get? "HOME".toList) :
    (m.inEnvironment e).findCompiler setting environment = (m.inEnvironment e').findCompiler setting environment := by
  rw [findCompiler, findCompiler]
  simp only [namedCompiler?_inEnvironment hhome]
  cases hvariable : (m.inEnvironment e').namedCompiler? compilerVariable
      (((environment.get? compilerVariable).map Value.text).getD .none) with
  | error error => rfl
  | ok found =>
    cases found with
    | some p => rfl
    | none =>
      cases hsetting : (m.inEnvironment e').namedCompiler? compilerSetting setting with
      | error error => rfl
      | ok found =>
        cases found with
        | some p => rfl
        | none =>
          -- Neither is given, if both are passed over.
          rcases h with h | h
          · exact absurd h (namedCompiler?_eq_none_iff.1 hvariable)
          · exact absurd h (namedCompiler?_eq_none_iff.1 hsetting)

/-- A search path among the variables is the one that is gone through. -/
theorem findCompiler_of_searchPath (hpath : (environment.get? "PATH".toList).isSome = true)
    (hhome : e.get? "HOME".toList = e'.get? "HOME".toList) :
    (m.inEnvironment e).findCompiler setting environment = (m.inEnvironment e').findCompiler setting environment := by
  by_cases h : NamesCompiler setting environment
  · exact findCompiler_of_namesCompiler h hhome
  · obtain ⟨given, hgiven⟩ := Option.isSome_iff_exists.1 hpath
    rw [findCompiler_of_not_namesCompiler h, findCompiler_of_not_namesCompiler h, searchPath, searchPath, hgiven]
    rfl

/-- Variables without a search path are as good as the same variables with that of the environment. -/
theorem findCompiler_eq_put (hpath : environment.get? "PATH".toList = none) :
    m.findCompiler setting environment = m.findCompiler setting
      (environment.put "PATH".toList ((m.setting? "PATH".toList).getD defaultSearchPath)) := by
  have hvariable (given : Text) :
      (environment.put "PATH".toList given).get? compilerVariable = environment.get? compilerVariable := by
    rw [Named.get?_put, if_neg (by decide)]
  rw [findCompiler, findCompiler, hvariable, Named.get?_put_self, hpath]
  rfl

/-! ### Two environments -/

/-- A machine with a compiler in one of its directories. -/
def workshop : Machine where
  root := .directory [("tools".toList, .directory [("docc".toList, .compiler [] 0o755)] 0o755)] 0o755

/-- An environment whose search path leads to the compiler. -/
def toolsEnvironment : Named Text := [("PATH".toList, "/tools".toList)]

/-- An environment whose search path does not lead to the compiler. -/
def bareEnvironment : Named Text := [("PATH".toList, "/bin".toList)]

/-- A search without a path and without a search path finds the compiler in one environment only. -/
theorem findCompiler_workshop_ne (h : ¬ NamesCompiler setting environment)
    (hpath : environment.get? "PATH".toList = none) :
    (workshop.inEnvironment toolsEnvironment).findCompiler setting environment ≠
      (workshop.inEnvironment bareEnvironment).findCompiler setting environment := by
  have hpathOf (e : Named Text) :
      (workshop.inEnvironment e).searchPath environment = (e.get? "PATH".toList).getD defaultSearchPath := by
    rw [searchPath, hpath]
    rfl
  have hfound : workshop.search? ((toolsEnvironment.get? "PATH".toList).getD defaultSearchPath) compilerName =
      some "/tools/docc".toList := by decide +kernel
  have hnothing : workshop.search? ((bareEnvironment.get? "PATH".toList).getD defaultSearchPath) compilerName = none := by
    decide +kernel
  rw [findCompiler_of_not_namesCompiler h, findCompiler_of_not_namesCompiler h, hpathOf, hpathOf, search?_inEnvironment,
    search?_inEnvironment, hfound, hnothing]
  intro heq
  cases heq

/-- The outcome of a search is the same on a machine in all environments with one home directory, exactly if a path is
given for the compiler, or the variables that the search is given hold a search path. Where they hold none, the search is
that with the search path of the environment among the variables. -/
theorem findCompiler_inEnvironment_iff (setting : Value) (environment : Named Text) :
    ((∀ (m : Machine) (e e' : Named Text), e.get? "HOME".toList = e'.get? "HOME".toList →
        (m.inEnvironment e).findCompiler setting environment = (m.inEnvironment e').findCompiler setting environment) ↔
      NamesCompiler setting environment ∨ (environment.get? "PATH".toList).isSome = true) ∧
    ∀ (m : Machine) (e : Named Text), environment.get? "PATH".toList = none →
      (m.inEnvironment e).findCompiler setting environment = (m.inEnvironment e).findCompiler setting
        (environment.put "PATH".toList ((e.get? "PATH".toList).getD defaultSearchPath)) := by
  refine ⟨⟨fun hsame => ?_, ?_⟩, fun m e => findCompiler_eq_put⟩
  · by_contra h
    rw [not_or, Option.not_isSome_iff_eq_none] at h
    exact findCompiler_workshop_ne h.1 h.2 (hsame workshop toolsEnvironment bareEnvironment (by decide))
  · rintro (h | hpath) m e e' hhome
    · exact findCompiler_of_namesCompiler h hhome
    · exact findCompiler_of_searchPath hpath hhome

/-- The variables that are given do not settle the search alone: without a search path among them that of the environment
is gone through. -/
theorem not_forall_findCompiler_inEnvironment :
    ¬ ∀ (m : Machine) (setting : Value) (environment e e' : Named Text),
      e.get? "HOME".toList = e'.get? "HOME".toList →
        (m.inEnvironment e).findCompiler setting environment = (m.inEnvironment e').findCompiler setting environment := by
  intro h
  have hnone : ¬ NamesCompiler .none [] := by simp [NamesCompiler, Value.isGiven]
  exact findCompiler_workshop_ne hnone rfl (h workshop .none [] toolsEnvironment bareEnvironment (by decide))

end CodeSnippets.Machine
