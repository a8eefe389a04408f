import CodeSnippets.Proofs.CompilerArguments
import CodeSnippets.Proofs.FileReading
import CodeSnippets.Proofs.PathFaults
import CodeSnippets.Proofs.SourceAgreement
import CodeSnippets.Proofs.TargetPairing

/-!
# Faults of commands

Once its settings have been found, a command comes to no faults but those of the paths that it is given, of JSON text that
cannot be written, and of the directories in which it looks for symbol graphs.

* `readDirectory_ne_fault`: what is admitted is read or refused.
* `canPass_of_settled`: the system can be given the arguments of a run.
* `exists_of_runTargets_eq_fault`: why the runs for several targets come to a fault.
* `faults_of_commands`: the faults of all commands.
-/

namespace CodeSnippets

open Text

namespace Path

variable {p q : Path} {t : Text}

theorem null_mem_of_ofText (h : '\x00' ∈ (ofText t).text) : '\x00' ∈ t := by
  obtain ⟨part, hpart, hmem⟩ := exists_part_of_mem_text h (by decide) (by decide)
  exact Machine.mem_of_mem_parts_ofText hpart hmem

theorem null_mem_of_join (h : '\x00' ∈ (p.join q).text) : '\x00' ∈ p.text ∨ '\x00' ∈ q.text := by
  unfold join at h
  split at h
  · exact .inr h
  · obtain ⟨part, hpart, hmem⟩ := exists_part_of_mem_text h (by decide) (by decide)
    exact (List.mem_append.1 hpart).imp (mem_text_of_mem_parts · hmem) (mem_text_of_mem_parts · hmem)

end Path

theorem CommandLine.CommandError.ofOutput_ne_fault {e : AccessError} {f : Fault} (h : e.isSystem = true) :
    ofOutput e ≠ .fault f := by
  cases e with
  | fault f' => cases f' <;> simp_all [AccessError.isSystem, ofOutput]
  | _ => simp [ofOutput]

namespace Machine

variable {m : Machine} {p directory : Path} {n : Node} {raw : Text} {base : Path} {settings : Settings}
  {f : Fault} {program : Path} {environment : Named Text}

/-! ### Reading -/

/-- The snippets of an admitted directory are read or refused. -/
theorem readDirectory_ne_fault (hm : m.WellFormed) (hdirectory : m.admitDirectory raw base = .ok directory) :
    m.readDirectory settings.draft directory ≠ .error (.fault f) := by
  intro hread
  obtain ⟨n, hn, -, -⟩ := exists_leadsTo_of_admitDirectory hm hdirectory
  have haccepted : acceptedBy settings.draft.extensions = .ok settings.extensions.contains :=
    acceptedBy_map_text settings.extensions
  unfold readDirectory at hread
  rw [haccepted] at hread
  rcases bind_eq_error_iff.1 hread with hread | ⟨accepts, -, hread⟩
  · cases hread
  rcases bind_eq_error_iff.1 hread with hread | ⟨sources, hsources, hread⟩
  · obtain ⟨e, he, hf⟩ := mapError_eq_error_iff.1 hread
    exact SourceError.ofAccess_ne_fault (hn.isSystem_of_discoverBy hm he) hf
  · -- A source that has been discovered is led to by name alone, too.
    obtain ⟨s, hs, hread⟩ := exists_mem_of_mapM_eq_error hread
    obtain ⟨-, ⟨x, hx, -⟩, -⟩ := (mem_discoverBy_iff hn hm (mapError_eq_ok_iff.1 hsources)).1 hs
    rcases bind_eq_error_iff.1 hread with hread | ⟨snippet, -, hread⟩
    · exact readSnippet_ne_fault (null_notMem_of_status hx.status_eq) hread
    · cases hread

/-- A file holds so many lines that their number has more digits than are written. -/
def HoldsLongText (m : Machine) : Prop :=
  ∃ raw n source, m.status raw false = .ok n ∧ textOfBytes n.bytes = .ok source ∧ 10 ^ maxDigits ≤ (lines source).length

theorem holdsLongText_of_readSnippet {d : Draft} {s : Snippet} (h : m.readSnippet d p = .ok s)
    (hlong : s.HasLongPosition) : m.HoldsLongText := by
  obtain ⟨_, t, -, ⟨⟨n, hn, -, -, hbytes⟩, -⟩, rfl⟩ := readSnippet_eq_ok_iff.1 h
  exact ⟨p.text, n, _, hn, textOfBytes_eq_ok_iff.2 ⟨t, hbytes, rfl⟩, hlong.le_length_lines⟩

/-! ### The compiler -/

/-- The path of a compiler that has been found holds no null character: the system has found something there. -/
theorem null_notMem_of_namedCompiler? {source : Text} {candidate : Value}
    (h : m.namedCompiler? source candidate = .ok (some program)) : '\x00' ∉ program.text := by
  unfold namedCompiler? at h
  split at h
  · cases h
  split at h
  · obtain ⟨path, -, h⟩ := bind_eq_ok_iff.1 h
    obtain ⟨regular, hregular, h⟩ := bind_eq_ok_iff.1 h
    split at h
    · rename_i hfile
      obtain rfl := Option.some.inj (Except.ok.inj h)
      obtain ⟨n, hn, -⟩ := probe_any_eq_ok_true_iff.1 (hfile ▸ mapError_eq_ok_iff.1 hregular)
      exact null_notMem_of_status hn
    · cases h
  · cases h

theorem null_notMem_of_search? {searchPath name found : Text} (h : m.search? searchPath name = some found) :
    '\x00' ∉ found := by
  unfold search? at h
  split at h
  · cases h
  have hruns := List.find?_some h
  unfold canRun at hruns
  split at hruns
  · rename_i hstatus
    exact null_notMem_of_status hstatus
  · cases hruns

theorem null_notMem_of_findCompiler {setting : Value} (h : m.findCompiler setting environment = .ok program) :
    '\x00' ∉ program.text := by
  obtain ⟨named, hnamed, h⟩ := bind_eq_ok_iff.1 h
  cases named with
  | some path =>
    obtain rfl := Except.ok.inj h
    exact null_notMem_of_namedCompiler? hnamed
  | none =>
    obtain ⟨set, hset, h⟩ := bind_eq_ok_iff.1 h
    cases set with
    | some path =>
      obtain rfl := Except.ok.inj h
      exact null_notMem_of_namedCompiler? hset
    | none =>
      dsimp only at h
      split at h
      · rename_i found hfound
        obtain rfl := Except.ok.inj h
        exact fun hnull => null_notMem_of_search? hfound (Path.null_mem_of_ofText hnull)
      · cases h

end Machine

/-! ### Arguments -/

section Arguments

variable {names executables catalogs arguments : List Text} {targets : List Target} {target : Target}

theorem mem_of_mem_transformedArguments {a : Text} (h : a ∈ transformedArguments arguments) : a ∈ arguments := by
  rw [transformedArguments_eq_filter] at h
  exact List.mem_of_mem_filter h

theorem exists_catalog_of_targetsOf (h : targetsOf names executables catalogs = .ok targets)
    (htarget : target ∈ targets) {catalog : Path} (hcatalog : target.catalog = some catalog) :
    ∃ t ∈ catalogs, catalog = .ofText t := by
  obtain ⟨hfit, rfl⟩ := targetsOf_eq_ok_iff.1 h
  obtain ⟨name, -, rfl⟩ := List.mem_map.1 htarget
  obtain ⟨t, ht, -, rfl⟩ := hfit.catalog_eq_some_iff.1 hcatalog
  exact ⟨t, ht, rfl⟩

theorem null_notMem_of_mem_requirements {symbolGraphs output : Path} (hname : '\x00' ∉ target.name)
    (hgraphs : '\x00' ∉ symbolGraphs.text) (houtput : '\x00' ∉ output.text) {q : Requirement}
    (hq : q ∈ requirements target symbolGraphs output) : '\x00' ∉ q.names.headD [] ∧ '\x00' ∉ q.value := by
  have hkind (kind : TargetKind) : '\x00' ∉ kind.name := by cases kind <;> decide
  rcases List.mem_append.1 hq with hq | hq
  · simp only [List.mem_cons, List.not_mem_nil, or_false] at hq
    rcases hq with rfl | rfl | rfl | rfl
    · exact ⟨show '\x00' ∉ "--fallback-display-name".toList by decide, hname⟩
    · exact ⟨show '\x00' ∉ "--fallback-bundle-identifier".toList by decide, hname⟩
    · exact ⟨show '\x00' ∉ "--additional-symbol-graph-dir".toList by decide, hgraphs⟩
    · exact ⟨show '\x00' ∉ "--output-path".toList by decide, houtput⟩
  · split at hq
    · obtain rfl := List.mem_singleton.1 hq
      exact ⟨show '\x00' ∉ "--fallback-default-module-kind".toList by decide, hkind _⟩
    · cases hq

/-- The arguments of the compiler hold no null character if nothing does that they are made of. -/
theorem null_notMem_of_mem_compilerArguments {action : Action} {symbolGraphs output : Path}
    (hname : '\x00' ∉ target.name) (hcatalog : ∀ catalog ∈ target.catalog, '\x00' ∉ catalog.text)
    (hgraphs : '\x00' ∉ symbolGraphs.text) (houtput : '\x00' ∉ output.text) (harguments : ∀ a ∈ arguments, '\x00' ∉ a)
    {word : Text} (hword : word ∈ compilerArguments action target symbolGraphs output arguments) : '\x00' ∉ word := by
  have haction (action : Action) : '\x00' ∉ action.name := by cases action <;> decide
  simp only [compilerArguments, List.cons_append, List.mem_cons, List.mem_append, List.mem_flatMap] at hword
  rcases hword with rfl | (hword | hword) | ⟨q, hq, hword⟩
  · exact haction _
  · obtain ⟨catalog, hmem, rfl⟩ := Option.map_eq_some_iff.1 (Option.mem_toList.1 hword)
    exact hcatalog catalog hmem
  · exact harguments word (mem_of_mem_transformedArguments hword)
  · obtain ⟨hfirst, hvalue⟩ := null_notMem_of_mem_requirements hname hgraphs houtput hq
    unfold Requirement.supplement at hword
    split at hword
    · cases hword
    · simp only [List.mem_cons, List.not_mem_nil, or_false] at hword
      rcases hword with rfl | rfl
      · exact hfirst
      · exact hvalue

end Arguments

namespace CommandLine

variable {m : Machine} {base : Path} {settings : Settings} {f : Fault}

/-- A command goes on from the settings that have been found. -/
theorem settings_bind {α : Type} {jsonIndent : Option Int} (hbase : baseDirectory m = .ok base)
    (hsettings : loadSettings m base jsonIndent = .ok settings) (next : Path → Settings → Except CommandError α) :
    (baseDirectory m >>= fun base => loadSettings m base jsonIndent >>= next base) = next base settings := by
  rw [hbase]
  exact congrArg (· >>= next base) hsettings

/-! ### The command that runs the compiler -/

section Document

variable {r : DocumentRequest} {program : Path} {targets : List Target} {target : Target} {arguments : List Text}
  {done : List (List Text)} {o : Outcome}

/-- The texts of a request that come to be arguments. -/
def DocumentRequest.words (r : DocumentRequest) : List Text :=
  r.symbolGraphs :: r.archiveDir :: (r.targets ++ r.catalogs ++ r.arguments)

theorem Settled.name_mem (h : Settled m r targets program) (htarget : target ∈ targets) : target.name ∈ r.targets := by
  have hmem := List.mem_map_of_mem (f := Target.name) htarget
  rw [map_name_of_targetsOf h.targets_eq] at hmem
  exact List.mem_eraseDups.1 hmem

/-- The system can be given the arguments of a run if there is no null character in the request. -/
theorem canPass_of_settled (h : Settled m r targets program) (hnull : ∀ word ∈ r.words, '\x00' ∉ word)
    (htarget : target ∈ targets) (harguments : requestArguments m r target = .ok arguments) :
    Machine.CanPass program arguments := by
  have hname : '\x00' ∉ target.name := hnull _ (by simp [DocumentRequest.words, h.name_mem htarget])
  have hgraphs : '\x00' ∉ (Path.ofText r.symbolGraphs).text :=
    mt Path.null_mem_of_ofText (hnull _ (by simp [DocumentRequest.words]))
  have hown : '\x00' ∉ (ownGraphs r target).text := fun hmem =>
    (Path.null_mem_of_join hmem).elim hgraphs (mt Path.null_mem_of_ofText hname)
  have harchive : '\x00' ∉ (target.archivePath (.ofText r.archiveDir)).text := by
    intro hmem
    rcases Path.null_mem_of_join hmem with hdirectory | hfile
    · exact hnull _ (by simp [DocumentRequest.words]) (Path.null_mem_of_ofText hdirectory)
    · exact (List.mem_append.1 (Path.null_mem_of_ofText hfile)).elim hname (by decide)
  obtain ⟨own, -, rfl⟩ := requestArguments_eq_ok_iff.1 harguments
  obtain ⟨base, settings, -, -, hprogram⟩ := h.found
  -- The program comes first, and then the words that are made of those of the request.
  refine List.forall_mem_cons.2 ⟨Machine.null_notMem_of_findCompiler hprogram, fun word hword => ?_⟩
  refine null_notMem_of_mem_compilerArguments hname (fun catalog hcatalog => ?_) ?_ harchive (fun a ha => ?_) hword
  · obtain ⟨t, ht, rfl⟩ := exists_catalog_of_targetsOf h.targets_eq htarget hcatalog
    exact mt Path.null_mem_of_ofText (hnull t (by simp [DocumentRequest.words, ht]))
  · cases own
    · exact hgraphs
    · exact hown
  · exact hnull a (by simp [DocumentRequest.words, ha])

/-- The runs for several targets come to a fault only if there is no run for one of them. -/
theorem exists_of_runTargets_eq_fault (first : Bool) (ho : o.machine = { m with runs := done })
    (herror : o.error = none) (h : (runTargets r program first o targets).error = some (.fault f)) :
    ∃ target ∈ targets, IsBlocked m r program target f := by
  -- The induction goes along the targets, with the runs that are recorded so far.
  induction targets generalizing first o done with
  | nil =>
    rw [runTargets, herror] at h
    cases h
  | cons target rest ih =>
    obtain ⟨o', ho', herror', heq⟩ := runTargets_cons r program first o target rest
    rw [heq] at h
    rcases isArguments_or_isBlocked m r program target with ⟨arguments, hargs⟩ | ⟨f', hblocked⟩
    · cases hstart : m.launchFirst [] (m.startPaths program.text) none .noEntry with
      | error errno =>
        obtain ⟨-, hfailed⟩ := runTarget_of_not_started hargs hstart (ho'.trans ho)
        simp [hfailed] at h
      | ok start =>
        obtain ⟨hmachine, hcode⟩ := runTarget_of_isArguments hargs hstart (ho'.trans ho) (herror'.trans herror)
        by_cases hzero : start.status done.length = 0
        · -- The run has not failed, and the others follow.
          rw [if_pos hzero] at hcode
          simp only [hcode, Option.isSome_none, Bool.false_eq_true, if_false] at h
          obtain ⟨target', hmem, hblocked⟩ := ih false hmachine hcode h
          exact ⟨target', List.mem_cons_of_mem _ hmem, hblocked⟩
        · -- A run that has failed ends the command, but not with a fault.
          rw [if_neg hzero] at hcode
          simp [hcode] at h
    · obtain ⟨-, hfault⟩ := runTarget_of_isBlocked hblocked (ho'.trans ho)
      simp only [hfault, Option.isSome_some, if_true, Option.some.injEq, CommandError.fault.injEq] at h
      exact ⟨target, List.mem_cons_self, h ▸ hblocked⟩

end Document

theorem CommandError.ofCompiler_eq_fault_iff {e : CompilerError} : ofCompiler e = .fault f ↔ e = .fault f := by
  cases e <;> simp [ofCompiler]

/-- With targets that fit together and settings that are valid, what is settled before the first run comes to a fault
only where the search for the compiler does. -/
theorem findCompiler_of_prepare_eq_fault {r : DocumentRequest} (hbase : baseDirectory m = .ok base)
    (hsettings : loadSettings m base none = .ok settings) (h : prepare m r = .error (.fault f)) :
    m.findCompiler settings.draft.doccExecutable m.environment = .error (.fault f) := by
  rcases bind_eq_error_iff.1 h with h | ⟨targets, -, h⟩
  · obtain ⟨e, -, he⟩ := mapError_eq_error_iff.1 h
    cases he
  split at h
  · cases h
  dsimp only at h
  rw [settings_bind hbase hsettings] at h
  rcases bind_eq_error_iff.1 h with h | ⟨program, -, h⟩
  · obtain ⟨e, he, hf⟩ := mapError_eq_error_iff.1 h
    rw [he, CommandError.ofCompiler_eq_fault_iff.1 hf]
  · cases h

/-- The system does not say whether one of the targets of a request has symbol graphs of its own. -/
def LacksGraphs (m : Machine) (r : DocumentRequest) (f : Fault) : Prop :=
  ∃ target : Target, target.name ∈ r.targets ∧ ∃ e, m.isDirectory (ownGraphs r target) = .error e ∧ f = .system e

theorem fault_of_document {r : DocumentRequest} (hbase : baseDirectory m = .ok base)
    (hsettings : loadSettings m base none = .ok settings) (hnull : ∀ word ∈ r.words, '\x00' ∉ word)
    (h : (document m r).error = some (.fault f)) :
    m.findCompiler settings.draft.doccExecutable m.environment = .error (.fault f) ∨ LacksGraphs m r f := by
  rw [document] at h
  cases hprepare : prepare m r with
  | error e =>
    rw [hprepare] at h
    obtain rfl : e = .fault f := Option.some.inj h
    exact .inl (findCompiler_of_prepare_eq_fault hbase hsettings hprepare)
  | ok result =>
    obtain ⟨targets, program⟩ := result
    rw [hprepare] at h
    have hsettled := prepare_eq_ok_iff.1 hprepare
    obtain ⟨target, htarget, hblocked⟩ := exists_of_runTargets_eq_fault true (o := { machine := m }) rfl rfl h
    cases hblocked with
    | unknown hown => exact .inr ⟨target, hsettled.name_mem htarget, _, hown, rfl⟩
    | nullCharacter harguments hpass => exact absurd (canPass_of_settled hsettled hnull htarget harguments) hpass

/-! ### The commands that read sources -/

/-- JSON text cannot be written: there is no room for its indentation, or there may be an integer in it with too many
digits, since some file holds as many lines. -/
def CannotWrite (m : Machine) (settings : Settings) (f : Fault) : Prop :=
  (Json.room ≤ settings.jsonIndent ∧ ∃ e, f = .width e) ∨ m.HoldsLongText ∧ f = .integerTooLong none

theorem cannotWrite_of_settledDocument {x : Json} (h : settledDocument settings x = .error (.fault f))
    (hlong : x.integers.any Json.isLong = true → m.HoldsLongText) : CannotWrite m settings f := by
  obtain ⟨e, he, hf⟩ := mapError_eq_error_iff.1 h
  obtain rfl := CommandError.fault.inj hf
  rcases writeJson_eq_error he with ⟨e', hwidth, rfl⟩ | ⟨hany, rfl⟩
  · refine .inl ⟨?_, e', rfl⟩
    unfold Json.Layout.ofIndent Json.widthBound at hwidth
    unfold Json.room at hwidth ⊢
    split at hwidth
    · cases hwidth
    split at hwidth
    · omega
    split at hwidth
    · omega
    · cases hwidth
  · exact .inr ⟨hlong hany, rfl⟩

theorem CommandError.ofAdmission_eq_fault_iff {e : AdmissionError} :
    ofAdmission e = .fault f ↔ e = .fault f ∧ f ≠ .nullCharacter := by
  cases e with
  | fault f' => cases f' <;> simp [ofAdmission] <;> rintro rfl <;> simp
  | _ => simp [ofAdmission]

theorem CommandError.ofSource_eq_fault_iff {e : SourceError} : ofSource e = .fault f ↔ e = .fault f := by
  cases e <;> simp [ofSource]

theorem fault_of_extract {r : ExtractRequest} (hm : m.WellFormed) (hbase : baseDirectory m = .ok base)
    (hsettings : loadSettings m base r.jsonIndent = .ok settings) (h : extract m r = .error (.fault f)) :
    m.AdmissionFault base r.file f ∨ CannotWrite m settings f := by
  rw [extract, settings_bind hbase hsettings] at h
  rcases bind_eq_error_iff.1 h with h | ⟨p, hpath, h⟩
  · obtain ⟨e, he, hf⟩ := mapError_eq_error_iff.1 h
    obtain ⟨rfl, hne⟩ := CommandError.ofAdmission_eq_fault_iff.1 hf
    exact .inl (Machine.admissionFault_of_admitFile hm he hne)
  rcases bind_eq_error_iff.1 h with h | ⟨snippet, hsnippet, h⟩
  · -- The system has found a file at the admitted path, which is read or refused.
    obtain ⟨e, he, hf⟩ := mapError_eq_error_iff.1 h
    obtain ⟨hadmitted, ⟨n, hn, -⟩, -⟩ := Machine.admitFile_eq_ok (mapError_eq_ok_iff.1 hpath)
    exact absurd (he.trans (congrArg _ (CommandError.ofSource_eq_fault_iff.1 hf)))
      (Machine.readSnippet_ne_fault (Machine.null_notMem_of_status hn))
  rcases bind_eq_error_iff.1 h with h | ⟨lines, -, h⟩
  · unfold requestedLines at h
    split at h
    · cases h
    · obtain ⟨e, -, hf⟩ := mapError_eq_error_iff.1 h
      cases hf
  · unfold printed at h
    split at h
    · cases h
    · refine .inr (cannotWrite_of_settledDocument h fun hlong => ?_)
      exact Machine.holdsLongText_of_readSnippet (mapError_eq_ok_iff.1 hsnippet)
        (snippet.any_isLong_fieldIntegers.1 hlong)
    · -- No position is written of a slice.
      refine .inr (cannotWrite_of_settledDocument h fun hlong => ?_)
      simp [Json.integers, Json.fieldIntegers] at hlong

theorem extract_of_admissionFault {r : ExtractRequest} (hbase : baseDirectory m = .ok base)
    (hsettings : loadSettings m base r.jsonIndent = .ok settings) (hnull : '\x00' ∉ r.file)
    (h : m.AdmissionFault base r.file f) : extract m r = .error (.fault f) := by
  have hfailed : (m.admitFile r.file base settings.extensions).mapError CommandError.ofAdmission = .error (.fault f) :=
    mapError_eq_error_iff.2 ⟨_, h.admitFile_eq hnull, CommandError.ofAdmission_eq_fault_iff.2 ⟨rfl, h.ne_nullCharacter⟩⟩
  rw [extract, settings_bind hbase hsettings]
  exact bind_eq_error_iff.2 (.inl hfailed)

theorem not_cannotWrite_of_admissionFault {raw : Text} (h : m.AdmissionFault base raw f) : ¬ CannotWrite m settings f := by
  rintro (⟨-, e, he⟩ | ⟨-, he⟩)
  · exact h.ne_writeError (.width e) he
  · exact h.ne_writeError .longInteger he

/-- The directory that is asked for, or else the one that is set. -/
def BuildRequest.directoryIn (r : BuildRequest) (settings : Settings) : Text :=
  (r.directory.filter (!·.isEmpty)).getD settings.snippetsDir

theorem fault_of_indexText {r : BuildRequest} (hm : m.WellFormed) (hbase : baseDirectory m = .ok base)
    (hsettings : loadSettings m base r.jsonIndent = .ok settings) (h : indexText m r = .error (.fault f)) :
    m.AdmissionFault base (r.directoryIn settings) f ∨ CannotWrite m settings f := by
  rw [indexText, settings_bind hbase hsettings] at h
  rcases bind_eq_error_iff.1 h with h | ⟨directory, hdirectory, h⟩
  · obtain ⟨e, he, hf⟩ := mapError_eq_error_iff.1 h
    obtain ⟨rfl, hne⟩ := CommandError.ofAdmission_eq_fault_iff.1 hf
    exact .inl (Machine.admissionFault_of_admitDirectory hm he hne)
  rcases bind_eq_error_iff.1 h with h | ⟨sources, hsources, h⟩
  · obtain ⟨e, he, hf⟩ := mapError_eq_error_iff.1 h
    rw [CommandError.ofSource_eq_fault_iff.1 hf] at he
    exact absurd he (Machine.readDirectory_ne_fault hm (mapError_eq_ok_iff.1 hdirectory))
  rcases bind_eq_error_iff.1 h with h | ⟨text, -, h⟩
  · refine .inr (cannotWrite_of_settledDocument h fun hlong => ?_)
    obtain ⟨x, hx, hposition⟩ := exists_hasLongPosition_of_indexOf hlong
    obtain ⟨discovered, -, hread⟩ := Machine.readDirectory_eq_ok_iff.1 (mapError_eq_ok_iff.1 hsources)
    obtain ⟨s, -, hs⟩ := exists_mem_of_forall₂ hread.flip hx
    exact Machine.holdsLongText_of_readSnippet hs.snippet_eq hposition
  · cases h

theorem fault_of_build {r : BuildRequest} (hm : m.WellFormed) (hbase : baseDirectory m = .ok base)
    (hsettings : loadSettings m base r.jsonIndent = .ok settings) (hnull : ∀ output ∈ r.output, '\x00' ∉ output)
    (h : (build m r).error = some (.fault f)) :
    m.AdmissionFault base (r.directoryIn settings) f ∨ CannotWrite m settings f := by
  rw [build] at h
  split at h
  · rename_i e htext
    obtain rfl : e = .fault f := Option.some.inj h
    exact fault_of_indexText hm hbase hsettings htext
  · split at h
    · cases h
    · rename_i output houtput
      -- The output is written, or the system refuses it.
      split at h
      · rename_i after e hwrite
        obtain ⟨-, hsystem⟩ := (Machine.writeText_eq_error hm (Path.isRead_ofText output) hwrite).resolve_left
          fun hmeets => hnull output houtput (Path.null_mem_of_ofText hmeets.1.null_mem)
        exact absurd (Option.some.inj h) (CommandError.ofOutput_ne_fault hsystem)
      · cases h

theorem build_of_admissionFault {r : BuildRequest} (hbase : baseDirectory m = .ok base)
    (hsettings : loadSettings m base r.jsonIndent = .ok settings) (hnull : '\x00' ∉ r.directoryIn settings)
    (h : m.AdmissionFault base (r.directoryIn settings) f) :
    (build m r).error = some (.fault f) := by
  have hfailed :
      (m.admitDirectory (r.directoryIn settings) base).mapError CommandError.ofAdmission = .error (.fault f) :=
    mapError_eq_error_iff.2
      ⟨_, h.admitDirectory_eq hnull, CommandError.ofAdmission_eq_fault_iff.2 ⟨rfl, h.ne_nullCharacter⟩⟩
  have htext : indexText m r = .error (.fault f) := by
    rw [indexText, settings_bind hbase hsettings]
    exact bind_eq_error_iff.2 (.inl hfailed)
  rw [build, htext]
  rfl

/-! ### All commands -/

/-- The admission of a path without null characters comes to a fault exactly if there is no home directory for its tilde,
if its links lead round in a loop behind a name for the directory above, or if the system refuses to look at it. All else
that is wrong with it is reported as such. The search for the compiler comes to a fault exactly if a path that is given
has no home directory or is not looked at, and otherwise finds a compiler or says that there is none. Once the settings
have been found, a command comes to the faults of its path and to no others but those of JSON text that cannot be written
and of directories at which the system refuses to look for symbol graphs. -/
theorem faults_of_commands (hm : m.WellFormed) :
    (∀ raw base extensions f, '\x00' ∉ raw →
      (m.admitFile raw base extensions = .error (.fault f) ∧ f ≠ .nullCharacter ↔ m.AdmissionFault base raw f) ∧
      (m.admitDirectory raw base = .error (.fault f) ∧ f ≠ .nullCharacter ↔ m.AdmissionFault base raw f)) ∧
    (∀ environment setting, (∀ t, Machine.compilerPath? environment setting = some t → '\x00' ∉ t) →
      (∀ e, m.findCompiler ((setting.map Value.text).getD .none) environment = .error e →
        e.isAbsence = true ∨ ∃ f, e = .fault f) ∧
      ∀ f, m.findCompiler ((setting.map Value.text).getD .none) environment = .error (.fault f) ↔
        ∃ t, Machine.compilerPath? environment setting = some t ∧ m.NamingFault t f) ∧
    ∀ base settings f, baseDirectory m = .ok base →
      (∀ r : ExtractRequest, loadSettings m base r.jsonIndent = .ok settings → '\x00' ∉ r.file →
        (extract m r = .error (.fault f) ∧ ¬ CannotWrite m settings f ↔ m.AdmissionFault base r.file f)) ∧
      (∀ r : BuildRequest, loadSettings m base r.jsonIndent = .ok settings → '\x00' ∉ r.directoryIn settings →
        (∀ output ∈ r.output, '\x00' ∉ output) →
          ((build m r).error = some (.fault f) ∧ ¬ CannotWrite m settings f ↔
            m.AdmissionFault base (r.directoryIn settings) f)) ∧
      ∀ r : DocumentRequest, loadSettings m base none = .ok settings → (∀ word ∈ r.words, '\x00' ∉ word) →
        (∀ t, Machine.compilerPath? m.environment settings.doccExecutable = some t → '\x00' ∉ t) →
          (document m r).error = some (.fault f) →
            (∃ t, Machine.compilerPath? m.environment settings.doccExecutable = some t ∧ m.NamingFault t f) ∨
              LacksGraphs m r f := by
  refine ⟨fun raw base extensions f hnull => ⟨⟨fun h => ?_, fun h => ?_⟩, ⟨fun h => ?_, fun h => ?_⟩⟩,
    fun environment setting hnull => ⟨fun e => Machine.findCompiler_eq_error, fun f => ?_⟩,
    fun base settings f hbase => ⟨fun r hsettings hnull => ⟨fun h => ?_, fun h => ?_⟩,
      fun r hsettings hnull houtput => ⟨fun h => ?_, fun h => ?_⟩, fun r hsettings hwords hnull h => ?_⟩⟩
  · exact Machine.admissionFault_of_admitFile hm h.1 h.2
  · exact ⟨h.admitFile_eq hnull, h.ne_nullCharacter⟩
  · exact Machine.admissionFault_of_admitDirectory hm h.1 h.2
  · exact ⟨h.admitDirectory_eq hnull, h.ne_nullCharacter⟩
  · exact Machine.findCompiler_eq_fault_iff hnull
  · exact (fault_of_extract hm hbase hsettings h.1).resolve_right h.2
  · exact ⟨extract_of_admissionFault hbase hsettings hnull h, not_cannotWrite_of_admissionFault h⟩
  · exact (fault_of_build hm hbase hsettings houtput h.1).resolve_right h.2
  · exact ⟨build_of_admissionFault hbase hsettings hnull h, not_cannotWrite_of_admissionFault h⟩
  · exact (fault_of_document hbase hsettings hwords h).imp_left (Machine.findCompiler_eq_fault_iff hnull).1

theorem notes_faults :
    Machine.notes.admitFile "~nobody/x.swift".toList ⟨.root, []⟩ [".swift".toList] = .error (.fault .unknownHome) ∧
    Machine.notes.findCompiler .none [("DOCC_EXEC".toList, "~nobody/docc".toList)] = .error (.fault .unknownHome) ∧
    extract Machine.notes { file := "~nobody/x.swift".toList } = .error (.fault .unknownHome) := by
  obtain ⟨hadmission, hcompiler, hcommands⟩ := faults_of_commands Machine.notes_wellFormed
  have hfile : Machine.notes.LacksHome "~nobody/x.swift".toList :=
    ⟨"nobody".toList, ["x.swift".toList], by decide +kernel, nofun⟩
  have hprogram : Machine.notes.LacksHome "~nobody/docc".toList :=
    ⟨"nobody".toList, ["docc".toList], by decide +kernel, nofun⟩
  have hpath : Machine.compilerPath? [("DOCC_EXEC".toList, "~nobody/docc".toList)] none =
      some "~nobody/docc".toList := by decide +kernel
  have hsettings : loadSettings Machine.notes ⟨.root, []⟩ none = .ok {} := by decide +kernel
  refine ⟨((hadmission _ _ _ _ (by decide)).1.2 (.home hfile)).1, ?_, ?_⟩
  · refine ((hcompiler _ none fun t ht => ?_).2 _).2 ⟨_, hpath, .home hprogram⟩
    obtain rfl := Option.some.inj (hpath.symm.trans ht)
    decide
  · exact (((hcommands _ {} _ rfl).1 { file := "~nobody/x.swift".toList } hsettings (by decide)).2 (.home hfile)).1

/-- Not everything that goes wrong with a path without null characters is reported as what is wrong with the path: where
there is no home directory for a tilde, neither the admission of a path nor the search for the compiler says so, and
neither does a command. -/
theorem not_forall_reported :
    (¬ ∀ (m : Machine) (raw : Text) (base : Path) (extensions : List Text) (f : Fault), m.WellFormed → '\x00' ∉ raw →
      m.admitFile raw base extensions = .error (.fault f) → f = .nullCharacter) ∧
    (¬ ∀ (m : Machine) (setting : Text) (e : CompilerError), m.WellFormed → '\x00' ∉ setting →
      m.findCompiler (.text setting) m.environment = .error e → e.isAbsence = true) ∧
    ¬ ∀ (m : Machine) (base : Path) (settings : Settings) (r : ExtractRequest) (f : Fault), m.WellFormed →
      baseDirectory m = .ok base → loadSettings m base r.jsonIndent = .ok settings → '\x00' ∉ r.file →
        extract m r ≠ .error (.fault f) := by
  refine ⟨fun h => ?_, fun h => ?_, fun h => ?_⟩
  · cases h Machine.notes "~nobody".toList ⟨.root, []⟩ [] .unknownHome Machine.notes_wellFormed (by decide)
      (by decide +kernel)
  · cases h Machine.notes "~nobody".toList (.fault .unknownHome) Machine.notes_wellFormed (by decide)
      (by decide +kernel)
  · exact h Machine.notes ⟨.root, []⟩ {} { file := "~nobody".toList } .unknownHome Machine.notes_wellFormed rfl
      (by decide +kernel) (by decide) (by decide +kernel)

end CommandLine
end CodeSnippets
