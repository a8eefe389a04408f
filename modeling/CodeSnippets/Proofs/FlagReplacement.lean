import CodeSnippets.Compiler.Arguments
import Mathlib.Data.List.Basic

/-!
# What stands for a flag

A flag that is not meant for the compiler is taken out under every spelling, and the arguments that stand for it come
behind those that are left, each of them once and only if it is not there already. Arguments from which a flag has been
taken out do not hold it any more, unless it stands for itself.

* `kept`, `supplied`: the arguments that are left, and those that come behind them.
* `foldl_append_new`: what arguments become that are given one by one, those that are there already left out.
* `transform_eq_self`, `transform_of_mem`: arguments without the flag, and arguments with it.
* `transform_replaced`: the arguments that become of any arguments, and that they are settled.
-/

namespace CodeSnippets.Flag

variable {f : Flag} {arguments : List Text}

/-- The arguments that are left without the flag. -/
def kept (f : Flag) (arguments : List Text) : List Text := arguments.filter (· ∉ f.spellings)

/-- The replacements that are not among the arguments that are left, each at the place where it comes first. -/
def supplied (f : Flag) (arguments : List Text) : List Text :=
  (f.replacements.filter (· ∉ f.kept arguments)).eraseDups

theorem isPresent_iff : f.isPresent arguments = true ↔ ∃ a ∈ arguments, a ∈ f.spellings := by
  simp [isPresent]

theorem not_mem_spellings_of_mem_kept {a : Text} (h : a ∈ f.kept arguments) : a ∉ f.spellings := by
  simpa using (List.mem_filter.1 h).2

theorem mem_replacements_of_mem_supplied {a : Text} (h : a ∈ f.supplied arguments) : a ∈ f.replacements :=
  (List.mem_filter.1 (List.mem_eraseDups.1 h)).1

/-- Of texts that are put behind others one by one, unless they are there already, those are added that were not there
before, each where it comes first. -/
theorem foldl_append_new (added done : List Text) :
    added.foldl (fun done a => if done.contains a then done else done ++ [a]) done =
      done ++ (added.filter (· ∉ done)).eraseDups := by
  induction added generalizing done with
  | nil => simp
  | cons a added ih =>
    rw [List.foldl_cons, ih]
    by_cases h : a ∈ done
    · -- The text is there already, and is no new one.
      rw [if_pos (List.contains_iff_mem.2 h), List.filter_cons_of_neg (by simpa using h)]
    · rw [if_neg (by simpa using h), List.filter_cons_of_pos (by simpa using h), List.eraseDups_cons,
        List.filter_filter, List.append_assoc, List.singleton_append]
      -- What is new behind the text is what was new before and is another text.
      have hnew : added.filter (· ∉ done ++ [a]) = added.filter fun b => !b == a && decide (b ∉ done) := by
        refine List.filter_congr fun b _ => ?_
        rw [Bool.eq_iff_iff]
        simp [and_comm]
      rw [hnew]

/-- Arguments without the flag stay as they are. -/
theorem transform_eq_self (h : ∀ a ∈ arguments, a ∉ f.spellings) : f.transform arguments = arguments := by
  have habsent : ¬ f.isPresent arguments = true := by
    rw [isPresent_iff]
    rintro ⟨a, ha, hspelling⟩
    exact h a ha hspelling
  rw [transform, if_neg habsent]

theorem transform_of_mem (h : ∃ a ∈ arguments, a ∈ f.spellings) :
    f.transform arguments = f.kept arguments ++ f.supplied arguments := by
  have hkept : arguments.filter (!f.spellings.contains ·) = f.kept arguments :=
    List.filter_congr fun a _ => by simp
  rw [transform, if_pos (isPresent_iff.2 h), hkept, foldl_append_new, supplied]

/-- A flag that does not stand for itself is gone. -/
theorem not_mem_spellings_of_mem_transform (hapart : ∀ a ∈ f.replacements, a ∉ f.spellings) :
    ∀ a ∈ f.transform arguments, a ∉ f.spellings := by
  by_cases h : ∃ a ∈ arguments, a ∈ f.spellings
  · rw [transform_of_mem h, List.forall_mem_append]
    exact ⟨fun a => not_mem_spellings_of_mem_kept, fun a ha => hapart a (mem_replacements_of_mem_supplied ha)⟩
  · have habsent : ∀ a ∈ arguments, a ∉ f.spellings := fun a ha hspelling => h ⟨a, ha, hspelling⟩
    rwa [transform_eq_self habsent]

/-- Arguments without the flag stay as they are. Of others the spellings of the flag are taken out and nothing else, and
the replacements come behind that are not among what is left, each once and in the order in which they come first. If no
replacement is a spelling of the flag, none is left, and to do it again changes nothing. -/
theorem transform_replaced (f : Flag) (arguments : List Text) :
    ((∀ a ∈ arguments, a ∉ f.spellings) → f.transform arguments = arguments) ∧
    ((∃ a ∈ arguments, a ∈ f.spellings) → f.transform arguments = f.kept arguments ++ f.supplied arguments) ∧
    ((∀ a ∈ f.replacements, a ∉ f.spellings) →
      (∀ a ∈ f.transform arguments, a ∉ f.spellings) ∧
      f.transform (f.transform arguments) = f.transform arguments) := by
  refine ⟨transform_eq_self, transform_of_mem, fun hapart => ?_⟩
  have hgone : ∀ a ∈ f.transform arguments, a ∉ f.spellings := not_mem_spellings_of_mem_transform hapart
  exact ⟨hgone, transform_eq_self hgone⟩

/-- A flag with two spellings, for which three arguments stand, one of them twice. -/
def digest : Flag where
  spellings := ["--digest".toList, "-d".toList]
  replacements := ["--emit".toList, "--quiet".toList, "--emit".toList]

theorem digest_replaced :
    digest.transform ["-d".toList, "--quiet".toList, "--digest".toList, "--index".toList, "--index".toList] =
        ["--quiet".toList, "--index".toList, "--index".toList, "--emit".toList] ∧
      digest.transform ["--quiet".toList, "--index".toList, "--index".toList, "--emit".toList] =
        ["--quiet".toList, "--index".toList, "--index".toList, "--emit".toList] := by
  obtain ⟨-, hpresent, -⟩ := transform_replaced digest
    ["-d".toList, "--quiet".toList, "--digest".toList, "--index".toList, "--index".toList]
  obtain ⟨habsent, -, -⟩ := transform_replaced digest
    ["--quiet".toList, "--index".toList, "--index".toList, "--emit".toList]
  exact ⟨(hpresent (by decide)).trans (by decide), habsent (by decide)⟩

end CodeSnippets.Flag
