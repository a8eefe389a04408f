import CodeSnippets.Text.Case

/-!
# Lower case is settled

A text in lower case is its own lower case. A run of characters that have a partner in lower case leads past all other
runs, so that no partner has a partner of its own.

* `IsLowerChar`, `isLowerChar_of_mem_lowerChar`: characters that are their own lower case.
* `length_lowerChar`: how many characters become of one.
* `lower_lower`: lower case is its own lower case.
* `lower_of_ascii`: the lower case of a text of ASCII.
* `nextIsCased_append`: what comes next after a text, where more follows.
* `lower_cons_dot`: a dot before a text stays where it is and changes nothing.
-/

namespace CodeSnippets.Text

/-! ### Characters -/

/-- The character is its own lower case. -/
def IsLowerChar (c : Char) : Prop := lowerChar c = [c]

instance (c : Char) : Decidable (IsLowerChar c) := inferInstanceAs (Decidable (lowerChar c = [c]))

namespace CaseRun

/-- The number of the lower-case partner of a character of a run. -/
def partner (run : CaseRun) (n : Nat) : Nat := (n + run.shift).toNat

/-- The partners of one run lie before another run, after it, or between its characters. -/
def avoids (run other : CaseRun) : Bool :=
  Nat.blt (run.partner run.last) other.first || Nat.blt other.last (run.partner run.first) ||
    (other.step == 2 && (run.step == 2 || run.first == run.last) && (run.partner run.first + other.first) % 2 == 1)

/-- The partners of a run are no capital letters of ASCII, nor the one character that becomes two. -/
def staysLow (run : CaseRun) : Bool :=
  0 ≤ run.first + run.shift && Nat.blt 'Z'.toNat (run.partner run.first) &&
    (Nat.blt (run.partner run.last) 0x130 || Nat.blt 0x130 (run.partner run.first))

theorem avoids_of_mem {run other : CaseRun} (hrun : run ∈ caseRuns) (hother : other ∈ caseRuns) :
    run.avoids other = true := by
  have h : caseRuns.all (fun run => caseRuns.all run.avoids) = true := by decide +kernel
  exact List.all_eq_true.1 (List.all_eq_true.1 h run hrun) other hother

theorem staysLow_of_mem {run : CaseRun} (h : run ∈ caseRuns) : run.staysLow = true := by
  have hall : caseRuns.all staysLow = true := by decide +kernel
  exact List.all_eq_true.1 hall run h

variable {run other : CaseRun} {n : Nat}

theorem bounds_of_covers (h : run.covers n = true) : run.first ≤ n ∧ n ≤ run.last ∧ (n - run.first) % run.step = 0 := by
  simpa [covers, and_assoc] using h

/-- The partner of a character is in no run. -/
theorem covers_partner (hrun : run ∈ caseRuns) (hother : other ∈ caseRuns) (h : run.covers n = true) :
    other.covers (run.partner n) = false := by
  have havoids := avoids_of_mem hrun hother
  have hlow := staysLow_of_mem hrun
  obtain ⟨hfirst, hlast, hstep⟩ := bounds_of_covers h
  rw [Bool.eq_false_iff]
  intro hcovers
  obtain ⟨hfirst', hlast', hstep'⟩ := bounds_of_covers hcovers
  simp only [avoids, Bool.or_eq_true, Nat.blt_eq, Bool.and_eq_true, beq_iff_eq] at havoids
  simp only [staysLow, Bool.and_eq_true, decide_eq_true_eq] at hlow
  obtain ⟨⟨hnonneg, -⟩, -⟩ := hlow
  unfold partner at *
  rcases havoids with (hbefore | hafter) | ⟨⟨htwo, hsparse⟩, hodd⟩
  · omega
  · omega
  · -- A run that takes every second character is met at none of the others.
    rw [htwo] at hstep'
    rcases hsparse with hsparse | hsingle
    · rw [hsparse] at hstep
      omega
    · omega

end CaseRun

/-- A character that is in no run is its own lower case, a few of them apart. -/
theorem isLowerChar_ofNat {n : Nat} (hcapital : 'Z'.toNat < n) (htwo : n ≠ 0x130)
    (h : ∀ run ∈ caseRuns, run.covers n = false) : IsLowerChar (Char.ofNat n) := by
  by_cases hvalid : n.isValidChar
  · have hnumber : (Char.ofNat n).toNat = n := by
      rw [Char.ofNat, dif_pos hvalid]
      rfl
    have hnone : caseRuns.find? (·.covers n) = none := by simpa using h
    have hle : ¬ Char.ofNat n ≤ 'Z' := by
      rw [Char.le_def, UInt32.le_iff_toNat_le]
      show ¬ (Char.ofNat n).toNat ≤ 'Z'.toNat
      omega
    simp [IsLowerChar, lowerChar, hnumber, hnone, hle, htwo]
  · rw [Char.ofNat, dif_neg hvalid]
    decide

/-- Lower case is made of characters that are their own lower case. -/
theorem isLowerChar_of_mem_lowerChar {c d : Char} (h : d ∈ lowerChar c) : IsLowerChar d := by
  unfold lowerChar at h
  dsimp only at h
  split at h
  · -- The letters of ASCII are looked at one by one.
    rename_i hascii
    have hall : ∀ n < 0x80, IsLowerChar
        (if 'A' ≤ Char.ofNat n ∧ Char.ofNat n ≤ 'Z' then Char.ofNat (n + 32) else Char.ofNat n) := by
      decide +kernel
    have hc := hall c.toNat hascii
    rw [Char.ofNat_toNat] at hc
    rwa [List.mem_singleton.1 h]
  split at h
  · rcases List.mem_cons.1 h with rfl | h
    · decide +kernel
    · rw [List.mem_singleton.1 h]
      decide +kernel
  split at h
  · rename_i run hfind
    obtain rfl := List.mem_singleton.1 h
    have hrun := List.mem_of_find?_eq_some hfind
    have hcovers : run.covers c.toNat = true := by simpa using List.find?_some hfind
    have hlow := CaseRun.staysLow_of_mem hrun
    obtain ⟨hfirst, hlast, -⟩ := CaseRun.bounds_of_covers hcovers
    simp only [CaseRun.staysLow, CaseRun.partner, Bool.and_eq_true, Bool.or_eq_true, Nat.blt_eq, decide_eq_true_eq] at hlow
    obtain ⟨⟨hnonneg, hcapital⟩, htwo⟩ := hlow
    exact isLowerChar_ofNat (by omega) (by omega) fun other hother => CaseRun.covers_partner hrun hother hcovers
  · rename_i hascii htwo _ hfind
    obtain rfl := List.mem_singleton.1 h
    rw [IsLowerChar, lowerChar]
    simp only [hascii, htwo, hfind, if_false]

/-- Of ASCII only the capital letters change. -/
theorem lowerChar_of_ascii {c : Char} (h : c.toNat < 0x80) : lowerChar c = [c.toLower] := by
  have hall : ∀ n < 0x80, lowerChar (Char.ofNat n) = [(Char.ofNat n).toLower] := by decide +kernel
  have hc := hall c.toNat h
  rwa [Char.ofNat_toNat] at hc

/-- One character becomes one, and U+0130 two. -/
theorem length_lowerChar (c : Char) : (lowerChar c).length = if c = 'İ' then 2 else 1 := by
  have hnumber : c = 'İ' ↔ c.toNat = 0x130 := by
    rw [← Char.toNat_inj]
    rfl
  simp only [lowerChar, hnumber]
  by_cases hascii : c.toNat < 0x80
  · have htwo : c.toNat ≠ 0x130 := by omega
    rw [if_pos hascii, if_neg htwo, List.length_singleton]
  · rw [if_neg hascii]
    by_cases htwo : c.toNat = 0x130
    · rw [if_pos htwo, if_pos htwo]
      rfl
    · rw [if_neg htwo, if_neg htwo]
      split <;> rfl

/-! ### Texts -/

/-- The lower case of a text of ASCII is worked out letter by letter. -/
theorem lower_of_ascii {t : Text} (h : ∀ c ∈ t, c.toNat < 0x80) : lower t = t.map Char.toLower := by
  have hafter (before : Text) : lowerAfter before t = t.map Char.toLower := by
    induction t generalizing before with
    | nil => rfl
    | cons c t ih =>
      obtain ⟨hc, ht⟩ := List.forall_mem_cons.1 h
      have hsigma : c ≠ 'Σ' := by
        rintro rfl
        exact absurd hc (by decide)
      rw [lowerAfter, if_neg hsigma, lowerChar_of_ascii hc, ih ht, List.singleton_append, List.map_cons]
  exact hafter []

theorem lowerAfter_eq_self {before t : Text} (h : ∀ c ∈ t, IsLowerChar c) : lowerAfter before t = t := by
  induction t generalizing before with
  | nil => rfl
  | cons c t ih =>
    obtain ⟨hc, ht⟩ := List.forall_mem_cons.1 h
    have hsigma : c ≠ 'Σ' := by
      rintro rfl
      exact absurd hc (by decide +kernel)
    rw [lowerAfter, if_neg hsigma, hc, ih ht, List.singleton_append]

theorem isLowerChar_of_mem_lowerAfter {before t : Text} {c : Char} (h : c ∈ lowerAfter before t) : IsLowerChar c := by
  induction t generalizing before with
  | nil => cases h
  | cons d t ih =>
    rw [lowerAfter, List.mem_append] at h
    rcases h with h | h
    · split at h
      · rw [List.mem_singleton.1 h]
        split <;> decide +kernel
      · exact isLowerChar_of_mem_lowerChar h
    · exact ih h

/-- A text in lower case is its own lower case. -/
theorem lower_lower (t : Text) : lower (lower t) = lower t :=
  lowerAfter_eq_self fun _ => isLowerChar_of_mem_lowerAfter

/-- What comes next after a text is looked for behind it only if all of it is passed over. -/
theorem nextIsCased_append (t after : Text) :
    nextIsCased (t ++ after) = if t.all isPassedOver then nextIsCased after else nextIsCased t := by
  induction t with
  | nil => rfl
  | cons c t ih =>
    cases h : isPassedOver c with
    | true => simpa [nextIsCased, h] using ih
    | false => simp [nextIsCased, h]

theorem nextIsCased_of_all {t : Text} (h : t.all isPassedOver = true) : nextIsCased t = false := by
  have hnil := nextIsCased_append t []
  rw [List.append_nil, if_pos h] at hnil
  rw [hnil]
  rfl

theorem nextIsCased_append_of_isPassedOver {d : Char} (h : isPassedOver d = true) (t : Text) :
    nextIsCased (t ++ [d]) = nextIsCased t := by
  have hlast : nextIsCased [d] = false := nextIsCased_of_all (by simpa using h)
  rw [nextIsCased_append, hlast]
  split
  · rename_i hall
    exact (nextIsCased_of_all hall).symm
  · rfl

/-- What stands before a text and is passed over does not matter for its lower case. -/
theorem lowerAfter_append_of_isPassedOver {d : Char} (h : isPassedOver d = true) (before t : Text) :
    lowerAfter (before ++ [d]) t = lowerAfter before t := by
  induction t generalizing before with
  | nil => rfl
  | cons c t ih =>
    have hrest := ih (c :: before)
    rw [List.cons_append] at hrest
    rw [lowerAfter, lowerAfter, nextIsCased_append_of_isPassedOver h, hrest]

/-- A dot before a text stays where it is, and the rest is as it would be without it. -/
theorem lower_cons_dot (t : Text) : lower ('.' :: t) = '.' :: lower t := by
  have hdot : lowerChar '.' = ['.'] := by decide
  have hrest : lowerAfter ['.'] t = lower t := lowerAfter_append_of_isPassedOver (by decide +kernel) [] t
  rw [lower, lowerAfter, if_neg (by decide), hdot, hrest, List.singleton_append]

end CodeSnippets.Text
