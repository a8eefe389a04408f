import CodeSnippets.Proofs.LowerCase
import Mathlib.Data.List.Basic

/-!
# Expected beginnings in any case

Where case is not considered, a text begins with another if its lower case does, and as many characters are taken off as
the other has. Lower case goes character by character but for two things. U+0130 becomes two characters, so that a text
and its lower case may differ in length; and what becomes of a capital sigma at the end of a word depends on what follows
the word, so that the beginning of a text may have another lower case when it stands alone.

* `lowerBefore`, `lowerAfter_append`: the lower case of a text that something follows.
* `length_lowerBefore`, `length_lower`: how long it is.
* `EndsInSigma`, `lowerBefore_eq_iff`: it is the lower case of the text alone, unless a sigma at its end is continued.
* `dropExpected?_anyCase`: what is taken off, and what is found.
* `not_forall_dropExpected?_anyCase`: something else may be taken off, and nothing be found where case is considered.
-/

namespace CodeSnippets.Text

/-! ### Lower case in front of a text -/

/-- Lower case of `t` where `before` stands in front of it, last character first, and `after` follows it. -/
def lowerBefore (before : Text) : (t after : Text) → Text
  | [], _ => []
  | c :: t, after =>
    (if c = 'Σ' then [if nextIsCased before && !nextIsCased (t ++ after) then 'ς' else 'σ'] else lowerChar c) ++
      lowerBefore (c :: before) t after

/-- The text ends in a capital sigma at the end of a word: a letter with case stands somewhere before it and only
characters that are passed over between the two and behind. In front of the text stands `before`, last character
first. -/
def EndsInSigma (before t : Text) : Prop :=
  ∃ s u, t = s ++ 'Σ' :: u ∧ u.all isPassedOver = true ∧ nextIsCased (s.reverse ++ before) = true

variable {t r start : Text} {c : Char}

/-- The lower case of a text is that of its beginning, as it is in front of the rest, and that of the rest. -/
theorem lowerAfter_append (before t after : Text) :
    lowerAfter before (t ++ after) = lowerBefore before t after ++ lowerAfter (t.reverse ++ before) after := by
  induction t generalizing before with
  | nil => rfl
  | cons c t ih =>
    rw [List.cons_append, lowerAfter, lowerBefore, ih, List.append_assoc, List.reverse_cons, List.append_assoc,
      List.singleton_append]

theorem lowerAfter_eq_lowerBefore_nil (before t : Text) : lowerAfter before t = lowerBefore before t [] := by
  have happend := lowerAfter_append before t []
  rwa [List.append_nil, lowerAfter, List.append_nil] at happend

theorem lower_append (t after : Text) : lower (t ++ after) = lowerBefore [] t after ++ lowerAfter t.reverse after := by
  rw [lower, lowerAfter_append, List.append_nil]

/-! ### Its length -/

theorem length_lowerBefore (before t after : Text) :
    (lowerBefore before t after).length = t.length + t.count 'İ' := by
  induction t generalizing before with
  | nil => rfl
  | cons c t ih =>
    rw [lowerBefore, List.length_append, ih, List.length_cons, List.count_cons]
    by_cases hsigma : c = 'Σ'
    · rw [if_pos hsigma, hsigma]
      simp
      omega
    · rw [if_neg hsigma, length_lowerChar]
      by_cases hdotted : c = 'İ' <;> simp [hdotted] <;> omega

/-! ### Sigmas at the end -/

theorem endsInSigma_cons {before : Text} : EndsInSigma before (c :: t) ↔
    (c = 'Σ' ∧ t.all isPassedOver = true ∧ nextIsCased before = true) ∨ EndsInSigma (c :: before) t := by
  constructor
  · rintro ⟨s, u, heq, hall, hcased⟩
    cases s with
    | nil =>
      obtain ⟨rfl, rfl⟩ := List.cons.inj heq
      exact .inl ⟨rfl, hall, hcased⟩
    | cons d s =>
      obtain ⟨rfl, rfl⟩ := List.cons.inj heq
      exact .inr ⟨s, u, rfl, hall, by simpa using hcased⟩
  · rintro (⟨rfl, hall, hcased⟩ | ⟨s, u, rfl, hall, hcased⟩)
    · exact ⟨[], t, rfl, hall, hcased⟩
    · exact ⟨c :: s, u, rfl, hall, by simpa using hcased⟩

/-- The lower case of a text in front of another is the one that it has alone, unless it ends in a sigma and the other
text continues the word. -/
theorem lowerBefore_eq_iff (before t after : Text) :
    lowerBefore before t after = lowerAfter before t ↔ ¬ (EndsInSigma before t ∧ nextIsCased after = true) := by
  induction t generalizing before with
  | nil => simp [lowerBefore, lowerAfter, EndsInSigma]
  | cons c t ih =>
    rw [lowerBefore, lowerAfter, endsInSigma_cons]
    by_cases hsigma : c = 'Σ'
    · -- The sigma itself changes if all behind it is passed over, and what follows is not.
      rw [if_pos hsigma, if_pos hsigma, List.singleton_append, List.singleton_append, List.cons.injEq, ih,
        nextIsCased_append]
      by_cases hall : t.all isPassedOver = true
      · rw [if_pos hall, nextIsCased_of_all hall]
        cases nextIsCased before <;> cases nextIsCased after <;> simp [hsigma, hall]
      · rw [if_neg hall]
        simp [hall]
    · rw [if_neg hsigma, if_neg hsigma, List.append_cancel_left_eq, ih]
      simp [hsigma]

/-! ### Expected beginnings -/

theorem dropExpected?_false_eq_some_iff :
    dropExpected? t start false = some r ↔ lower start <+: lower t ∧ t.drop start.length = r := by
  have hstarts : startsWith (lower t) (lower start) = true ↔ lower start <+: lower t := by
    rw [startsWith, Option.isSome_iff_exists]
    exact exists_congr fun rest => dropStart?_eq_some_iff.trans eq_comm
  rw [dropExpected?, if_neg Bool.false_ne_true]
  by_cases h : lower start <+: lower t
  · simp [hstarts.2 h, h]
  · simp [mt hstarts.1 h, h]

theorem dropExpected?_true_eq_some_iff : dropExpected? t start true = some r ↔ t = start ++ r := by
  rw [dropExpected?, if_pos rfl, dropStart?_eq_some_iff]

theorem length_lower (t : Text) : (lower t).length = t.length + t.count 'İ' := by
  rw [lower, lowerAfter_eq_lowerBefore_nil, length_lowerBefore]

/-- The lower case of a text begins with another one of the length that a beginning of the text has in lower case, exactly
if this is the lower case of the beginning as it is in front of the rest. -/
theorem lower_prefix_iff {p : Text} (h : (lower start).length = (lower p).length) :
    lower start <+: lower (p ++ r) ↔ lowerBefore [] p r = lower start := by
  rw [lower_append]
  constructor
  · rintro ⟨rest, heq⟩
    have hlength : (lower start).length = (lowerBefore [] p r).length := by
      rw [h, length_lower, length_lowerBefore]
    exact (List.append_inj_left heq hlength).symm
  · intro heq
    rw [heq]
    exact List.prefix_append _ _

/-- Where the lower case of a text begins with another one, this is the lower case of a beginning of the text exactly if
the two have the same length and no sigma at the end of the beginning is continued by the rest. -/
theorem lower_eq_iff_of_begins {p : Text} (h : lower start <+: lower (p ++ r)) :
    lower p = lower start ↔ (lower p).length = (lower start).length ∧ ¬ (EndsInSigma [] p ∧ nextIsCased r = true) := by
  constructor
  · intro heq
    have hbefore : lowerBefore [] p r = lower start := (lower_prefix_iff (congrArg List.length heq.symm)).1 h
    exact ⟨congrArg List.length heq, (lowerBefore_eq_iff [] p r).1 (hbefore.trans heq.symm)⟩
  · rintro ⟨hlength, hsigma⟩
    have hbefore : lowerBefore [] p r = lower start := (lower_prefix_iff hlength.symm).1 h
    exact ((lowerBefore_eq_iff [] p r).2 hsigma).symm.trans hbefore

/-- Characters with the lower case that is expected, and as many as are expected, are taken off unless a sigma at their
end is continued. -/
theorem dropExpected?_append_iff {p : Text} (hlower : lower p = lower start) (hlength : p.length = start.length) :
    dropExpected? (p ++ r) start false = some r ↔ ¬ (EndsInSigma [] p ∧ nextIsCased r = true) := by
  have hdrop : (p ++ r).drop start.length = r := by rw [← hlength, List.drop_left]
  rw [dropExpected?_false_eq_some_iff, lower_prefix_iff (congrArg List.length hlower.symm), ← hlower, hdrop,
    and_iff_left rfl]
  exact lowerBefore_eq_iff [] p r

/-- Where case is not considered, what is taken off a text has the lower case that is expected, exactly if it becomes as
long in lower case and no sigma at its end is continued by what is left. A beginning with the lower case and the length
that are expected is taken off, and so is one that is taken off where case is considered, exactly if no sigma at its end
is continued. -/
theorem dropExpected?_anyCase (t start r : Text) :
    (dropExpected? t start false = some r → ∃ p, t = p ++ r ∧
      (lower p = lower start ↔ p.length + p.count 'İ' = start.length + start.count 'İ' ∧
        ¬ (EndsInSigma [] p ∧ nextIsCased r = true))) ∧
    (∀ p, t = p ++ r → lower p = lower start → p.length = start.length →
      (dropExpected? t start false = some r ↔ ¬ (EndsInSigma [] p ∧ nextIsCased r = true))) ∧
    (dropExpected? t start true = some r →
      (dropExpected? t start false = some r ↔ ¬ (EndsInSigma [] start ∧ nextIsCased r = true))) := by
  refine ⟨fun h => ?_, ?_, fun h => ?_⟩
  · obtain ⟨hstart, rfl⟩ := dropExpected?_false_eq_some_iff.1 h
    have hsplit : t.take start.length ++ t.drop start.length = t := List.take_append_drop _ _
    rw [← hsplit] at hstart
    refine ⟨t.take start.length, hsplit.symm, ?_⟩
    rw [lower_eq_iff_of_begins hstart, length_lower, length_lower]
  · rintro p rfl hlower hlength
    exact dropExpected?_append_iff hlower hlength
  · obtain rfl := dropExpected?_true_eq_some_iff.1 h
    exact dropExpected?_append_iff rfl rfl

/-- A sigma at the end of a word is found in any case, if the word ends there. -/
theorem street_anyCase :
    dropExpected? "ΟΔΟΣ ΑΒ".toList "οδος".toList false = some " ΑΒ".toList ∧
    lower "ΟΔΟΣ".toList = lower "οδος".toList ∧
    dropExpected? "ΟΔΟΣ ΑΒ".toList "ΟΔΟΣ".toList true = some " ΑΒ".toList ∧
    dropExpected? "ΟΔΟΣ ΑΒ".toList "ΟΔΟΣ".toList false = some " ΑΒ".toList := by
  have hspace : ¬ nextIsCased " ΑΒ".toList = true := by decide +kernel
  have hbegins : dropExpected? "ΟΔΟΣ ΑΒ".toList "ΟΔΟΣ".toList true = some " ΑΒ".toList := by decide +kernel
  obtain ⟨hcut, hvariant, -⟩ := dropExpected?_anyCase "ΟΔΟΣ ΑΒ".toList "οδος".toList " ΑΒ".toList
  obtain ⟨-, -, hfound⟩ := dropExpected?_anyCase "ΟΔΟΣ ΑΒ".toList "ΟΔΟΣ".toList " ΑΒ".toList
  have hdropped : dropExpected? "ΟΔΟΣ ΑΒ".toList "οδος".toList false = some " ΑΒ".toList :=
    (hvariant "ΟΔΟΣ".toList (by decide) (by decide +kernel) (by decide)).2 fun h => hspace h.2
  obtain ⟨p, heq, hlower⟩ := hcut hdropped
  have hword : "ΟΔΟΣ".toList ++ " ΑΒ".toList = p ++ " ΑΒ".toList := heq
  rw [← List.append_cancel_right hword] at hlower
  exact ⟨hdropped, hlower.2 ⟨by decide, fun h => hspace h.2⟩, hbegins, (hfound hbegins).2 fun h => hspace h.2⟩

/-- What is taken off need not have the lower case that is expected, since U+0130 is one character of two in lower case;
and a text that begins with another need not do so in lower case, since it may continue a word that ends in a sigma. -/
theorem not_forall_dropExpected?_anyCase :
    (¬ ∀ t start r, dropExpected? t start false = some r → ∃ p, t = p ++ r ∧ lower p = lower start) ∧
    ¬ ∀ t start r, dropExpected? t start true = some r → dropExpected? t start false = some r := by
  constructor
  · intro h
    obtain ⟨p, heq, hlower⟩ := h ['i', '\u0307', 'x'] ['İ'] ['\u0307', 'x'] (by decide +kernel)
    have hletter : ['i'] ++ ['\u0307', 'x'] = p ++ ['\u0307', 'x'] := heq
    rw [← List.append_cancel_right hletter] at hlower
    exact absurd hlower (by decide +kernel)
  · intro h
    exact absurd (h "ΑΣΑ".toList "ΑΣ".toList "Α".toList (by decide +kernel)) (by decide +kernel)

end CodeSnippets.Text
