import CodeSnippets.Proofs.JsonGrammar
import Mathlib.Data.Int.Notation

/-!
# Rendered JSON

The text of a value is a JSON text of it, in every layout, and on one line in the compact one.

* `isNumeral_ofNat`, `spells_flatMap_escapedChar`: the tokens that are written.
* `Json.induction`: what is shown for values from their items and fields.
* `writes_renderAt`, `isDocument_render`: the text of a value writes it, and nothing else.
* `newline_notMem_render`: the compact text of a value is one line.
-/

namespace CodeSnippets.Json

open Text

/-! ### Tokens -/

/-- Only zero has a leading zero. -/
theorem eq_zero_of_head?_toDigits {n : ℕ} (h : (Nat.toDigits 10 n).head? = some '0') : n = 0 := by
  induction n using Nat.strongRecOn with
  | _ n ih =>
    rw [Nat.toDigits_eq_if (by decide)] at h
    split at h
    · rename_i hlt
      have hdigit : ∀ k < 10, Nat.digitChar k = '0' → k = 0 := by decide
      exact hdigit n hlt (Option.some.inj h)
    · -- The first digit is that of the number without its last digit.
      rename_i hge
      rw [List.head?_append_of_ne_nil _ Nat.toDigits_ne_nil] at h
      have := ih (n / 10) (by omega) h
      omega

theorem isNumeral_ofNat (n : ℕ) : IsNumeral n (ofNat n) := by
  refine ⟨Nat.toDigits_ne_nil, fun c hc => Nat.isDigit_of_mem_toDigits (by decide) (by decide) hc, fun h => ?_, ?_⟩
  · rw [eq_zero_of_head?_toDigits h]
    rfl
  · rw [ofDigits, List.foldl_map, ofNat]
    exact Nat.ofDigitChars_eq_foldl.symm.trans (Nat.ofDigitChars_toDigits (by decide) (by decide))

/-- Control characters have numbers of two digits. -/
theorem hex_of_lt : ∀ n < 0x20, hex 4 n = ['0', '0', Nat.digitChar (n / 16), Nat.digitChar (n % 16)] ∧
    hexUnit? '0' '0' (Nat.digitChar (n / 16)) (Nat.digitChar (n % 16)) = some n ∧ '\n' ∉ hex 4 n := by
  decide

theorem spells_escapedChar (c : Char) {s t : Text} (h : Spells s t) : Spells (c :: s) (escapedChar c ++ t) := by
  rw [escapedChar]
  split_ifs with hquote hbackslash hnewline hreturn htab hback hfeed hcontrol
  · subst hquote
    exact .letter rfl h
  · subst hbackslash
    exact .letter rfl h
  · subst hnewline
    exact .letter rfl h
  · subst hreturn
    exact .letter rfl h
  · subst htab
    exact .letter rfl h
  · subst hback
    exact .letter rfl h
  · subst hfeed
    exact .letter rfl h
  · -- The code of a control character is too small for a half of a surrogate pair.
    obtain ⟨hdigits, hunit, -⟩ := hex_of_lt _ hcontrol
    have hlow : isLowSurrogate c.toNat = false := by
      rw [isLowSurrogate, Bool.and_eq_false_iff]
      exact .inl (decide_eq_false (by omega))
    have hhigh : isHighSurrogate c.toNat = false := by
      rw [isHighSurrogate, Bool.and_eq_false_iff]
      exact .inl (decide_eq_false (by omega))
    rw [hdigits]
    have hspells := Spells.unit hunit hlow hhigh h
    rwa [Char.ofNat_toNat] at hspells
  · exact .char c hquote hbackslash (by omega) h

theorem spells_flatMap_escapedChar (s : Text) : Spells s (s.flatMap escapedChar ++ ['"']) := by
  induction s with
  | nil => exact .quote
  | cons c s ih =>
    rw [List.flatMap_cons, List.append_assoc]
    exact spells_escapedChar c ih

theorem isGap_lineBreak (layout : Layout) (level : ℕ) : IsGap (layout.lineBreak level) := by
  cases layout with
  | compact => exact fun c hc => absurd hc List.not_mem_nil
  | indented width =>
    intro c hc
    rcases List.mem_cons.1 hc with rfl | hc
    · exact .inr (.inr (.inl rfl))
    · exact .inl (List.eq_of_mem_replicate hc)

/-- A separator is a comma and white space. -/
theorem exists_separator_eq (layout : Layout) (level : ℕ) : ∃ gap, IsGap gap ∧ layout.separator level = ',' :: gap := by
  cases layout with
  | compact => exact ⟨[' '], by decide, rfl⟩
  | indented width => exact ⟨_, isGap_lineBreak (.indented width) level, rfl⟩

/-! ### Values -/

/-- What holds of a value as soon as it holds of its items and fields holds of every value. -/
@[elab_as_elim]
theorem induction {P : Json → Prop} (null : P .null) (boolean : ∀ b, P (.boolean b)) (number : ∀ n, P (.number n))
    (text : ∀ t, P (.text t)) (array : ∀ xs, (∀ x ∈ xs, P x) → P (.array xs))
    (object : ∀ fs, (∀ f ∈ fs, P f.2) → P (.object fs)) : ∀ x, P x
  | .null => null
  | .boolean b => boolean b
  | .number n => number n
  | .text t => text t
  | .array xs => array xs fun x _ => induction null boolean number text array object x
  | .object fs => object fs fun f _ => induction null boolean number text array object f.2
termination_by x => sizeOf x
decreasing_by
  · have hlt := List.sizeOf_lt_of_mem ‹x ∈ xs›
    simp only [Json.array.sizeOf_spec]
    omega
  · have hlt := List.sizeOf_lt_of_mem ‹f ∈ fs›
    have hfield : sizeOf f.2 < sizeOf f := by
      cases f
      simp only [Prod.mk.sizeOf_spec]
      omega
    simp only [Json.object.sizeOf_spec]
    omega

section Writes

variable {layout : Layout}

/-- The items after the first and the bracket behind them. -/
theorem writes_renderItems {xs : List Json} (h : ∀ x ∈ xs, ∀ level, Writes (.value x) (renderAt layout level x))
    (level : ℕ) {gap : Text} (hgap : IsGap gap) : Writes (.items xs) (renderItems layout level xs ++ gap ++ [']']) := by
  induction xs with
  | nil => exact .noItems hgap
  | cons x xs ih =>
    obtain ⟨hx, hxs⟩ := List.forall_mem_cons.1 h
    obtain ⟨gap', hgap', hseparator⟩ := exists_separator_eq layout level
    have hwrites := Writes.items isGap_nil hgap' (hx level) (ih hxs)
    simpa [renderItems, hseparator] using hwrites

/-- A name, a colon and a value. -/
theorem writes_field (name : Text) {x : Json} {t : Text} (hx : Writes (.value x) t) :
    Writes (.field (name, x)) (quotedText name ++ [':', ' '] ++ t) := by
  have hspace : IsGap [' '] := by decide
  have hwrites := Writes.field (spells_flatMap_escapedChar name) isGap_nil hspace hx
  simpa [quotedText] using hwrites

/-- The fields after the first and the brace behind them. -/
theorem writes_renderFields {fs : List (Text × Json)}
    (h : ∀ f ∈ fs, ∀ level, Writes (.value f.2) (renderAt layout level f.2)) (level : ℕ) {gap : Text} (hgap : IsGap gap) :
    Writes (.fields fs) (renderFields layout level fs ++ gap ++ ['\x7d']) := by
  induction fs with
  | nil => exact .noFields hgap
  | cons f fs ih =>
    obtain ⟨hf, hfs⟩ := List.forall_mem_cons.1 h
    obtain ⟨gap', hgap', hseparator⟩ := exists_separator_eq layout level
    have hwrites := Writes.fields isGap_nil hgap' (writes_field f.1 (hf level)) (ih hfs)
    simpa [renderFields, hseparator] using hwrites

/-- The text of a value writes it, in every layout and at every level of nesting. -/
theorem writes_renderAt (x : Json) (level : ℕ) : Writes (.value x) (renderAt layout level x) := by
  induction x using Json.induction generalizing level with
  | null => exact .null
  | boolean b =>
    cases b with
    | true => exact .yes
    | false => exact .no
  | number n =>
    cases n with
    | ofNat n => exact .number (isNumeral_ofNat n)
    | negSucc n => exact .negative (isNumeral_ofNat (n + 1))
  | text t => exact .text (spells_flatMap_escapedChar t)
  | array xs ih =>
    cases xs with
    | nil => exact .emptyArray isGap_nil
    | cons x xs =>
      -- The first item follows the bracket, the others a comma; all are one level further in.
      obtain ⟨hx, hxs⟩ := List.forall_mem_cons.1 ih
      have hwrites := Writes.array (isGap_lineBreak layout (level + 1)) (hx (level + 1))
        (writes_renderItems hxs (level + 1) (isGap_lineBreak layout level))
      simpa [renderAt] using hwrites
  | object fs ih =>
    cases fs with
    | nil => exact .emptyObject isGap_nil
    | cons f fs =>
      obtain ⟨hf, hfs⟩ := List.forall_mem_cons.1 ih
      have hwrites := Writes.object (isGap_lineBreak layout (level + 1)) (writes_field f.1 (hf (level + 1)))
        (writes_renderFields hfs (level + 1) (isGap_lineBreak layout level))
      simpa [renderAt] using hwrites

/-- The text of a value is a JSON text of it, also with white space behind it. -/
theorem isDocument_render (x : Json) {gap : Text} (hgap : IsGap gap) : IsDocument x (x.render layout ++ gap) :=
  ⟨[], x.render layout, gap, isGap_nil, hgap, writes_renderAt x 0, rfl⟩

end Writes

/-! ### The compact layout -/

theorem newline_notMem_quotedText (t : Text) : '\n' ∉ quotedText t := by
  have hescaped : ∀ c, '\n' ∉ escapedChar c := by
    intro c
    rw [escapedChar]
    split_ifs with _ _ hnewline _ _ _ _ hcontrol
    iterate 7
      · decide
    · simpa using (hex_of_lt _ hcontrol).2.2
    · simpa using Ne.symm hnewline
  simpa [quotedText] using fun c _ => hescaped c

theorem newline_notMem_ofInt (n : ℤ) : '\n' ∉ ofInt n := by
  have hdigits : ∀ n, '\n' ∉ ofNat n := fun n hmem => absurd ((isNumeral_ofNat n).isDigit _ hmem) (by decide)
  cases n with
  | ofNat n => exact hdigits n
  | negSucc n => simpa [ofInt] using hdigits (n + 1)

theorem newline_notMem_renderItems {xs : List Json} (h : ∀ x ∈ xs, ∀ level, '\n' ∉ renderAt .compact level x)
    (level : ℕ) : '\n' ∉ renderItems .compact level xs := by
  induction xs with
  | nil => simp [renderItems]
  | cons x xs ih =>
    obtain ⟨hx, hxs⟩ := List.forall_mem_cons.1 h
    simp [renderItems, Layout.separator, hx level, ih hxs]

theorem newline_notMem_renderFields {fs : List (Text × Json)}
    (h : ∀ f ∈ fs, ∀ level, '\n' ∉ renderAt .compact level f.2) (level : ℕ) :
    '\n' ∉ renderFields .compact level fs := by
  induction fs with
  | nil => simp [renderFields]
  | cons f fs ih =>
    obtain ⟨hf, hfs⟩ := List.forall_mem_cons.1 h
    simp [renderFields, Layout.separator, newline_notMem_quotedText f.1, hf level, ih hfs]

theorem newline_notMem_renderAt (x : Json) (level : ℕ) : '\n' ∉ renderAt .compact level x := by
  induction x using Json.induction generalizing level with
  | null => simp [renderAt]
  | boolean b => cases b <;> simp [renderAt]
  | number n => exact newline_notMem_ofInt n
  | text t => exact newline_notMem_quotedText t
  | array xs ih =>
    cases xs with
    | nil => simp [renderAt]
    | cons x xs =>
      obtain ⟨hx, hxs⟩ := List.forall_mem_cons.1 ih
      simp [renderAt, Layout.lineBreak, hx (level + 1), newline_notMem_renderItems hxs]
  | object fs ih =>
    cases fs with
    | nil => simp [renderAt]
    | cons f fs =>
      obtain ⟨hf, hfs⟩ := List.forall_mem_cons.1 ih
      simp [renderAt, Layout.lineBreak, newline_notMem_quotedText f.1, hf (level + 1), newline_notMem_renderFields hfs]

/-- The compact text of a value is one line. -/
theorem newline_notMem_render (x : Json) : '\n' ∉ x.render .compact := newline_notMem_renderAt x 0

end CodeSnippets.Json
