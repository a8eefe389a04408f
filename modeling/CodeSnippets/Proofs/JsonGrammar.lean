import CodeSnippets.Json.Reading
import Mathlib.Data.List.Basic

/-!
# The grammar of JSON

What a JSON text is, and the value that it writes: white space may stand between any two tokens, a character of a text may
stand for itself or be escaped in more than one way, and numbers are integers. The reading of JSON is complete for this
grammar, so that a text writes one value at most.

* `Spells`: the spellings of a text, with the quote that ends them.
* `Writes`: the spellings of values and of their parts.
* `IsDocument`: the texts of a value.
* `Writes.isRead`: every spelling of a value is read, by one step of the grammar after the other.
* `IsDocument.read?_eq`, `IsDocument.unique`: the value of a JSON text is read from it, and is the only one.
-/

namespace CodeSnippets.Json

open Text

/-! ### Tokens -/

/-- White space between tokens. -/
def IsGap (t : Text) : Prop := ∀ c ∈ t, c = ' ' ∨ c = '\t' ∨ c = '\n' ∨ c = '\r'

instance (t : Text) : Decidable (IsGap t) :=
  List.decidableBAll (fun c => c = ' ' ∨ c = '\t' ∨ c = '\n' ∨ c = '\r') t

theorem isGap_nil : IsGap [] := List.forall_mem_nil _

theorem not_isGap_of_isDigit {c : Char} (hc : c.isDigit = true) : ¬IsGap [c] := by
  intro hgap
  rcases hgap c List.mem_cons_self with rfl | rfl | rfl | rfl <;> exact absurd hc (by decide)

/-- The decimal digits of a number, without leading zeros. -/
structure IsNumeral (n : ℕ) (t : Text) : Prop where
  ne_nil : t ≠ []
  isDigit : ∀ c ∈ t, c.isDigit = true
  length_eq : t.head? = some '0' → t.length = 1
  value : ofDigits 10 (t.map fun c => c.toNat - 48) = n

/-- The spellings of a text, up to the quote that ends it. -/
inductive Spells : Text → Text → Prop
  | quote : Spells [] ['"']
  /-- A character that stands for itself. -/
  | char {s t : Text} (c : Char) (ne_quote : c ≠ '"') (ne_backslash : c ≠ '\\') (le : 0x20 ≤ c.toNat) (h : Spells s t) :
      Spells (c :: s) (c :: t)
  /-- A backslash and a letter. -/
  | letter {s t : Text} {c letter : Char} (hc : simpleEscape? letter = some c) (h : Spells s t) :
      Spells (c :: s) ('\\' :: letter :: t)
  /-- A backslash and the number of the character. -/
  | unit {s t : Text} {a b c d : Char} {n : ℕ} (hn : hexUnit? a b c d = some n) (ne_low : isLowSurrogate n = false)
      (ne_high : isHighSurrogate n = false) (h : Spells s t) :
      Spells (Char.ofNat n :: s) ('\\' :: 'u' :: a :: b :: c :: d :: t)
  /-- The numbers of a pair of surrogates. -/
  | pair {s t : Text} {a b c d e f g h : Char} {n k : ℕ} (hn : hexUnit? a b c d = some n)
      (hk : hexUnit? e f g h = some k) (ne_low : isLowSurrogate n = false) (high : isHighSurrogate n = true)
      (low : isLowSurrogate k = true) (hs : Spells s t) :
      Spells (Char.ofNat (0x10000 + (n - 0xD800) * 0x400 + (k - 0xDC00)) :: s)
        ('\\' :: 'u' :: a :: b :: c :: d :: '\\' :: 'u' :: e :: f :: g :: h :: t)

/-! ### Values -/

/-- A value, or a part of one: the items or fields after the first, with the bracket that ends them, or a field. -/
inductive Phrase where
  | value (x : Json)
  | items (xs : List Json)
  | field (f : Text × Json)
  | fields (fs : List (Text × Json))

/-- The phrase stands behind the first item or field. -/
def Phrase.isRest : Phrase → Bool
  | .items _ | .fields _ => true
  | .value _ | .field _ => false

/-- The spellings of values and their parts. -/
inductive Writes : Phrase → Text → Prop
  | null : Writes (.value .null) ['n', 'u', 'l', 'l']
  | yes : Writes (.value (.boolean true)) ['t', 'r', 'u', 'e']
  | no : Writes (.value (.boolean false)) ['f', 'a', 'l', 's', 'e']
  | number {n : ℕ} {t : Text} (h : IsNumeral n t) : Writes (.value (.number n)) t
  | negative {n : ℕ} {t : Text} (h : IsNumeral n t) : Writes (.value (.number (-n))) ('-' :: t)
  | text {s t : Text} (h : Spells s t) : Writes (.value (.text s)) ('"' :: t)
  | emptyArray {gap : Text} (hgap : IsGap gap) : Writes (.value (.array [])) ('[' :: gap ++ [']'])
  | array {x : Json} {xs : List Json} {gap t u : Text} (hgap : IsGap gap) (hx : Writes (.value x) t)
      (hxs : Writes (.items xs) u) : Writes (.value (.array (x :: xs))) ('[' :: gap ++ t ++ u)
  | noItems {gap : Text} (hgap : IsGap gap) : Writes (.items []) (gap ++ [']'])
  | items {x : Json} {xs : List Json} {gap gap' t u : Text} (hgap : IsGap gap) (hgap' : IsGap gap')
      (hx : Writes (.value x) t) (hxs : Writes (.items xs) u) :
      Writes (.items (x :: xs)) (gap ++ ',' :: gap' ++ t ++ u)
  | emptyObject {gap : Text} (hgap : IsGap gap) : Writes (.value (.object [])) ('\x7b' :: gap ++ ['\x7d'])
  | object {f : Text × Json} {fs : List (Text × Json)} {gap t u : Text} (hgap : IsGap gap) (hf : Writes (.field f) t)
      (hfs : Writes (.fields fs) u) : Writes (.value (.object (f :: fs))) ('\x7b' :: gap ++ t ++ u)
  | field {name : Text} {x : Json} {s gap gap' t : Text} (hname : Spells name s) (hgap : IsGap gap) (hgap' : IsGap gap')
      (hx : Writes (.value x) t) : Writes (.field (name, x)) ('"' :: s ++ gap ++ ':' :: gap' ++ t)
  | noFields {gap : Text} (hgap : IsGap gap) : Writes (.fields []) (gap ++ ['\x7d'])
  | fields {f : Text × Json} {fs : List (Text × Json)} {gap gap' t u : Text} (hgap : IsGap gap) (hgap' : IsGap gap')
      (hf : Writes (.field f) t) (hfs : Writes (.fields fs) u) :
      Writes (.fields (f :: fs)) (gap ++ ',' :: gap' ++ t ++ u)

/-- A JSON text of a value: white space may stand around the value. -/
def IsDocument (x : Json) (t : Text) : Prop :=
  ∃ before u after, IsGap before ∧ IsGap after ∧ Writes (.value x) u ∧ t = before ++ u ++ after

/-! ### Reading tokens -/

theorem skipBlanks_append {gap t : Text} (hgap : IsGap gap) : skipBlanks (gap ++ t) = skipBlanks t :=
  List.dropWhile_append_of_pos fun c hc => by simpa [or_assoc] using hgap c hc

theorem skipBlanks_cons {c : Char} (hc : ¬IsGap [c]) (t : Text) : skipBlanks (c :: t) = c :: t :=
  List.dropWhile_cons_of_neg (by simpa [IsGap, and_assoc] using hc)

/-- No number goes on in what follows: it does not start with a digit, and not as a fraction or an exponent does. -/
def EndsNumber (rest : Text) : Prop := ∀ c ∈ rest.head?, c.isDigit = false ∧ c ≠ '.' ∧ c ≠ 'e' ∧ c ≠ 'E'

theorem endsNumber_of_isGap {gap : Text} (hgap : IsGap gap) : EndsNumber gap := by
  intro c hc
  rcases hgap c (List.mem_of_mem_head? hc) with rfl | rfl | rfl | rfl <;> decide

theorem endsNumber_append {gap : Text} (hgap : IsGap gap) {c : Char} (hc : EndsNumber [c]) (rest : Text) :
    EndsNumber (gap ++ c :: rest) := by
  cases gap with
  | nil => exact hc
  | cons d gap => exact fun c hc => endsNumber_of_isGap hgap c hc

theorem IsNumeral.readNat?_eq {n : ℕ} {t rest : Text} (h : IsNumeral n t) (hrest : EndsNumber rest) :
    readNat? (t ++ rest) = some (n, rest) := by
  have hstop : rest.takeWhile Char.isDigit = [] ∧ rest.dropWhile Char.isDigit = rest := by
    cases rest with
    | nil => exact ⟨rfl, rfl⟩
    | cons c rest => simp [(hrest c rfl).1]
  have hlead : (t.isEmpty || (t.head? == some '0' && decide (1 < t.length))) = false := by
    have hlength := h.length_eq
    rw [Bool.or_eq_false_iff, Bool.and_eq_false_iff]
    refine ⟨by simpa using h.ne_nil, ?_⟩
    by_cases hzero : t.head? = some '0'
    · exact .inr (by simp [hlength hzero])
    · exact .inl (by simpa using hzero)
  have hfollow : (rest.head? == some '.' || rest.head? == some 'e' || rest.head? == some 'E') = false := by
    cases rest with
    | nil => rfl
    | cons c rest => simp [hrest c rfl]
  rw [readNat?, List.takeWhile_append_of_pos h.isDigit, List.dropWhile_append_of_pos h.isDigit, hstop.1, hstop.2,
    List.append_nil]
  simp only [hlead, hfollow, h.value, Bool.false_eq_true, if_false]

/-- A text is read in every spelling, and nothing after it. -/
theorem Spells.readText?_eq {s t : Text} (h : Spells s t) (rest : Text) : readText? (t ++ rest) = some (s, rest) := by
  induction h with
  | quote => simp [readText?]
  | char c ne_quote ne_backslash le h ih =>
    have hprintable : ¬c.toNat < 0x20 := by omega
    rw [List.cons_append, readText?]
    · simp [hprintable, ih]
    · exact ne_quote
    · exact fun _ _ _ _ _ heq => absurd heq ne_backslash
    · exact fun _ _ heq => absurd heq ne_backslash
  | @letter s t c letter hc h ih =>
    have hletter : letter ≠ 'u' := by
      rintro rfl
      cases hc
    rw [List.cons_append, List.cons_append, readText?]
    · simp [hc, ih]
    · exact fun _ _ _ _ _ heq => absurd heq hletter
  | unit hn ne_low ne_high h ih => simp [readText?, hn, ne_low, ne_high, ih]
  | pair hn hk ne_low high low h ih => simp [readText?, hn, hk, ne_low, high, low, ih]

/-! ### Reading values -/

theorem readValue?_append (fuel : ℕ) {gap : Text} (hgap : IsGap gap) (t : Text) :
    readValue? fuel (gap ++ t) = readValue? fuel t := by
  cases fuel with
  | zero => rw [readValue?, readValue?]
  | succ fuel => rw [readValue?, readValue?, skipBlanks_append hgap]

theorem readField?_append (fuel : ℕ) {gap : Text} (hgap : IsGap gap) (t : Text) :
    readField? fuel (gap ++ t) = readField? fuel t := by
  cases fuel with
  | zero => rw [readField?, readField?]
  | succ fuel => rw [readField?, readField?, skipBlanks_append hgap]

/-- A value that starts with a digit is a number. -/
theorem readValue?_of_isDigit (fuel : ℕ) {c : Char} (hc : c.isDigit = true) (t : Text) :
    readValue? (fuel + 1) (c :: t) = (readNat? (c :: t)).map fun (n, rest) => (.number n, rest) := by
  have hne : c ≠ '"' ∧ c ≠ '[' ∧ c ≠ '\x7b' ∧ c ≠ '-' ∧ 'n' ≠ c ∧ 't' ≠ c ∧ 'f' ≠ c := by
    refine ⟨?_, ?_, ?_, ?_, ?_, ?_, ?_⟩ <;>
    · rintro rfl
      exact absurd hc (by decide)
  rw [readValue?, skipBlanks_cons (not_isGap_of_isDigit hc)]
  simp [hne, dropStart?]

/-- An array that does not end at once has a first item. -/
theorem readValue?_array (fuel : ℕ) {t : Text} (h : (skipBlanks t).head? ≠ some ']') :
    readValue? (fuel + 1) ('[' :: t) = (do
      let (x, rest) ← readValue? fuel t
      let (xs, rest) ← readItems? fuel (skipBlanks rest)
      return (.array (x :: xs), rest)) := by
  rw [readValue?, skipBlanks_cons (by decide)]
  simp only
  split
  · rename_i heq
    exact absurd (congrArg List.head? heq) h
  · rfl

/-- An object that does not end at once has a first field. -/
theorem readValue?_object (fuel : ℕ) {t : Text} (h : (skipBlanks t).head? ≠ some '\x7d') :
    readValue? (fuel + 1) ('\x7b' :: t) = (do
      let (f, rest) ← readField? fuel (skipBlanks t)
      let (fs, rest) ← readFields? fuel (skipBlanks rest)
      return (.object (f :: fs), rest)) := by
  rw [readValue?, skipBlanks_cons (by decide)]
  simp only
  split
  · rename_i heq
    exact absurd (congrArg List.head? heq) h
  · rfl

theorem IsNumeral.exists_cons {n : ℕ} {t : Text} (h : IsNumeral n t) : ∃ c u, t = c :: u ∧ c.isDigit = true := by
  obtain ⟨c, u, rfl⟩ := List.exists_cons_of_ne_nil h.ne_nil
  exact ⟨c, u, rfl, h.isDigit c List.mem_cons_self⟩

/-- A value is seen by its first character: it is not passed over, and ends no array. -/
theorem Writes.exists_cons {x : Json} {t : Text} (h : Writes (.value x) t) :
    ∃ c u, t = c :: u ∧ ¬IsGap [c] ∧ c ≠ ']' := by
  cases h with
  | number h =>
    obtain ⟨c, u, rfl, hc⟩ := h.exists_cons
    refine ⟨c, u, rfl, not_isGap_of_isDigit hc, ?_⟩
    rintro rfl
    exact absurd hc (by decide)
  | _ => exact ⟨_, _, rfl, by decide, by decide⟩

theorem Writes.exists_quote {f : Text × Json} {t : Text} (h : Writes (.field f) t) : ∃ u, t = '"' :: u := by
  cases h
  exact ⟨_, rfl⟩

/-- No number goes on in what follows an item or a field. -/
theorem Writes.endsNumber {p : Phrase} {t : Text} (h : Writes p t) (hp : p.isRest = true) (rest : Text) :
    EndsNumber (t ++ rest) := by
  cases h with
  | noItems hgap | items hgap | noFields hgap | fields hgap =>
    simp only [List.append_assoc, List.cons_append]
    exact endsNumber_append hgap (by rintro _ ⟨⟩; decide) _
  | _ => cases hp

/-- What reading a spelling means. A number must end where its spelling ends; and before a bracket or a comma the white
space has been passed over with what was read before. -/
def IsRead : Phrase → Text → Prop
  | .value x, t => ∀ fuel rest, t.length ≤ fuel → EndsNumber rest → readValue? (fuel + 1) (t ++ rest) = some (x, rest)
  | .items xs, t => ∀ fuel rest, t.length ≤ fuel → readItems? (fuel + 1) (skipBlanks (t ++ rest)) = some (xs, rest)
  | .field f, t => ∀ fuel rest, t.length ≤ fuel → EndsNumber rest → readField? (fuel + 1) (t ++ rest) = some (f, rest)
  | .fields fs, t => ∀ fuel rest, t.length ≤ fuel → readFields? (fuel + 1) (skipBlanks (t ++ rest)) = some (fs, rest)

/-- Every spelling is read. -/
theorem Writes.isRead {p : Phrase} {t : Text} (h : Writes p t) : IsRead p t := by
  -- The spellings of the parts are shorter than that of the whole, so that the fuel that is left suffices for them.
  induction h with
  | null | yes | no =>
    intro fuel rest _ _
    rw [readValue?]
    rfl
  | number h =>
    intro fuel rest _ hrest
    obtain ⟨c, u, rfl, hc⟩ := h.exists_cons
    rw [List.cons_append, readValue?_of_isDigit fuel hc, ← List.cons_append, h.readNat?_eq hrest]
    rfl
  | negative h =>
    intro fuel rest _ hrest
    rw [List.cons_append, readValue?, skipBlanks_cons (by decide)]
    simp [h.readNat?_eq hrest]
  | text h =>
    intro fuel rest _ _
    rw [List.cons_append, readValue?, skipBlanks_cons (by decide)]
    simp [h.readText?_eq]
  | emptyArray hgap =>
    intro fuel rest _ _
    rw [List.cons_append, List.cons_append, readValue?, skipBlanks_cons (by decide)]
    simp [skipBlanks_append hgap, skipBlanks_cons (c := ']') (by decide)]
  | @array x xs gap t u hgap hx hxs ihx ihxs =>
    intro fuel rest hfuel _
    simp only [List.length_cons, List.length_append, List.cons_append, List.append_assoc] at hfuel ⊢
    obtain ⟨fuel, rfl⟩ : ∃ k, fuel = k + 1 := ⟨fuel - 1, by omega⟩
    have hfirst : (skipBlanks (gap ++ (t ++ (u ++ rest)))).head? ≠ some ']' := by
      obtain ⟨c, v, rfl, hc, hne⟩ := hx.exists_cons
      rw [skipBlanks_append hgap, List.cons_append, skipBlanks_cons hc]
      simpa using hne
    rw [readValue?_array _ hfirst, readValue?_append _ hgap, ihx fuel _ (by omega) (hxs.endsNumber rfl rest)]
    simp [ihxs fuel rest (by omega)]
  | noItems hgap =>
    intro fuel rest _
    rw [List.append_assoc, skipBlanks_append hgap, List.cons_append, skipBlanks_cons (by decide), readItems?]
    rfl
  | @items x xs gap gap' t u hgap hgap' hx hxs ihx ihxs =>
    intro fuel rest hfuel
    simp only [List.length_cons, List.length_append, List.cons_append, List.append_assoc] at hfuel ⊢
    obtain ⟨fuel, rfl⟩ : ∃ k, fuel = k + 1 := ⟨fuel - 1, by omega⟩
    rw [skipBlanks_append hgap, skipBlanks_cons (by decide), readItems?, readValue?_append _ hgap',
      ihx fuel _ (by omega) (hxs.endsNumber rfl rest)]
    simp [ihxs fuel rest (by omega)]
  | emptyObject hgap =>
    intro fuel rest _ _
    rw [List.cons_append, List.cons_append, readValue?, skipBlanks_cons (by decide)]
    simp [skipBlanks_append hgap, skipBlanks_cons (c := '\x7d') (by decide)]
  | @object f fs gap t u hgap hf hfs ihf ihfs =>
    intro fuel rest hfuel _
    simp only [List.length_cons, List.length_append, List.cons_append, List.append_assoc] at hfuel ⊢
    obtain ⟨fuel, rfl⟩ : ∃ k, fuel = k + 1 := ⟨fuel - 1, by omega⟩
    obtain ⟨v, rfl⟩ := hf.exists_quote
    have hskip : skipBlanks (gap ++ ('"' :: v ++ (u ++ rest))) = '"' :: v ++ (u ++ rest) := by
      rw [skipBlanks_append hgap, List.cons_append, skipBlanks_cons (by decide)]
    rw [readValue?_object _ (by rw [hskip]; simp), hskip, ihf fuel _ (by omega) (hfs.endsNumber rfl rest)]
    simp [ihfs fuel rest (by omega)]
  | @field name x s gap gap' t hname hgap hgap' hx ihx =>
    intro fuel rest hfuel hrest
    simp only [List.length_cons, List.length_append, List.cons_append, List.append_assoc] at hfuel ⊢
    obtain ⟨fuel, rfl⟩ : ∃ k, fuel = k + 1 := ⟨fuel - 1, by omega⟩
    rw [readField?, skipBlanks_cons (by decide)]
    simp [hname.readText?_eq, skipBlanks_append hgap, skipBlanks_cons (c := ':') (by decide), readValue?_append _ hgap',
      ihx fuel rest (by omega) hrest]
  | noFields hgap =>
    intro fuel rest _
    rw [List.append_assoc, skipBlanks_append hgap, List.cons_append, skipBlanks_cons (by decide), readFields?]
    rfl
  | @fields f fs gap gap' t u hgap hgap' hf hfs ihf ihfs =>
    intro fuel rest hfuel
    simp only [List.length_cons, List.length_append, List.cons_append, List.append_assoc] at hfuel ⊢
    obtain ⟨fuel, rfl⟩ : ∃ k, fuel = k + 1 := ⟨fuel - 1, by omega⟩
    rw [skipBlanks_append hgap, skipBlanks_cons (by decide), readFields?, readField?_append _ hgap',
      ihf fuel _ (by omega) (hfs.endsNumber rfl rest)]
    simp [ihfs fuel rest (by omega)]

/-! ### Reading documents -/

namespace IsDocument

variable {x y : Json} {t : Text}

/-- The value of a JSON text is read from it. -/
theorem read?_eq (h : IsDocument x t) : read? t = some x := by
  obtain ⟨before, u, after, hbefore, hafter, hu, rfl⟩ := h
  have hread := hu.isRead (2 * (before ++ u ++ after).length + 1) after (by simp; omega) (endsNumber_of_isGap hafter)
  have hend : skipBlanks after = [] := List.append_nil after ▸ skipBlanks_append hafter
  rw [read?, List.append_assoc, readValue?_append _ hbefore, ← List.append_assoc, hread]
  simp [hend]

/-- A text is the JSON text of one value at most. -/
theorem unique (h : IsDocument x t) (h' : IsDocument y t) : x = y :=
  Option.some.inj (h.read?_eq.symm.trans h'.read?_eq)

end IsDocument
end CodeSnippets.Json
