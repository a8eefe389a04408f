import CodeSnippets.Text.Basic

/-!
# Blank characters

The characters that count as white space, texts made only of them, and what is left of a text when
they are taken off its ends. Zero-width characters (U+200B, U+FEFF) are not blank.
-/

namespace CodeSnippets.Text

/-- White space: the ASCII controls from tab to carriage return and from U+001C to U+001F, the space,
U+0085, U+00A0 and the separators of Unicode. -/
def isBlankChar (c : Char) : Bool :=
  let n := c.toNat
  (9 ≤ n && n ≤ 13) || (28 ≤ n && n ≤ 32) || n == 0x85 || n == 0xA0 || n == 0x1680 ||
    (0x2000 ≤ n && n ≤ 0x200A) || n == 0x2028 || n == 0x2029 || n == 0x202F || n == 0x205F || n == 0x3000

/-- A text is blank if it is empty or holds nothing but white space. -/
def isBlank (t : Text) : Bool := t.all isBlankChar

/-- The text without the white space at its start. -/
def trimStart (t : Text) : Text := t.dropWhile isBlankChar

/-- The text without the white space at its end. -/
def trimEnd (t : Text) : Text := (t.reverse.dropWhile isBlankChar).reverse

/-- The text without the white space at both ends. -/
def trim (t : Text) : Text := trimEnd (trimStart t)

/-- Number of spaces, and of no other character, at the start of a text. -/
def leadingSpaces (t : Text) : Nat := (t.takeWhile (· == ' ')).length

/-- Number of white-space characters at the start of a text. -/
def leadingBlanks (t : Text) : Nat := (t.takeWhile isBlankChar).length

@[simp] theorem isBlank_nil : isBlank [] = true := rfl

@[simp] theorem isBlank_cons (c : Char) (t : Text) : isBlank (c :: t) = (isBlankChar c && isBlank t) := rfl

@[simp] theorem isBlank_append (s t : Text) : isBlank (s ++ t) = (isBlank s && isBlank t) := by
  simp [isBlank]

@[simp] theorem leadingSpaces_nil : leadingSpaces [] = 0 := rfl

theorem leadingSpaces_cons (c : Char) (t : Text) :
    leadingSpaces (c :: t) = if c = ' ' then leadingSpaces t + 1 else 0 := by
  by_cases h : c = ' ' <;> simp [leadingSpaces, h]

/-- A text is blank exactly when nothing of it is left once its leading white space is gone. -/
theorem trimStart_eq_nil_iff {t : Text} : trimStart t = [] ↔ isBlank t = true := by
  induction t with
  | nil => simp [trimStart]
  | cons c t ih =>
    cases h : isBlankChar c
    · simp [trimStart, List.dropWhile, h]
    · simpa [trimStart, List.dropWhile, h] using ih

/-- White space before a text that does not start with white space is all that is taken off its start. -/
theorem trimStart_append {w t : Text} (hw : isBlank w = true) (ht : ∀ c ∈ t.head?, isBlankChar c = false) :
    trimStart (w ++ t) = t := by
  rw [trimStart, List.dropWhile_append_of_pos (List.all_eq_true.1 hw)]
  cases t with
  | nil => rfl
  | cons c t => rw [List.dropWhile_cons_of_neg (by simp [ht c rfl])]

/-- White space after a text that does not end with white space is all that is taken off its end. -/
theorem trimEnd_append {w t : Text} (hw : isBlank w = true) (ht : ∀ c ∈ t.getLast?, isBlankChar c = false) :
    trimEnd (t ++ w) = t := by
  have hreverse : trimStart (w.reverse ++ t.reverse) = t.reverse :=
    trimStart_append (by simpa [isBlank] using hw) (by simpa using ht)
  rw [trimEnd, List.reverse_append]
  rw [trimStart] at hreverse
  rw [hreverse, List.reverse_reverse]

/-- White space at the end of a text is behind its first solid character. -/
theorem trimEnd_cons {c : Char} (hc : isBlankChar c = false) (t : Text) : trimEnd (c :: t) = c :: trimEnd t := by
  rw [trimEnd, trimEnd, List.reverse_cons, List.dropWhile_append]
  split
  · rename_i hblank
    rw [List.isEmpty_iff.1 hblank]
    simp [hc]
  · simp

/-- White space around a text that neither starts nor ends with white space is what is taken off. -/
theorem trim_append_append {w t v : Text} (hw : isBlank w = true) (hv : isBlank v = true) (hne : t ≠ [])
    (hfirst : ∀ c ∈ t.head?, isBlankChar c = false) (hlast : ∀ c ∈ t.getLast?, isBlankChar c = false) :
    trim (w ++ t ++ v) = t := by
  have hhead : ∀ c ∈ (t ++ v).head?, isBlankChar c = false := by
    obtain ⟨c, t, rfl⟩ := List.exists_cons_of_ne_nil hne
    exact hfirst
  rw [trim, List.append_assoc, trimStart_append hw hhead, trimEnd_append hv hlast]

end CodeSnippets.Text
