import CodeSnippets.Text.Utf8
import Mathlib.Data.List.Basic
import Mathlib.Logic.Basic
import Mathlib.Tactic.SplitIfs

/-!
# Strict UTF-8

The bytes of a text are decoded to it, and no other bytes are decoded at all: there is one way only to write a text.

* `decodeFrom_encodeChar`: the bytes of a character are decoded in one step.
* `encodeChar_one` to `encodeChar_four`: whatever bytes are decoded in one step are those of the character.
* `decode_eq_ok_iff`: decoding undoes encoding, on the bytes of texts and nowhere else.
-/

namespace CodeSnippets.Text.Utf8

/-! ### Bytes as numbers -/

section Bytes

variable {a b : UInt8}

theorem isContinuation_iff : isContinuation b = true ↔ 0x80 ≤ b.toNat ∧ b.toNat ≤ 0xBF := by
  simp [isContinuation, UInt8.le_iff_toNat_le]

theorem isSecondOfThree_iff : isSecondOfThree a b = true ↔
    0x80 ≤ b.toNat ∧ b.toNat ≤ 0xBF ∧ (a.toNat ≠ 0xE0 ∨ 0xA0 ≤ b.toNat) ∧ (a.toNat ≠ 0xED ∨ b.toNat < 0xA0) := by
  simp [isSecondOfThree, isContinuation_iff, UInt8.le_iff_toNat_le, UInt8.lt_iff_toNat_lt, ← UInt8.toNat_inj, and_assoc]

theorem isSecondOfFour_iff : isSecondOfFour a b = true ↔
    0x80 ≤ b.toNat ∧ b.toNat ≤ 0xBF ∧ (a.toNat ≠ 0xF0 ∨ 0x90 ≤ b.toNat) ∧ (a.toNat ≠ 0xF4 ∨ b.toNat < 0x90) := by
  simp [isSecondOfFour, isContinuation_iff, UInt8.le_iff_toNat_le, UInt8.lt_iff_toNat_lt, ← UInt8.toNat_inj, and_assoc]

theorem toNat_ofNat_of_lt {n : ℕ} (h : n < 0x100) : (UInt8.ofNat n).toNat = n :=
  (UInt8.toNat_ofNat' ..).trans (Nat.mod_eq_of_lt h)

theorem ofNat_eq_iff {n : ℕ} (h : n < 0x100) : UInt8.ofNat n = b ↔ n = b.toNat := by
  rw [← UInt8.toNat_inj, toNat_ofNat_of_lt h]

end Bytes

/-! ### Characters -/

/-- A number of a character is no surrogate, and not past U+10FFFF. -/
theorem toNat_ofNat_of_isValid {n : ℕ} (h : n < 0xD800 ∨ 0xDFFF < n ∧ n < 0x110000) : (Char.ofNat n).toNat = n := by
  rw [Char.ofNat, dif_pos h]
  rfl

section Encode

variable {a b c d : UInt8}

theorem encodeChar_one (ha : a < 0x80) : encodeChar (Char.ofNat a.toNat) = [a] := by
  have ha : a.toNat < 0x80 := UInt8.lt_iff_toNat_lt.1 ha
  rw [encodeChar, toNat_ofNat_of_isValid (by omega)]
  simp [ha]

theorem encodeChar_two (ha : ¬a < 0xC2) (ha' : a < 0xE0) (hb : isContinuation b = true) :
    encodeChar (Char.ofNat (a.toNat % 32 * 64 + low b)) = [a, b] := by
  rw [UInt8.lt_iff_toNat_lt] at ha ha'
  rw [isContinuation_iff] at hb
  simp only [low, UInt8.reduceToNat] at *
  rw [encodeChar, toNat_ofNat_of_isValid (by omega)]
  rw [if_neg (by omega), if_pos (by omega)]
  simp only [List.cons.injEq, and_true]
  exact ⟨(ofNat_eq_iff (by omega)).2 (by omega), (ofNat_eq_iff (by omega)).2 (by omega)⟩

theorem encodeChar_three (ha : ¬a < 0xE0) (ha' : a < 0xF0) (hb : isSecondOfThree a b = true)
    (hc : isContinuation c = true) :
    encodeChar (Char.ofNat (a.toNat % 16 * 4096 + low b * 64 + low c)) = [a, b, c] := by
  rw [UInt8.lt_iff_toNat_lt] at ha ha'
  rw [isSecondOfThree_iff] at hb
  rw [isContinuation_iff] at hc
  simp only [low, UInt8.reduceToNat] at *
  rw [encodeChar, toNat_ofNat_of_isValid (by omega)]
  rw [if_neg (by omega), if_neg (by omega), if_pos (by omega)]
  simp only [List.cons.injEq, and_true]
  exact ⟨(ofNat_eq_iff (by omega)).2 (by omega), (ofNat_eq_iff (by omega)).2 (by omega),
    (ofNat_eq_iff (by omega)).2 (by omega)⟩

theorem encodeChar_four (ha : ¬a < 0xF0) (ha' : a < 0xF5) (hb : isSecondOfFour a b = true)
    (hc : isContinuation c = true) (hd : isContinuation d = true) :
    encodeChar (Char.ofNat (a.toNat % 8 * 262144 + low b * 4096 + low c * 64 + low d)) = [a, b, c, d] := by
  rw [UInt8.lt_iff_toNat_lt] at ha ha'
  rw [isSecondOfFour_iff] at hb
  rw [isContinuation_iff] at hc hd
  simp only [low, UInt8.reduceToNat] at *
  rw [encodeChar, toNat_ofNat_of_isValid (by omega)]
  rw [if_neg (by omega), if_neg (by omega), if_neg (by omega)]
  simp only [List.cons.injEq, and_true]
  exact ⟨(ofNat_eq_iff (by omega)).2 (by omega), (ofNat_eq_iff (by omega)).2 (by omega),
    (ofNat_eq_iff (by omega)).2 (by omega), (ofNat_eq_iff (by omega)).2 (by omega)⟩

end Encode

/-! ### Decoding one character -/

section Decode

variable {a b c d : UInt8} (position : ℕ) (rest : List UInt8)

theorem decodeFrom_one (ha : a.toNat < 0x80) :
    decodeFrom position (a :: rest) = (decodeFrom (position + 1) rest).map (Char.ofNat a.toNat :: ·) := by
  rw [decodeFrom.eq_def]
  simp only [UInt8.lt_iff_toNat_lt, UInt8.reduceToNat]
  rw [if_pos ha]
  rfl

theorem decodeFrom_two (ha : 0xC2 ≤ a.toNat ∧ a.toNat < 0xE0) (hb : isContinuation b = true) :
    decodeFrom position (a :: b :: rest) =
      (decodeFrom (position + 2) rest).map (Char.ofNat (a.toNat % 32 * 64 + low b) :: ·) := by
  rw [decodeFrom.eq_def]
  simp only [UInt8.lt_iff_toNat_lt, UInt8.reduceToNat]
  rw [if_neg (by omega), if_neg (by omega), if_pos (by omega), if_pos hb]
  rfl

theorem decodeFrom_three (ha : 0xE0 ≤ a.toNat ∧ a.toNat < 0xF0) (hb : isSecondOfThree a b = true)
    (hc : isContinuation c = true) :
    decodeFrom position (a :: b :: c :: rest) =
      (decodeFrom (position + 3) rest).map (Char.ofNat (a.toNat % 16 * 4096 + low b * 64 + low c) :: ·) := by
  rw [decodeFrom.eq_def]
  simp only [UInt8.lt_iff_toNat_lt, UInt8.reduceToNat]
  rw [if_neg (by omega), if_neg (by omega), if_neg (by omega), if_pos (by omega), if_pos hb, if_pos hc]
  rfl

theorem decodeFrom_four (ha : 0xF0 ≤ a.toNat ∧ a.toNat < 0xF5) (hb : isSecondOfFour a b = true)
    (hc : isContinuation c = true) (hd : isContinuation d = true) :
    decodeFrom position (a :: b :: c :: d :: rest) =
      (decodeFrom (position + 4) rest).map
        (Char.ofNat (a.toNat % 8 * 262144 + low b * 4096 + low c * 64 + low d) :: ·) := by
  rw [decodeFrom.eq_def]
  simp only [UInt8.lt_iff_toNat_lt, UInt8.reduceToNat]
  rw [if_neg (by omega), if_neg (by omega), if_neg (by omega), if_neg (by omega), if_pos (by omega), if_pos hb,
    if_pos hc, if_pos hd]
  rfl

/-- The bytes of a character are decoded in one step. -/
theorem decodeFrom_encodeChar (c : Char) :
    decodeFrom position (encodeChar c ++ rest) =
      (decodeFrom (position + (encodeChar c).length) rest).map (c :: ·) := by
  have hvalid : c.toNat < 0xD800 ∨ 0xDFFF < c.toNat ∧ c.toNat < 0x110000 := c.valid
  have hc {n : ℕ} (h : n = c.toNat) : Char.ofNat n = c := by rw [h, c.ofNat_toNat]
  rw [encodeChar]
  -- One case for each number of bytes. In each, the digits of the code point in base 64 give it back.
  split_ifs with hone htwo hthree
  · have ha := toNat_ofNat_of_lt (n := c.toNat) (by omega)
    have hstep := decodeFrom_one position rest (a := .ofNat c.toNat) (by omega)
    rwa [hc ha] at hstep
  · have ha := toNat_ofNat_of_lt (n := 0xC0 + c.toNat / 64) (by omega)
    have hb := toNat_ofNat_of_lt (n := 0x80 + c.toNat % 64) (by omega)
    have hstep := decodeFrom_two position rest (a := .ofNat (0xC0 + c.toNat / 64)) (b := .ofNat (0x80 + c.toNat % 64))
      (by omega) (isContinuation_iff.2 (by omega))
    rwa [hc (by simp only [low]; omega)] at hstep
  · have ha := toNat_ofNat_of_lt (n := 0xE0 + c.toNat / 4096) (by omega)
    have hb := toNat_ofNat_of_lt (n := 0x80 + c.toNat / 64 % 64) (by omega)
    have hd := toNat_ofNat_of_lt (n := 0x80 + c.toNat % 64) (by omega)
    have hstep := decodeFrom_three position rest (a := .ofNat (0xE0 + c.toNat / 4096))
      (b := .ofNat (0x80 + c.toNat / 64 % 64)) (c := .ofNat (0x80 + c.toNat % 64)) (by omega)
      (isSecondOfThree_iff.2 (by omega)) (isContinuation_iff.2 (by omega))
    rwa [hc (by simp only [low]; omega)] at hstep
  · have ha := toNat_ofNat_of_lt (n := 0xF0 + c.toNat / 262144) (by omega)
    have hb := toNat_ofNat_of_lt (n := 0x80 + c.toNat / 4096 % 64) (by omega)
    have hd := toNat_ofNat_of_lt (n := 0x80 + c.toNat / 64 % 64) (by omega)
    have he := toNat_ofNat_of_lt (n := 0x80 + c.toNat % 64) (by omega)
    have hstep := decodeFrom_four position rest (a := .ofNat (0xF0 + c.toNat / 262144))
      (b := .ofNat (0x80 + c.toNat / 4096 % 64)) (c := .ofNat (0x80 + c.toNat / 64 % 64))
      (d := .ofNat (0x80 + c.toNat % 64)) (by omega) (isSecondOfFour_iff.2 (by omega)) (isContinuation_iff.2 (by omega))
      (isContinuation_iff.2 (by omega))
    rwa [hc (by simp only [low]; omega)] at hstep

end Decode

/-! ### Decoding texts -/

theorem decodeFrom_encode (position : ℕ) (t : Text) : decodeFrom position (encode t) = .ok t := by
  induction t generalizing position with
  | nil => rfl
  | cons c t ih =>
    rw [encode_cons, decodeFrom_encodeChar, ih]
    rfl

/-- A text that is decoded starts with the character that was decoded first. -/
theorem exists_of_decoded_cons {e : Except Fault Text} {c : Char} {t : Text}
    (h : (do return c :: (← e) : Except Fault Text) = .ok t) : ∃ u, e = .ok u ∧ c :: u = t := by
  cases e with
  | error e => cases h
  | ok u => exact ⟨u, rfl, Except.ok.inj h⟩

theorem eq_encode_of_decodeFrom {position : ℕ} {bytes : List UInt8} {t : Text}
    (h : decodeFrom position bytes = .ok t) : bytes = encode t := by
  -- The ways through a step that do not end in a fault are those for one, two, three and four bytes.
  fun_induction decodeFrom position bytes generalizing t
  case case1 =>
    obtain rfl := Except.ok.inj h
    rfl
  case case2 ha ih =>
    obtain ⟨u, hu, rfl⟩ := exists_of_decoded_cons h
    rw [encode_cons, encodeChar_one ha, ← ih hu]
    rfl
  case case5 ha ha' b rest hb ih =>
    obtain ⟨u, hu, rfl⟩ := exists_of_decoded_cons h
    rw [encode_cons, encodeChar_two ha ha' hb, ← ih hu]
    rfl
  case case9 ha ha' b hb c rest hc ih =>
    obtain ⟨u, hu, rfl⟩ := exists_of_decoded_cons h
    rw [encode_cons, encodeChar_three ha ha' hb hc, ← ih hu]
    rfl
  case case15 ha ha' b hb c hc d rest hd ih =>
    obtain ⟨u, hu, rfl⟩ := exists_of_decoded_cons h
    rw [encode_cons, encodeChar_four ha ha' hb hc hd, ← ih hu]
    rfl
  all_goals cases h

/-- Bytes are decoded to a text exactly if they are the bytes of the text. -/
theorem decode_eq_ok_iff {bytes : List UInt8} {t : Text} : decode bytes = .ok t ↔ bytes = encode t := by
  constructor
  · exact eq_encode_of_decodeFrom
  · rintro rfl
    exact decodeFrom_encode 0 t

end CodeSnippets.Text.Utf8
