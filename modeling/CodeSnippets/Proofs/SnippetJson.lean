import Mathlib.Algebra.Group.Int.Defs
import Mathlib.Algebra.Group.Nat.Defs
import CodeSnippets.Proofs.JsonRendering
import CodeSnippets.Proofs.NameOrder
import CodeSnippets.Proofs.SliceSpans
import CodeSnippets.Snippet.Index

/-!
# Snippets in JSON

The JSON text of a snippet says all there is to the snippet: its explanation, its code and the spans of its slices, in the
order of their names. The text is the same in whatever order the slices were given.

* `Decodes`: what a text says.
* `isLong_iff`: which integers are too long to be written.
* `writeJson_eq`: the text for an indentation, or why there is none.
* `Snippet.json_eq`: a snippet in terms of the list of its slices.
* `Snippet.any_isLong_fieldIntegers`: the integers that are written of a snippet are the positions of its slices.
* `Snippet.writeJson_decodes`: nothing of a snippet is lost.
* `Snippet.not_forall_writeJson`: the bounds of the indentation and of the positions that it depends on.
* `exists_hasLongPosition_of_indexOf`: which integers of an index may be too long.
-/

namespace CodeSnippets

open Text

namespace Json

/-- A text is a JSON text of a value and of no other, and is read as this value. -/
structure Decodes (t : Text) (x : Json) : Prop where
  isDocument : IsDocument x t
  unique : ∀ y, IsDocument y t → y = x
  read?_eq : read? t = some x

theorem IsDocument.decodes {x : Json} {t : Text} (h : IsDocument x t) : Decodes t x :=
  ⟨h, fun _ h' => h'.unique h, h.read?_eq⟩

theorem decodes_documentText (layout : Layout) (x : Json) : Decodes (documentText layout x) x :=
  (isDocument_render x (by decide)).decodes

/-! ### Integers in a value -/

/-- The integers that are too long to be written are those from a power of ten on. -/
theorem isLong_iff {n : ℤ} : isLong n = true ↔ 10 ^ maxDigits ≤ n.natAbs := by
  have hlength := Nat.length_toDigits_le_iff (b := 10) (n := n.natAbs) (k := maxDigits) (by decide) (by decide)
  rw [isLong, decide_eq_true_iff, ofNat, ← Nat.not_le, hlength, Nat.not_lt]

theorem itemIntegers_eq (xs : List Json) : itemIntegers xs = xs.flatMap integers := by
  induction xs with
  | nil => rfl
  | cons x xs ih => rw [itemIntegers, ih, List.flatMap_cons]

theorem fieldIntegers_eq (fields : List (Text × Json)) : fieldIntegers fields = fields.flatMap fun f => integers f.2 := by
  induction fields with
  | nil => rfl
  | cons f fields ih => rw [fieldIntegers, ih, List.flatMap_cons]

@[simp] theorem integers_ofTexts (ts : List Text) : (ofTexts ts).integers = [] := by
  rw [ofTexts, integers, itemIntegers_eq, List.flatMap_map]
  exact List.flatMap_eq_nil_iff.2 fun _ _ => rfl

end Json

/-! ### Texts of values -/

theorem writeJson_eq_ok_iff {indent : ℤ} {x : Json} {text : Text} : writeJson indent x = .ok text ↔
    jsonDocument indent x = .ok text ∧ x.integers.any Json.isLong = false := by
  rw [writeJson]
  cases jsonDocument indent x <;> cases x.integers.any Json.isLong <;>
    simp [bind, Except.bind, Except.mapError, pure, Except.pure]

theorem writeJson_eq_error {indent : ℤ} {x : Json} {e : Json.WriteError} (h : writeJson indent x = .error e) :
    (∃ e', Json.Layout.ofIndent indent = .error e' ∧ e = .width e') ∨
      x.integers.any Json.isLong = true ∧ e = .longInteger := by
  rw [writeJson, jsonDocument] at h
  cases hlayout : Json.Layout.ofIndent indent with
  | error e' =>
    rw [hlayout] at h
    exact .inl ⟨e', rfl, (Except.error.inj h).symm⟩
  | ok layout =>
    rw [hlayout] at h
    cases hlong : x.integers.any Json.isLong with
    | false => simp [hlong, bind, Except.bind, Except.mapError, pure, Except.pure] at h
    | true => exact .inr ⟨rfl, by simpa [hlong, bind, Except.bind, Except.mapError, pure, Except.pure, eq_comm] using h⟩

/-- The text for an indentation, or why there is none. -/
theorem writeJson_eq {indent : ℤ} (h : 0 ≤ indent) (x : Json) :
    writeJson indent x =
      if Json.widthBound ≤ indent then .error (.width .tooLarge)
      else if Json.room ≤ indent then .error (.width .outOfMemory)
      else if x.integers.any Json.isLong then .error .longInteger
      else .ok (documentText (if indent = 0 then .compact else .indented indent.toNat) x) := by
  have hroom : 0 < Json.room ∧ Json.room < Json.widthBound := by decide
  have hbound : ¬indent < -Json.widthBound := by omega
  rw [writeJson, jsonDocument, Json.Layout.ofIndent]
  split_ifs <;> first | rfl | omega

namespace Snippet

/-- What is said of a snippet whose slices are listed in some order. -/
def jsonOf (explanation code : List Text) (entries : Named Span) : Json :=
  .object [("explanation".toList, .array (explanation.map .text)), ("code".toList, .array (code.map .text)),
    ("slices".toList, .object (entries.map fun e => (e.1, .array [.number e.2.start, .number e.2.stop])))]

theorem json_eq (s : Snippet) : s.json = jsonOf s.explanation s.code s.slices.sorted := rfl

/-- The slices may be given in any order. -/
theorem json_congr {s t : Snippet} (hnames : s.slices.names.Nodup) (hexplanation : t.explanation = s.explanation)
    (hcode : t.code = s.code) (hperm : t.slices.Perm s.slices) : t.json = s.json := by
  have hnames' : t.slices.names.Nodup := ((hperm.map _).nodup_iff).2 hnames
  have hlisted := (Named.isListing_sorted hnames).unique (Named.isListing_sorted hnames') hperm
  rw [json_eq, json_eq, hexplanation, hcode, hlisted]

/-- A position of a slice has more digits than are written. -/
def HasLongPosition (s : Snippet) : Prop :=
  ∃ e ∈ s.slices, Json.isLong e.2.start = true ∨ Json.isLong e.2.stop = true

instance (s : Snippet) : Decidable s.HasLongPosition :=
  inferInstanceAs (Decidable (∃ e ∈ s.slices, Json.isLong e.2.start = true ∨ Json.isLong e.2.stop = true))

theorem any_isLong_fieldIntegers (s : Snippet) :
    (Json.fieldIntegers s.fields).any Json.isLong = true ↔ s.HasLongPosition := by
  have hslices : (slicesJson s.slices).integers = s.slices.sorted.flatMap fun e => [e.2.start, e.2.stop] := by
    rw [slicesJson, Json.integers, Json.fieldIntegers_eq, List.flatMap_map]
    rfl
  simp [fields, Json.fieldIntegers, hslices, HasLongPosition, Named.mem_sorted]

/-- A position with too many digits is in a source text with as many lines. -/
theorem HasLongPosition.le_length_lines {source : Text} (h : (extract source).HasLongPosition) :
    10 ^ maxDigits ≤ (lines source).length := by
  obtain ⟨e, he, hlong⟩ := h
  obtain ⟨hstart, hle, hstop, -⟩ := bounds_of_mem_slices he
  have hcode := length_code_extract_le source
  rcases hlong with hlong | hlong
  · exact (Json.isLong_iff.1 hlong).trans (by omega)
  · exact (Json.isLong_iff.1 hlong).trans (by omega)

/-- The JSON text of a snippet decodes to its explanation, its code and the spans of its slices, listed in the order of
their names. There is one for every indentation for which there is room, if the positions of the slices can be written;
the compact one is a single line. In whatever order the slices are given, the text is the same. -/
theorem writeJson_decodes (s : Snippet) (hnames : s.slices.names.Nodup) :
    ∃ entries, Named.IsListing entries s.slices ∧
      (∀ indent, 0 ≤ indent →
        (indent < Json.room → ¬ s.HasLongPosition → ∃ text, writeJson indent s.json = .ok text ∧
          Json.Decodes text (jsonOf s.explanation s.code entries) ∧
          (indent = 0 → ∃ line, text = line ++ ['\n'] ∧ '\n' ∉ line)) ∧
        (indent < Json.room → s.HasLongPosition → writeJson indent s.json = .error .longInteger) ∧
        (Json.room ≤ indent → indent < Json.widthBound → writeJson indent s.json = .error (.width .outOfMemory)) ∧
        (Json.widthBound ≤ indent → writeJson indent s.json = .error (.width .tooLarge))) ∧
      ∀ t : Snippet, t.explanation = s.explanation → t.code = s.code → t.slices.Perm s.slices →
        ∀ indent, writeJson indent t.json = writeJson indent s.json := by
  refine ⟨s.slices.sorted, Named.isListing_sorted hnames, fun indent hindent => ?_,
    fun t hexplanation hcode hperm indent => ?_⟩
  · have hroom : Json.room < Json.widthBound := by decide
    have hlong : s.json.integers.any Json.isLong = true ↔ s.HasLongPosition := any_isLong_fieldIntegers s
    -- The width is found too large before an integer is found too long.
    rw [writeJson_eq hindent, ← json_eq]
    refine ⟨fun hlt hshort => ?_, fun hlt hposition => ?_, fun hge hlt => ?_, fun hge => ?_⟩
    · rw [if_neg (by omega), if_neg (by omega), if_neg (mt hlong.1 hshort)]
      refine ⟨_, rfl, Json.decodes_documentText _ _, fun hzero => ?_⟩
      rw [if_pos hzero]
      exact ⟨_, rfl, Json.newline_notMem_render s.json⟩
    · rw [if_neg (by omega), if_neg (by omega), if_pos (hlong.2 hposition)]
    · rw [if_neg (by omega), if_pos hge]
    · rw [if_pos hge]
  · rw [json_congr hnames hexplanation hcode hperm]

/-- A snippet with quotes, control characters and characters beyond the first plane. -/
def unusual : Snippet where
  explanation := ["say \"\\\"".toList]
  code := ["\t\x00\u2028🦉".toList, []]
  slices := [("b".toList, ⟨-1, 70⟩), ("a".toList, ⟨0, 0⟩)]

theorem unusual_writeJson_decodes :
    unusual.slices.names.Nodup ∧ ∃ text, writeJson 2 unusual.json = .ok text ∧
      Json.read? text = some (jsonOf unusual.explanation unusual.code [("a".toList, ⟨0, 0⟩), ("b".toList, ⟨-1, 70⟩)]) ∧
      writeJson 2 (Snippet.json { unusual with slices := unusual.slices.reverse }) = .ok text := by
  have hnames : unusual.slices.names.Nodup := by decide
  have hlisting : Named.IsListing [("a".toList, ⟨0, 0⟩), ("b".toList, ⟨-1, 70⟩)] unusual.slices :=
    ⟨.swap _ _ _, List.pairwise_pair.2 (.rel (by decide))⟩
  obtain ⟨entries, hentries, htext, horder⟩ := writeJson_decodes unusual hnames
  obtain rfl := hentries.unique hlisting (.refl _)
  obtain ⟨text, heq, hdecodes, -⟩ := (htext 2 (by decide)).1 (by decide) (by decide)
  refine ⟨hnames, text, heq, hdecodes.read?_eq, ?_⟩
  exact (horder { unusual with slices := unusual.slices.reverse } rfl rfl (List.reverse_perm _) 2).trans heq

/-- An indentation of so many spaces that their number is none of 64 bits leaves no text to decode, and neither does a
position with too many digits. -/
theorem not_forall_writeJson :
    (¬ ∀ (s : Snippet) (indent : ℤ), s.slices.names.Nodup → 0 ≤ indent → ¬ s.HasLongPosition →
      ∃ text entries, writeJson indent s.json = .ok text ∧ Named.IsListing entries s.slices ∧
        Json.Decodes text (jsonOf s.explanation s.code entries)) ∧
    ¬ ∀ s : Snippet, s.slices.names.Nodup → ∃ text entries, writeJson 0 s.json = .ok text ∧
      Named.IsListing entries s.slices ∧ Json.Decodes text (jsonOf s.explanation s.code entries) := by
  constructor
  · intro h
    obtain ⟨text, -, htext, -⟩ :=
      h (extract "// e\nlet x = 1\n".toList) 0x8000000000000000 (by decide) (by decide) (by decide)
    have hresult : writeJson 0x8000000000000000 (extract "// e\nlet x = 1\n".toList).json = .error (.width .tooLarge) :=
      rfl
    rw [hresult] at htext
    cases htext
  · intro h
    obtain ⟨text, -, htext, -⟩ := h { slices := [("a".toList, ⟨0, 10 ^ maxDigits⟩)] } (by decide)
    -- The integer is compared with a power of ten; its digits are never listed.
    have hpow (k : ℕ) : 10 ^ k ≤ ((10 : ℤ) ^ k).natAbs := by simp [Int.natAbs_pow]
    have hlong : Json.isLong (10 ^ maxDigits) = true := Json.isLong_iff.2 (hpow maxDigits)
    have hshort := (writeJson_eq_ok_iff.1 htext).2
    rw [Bool.eq_false_iff, ne_eq] at hshort
    exact hshort ((any_isLong_fieldIntegers _).2 ⟨_, List.mem_cons_self, .inr hlong⟩)

end Snippet

/-- The integers that are written of a source are those of its snippet. -/
theorem SourceSnippet.integers_jsonAt (x : SourceSnippet) (path : Path) :
    (x.jsonAt path).integers = Json.fieldIntegers x.snippet.fields := by
  rw [jsonAt, Json.integers]
  cases x.group <;> rfl

/-- An integer that is too long to be written in an index is a position in one of its snippets. -/
theorem exists_hasLongPosition_of_indexOf {directory : Path} {snippets : List SourceSnippet}
    (h : (indexOf directory snippets).integers.any Json.isLong = true) : ∃ x ∈ snippets, x.snippet.HasLongPosition := by
  simp only [indexOf, Json.integers, Json.fieldIntegers, Json.itemIntegers_eq, List.append_nil, List.flatMap_map,
    SourceSnippet.integers_jsonAt, List.any_flatMap] at h
  obtain ⟨x, hx, hlong⟩ := List.any_eq_true.1 h
  exact ⟨x, hx, x.snippet.any_isLong_fieldIntegers.1 hlong⟩

end CodeSnippets
