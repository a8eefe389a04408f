import CodeSnippets.Proofs.Margin
import CodeSnippets.Snippet.Span

/-!
# Trimming spans

The two loops of `Span.trimmed` look at lines one by one. On a span inside the lines they look at no
position outside the span, and they agree with `Margin.dropBlankEnds` on the lines of the span.

* `Shrinks`: what a span without the blank lines at its ends is, said without the loops.
* `exists_trimmedBy`: the loops find this span, however lines outside it are looked up.
* `Shrinks.dropBlankEnds_eq`: the lines of the span that is left.
* `Shrinks.trimmedBy_eq`: a span that is left loses nothing more.
* `trimmed_agrees`: the loops and `Margin.dropBlankEnds` leave the same lines.
-/

namespace CodeSnippets.Span

open Text Margin

/-! ### Lines between two positions -/

section Between

variable {ls : List Text} {a m b : ℕ}

theorem mem_drop_take {l : Text} : l ∈ (ls.take b).drop a ↔ ∃ i, a ≤ i ∧ i < b ∧ ls[i]? = some l := by
  rw [List.mem_iff_getElem?]
  constructor
  · rintro ⟨i, hi⟩
    rw [List.getElem?_drop, List.getElem?_take] at hi
    split at hi
    · exact ⟨a + i, Nat.le_add_right a i, ‹_›, hi⟩
    · cases hi
  · rintro ⟨i, hai, hib, hl⟩
    refine ⟨i - a, ?_⟩
    rw [List.getElem?_drop, Nat.add_sub_cancel' hai, List.getElem?_take, if_pos hib, hl]

/-- The lines between two positions are blank exactly when none of them is solid. -/
theorem forall_isBlank_drop_take :
    (∀ l ∈ (ls.take b).drop a, isBlank l = true) ↔ ∀ i, a ≤ i → i < b → ¬ SolidAt ls i := by
  constructor
  · rintro hblank i hai hib ⟨l, hl, hsolid⟩
    rw [hblank l (mem_drop_take.2 ⟨i, hai, hib, hl⟩)] at hsolid
    cases hsolid
  · intro hblank l hl
    obtain ⟨i, hai, hib, hl⟩ := mem_drop_take.1 hl
    exact isBlank_of_not_solidAt hl (hblank i hai hib)

/-- Where there is a line between two positions, the first one comes before the second. -/
theorem lt_of_mem_drop_take {l : Text} (h : l ∈ (ls.take b).drop a) : a < b := by
  obtain ⟨i, hai, hib, -⟩ := mem_drop_take.1 h
  exact Nat.lt_of_le_of_lt hai hib

theorem drop_take_append (ham : a ≤ m) (hmb : m ≤ b) (hb : b ≤ ls.length) :
    (ls.take m).drop a ++ (ls.take b).drop m = (ls.take b).drop a := by
  have hm : (ls.take b).take m = ls.take m := by rw [List.take_take, Nat.min_eq_left hmb]
  have hlen : a ≤ (ls.take m).length := by
    rw [List.length_take]
    omega
  rw [← hm] at hlen ⊢
  rw [← List.drop_append_of_le_length hlen, List.take_append_drop]

theorem head?_drop_take (hab : a < b) : ((ls.take b).drop a).head? = ls[a]? := by
  rw [List.head?_drop, List.getElem?_take, if_pos hab]

theorem getLast?_drop_take (hab : a < b) (hb : b ≤ ls.length) :
    ((ls.take b).drop a).getLast? = ls[b - 1]? := by
  have hlen : (ls.take b).length = b := List.length_take_of_le hb
  rw [List.getLast?_drop, if_neg (by omega), List.getLast?_eq_getElem?, hlen, List.getElem?_take,
    if_pos (by omega)]

/-- The lines of a span that ends inside the lines. -/
theorem cut_natCast (hb : b ≤ ls.length) : (Span.mk a b).cut ls = (ls.take b).drop a := by
  have hplace : ∀ n : ℕ, place ls.length n = min n ls.length := by
    intro n
    rw [place, if_neg (by omega), Int.toNat_natCast]
  show (ls.take (place ls.length b)).drop (place ls.length a) = _
  rw [hplace, hplace, Nat.min_eq_left hb]
  rcases Nat.le_total a ls.length with ha | ha
  · rw [Nat.min_eq_left ha]
  · rw [Nat.min_eq_right ha, List.drop_eq_nil_of_le, List.drop_eq_nil_of_le] <;>
      exact (List.length_take_le' _ _).trans (by omega)

end Between

/-! ### What is left of a span -/

/-- The positions from `lo` up to `hi` are what is left of those from `a` up to `b` when the blank lines
at both ends are left out. -/
structure Shrinks (ls : List Text) (a b lo hi : ℕ) : Prop where
  le_lo : a ≤ lo
  lo_le_hi : lo ≤ hi
  hi_le : hi ≤ b
  /-- No solid line is left out. -/
  covers : ∀ i, a ≤ i → i < b → SolidAt ls i → lo ≤ i ∧ i < hi
  /-- What is left begins with a solid line. -/
  first : lo < hi → SolidAt ls lo
  /-- What is left ends with a solid line. -/
  last : lo < hi → SolidAt ls (hi - 1)

namespace Shrinks

variable {ls : List Text} {a b lo hi : ℕ}

/-- Only the positions of the solid lines before the end of the span matter. -/
theorem congr {ks : List Text} (h : Shrinks ls a b lo hi) (hsolid : ∀ i, i < b → (SolidAt ks i ↔ SolidAt ls i)) :
    Shrinks ks a b lo hi := by
  have hhi := h.hi_le
  refine ⟨h.le_lo, h.lo_le_hi, hhi, fun i hai hib hs => ?_, fun hlt => ?_, fun hlt => ?_⟩
  · exact h.covers i hai hib ((hsolid i hib).1 hs)
  · exact (hsolid lo (by omega)).2 (h.first hlt)
  · exact (hsolid (hi - 1) (by omega)).2 (h.last hlt)

/-- What is left, if something is, is determined. -/
theorem unique {lo' hi' : ℕ} (h : Shrinks ls a b lo hi) (h' : Shrinks ls a b lo' hi') (hlt : lo < hi)
    (hlt' : lo' < hi') : lo = lo' ∧ hi = hi' := by
  have := h.le_lo
  have := h.hi_le
  have := h'.le_lo
  have := h'.hi_le
  have := h.covers lo' (by omega) (by omega) (h'.first hlt')
  have := h.covers (hi' - 1) (by omega) (by omega) (h'.last hlt')
  have := h'.covers lo (by omega) (by omega) (h.first hlt)
  have := h'.covers (hi - 1) (by omega) (by omega) (h.last hlt)
  -- Each of the two holds the first and the last line of the other.
  omega

/-- Nothing is left exactly when every line is blank. -/
theorem eq_iff (h : Shrinks ls a b lo hi) : lo = hi ↔ ∀ i, a ≤ i → i < b → ¬ SolidAt ls i := by
  constructor
  · intro heq i hai hib hs
    have := h.covers i hai hib hs
    omega
  · intro hblank
    by_contra hne
    have hlt : lo < hi := Nat.lt_of_le_of_ne h.lo_le_hi hne
    exact hblank lo h.le_lo (Nat.lt_of_lt_of_le hlt h.hi_le) (h.first hlt)

/-- The lines that are left are those without the blank ones at both ends. -/
theorem dropBlankEnds_eq (h : Shrinks ls a b lo hi) (hb : b ≤ ls.length) :
    dropBlankEnds ((ls.take b).drop a) = (ls.take hi).drop lo := by
  -- The lines fall into those before `lo`, those that are left, and those from `hi` on.
  have hsplit : (ls.take lo).drop a ++ (ls.take hi).drop lo ++ (ls.take b).drop hi = (ls.take b).drop a := by
    rw [drop_take_append h.le_lo h.lo_le_hi (h.hi_le.trans hb),
      drop_take_append (h.le_lo.trans h.lo_le_hi) h.hi_le hb]
  have hlo := h.le_lo
  have hhi := h.hi_le
  have hle := h.lo_le_hi
  rw [← hsplit]
  apply dropBlankEnds_append_append
  · refine forall_isBlank_drop_take.2 fun i hai hi hs => ?_
    have := h.covers i hai (by omega) hs
    omega
  · refine forall_isBlank_drop_take.2 fun i hi hib hs => ?_
    have := h.covers i (by omega) hib hs
    omega
  · intro l hl
    have hlt : lo < hi := lt_of_mem_drop_take (List.mem_of_mem_head? hl)
    rw [Option.mem_def, head?_drop_take hlt] at hl
    exact (h.first hlt).isBlank_eq hl
  · intro l hl
    have hlt : lo < hi := lt_of_mem_drop_take (List.mem_of_mem_getLast? hl)
    rw [Option.mem_def, getLast?_drop_take hlt (hhi.trans hb)] at hl
    exact (h.last hlt).isBlank_eq hl

/-- What is left begins and ends solid, so nothing can be left out of it. -/
theorem again (h : Shrinks ls a b lo hi) : Shrinks ls lo hi lo hi where
  le_lo := le_rfl
  lo_le_hi := h.lo_le_hi
  hi_le := le_rfl
  covers _ hi hlo _ := ⟨hi, hlo⟩
  first := h.first
  last := h.last

end Shrinks

/-! ### The loops -/

/-- `look` finds the lines from position `a` up to `b`. -/
def Finds (look : ℤ → Except PositionError Text) (ls : List Text) (a b : ℕ) : Prop :=
  ∀ i, a ≤ i → i < b → ∀ l, ls[i]? = some l → look i = .ok l

theorem Finds.mono {look : ℤ → Except PositionError Text} {ls : List Text} {a b c d : ℕ}
    (h : Finds look ls a b) (hc : a ≤ c) (hd : d ≤ b) : Finds look ls c d :=
  fun i hci hid => h i (hc.trans hci) (Nat.lt_of_lt_of_le hid hd)

/-- Looking up a position inside the lines finds the line there. -/
theorem finds_lineAt (ls : List Text) (a b : ℕ) : Finds (lineAt ls) ls a b := by
  intro i _ _ l hl
  have h : ¬ (i : ℤ) < 0 := by omega
  simp [lineAt, h, hl]

/-- The line at a position; positions before the first line and behind the last one are refused. -/
def lineInside (ls : List Text) (position : ℤ) : Except PositionError Text :=
  if 0 ≤ position ∧ position < ls.length then lineAt ls position else .error .noLine

theorem finds_lineInside (ls : List Text) (a b : ℕ) : Finds (lineInside ls) ls a b := by
  intro i hai hib l hl
  have hi : i < ls.length := (List.getElem?_eq_some_iff.1 hl).1
  rw [lineInside, if_pos (by omega)]
  exact finds_lineAt ls a b i hai hib l hl

/-- The first loop stops at the first solid line from `a`, having looked at no position before `a` or
after it. -/
theorem exists_firstSolid {ls : List Text} {n a : ℕ} (hn : a + n ≤ ls.length) :
    ∃ lo : ℕ, (∀ look, Finds look ls a (a + n) → firstSolid look n a = .ok (lo : ℤ)) ∧ a ≤ lo ∧
      lo ≤ a + n ∧ (∀ i, a ≤ i → i < lo → ¬ SolidAt ls i) ∧ (lo < a + n → SolidAt ls lo) := by
  induction n generalizing a with
  | zero => exact ⟨a, fun look _ => rfl, le_rfl, le_rfl, fun i _ _ => by omega, fun h => by omega⟩
  | succ n ih =>
    have hl : ls[a]? = some ls[a] := List.getElem?_eq_getElem (by omega)
    cases hb : isBlank ls[a] with
    | true =>
      -- The loop goes on from the next position, with one look-up less to come.
      obtain ⟨lo, hrun, hle, hlo, hblank, hsolid⟩ := ih (a := a + 1) (by omega)
      refine ⟨lo, fun look hf => ?_, by omega, by omega, fun i hai hilo => ?_, fun h => hsolid (by omega)⟩
      · rw [firstSolid, hf a le_rfl (by omega) _ hl]
        simp only [bind, Except.bind, hb, if_true]
        exact_mod_cast hrun look (hf.mono (by omega) (by omega))
      · rcases Nat.eq_or_lt_of_le hai with rfl | hai
        · exact not_solidAt_of_isBlank hl hb
        · exact hblank i hai hilo
    | false =>
      -- The loop stops here.
      refine ⟨a, fun look hf => ?_, le_rfl, by omega, fun i _ _ => by omega, fun _ => ⟨_, hl, hb⟩⟩
      rw [firstSolid, hf a le_rfl (by omega) _ hl]
      simp [bind, Except.bind, hb]

/-- The second loop stops behind the last solid line from `a`, having looked at no position before `a` or
after the last one. -/
theorem exists_lastSolid {ls : List Text} {n a : ℕ} (hn : a + n ≤ ls.length) :
    ∃ hi : ℕ, (∀ look, Finds look ls a (a + n) → lastSolid look n ((a + n : ℕ) : ℤ) = .ok (hi : ℤ)) ∧
      a ≤ hi ∧ hi ≤ a + n ∧ (∀ i, hi ≤ i → i < a + n → ¬ SolidAt ls i) ∧
      (a < hi → SolidAt ls (hi - 1)) := by
  induction n with
  | zero => exact ⟨a, fun look _ => rfl, le_rfl, le_rfl, fun i _ _ => by omega, fun h => by omega⟩
  | succ n ih =>
    have hl : ls[a + n]? = some ls[a + n] := List.getElem?_eq_getElem (by omega)
    -- The line looked at is the one before the position that is reached.
    have hpos : ((a + (n + 1) : ℕ) : ℤ) - 1 = ((a + n : ℕ) : ℤ) := by omega
    cases hb : isBlank ls[a + n] with
    | true =>
      obtain ⟨hi, hrun, hle, hhi, hblank, hsolid⟩ := ih (by omega)
      refine ⟨hi, fun look hf => ?_, hle, by omega, fun i hi' hin => ?_, hsolid⟩
      · rw [lastSolid, hpos, hf (a + n) (by omega) (by omega) _ hl]
        simp only [bind, Except.bind, hb, if_true]
        exact hrun look (hf.mono le_rfl (by omega))
      · rcases Nat.lt_or_ge i (a + n) with hin' | hin'
        · exact hblank i hi' hin'
        · obtain rfl : i = a + n := by omega
          exact not_solidAt_of_isBlank hl hb
    | false =>
      refine ⟨a + (n + 1), fun look hf => ?_, by omega, le_rfl, fun i _ _ => by omega, fun _ => ⟨_, hl, hb⟩⟩
      rw [lastSolid, hpos, hf (a + n) (by omega) (by omega) _ hl]
      simp [bind, Except.bind, hb]

theorem length_natCast (a b : ℕ) : (Span.mk a b).length = b - a := by
  show ((b : ℤ) - a).toNat = b - a
  omega

/-- Trimming a span inside the lines looks at positions of the span only, and leaves what it shrinks to;
of blank lines the end of the span is left. -/
theorem exists_trimmedBy {ls : List Text} {a b : ℕ} (hab : a ≤ b) (hb : b ≤ ls.length) :
    ∃ lo hi : ℕ, (∀ look, Finds look ls a b → trimmedBy look ⟨a, b⟩ = .ok ⟨lo, hi⟩) ∧
      Shrinks ls a b lo hi ∧ (lo = hi → hi = b) := by
  have ha : a + (b - a) ≤ ls.length := by omega
  obtain ⟨lo, hfirst, hle, hlo, hbefore, hsolidLo⟩ := exists_firstSolid ha
  have hl : lo + (b - lo) ≤ ls.length := by omega
  obtain ⟨hi, hlast, hle', hhi, hafter, hsolidHi⟩ := exists_lastSolid hl
  rw [Nat.add_sub_cancel' hab] at hfirst hlo hsolidLo
  rw [Nat.add_sub_cancel' hlo] at hlast hhi hafter
  -- The second loop does not pass the line at which the first one stopped.
  have hstay : lo < b → lo < hi := by
    intro hlt
    by_contra hge
    exact hafter lo (by omega) hlt (hsolidLo hlt)
  refine ⟨lo, hi, fun look hf => ?_, ⟨hle, hle', hhi, ?_, ?_, hsolidHi⟩, fun heq => by omega⟩
  · rw [trimmedBy, length_natCast, hfirst look hf]
    simp only [bind, Except.bind, length_natCast]
    rw [hlast look (hf.mono hle le_rfl)]
    rfl
  · intro i hai hib hs
    constructor
    · by_contra hlt
      exact hbefore i hai (by omega) hs
    · by_contra hge
      exact hafter i (by omega) hib hs
  · exact fun hlt => hsolidLo (by omega)

/-! ### Trimmed spans -/

/-- A span that is left of another one loses nothing more. -/
theorem Shrinks.trimmedBy_eq {ls : List Text} {a b lo hi : ℕ} (h : Shrinks ls a b lo hi) (hb : b ≤ ls.length)
    {look : ℤ → Except PositionError Text} (hf : Finds look ls lo hi) : trimmedBy look ⟨lo, hi⟩ = .ok ⟨lo, hi⟩ := by
  obtain ⟨lo', hi', hrun, h', -⟩ := exists_trimmedBy h.lo_le_hi (h.hi_le.trans hb)
  rw [hrun look hf]
  rcases h.lo_le_hi.lt_or_eq with hlt | heq
  · -- The first line is solid, so something is left, and what is left is determined.
    have hlt' : lo' < hi' := h'.lo_le_hi.lt_of_ne fun heq => h'.eq_iff.1 heq lo le_rfl hlt (h.first hlt)
    obtain ⟨rfl, rfl⟩ := h'.unique h.again hlt' hlt
    rfl
  · -- Nothing lies inside an empty span but its one end.
    have hle := h'.le_lo
    have hmid := h'.lo_le_hi
    have hge := h'.hi_le
    obtain ⟨rfl, rfl⟩ : lo' = lo ∧ hi' = hi := by omega
    rfl

/-- Trimming agrees with dropping the blank lines at both ends. On a span inside the lines it gives a span inside that
one, whatever the look-up says of other positions, and the lines of this span are those that `dropBlankEnds` leaves of the
lines of the first one. It is empty exactly when the first one has blank lines only, and lies then at its end; and it is
trimmed to itself. -/
theorem trimmed_agrees {lines : List Text} {a b : ℕ} (hab : a ≤ b) (hb : b ≤ lines.length) :
    ∃ lo hi : ℕ, a ≤ lo ∧ lo ≤ hi ∧ hi ≤ b ∧
      trimmed lines ⟨a, b⟩ = .ok ⟨lo, hi⟩ ∧
      (∀ look, Finds look lines a b → trimmedBy look ⟨a, b⟩ = .ok ⟨lo, hi⟩) ∧
      (Span.mk lo hi).cut lines = dropBlankEnds ((Span.mk a b).cut lines) ∧
      (lo = hi ↔ ∀ l ∈ (Span.mk a b).cut lines, isBlank l = true) ∧
      (lo = hi → hi = b) ∧
      trimmed lines ⟨lo, hi⟩ = .ok ⟨lo, hi⟩ := by
  obtain ⟨lo, hi, hrun, hshrinks, hempty⟩ := exists_trimmedBy hab hb
  refine ⟨lo, hi, hshrinks.le_lo, hshrinks.lo_le_hi, hshrinks.hi_le, hrun _ (finds_lineAt lines a b), hrun, ?_, ?_,
    hempty, hshrinks.trimmedBy_eq hb (finds_lineAt lines lo hi)⟩
  · rw [cut_natCast hb, cut_natCast (hshrinks.hi_le.trans hb), hshrinks.dropBlankEnds_eq hb]
  · rw [cut_natCast hb, forall_isBlank_drop_take, hshrinks.eq_iff]

/-- A blank line between solid ones stays, and a look-up that knows the lines of the span alone is enough. -/
theorem trimmed_agrees_between_solid_lines :
    let lines := ["a", "", "b", " ", "c", "\t", "d"].map String.toList
    let look := fun p => if 1 ≤ p ∧ p < 6 then lineAt lines p else .error .noLine
    1 ≤ 6 ∧ 6 ≤ lines.length ∧ Finds look lines 1 6 ∧ trimmedBy look ⟨1, 6⟩ = .ok ⟨2, 5⟩ ∧
      (Span.mk 2 5).cut lines = dropBlankEnds ((Span.mk 1 6).cut lines) ∧
      ¬ (∀ l ∈ (Span.mk 1 6).cut lines, isBlank l = true) ∧ trimmed lines ⟨2, 5⟩ = .ok ⟨2, 5⟩ := by
  intro lines look
  have hab : 1 ≤ 6 := by decide
  have hb : 6 ≤ lines.length := by decide
  have hfinds : Finds look lines 1 6 := fun i hi hi' l hl =>
    (if_pos (by omega)).trans (finds_lineAt lines 1 6 i hi hi' l hl)
  obtain ⟨lo, hi, -, -, -, htrimmed, hrun, hcut, hempty, -, hagain⟩ := trimmed_agrees hab hb
  have hspan : (.ok ⟨lo, hi⟩ : Except PositionError Span) = .ok ⟨2, 5⟩ := htrimmed.symm.trans (by rfl)
  rw [Except.ok.injEq, Span.mk.injEq] at hspan
  obtain ⟨rfl, rfl⟩ : lo = 2 ∧ hi = 5 := by omega
  exact ⟨hab, hb, hfinds, hrun look hfinds, hcut, fun hblank => absurd (hempty.2 hblank) (by decide), hagain⟩

/-- Of blank lines the end of the span is left. -/
example : trimmed (["  ", "\t", "a"].map String.toList) ⟨0, 2⟩ = .ok ⟨2, 2⟩ := by rfl

end CodeSnippets.Span
