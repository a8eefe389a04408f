/-!
# Text

A text is a list of characters. Lengths, cuts and comparisons are therefore by code point, and every
function on text is a function on lists that proofs can take apart.

* `dropStart?`: what follows an expected beginning.
* `pieces` and `joined`: a text cut at a separator, and texts put together around one.
* `le`: order by code point.
-/

namespace CodeSnippets

/-- A text is the list of its characters. -/
abbrev Text := List Char

namespace Text

/-- The text as a string, for messages. -/
abbrev str (t : Text) : String := String.ofList t

/-- What follows `start` at the beginning of `t`, if `t` begins with it. -/
def dropStart? (start t : Text) : Option Text :=
  match start, t with
  | [], t => some t
  | _ :: _, [] => none
  | a :: start, b :: t => if a = b then dropStart? start t else none

/-- A text begins with `start` exactly when it is `start` and what follows it. -/
theorem dropStart?_eq_some_iff {start t r : Text} : dropStart? start t = some r ↔ t = start ++ r := by
  induction start generalizing t with
  | nil => simp [dropStart?]
  | cons a start ih =>
    cases t with
    | nil => simp [dropStart?]
    | cons b t =>
      by_cases h : a = b
      · simp [dropStart?, h, ih]
      · simp [dropStart?, h, Ne.symm h]

/-- The text begins with `start`. -/
def startsWith (t start : Text) : Bool := (dropStart? start t).isSome

/-- The pieces of a text between the occurrences of a separator; a text without one is one piece. -/
def pieces (separator : Char) : Text → List Text
  | [] => [[]]
  | c :: t =>
    if c = separator then [] :: pieces separator t
    else
      match pieces separator t with
      | [] => [[c]]
      | p :: ps => (c :: p) :: ps

/-- The texts one after the other, with a separator between each two. -/
def joined (separator : Text) : List Text → Text
  | [] => []
  | [t] => t
  | t :: u :: ts => t ++ separator ++ joined separator (u :: ts)

/-- The texts with commas between, for messages. -/
def listed (ts : List Text) : String := str (joined [',', ' '] ts)

/-- The part before the first occurrence of a character and the part after it. -/
def cutAt? (c : Char) : Text → Option (Text × Text)
  | [] => none
  | d :: t => if d = c then some ([], t) else (cutAt? c t).map fun (a, b) => (d :: a, b)

/-- The part before the last occurrence of a character and the part after it. -/
def cutAtLast? (c : Char) (t : Text) : Option (Text × Text) :=
  (cutAt? c t.reverse).map fun (a, b) => (b.reverse, a.reverse)

/-- Order by code point, the shorter of two texts first where one begins with the other. -/
def le : Text → Text → Bool
  | [], _ => true
  | _ :: _, [] => false
  | a :: s, b :: t => a.val < b.val || (a == b && le s t)

/-- Texts in order. -/
def sorted (ts : List Text) : List Text := ts.mergeSort le

/-- Digits of a number in base ten. -/
def ofNat (n : Nat) : Text := Nat.toDigits 10 n

/-- An integer in base ten, with a minus sign if it is negative. -/
def ofInt : Int → Text
  | .ofNat n => ofNat n
  | .negSucc n => '-' :: ofNat (n + 1)

/-- Number in base ten with at least `width` digits. -/
def padded (width n : Nat) : Text :=
  let digits := ofNat n
  List.replicate (width - digits.length) '0' ++ digits

/-- A number in lower-case base sixteen with at least `width` digits. -/
def hex (width n : Nat) : Text :=
  let digits := Nat.toDigits 16 n
  List.replicate (width - digits.length) '0' ++ digits

@[simp] theorem joined_nil (separator : Text) : joined separator [] = [] := rfl

@[simp] theorem joined_singleton (separator t : Text) : joined separator [t] = t := rfl

theorem joined_cons_cons (separator t u : Text) (ts : List Text) :
    joined separator (t :: u :: ts) = t ++ separator ++ joined separator (u :: ts) := rfl

/-- A character of joined texts is one of the separator or of one of the texts. -/
theorem mem_joined {separator : Text} {ts : List Text} {c : Char} (h : c ∈ joined separator ts) :
    c ∈ separator ∨ ∃ t ∈ ts, c ∈ t := by
  induction ts with
  | nil => simp at h
  | cons t ts ih =>
    cases ts with
    | nil => exact .inr ⟨t, List.mem_cons_self, h⟩
    | cons u ts =>
      rw [joined_cons_cons, List.mem_append, List.mem_append] at h
      rcases h with (h | h) | h
      · exact .inr ⟨t, List.mem_cons_self, h⟩
      · exact .inl h
      · exact (ih h).imp_right fun ⟨v, hv, hc⟩ => ⟨v, List.mem_cons_of_mem t hv, hc⟩

theorem joined_append {separator : Text} {s t : List Text} (hs : s ≠ []) (ht : t ≠ []) :
    joined separator (s ++ t) = joined separator s ++ separator ++ joined separator t := by
  induction s with
  | nil => exact absurd rfl hs
  | cons u s ih =>
    cases s with
    | nil =>
      obtain ⟨v, t, rfl⟩ := List.exists_cons_of_ne_nil ht
      rfl
    | cons v s =>
      rw [List.cons_append, List.cons_append, joined_cons_cons, ← List.cons_append, ih (List.cons_ne_nil v s),
        joined_cons_cons]
      simp

/-- Every character of a text that is joined is one of the whole. -/
theorem mem_joined_of_mem {separator t : Text} {ts : List Text} {c : Char} (ht : t ∈ ts) (hc : c ∈ t) :
    c ∈ joined separator ts := by
  obtain ⟨s, u, rfl⟩ := List.append_of_mem ht
  have hlast : c ∈ joined separator (t :: u) := by
    cases u with
    | nil => exact hc
    | cons v u =>
      rw [joined_cons_cons]
      simp [hc]
  by_cases hs : s = []
  · rw [hs]
    exact hlast
  · rw [joined_append hs (List.cons_ne_nil t u)]
    exact List.mem_append_right _ hlast

theorem getLast?_append_of_ne_nil (s : Text) {t : Text} (ht : t ≠ []) : (s ++ t).getLast? = t.getLast? := by
  rw [List.getLast?_append, List.getLast?_eq_some_getLast ht, Option.some_or]

/-- The last character of joined texts is the last one of the last text. -/
theorem getLast?_joined {separator : Text} {ts : List Text} {t : Text} (ht : t ≠ []) :
    (joined separator (ts ++ [t])).getLast? = t.getLast? := by
  by_cases hts : ts = []
  · rw [hts]
    rfl
  · rw [joined_append hts (by simp), joined_singleton, getLast?_append_of_ne_nil _ ht]

theorem pieces_ne_nil (separator : Char) (t : Text) : pieces separator t ≠ [] := by
  cases t with
  | nil => simp [pieces]
  | cons c t =>
    rw [pieces]
    split
    · simp
    · split <;> simp

/-- Cutting a text and joining the pieces again gives the text back. -/
theorem joined_pieces (separator : Char) (t : Text) : joined [separator] (pieces separator t) = t := by
  induction t with
  | nil => rfl
  | cons c t ih =>
    rw [pieces]
    have hne := pieces_ne_nil separator t
    split
    · rename_i h
      cases hp : pieces separator t with
      | nil => exact absurd hp hne
      | cons p ps => simp [joined, ← hp, ih, h]
    · cases hp : pieces separator t with
      | nil => exact absurd hp hne
      | cons p ps =>
        rw [hp] at ih
        cases ps with
        | nil => simpa using ih
        | cons q qs => simpa [joined] using ih

/-- No piece holds the separator. -/
theorem not_mem_of_mem_pieces {separator : Char} {t p : Text} (h : p ∈ pieces separator t) : separator ∉ p := by
  induction t generalizing p with
  | nil => simp_all [pieces]
  | cons c t ih =>
    rw [pieces] at h
    split at h
    · rcases List.mem_cons.1 h with rfl | h
      · simp
      · exact ih h
    · rename_i hc
      cases hp : pieces separator t with
      | nil => exact absurd hp (pieces_ne_nil separator t)
      | cons q qs =>
        rw [hp] at h ih
        rcases List.mem_cons.1 h with rfl | h
        · simpa [Ne.symm hc] using ih List.mem_cons_self
        · exact ih (List.mem_cons_of_mem q h)

/-- A text without the separator is one piece. -/
theorem pieces_eq_singleton {separator : Char} {t : Text} (h : separator ∉ t) : pieces separator t = [t] := by
  induction t with
  | nil => rfl
  | cons c t ih =>
    rw [List.mem_cons, not_or] at h
    rw [pieces, if_neg (Ne.symm h.1), ih h.2]

/-- A separator divides a text for good: what comes before it and what comes after it are cut on their own. -/
theorem pieces_append (separator : Char) (t u : Text) :
    pieces separator (t ++ separator :: u) = pieces separator t ++ pieces separator u := by
  induction t with
  | nil => simp [pieces]
  | cons c t ih =>
    rw [List.cons_append, pieces, pieces, ih]
    split
    · rfl
    · cases hp : pieces separator t with
      | nil => exact absurd hp (pieces_ne_nil separator t)
      | cons p ps => rfl

/-- The first piece ends at the first separator. -/
theorem pieces_append_cons {separator : Char} {t : Text} (h : separator ∉ t) (u : Text) :
    pieces separator (t ++ separator :: u) = t :: pieces separator u := by
  rw [pieces_append, pieces_eq_singleton h, List.singleton_append]

/-- Joining texts without the separator and cutting the result gives the texts back. -/
theorem pieces_joined {separator : Char} {ts : List Text} (hne : ts ≠ []) (h : ∀ t ∈ ts, separator ∉ t) :
    pieces separator (joined [separator] ts) = ts := by
  induction ts with
  | nil => exact absurd rfl hne
  | cons t ts ih =>
    have ht : separator ∉ t := h t List.mem_cons_self
    cases ts with
    | nil => rw [joined_singleton, pieces_eq_singleton ht]
    | cons u ts =>
      rw [joined_cons_cons, List.append_assoc, List.singleton_append, pieces_append_cons ht,
        ih (List.cons_ne_nil u ts) fun v hv => h v (List.mem_cons_of_mem t hv)]

end Text
end CodeSnippets
