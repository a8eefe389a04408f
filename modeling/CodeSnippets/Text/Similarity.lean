import CodeSnippets.Text.Basic

/-!
# Similar words

How alike two words are: twice the number of characters that match, over the number of all characters. The
longest common run matches, and so do the runs found in the same way before it and after it.

* `closest`: the few words most like a given one.
-/

namespace CodeSnippets.Text

/-- Length of the common run at the start of two texts. -/
def commonRun : Text → Text → Nat
  | a :: s, b :: t => if a = b then commonRun s t + 1 else 0
  | _, _ => 0

/-- A common run: where it starts in each of two texts, and its length. -/
structure Run where
  first : Nat
  second : Nat
  length : Nat

/-- The longest common run of two texts; of several the first in the first text, then in the second. -/
def longestRun (s t : Text) : Run :=
  (List.range s.length).foldl (fun best i =>
    (List.range t.length).foldl (fun best j =>
      let n := commonRun (s.drop i) (t.drop j)
      if best.length < n then ⟨i, j, n⟩ else best) best) ⟨0, 0, 0⟩

/-- Number of characters of two texts that match; `fuel` bounds the depth of the search. -/
def matching : (fuel : Nat) → Text → Text → Nat
  | 0, _, _ => 0
  | fuel + 1, s, t =>
    let run := longestRun s t
    if run.length = 0 then 0
    else
      run.length + matching fuel (s.take run.first) (t.take run.second) +
        matching fuel (s.drop (run.first + run.length)) (t.drop (run.second + run.length))

/-- Number of matching characters of two words, and of all their characters. -/
def likeness (s t : Text) : Nat × Nat := (2 * matching (s.length + 1) s t, s.length + t.length)

/-- At most three of the words that match a given one in six of ten characters or more, in order. -/
def closest (word : Text) (words : List Text) : List Text :=
  let scored := words.filterMap fun w =>
    let (n, d) := likeness w word
    -- The likeness is the fraction `n / d`.
    if 6 * d ≤ 10 * n then some (n, d, w) else none
  let ranked := scored.mergeSort fun (n, d, w) (n', d', w') =>
    n * d' > n' * d || (n * d' == n' * d && le w' w)
  sorted ((ranked.take 3).map fun (_, _, w) => w)

end CodeSnippets.Text
