import CodeSnippets.Text.Case.Table

/-!
# Lower case

Full lower case by the tables of Unicode 14. Every character stands for itself alone, with two
exceptions: U+0130 becomes an `i` and a combining dot, and a capital sigma becomes `ς` at the end of a
word and `σ` elsewhere.
-/

namespace CodeSnippets.Text

/-- The number lies in one of the ranges. -/
def inRanges (ranges : List (Nat × Nat)) (n : Nat) : Bool := ranges.any fun (a, b) => a ≤ n && n ≤ b

/-- The character has case. -/
def isCased (c : Char) : Bool := inRanges casedRanges c.toNat

/-- The character is passed over when the end of a word is looked for. -/
def isPassedOver (c : Char) : Bool := inRanges passedOverRanges c.toNat

/-- The run gives `n` a lower-case partner. -/
def CaseRun.covers (run : CaseRun) (n : Nat) : Bool :=
  run.first ≤ n && n ≤ run.last && (n - run.first) % run.step == 0

/-- The lower case of one character on its own. -/
def lowerChar (c : Char) : Text :=
  let n := c.toNat
  if n < 0x80 then [if 'A' ≤ c ∧ c ≤ 'Z' then Char.ofNat (n + 32) else c]
  else if n = 0x130 then ['i', Char.ofNat 0x307]
  else
    match caseRuns.find? (·.covers n) with
    | some run => [Char.ofNat (n + run.shift).toNat]
    | none => [c]

/-- The next character that is not passed over has case. -/
def nextIsCased (t : Text) : Bool :=
  match t.dropWhile isPassedOver with
  | [] => false
  | c :: _ => isCased c

/-- Lower case of `t` where `before` stands in front of it, last character first. -/
def lowerAfter (before : Text) : Text → Text
  | [] => []
  | c :: t =>
    (if c = 'Σ' then [if nextIsCased before && !nextIsCased t then 'ς' else 'σ'] else lowerChar c) ++
      lowerAfter (c :: before) t

/-- The text in lower case. -/
def lower (t : Text) : Text := lowerAfter [] t

@[simp] theorem lower_nil : lower [] = [] := rfl

/-- What follows `start` at the beginning of `t`. Where case is not considered the lower cases are
compared, and as many characters as `start` has are taken off. -/
def dropExpected? (t start : Text) (considerCase : Bool) : Option Text :=
  if considerCase then dropStart? start t
  else if startsWith (lower t) (lower start) then some (t.drop start.length)
  else none

end CodeSnippets.Text
