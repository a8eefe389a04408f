import CodeSnippets.Text.Basic

/-!
# Strict UTF-8

Bytes of a text and the text of bytes. Reading is strict: overlong forms, surrogates, numbers past
U+10FFFF and cut sequences are refused, and a fault says which bytes are to blame. These are the bytes
of a sequence up to the first one that cannot continue it, or all that is left if the bytes end too early.
-/

namespace CodeSnippets.Text.Utf8

/-- What is wrong with the bytes of a fault. -/
inductive FaultKind where
  | invalidStart
  | invalidContinuation
  | unexpectedEnd
deriving DecidableEq, Repr

/-- A fault, the place of its first byte, and the number and first of the bytes to blame. -/
structure Fault where
  kind : FaultKind
  position : Nat
  count : Nat
  first : UInt8
deriving DecidableEq, Repr

/-- The byte continues a sequence. -/
def isContinuation (b : UInt8) : Bool := 0x80 ≤ b && b ≤ 0xBF

/-- The second byte `b` may follow the first byte `a` of three: no overlong form and no surrogate. -/
def isSecondOfThree (a b : UInt8) : Bool :=
  isContinuation b && !(a == 0xE0 && b < 0xA0) && !(a == 0xED && 0xA0 ≤ b)

/-- The second byte `b` may follow the first byte `a` of four: no overlong form and nothing past U+10FFFF. -/
def isSecondOfFour (a b : UInt8) : Bool :=
  isContinuation b && !(a == 0xF0 && b < 0x90) && !(a == 0xF4 && 0x90 ≤ b)

/-- The low six bits of a continuation byte. -/
def low (b : UInt8) : Nat := b.toNat % 64

/-- The text of bytes that start at `position`. -/
def decodeFrom (position : Nat) : List UInt8 → Except Fault Text
  | [] => .ok []
  | a :: rest =>
    if a < 0x80 then do return Char.ofNat a.toNat :: (← decodeFrom (position + 1) rest)
    else if a < 0xC2 then .error ⟨.invalidStart, position, 1, a⟩
    else if a < 0xE0 then
      match rest with
      | [] => .error ⟨.unexpectedEnd, position, 1, a⟩
      | b :: rest =>
        if isContinuation b then do
          return Char.ofNat ((a.toNat % 32) * 64 + low b) :: (← decodeFrom (position + 2) rest)
        else .error ⟨.invalidContinuation, position, 1, a⟩
    else if a < 0xF0 then
      match rest with
      | [] => .error ⟨.unexpectedEnd, position, 1, a⟩
      | b :: rest =>
        if isSecondOfThree a b then
          match rest with
          | [] => .error ⟨.unexpectedEnd, position, 2, a⟩
          | c :: rest =>
            if isContinuation c then do
              return Char.ofNat ((a.toNat % 16) * 4096 + low b * 64 + low c) ::
                (← decodeFrom (position + 3) rest)
            else .error ⟨.invalidContinuation, position, 2, a⟩
        else .error ⟨.invalidContinuation, position, 1, a⟩
    else if a < 0xF5 then
      match rest with
      | [] => .error ⟨.unexpectedEnd, position, 1, a⟩
      | b :: rest =>
        if isSecondOfFour a b then
          match rest with
          | [] => .error ⟨.unexpectedEnd, position, 2, a⟩
          | c :: rest =>
            if isContinuation c then
              match rest with
              | [] => .error ⟨.unexpectedEnd, position, 3, a⟩
              | d :: rest =>
                if isContinuation d then do
                  return Char.ofNat ((a.toNat % 8) * 262144 + low b * 4096 + low c * 64 + low d) ::
                    (← decodeFrom (position + 4) rest)
                else .error ⟨.invalidContinuation, position, 3, a⟩
            else .error ⟨.invalidContinuation, position, 2, a⟩
        else .error ⟨.invalidContinuation, position, 1, a⟩
    else .error ⟨.invalidStart, position, 1, a⟩

/-- The text that bytes write. -/
def decode (bytes : List UInt8) : Except Fault Text := decodeFrom 0 bytes

/-- The bytes of one character. -/
def encodeChar (c : Char) : List UInt8 :=
  let n := c.toNat
  if n < 0x80 then [.ofNat n]
  else if n < 0x800 then [.ofNat (0xC0 + n / 64), .ofNat (0x80 + n % 64)]
  else if n < 0x10000 then
    [.ofNat (0xE0 + n / 4096), .ofNat (0x80 + n / 64 % 64), .ofNat (0x80 + n % 64)]
  else
    [.ofNat (0xF0 + n / 262144), .ofNat (0x80 + n / 4096 % 64), .ofNat (0x80 + n / 64 % 64),
      .ofNat (0x80 + n % 64)]

/-- The bytes of a text. -/
def encode (t : Text) : List UInt8 := t.flatMap encodeChar

/-- Number of bytes of a text. -/
def size (t : Text) : Nat := (encode t).length

/-- The reason of a fault in words. -/
def FaultKind.reason : FaultKind → String
  | .invalidStart => "invalid start byte"
  | .invalidContinuation => "invalid continuation byte"
  | .unexpectedEnd => "unexpected end of data"

/-- A fault in words: one byte is shown, several are counted. -/
def Fault.message (f : Fault) : String :=
  let codec := "'utf-8' codec can't decode "
  let what :=
    if f.count = 1 then s!"byte 0x{str (hex 2 f.first.toNat)} in position {f.position}"
    else s!"bytes in position {f.position}-{f.position + f.count - 1}"
  codec ++ what ++ ": " ++ f.kind.reason

@[simp] theorem decode_nil : decode [] = .ok [] := rfl

@[simp] theorem encode_nil : encode [] = [] := rfl

@[simp] theorem encode_cons (c : Char) (t : Text) : encode (c :: t) = encodeChar c ++ encode t := rfl

@[simp] theorem encode_append (s t : Text) : encode (s ++ t) = encode s ++ encode t := by
  simp [encode]

theorem size_append (s t : Text) : Utf8.size (s ++ t) = Utf8.size s + Utf8.size t := by
  simp [Utf8.size]

theorem size_le_of_prefix {s t : Text} (h : s <+: t) : Utf8.size s ≤ Utf8.size t := by
  obtain ⟨rest, rfl⟩ := h
  rw [size_append]
  exact Nat.le_add_right _ _

end CodeSnippets.Text.Utf8
