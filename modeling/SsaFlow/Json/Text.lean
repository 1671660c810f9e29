/-! # Quoted text in JSON

    Between its quotes a text is written with escapes. This module holds both
    directions, as functions on character lists:

    * `escape` writes a text: the quote, the backslash and the control
      characters are escaped, everything else stands for itself.
    * `unescape` resolves the escapes of what stands between two quotes. A
      `\u` escape names a UTF-16 unit, so a character beyond the basic plane
      takes two; half a pair names nothing, and the text has no reading.
-/

namespace SsaFlow.Json

/-- The characters between two quotes, as they are written. -/
abbrev Lexeme := List Char

/-! ### Hexadecimal digits -/

/-- The value of a hexadecimal digit, in either case. -/
def hexValue? (c : Char) : Option Nat :=
  if '0' ≤ c ∧ c ≤ '9' then some (c.toNat - 48)
  else if 'a' ≤ c ∧ c ≤ 'f' then some (c.toNat - 87)
  else if 'A' ≤ c ∧ c ≤ 'F' then some (c.toNat - 55)
  else none

/-- The value of four hexadecimal digits. -/
def hex4? (a b c d : Char) : Option Nat := do
  let a ← hexValue? a
  let b ← hexValue? b
  let c ← hexValue? c
  let d ← hexValue? d
  return ((a * 16 + b) * 16 + c) * 16 + d

/-- The lower-case digit for a value below sixteen. -/
def hexDigit (n : Nat) : Char :=
  if n < 10 then Char.ofNat (48 + n) else Char.ofNat (87 + n)

/-! ### Writing -/

/-- One character as it is written between quotes. -/
def escapeChar (c : Char) : Lexeme :=
  if c = '"' then ['\\', '"']
  else if c = '\\' then ['\\', '\\']
  else if c = '\n' then ['\\', 'n']
  else if c = '\r' then ['\\', 'r']
  else if c = '\t' then ['\\', 't']
  else if c.toNat = 8 then ['\\', 'b']
  else if c.toNat = 12 then ['\\', 'f']
  else if c.toNat < 32 then ['\\', 'u', '0', '0', hexDigit (c.toNat / 16), hexDigit (c.toNat % 16)]
  else [c]

/-- A text as it is written between quotes. -/
def escape (s : List Char) : Lexeme := s.flatMap escapeChar

/-! ### Reading -/

/-- The character that a one-letter escape stands for. -/
def shortEscape? (c : Char) : Option Char :=
  if c = '"' ∨ c = '\\' ∨ c = '/' then some c
  else if c = 'b' then some (Char.ofNat 8)
  else if c = 'f' then some (Char.ofNat 12)
  else if c = 'n' then some '\n'
  else if c = 'r' then some '\r'
  else if c = 't' then some '\t'
  else none

/-- The first half of a pair of UTF-16 units. -/
def isHighHalf (n : Nat) : Bool := 0xD800 ≤ n && n < 0xDC00

/-- The second half of a pair of UTF-16 units. -/
def isLowHalf (n : Nat) : Bool := 0xDC00 ≤ n && n < 0xE000

/-- The character that a pair of UTF-16 units names. -/
def joinHalves (high low : Nat) : Char :=
  Char.ofNat (0x10000 + (high - 0xD800) * 0x400 + (low - 0xDC00))

/-- Where the reading of a text stands: between two characters, or after the
    first half of a pair that waits for its second. -/
inductive TextState where
  /-- Between two characters. -/
  | plain
  /-- After the first half of a pair. -/
  | half (high : Nat)

/-- Resolve the escapes of a lexeme. -/
def unescapeFrom : TextState → Lexeme → Option (List Char)
  | .plain, [] => some []
  | .half _, [] => none
  | state, '\\' :: 'u' :: a :: b :: c :: d :: rest =>
    match hex4? a b c d with
    | none => none
    | some n =>
      match state with
      | .plain =>
        if isHighHalf n then unescapeFrom (.half n) rest
        else if isLowHalf n then none
        else (unescapeFrom .plain rest).map (Char.ofNat n :: ·)
      | .half high =>
        if isLowHalf n then (unescapeFrom .plain rest).map (joinHalves high n :: ·)
        else none
  | .half _, _ => none
  | .plain, '\\' :: c :: rest =>
    match shortEscape? c with
    | some c' => (unescapeFrom .plain rest).map (c' :: ·)
    | none => none
  | .plain, c :: rest =>
    if c = '\\' then none else (unescapeFrom .plain rest).map (c :: ·)

/-- The text that a lexeme stands for; none if it holds half a pair. -/
def unescape (l : Lexeme) : Option (List Char) := unescapeFrom .plain l

end SsaFlow.Json
