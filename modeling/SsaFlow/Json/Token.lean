import SsaFlow.Json.Basic

/-! # JSON tokens

    The first half of reading: characters to tokens.

    * `next?` takes one token off the front of a text that starts with one.
    * `tokens` cuts a whole text. Where no token starts, the rest of the text
      is the one token `bad`, which no tree contains: a reader that has its
      tree before that point has not looked at it.
-/

namespace SsaFlow.Json

/-- A token of JSON text. -/
inductive Token where
  /-- An opening bracket. -/
  | openArr
  /-- A closing bracket. -/
  | closeArr
  /-- An opening brace. -/
  | openObj
  /-- A closing brace. -/
  | closeObj
  /-- A colon. -/
  | colon
  /-- A comma. -/
  | comma
  /-- The word `null`. -/
  | null
  /-- The word `true` or `false`. -/
  | bool (value : Bool)
  /-- A number literal. -/
  | num (value : Number)
  /-- A text, without its quotes. -/
  | str (text : Lexeme)
  /-- The rest of a text, from a place where no token starts. -/
  | bad

/-- The characters that may stand between two tokens. -/
def isSpace (c : Char) : Bool := c = ' ' || c = '\n' || c = '\t' || c = '\r'

/-! ### Texts -/

/-- The lexeme up to the closing quote, and what follows the quote. Control
    characters and unknown escapes are refused. -/
def scanText : List Char → Option (Lexeme × List Char)
  | [] => none
  | '\\' :: 'u' :: a :: b :: c :: d :: rest =>
    if (hex4? a b c d).isSome then
      (scanText rest).map fun r => ('\\' :: 'u' :: a :: b :: c :: d :: r.1, r.2)
    else none
  | '\\' :: c :: rest =>
    if (shortEscape? c).isSome then (scanText rest).map fun r => ('\\' :: c :: r.1, r.2)
    else none
  | c :: rest =>
    if c = '"' then some ([], rest)
    else if c = '\\' ∨ c.toNat < 32 then none
    else (scanText rest).map fun r => (c :: r.1, r.2)

/-! ### Numbers -/

/-- A decimal digit. -/
def isDigit (c : Char) : Bool := '0' ≤ c && c ≤ '9'

/-- The leading digits of a text, and what follows them. -/
def spanDigits (cs : List Char) : List Char × List Char :=
  (cs.takeWhile isDigit, cs.dropWhile isDigit)

/-- The value of a list of decimal digits. -/
def digitsValue (ds : List Char) : Nat := ds.foldl (fun n d => n * 10 + (d.toNat - 48)) 0

/-- The whole part of a number: zero alone, or digits that do not start with
    a zero. -/
def scanWhole (cs : List Char) : Option (Nat × List Char) :=
  match cs with
  | [] => none
  | c :: rest =>
    if c = '0' then some (0, rest)
    else if isDigit c then
      some (digitsValue (c :: (spanDigits rest).1), (spanDigits rest).2)
    else none

/-- An optional fraction: whether there is one, and what follows it. -/
def scanFraction (cs : List Char) : Option (Bool × List Char) :=
  match cs with
  | '.' :: rest =>
    match spanDigits rest with
    | ([], _) => none
    | (_, after) => some (true, after)
  | _ => some (false, cs)

/-- What follows the mark of an exponent: an optional sign and digits. -/
def scanPower (cs : List Char) : Option (List Char) :=
  let digits := match cs with
    | '+' :: rest => rest
    | '-' :: rest => rest
    | _ => cs
  match spanDigits digits with
  | ([], _) => none
  | (_, after) => some after

/-- An optional exponent: whether there is one, and what follows it. -/
def scanExponent (cs : List Char) : Option (Bool × List Char) :=
  match cs with
  | 'e' :: rest => (scanPower rest).map fun after => (true, after)
  | 'E' :: rest => (scanPower rest).map fun after => (true, after)
  | _ => some (false, cs)

/-- A number without its sign. -/
def scanUnsigned (negative : Bool) (cs : List Char) : Option (Number × List Char) :=
  match scanWhole cs with
  | none => none
  | some (whole, cs₁) =>
    match scanFraction cs₁ with
    | none => none
    | some (fraction, cs₂) =>
      match scanExponent cs₂ with
      | none => none
      | some (exponent, cs₃) =>
        if fraction || exponent || (negative && whole == 0) then some (.other, cs₃)
        else some (.int (if negative then -(whole : Int) else whole), cs₃)

/-- A number literal, and what follows it. -/
def scanNumber (cs : List Char) : Option (Number × List Char) :=
  match cs with
  | '-' :: rest => scanUnsigned true rest
  | _ => scanUnsigned false cs

/-! ### One token -/

/-- The token at the front of a text, and what follows it. -/
def next? (cs : List Char) : Option (Token × List Char) :=
  match cs with
  | '[' :: rest => some (.openArr, rest)
  | ']' :: rest => some (.closeArr, rest)
  | '{' :: rest => some (.openObj, rest)
  | '}' :: rest => some (.closeObj, rest)
  | ':' :: rest => some (.colon, rest)
  | ',' :: rest => some (.comma, rest)
  | '"' :: rest => (scanText rest).map fun r => (.str r.1, r.2)
  | 'n' :: 'u' :: 'l' :: 'l' :: rest => some (.null, rest)
  | 't' :: 'r' :: 'u' :: 'e' :: rest => some (.bool true, rest)
  | 'f' :: 'a' :: 'l' :: 's' :: 'e' :: rest => some (.bool false, rest)
  | _ => (scanNumber cs).map fun r => (.num r.1, r.2)

/-! ### Every token takes at least one character -/

theorem length_scanText {cs : List Char} {l : Lexeme} {rest : List Char}
    (h : scanText cs = some (l, rest)) : rest.length < cs.length := by
  fun_induction scanText cs generalizing l rest with
  | case1 => simp at h
  | case2 a b c d tail _ ih =>
    obtain ⟨⟨l', rest'⟩, hr, he⟩ := Option.map_eq_some_iff.mp h
    have := ih hr
    cases he
    simp only [List.length_cons]
    omega
  | case3 => simp at h
  | case4 c tail _ _ ih =>
    obtain ⟨⟨l', rest'⟩, hr, he⟩ := Option.map_eq_some_iff.mp h
    have := ih hr
    cases he
    simp only [List.length_cons]
    omega
  | case5 => simp at h
  | case6 tail =>
    cases h
    simp
  | case7 => simp at h
  | case8 c tail _ _ _ _ ih =>
    obtain ⟨⟨l', rest'⟩, hr, he⟩ := Option.map_eq_some_iff.mp h
    have := ih hr
    cases he
    simp only [List.length_cons]
    omega

theorem length_spanDigits (cs : List Char) : (spanDigits cs).2.length ≤ cs.length :=
  (List.dropWhile_sublist _).length_le

theorem length_scanWhole {cs : List Char} {n : Nat} {rest : List Char}
    (h : scanWhole cs = some (n, rest)) : rest.length < cs.length := by
  unfold scanWhole at h
  split at h
  · simp at h
  · rename_i c tail
    have hspan := length_spanDigits tail
    split at h
    · cases h
      simp
    · split at h
      · cases h
        simp only [List.length_cons]
        omega
      · simp at h

theorem length_scanFraction {cs : List Char} {b : Bool} {rest : List Char}
    (h : scanFraction cs = some (b, rest)) : rest.length ≤ cs.length := by
  unfold scanFraction at h
  split at h
  · rename_i tail
    have hspan := length_spanDigits tail
    split at h
    · simp at h
    · rename_i _ after _ hs
      simp only [hs] at hspan
      cases h
      simp only [List.length_cons]
      omega
  · cases h
    exact Nat.le_refl _

theorem length_scanPower {cs : List Char} {rest : List Char}
    (h : scanPower cs = some rest) : rest.length ≤ cs.length := by
  unfold scanPower at h
  simp only at h
  split at h
  · simp at h
  · rename_i _ after _ hs
    cases h
    split at hs
    · rename_i tail
      have hspan := length_spanDigits tail
      simp only [hs] at hspan
      simp only [List.length_cons]
      omega
    · rename_i tail
      have hspan := length_spanDigits tail
      simp only [hs] at hspan
      simp only [List.length_cons]
      omega
    · have hspan := length_spanDigits cs
      simp only [hs] at hspan
      exact hspan

theorem length_scanExponent {cs : List Char} {b : Bool} {rest : List Char}
    (h : scanExponent cs = some (b, rest)) : rest.length ≤ cs.length := by
  unfold scanExponent at h
  split at h
  · rename_i tail
    obtain ⟨r, hr, he⟩ := Option.map_eq_some_iff.mp h
    have := length_scanPower hr
    cases he
    simp only [List.length_cons]
    omega
  · rename_i tail
    obtain ⟨r, hr, he⟩ := Option.map_eq_some_iff.mp h
    have := length_scanPower hr
    cases he
    simp only [List.length_cons]
    omega
  · cases h
    exact Nat.le_refl _

theorem length_scanUnsigned {negative : Bool} {cs : List Char} {n : Number} {rest : List Char}
    (h : scanUnsigned negative cs = some (n, rest)) : rest.length < cs.length := by
  unfold scanUnsigned at h
  split at h
  · simp at h
  · rename_i hw
    have h₁ := length_scanWhole hw
    split at h
    · simp at h
    · rename_i hf
      have h₂ := length_scanFraction hf
      split at h
      · simp at h
      · rename_i he
        have h₃ := length_scanExponent he
        split at h <;> cases h <;> omega

theorem length_scanNumber {cs : List Char} {n : Number} {rest : List Char}
    (h : scanNumber cs = some (n, rest)) : rest.length < cs.length := by
  unfold scanNumber at h
  split at h
  · have := length_scanUnsigned h
    simp only [List.length_cons]
    omega
  · exact length_scanUnsigned h

theorem length_next? {cs : List Char} {t : Token} {rest : List Char}
    (h : next? cs = some (t, rest)) : rest.length < cs.length := by
  unfold next? at h
  split at h
  case h_7 =>
    obtain ⟨r, hr, he⟩ := Option.map_eq_some_iff.mp h
    have := length_scanText hr
    cases he
    simp only [List.length_cons]
    omega
  case h_11 =>
    obtain ⟨r, hr, he⟩ := Option.map_eq_some_iff.mp h
    have := length_scanNumber hr
    cases he
    exact this
  all_goals
    cases h
    simp only [List.length_cons]
    omega

/-! ### All tokens -/

/-- The tokens of a text. -/
def tokens (cs : List Char) : List Token :=
  match cs with
  | [] => []
  | c :: rest =>
    if isSpace c then tokens rest
    else
      match _h : next? (c :: rest) with
      | some (t, after) => t :: tokens after
      | none => [.bad]
termination_by cs.length
decreasing_by
  · simp
  · exact length_next? _h

end SsaFlow.Json
