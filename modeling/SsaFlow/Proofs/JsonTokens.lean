import SsaFlow.Json.Parse
import SsaFlow.Json.Render

/-! # The tokens of written JSON

    What the printer writes is cut into the tokens it meant to write.

    * `unescape_escape`, `quotable_escape`: an escaped text ends at its closing
      quote and stands for the text that was escaped.
    * `scanNumber_render`: a number literal is read back, provided that what
      follows it cannot be taken for more of it.
    * `toTokens`: the tokens of a tree, in the order in which they are written.
    * `tokens_render`: the text of a tree is cut into the tokens of the tree, in
      every style that puts only blanks between tokens.
-/

namespace SsaFlow.Json

/-! ### Escaped texts -/

theorem hex4?_control : ∀ n < 32,
    hex4? '0' '0' (hexDigit (n / 16)) (hexDigit (n % 16)) = some n := by
  decide

/-- A character is written as it is, behind a backslash, or by its number; in
    each case what is written names the character. -/
theorem escapeChar_cases (c : Char) :
    (escapeChar c = [c] ∧ c ≠ '"' ∧ c ≠ '\\' ∧ 32 ≤ c.toNat) ∨
      (∃ d, escapeChar c = ['\\', d] ∧ shortEscape? d = some c) ∨
      (∃ x y, escapeChar c = ['\\', 'u', '0', '0', x, y] ∧ hex4? '0' '0' x y = some c.toNat ∧
        c.toNat < 32) := by
  have hcode : ∀ n, c.toNat = n → some (Char.ofNat n) = some c := by
    intro n h
    rw [← h, Char.ofNat_toNat]
  -- The cases come in the order in which `escapeChar` tries them.
  unfold escapeChar
  split
  · next h => exact Or.inr (Or.inl ⟨'"', rfl, by rw [h]; rfl⟩)
  split
  · next h => exact Or.inr (Or.inl ⟨'\\', rfl, by rw [h]; rfl⟩)
  split
  · next h => exact Or.inr (Or.inl ⟨'n', rfl, by rw [h]; rfl⟩)
  split
  · next h => exact Or.inr (Or.inl ⟨'r', rfl, by rw [h]; rfl⟩)
  split
  · next h => exact Or.inr (Or.inl ⟨'t', rfl, by rw [h]; rfl⟩)
  split
  · next h => exact Or.inr (Or.inl ⟨'b', rfl, hcode 8 h⟩)
  split
  · next h => exact Or.inr (Or.inl ⟨'f', rfl, hcode 12 h⟩)
  split
  · next h => exact Or.inr (Or.inr ⟨_, _, rfl, hex4?_control c.toNat h, h⟩)
  · next hquote hback _ _ _ _ _ hcontrol =>
    exact Or.inl ⟨rfl, hquote, hback, Nat.le_of_not_lt hcontrol⟩

/-- No one-letter escape is called `u`, so a short escape is never taken for a
    numbered one. -/
theorem ne_u_of_shortEscape? {c d : Char} (h : shortEscape? d = some c) : d ≠ 'u' := by
  rintro rfl
  cases h

theorem unescapeFrom_escapeChar (c : Char) (rest : Lexeme) :
    unescapeFrom .plain (escapeChar c ++ rest) = (unescapeFrom .plain rest).map (c :: ·) := by
  obtain ⟨hc, -, hback, -⟩ | ⟨d, hc, hd⟩ | ⟨x, y, hc, hxy, hlt⟩ := escapeChar_cases c
  · rw [hc]
    simp [unescapeFrom, hback]
  · have hu := ne_u_of_shortEscape? hd
    rw [hc]
    simp [unescapeFrom, hu, hd]
  · -- A control character is half of no pair.
    have hhigh : isHighHalf c.toNat = false := by
      simp only [isHighHalf, Bool.and_eq_false_imp, decide_eq_true_eq, decide_eq_false_iff_not]
      omega
    have hlow : isLowHalf c.toNat = false := by
      simp only [isLowHalf, Bool.and_eq_false_imp, decide_eq_true_eq, decide_eq_false_iff_not]
      omega
    rw [hc]
    simp [unescapeFrom, hxy, hhigh, hlow]

/-- Resolving the escapes of an escaped text gives the text. -/
theorem unescape_escape (s : List Char) : unescape (escape s) = some s := by
  unfold unescape escape
  induction s with
  | nil => rfl
  | cons c s ih => rw [List.flatMap_cons, unescapeFrom_escapeChar, ih, Option.map_some]

theorem scanText_escapeChar (c : Char) (rest : List Char) :
    scanText (escapeChar c ++ rest) = (scanText rest).map fun r => (escapeChar c ++ r.1, r.2) := by
  obtain ⟨hc, hquote, hback, hcontrol⟩ | ⟨d, hc, hd⟩ | ⟨x, y, hc, hxy, -⟩ := escapeChar_cases c
  · rw [hc]
    simp [scanText, hquote, hback, Nat.not_lt.mpr hcontrol]
  · have hu := ne_u_of_shortEscape? hd
    rw [hc]
    simp [scanText, hu, hd]
  · rw [hc]
    simp [scanText, hxy]

/-- Between quotes the lexeme is read back as it stands. -/
def Quotable (l : Lexeme) : Prop := ∀ rest, scanText (l ++ '"' :: rest) = some (l, rest)

theorem quotable_escape (s : List Char) : Quotable (escape s) := by
  intro rest
  unfold escape
  induction s with
  | nil => simp [scanText]
  | cons c s ih =>
    rw [List.flatMap_cons, List.append_assoc, scanText_escapeChar, ih, Option.map_some]

/-! ### Numerals -/

theorem isDigit_of_mem_toDigits {n : Nat} {c : Char} (h : c ∈ Nat.toDigits 10 n) :
    isDigit c = true := by
  have hdigit := Nat.isDigit_of_mem_toDigits (by decide) (by decide) h
  simpa [Char.isDigit, isDigit, Char.le_def] using hdigit

theorem digitsValue_toDigits (n : Nat) : digitsValue (Nat.toDigits 10 n) = n := by
  have hfold : digitsValue (Nat.toDigits 10 n) = Nat.ofDigitChars 10 (Nat.toDigits 10 n) 0 := by
    simp only [digitsValue, Nat.ofDigitChars_eq_foldl, Nat.mul_comm]
    rfl
  rw [hfold, Nat.ofDigitChars_ten_toDigits]

/-- A numeral has a first digit, which is zero for the number zero alone. -/
theorem toDigits_eq_cons (n : Nat) :
    ∃ d rest, Nat.toDigits 10 n = d :: rest ∧ (d = '0' → n = 0) := by
  induction n using Nat.strongRecOn with
  | _ n ih =>
    by_cases hsmall : n < 10
    · refine ⟨n.digitChar, [], Nat.toDigits_of_lt_base hsmall, ?_⟩
      intro h
      exact Nat.digitChar_eq_zero.mp h
    · -- A longer numeral starts as the numeral of its tenth does.
      obtain ⟨d, rest, htenth, hd⟩ := ih (n / 10) (by omega)
      refine ⟨d, rest ++ [(n % 10).digitChar], ?_, ?_⟩
      · rw [Nat.toDigits_of_base_le (by decide) (by omega), htenth, List.cons_append]
      · intro h
        have := hd h
        omega

theorem quotable_toDigits (n : Nat) : Quotable (Nat.toDigits 10 n) := by
  have hdigits : ∀ ds : List Char, (∀ c ∈ ds, isDigit c = true) → Quotable ds := by
    intro ds hds rest
    induction ds with
    | nil => simp [scanText]
    | cons c ds ih =>
      have hc : '0' ≤ c := by
        have := hds c List.mem_cons_self
        simp only [isDigit, Bool.and_eq_true, decide_eq_true_eq] at this
        exact this.1
      have hcode : 48 ≤ c.toNat := hc
      -- No digit is a quote, a backslash or a control character.
      have hquote : c ≠ '"' := by rintro rfl; exact absurd hcode (by decide)
      have hback : c ≠ '\\' := by
        rintro rfl
        exact absurd (hds '\\' List.mem_cons_self) (by decide)
      have hcontrol : ¬ c.toNat < 32 := by omega
      have hrest := ih fun d hd => hds d (List.mem_cons_of_mem c hd)
      simp [scanText, hquote, hback, hcontrol, hrest]
  exact hdigits _ fun c hc => isDigit_of_mem_toDigits hc

/-! ### Number literals -/

/-- The text does not go on with something that a number literal could take. -/
def EndsNumber (rest : List Char) : Prop :=
  ∀ c ∈ rest.head?, isDigit c = false ∧ c ≠ '.' ∧ c ≠ 'e' ∧ c ≠ 'E'

theorem endsNumber_nil : EndsNumber [] := by
  intro c hc
  cases hc

theorem endsNumber_cons {c : Char} (h : isDigit c = false ∧ c ≠ '.' ∧ c ≠ 'e' ∧ c ≠ 'E')
    (rest : List Char) : EndsNumber (c :: rest) := by
  intro d hd
  obtain rfl := Option.some.inj hd
  exact h

theorem endsNumber_blank {blanks rest : List Char} (h : ∀ c ∈ blanks, isSpace c = true)
    (hrest : EndsNumber rest) : EndsNumber (blanks ++ rest) := by
  cases blanks with
  | nil => exact hrest
  | cons c cs =>
    have hspace := h c List.mem_cons_self
    simp only [isSpace, Bool.or_eq_true, decide_eq_true_eq] at hspace
    apply endsNumber_cons
    obtain ((rfl | rfl) | rfl) | rfl := hspace <;> decide

theorem spanDigits_append {ds rest : List Char} (hds : ∀ c ∈ ds, isDigit c = true)
    (hrest : EndsNumber rest) : spanDigits (ds ++ rest) = (ds, rest) := by
  unfold spanDigits
  rw [List.takeWhile_append_of_pos hds, List.dropWhile_append_of_pos hds]
  cases rest with
  | nil => simp
  | cons c tail => simp [(hrest c rfl).1]

theorem scanWhole_toDigits (n : Nat) {rest : List Char} (hrest : EndsNumber rest) :
    scanWhole (Nat.toDigits 10 n ++ rest) = some (n, rest) := by
  obtain ⟨d, ds, hn, hzero⟩ := toDigits_eq_cons n
  have hdigits : ∀ c ∈ d :: ds, isDigit c = true := by
    intro c hc
    rw [← hn] at hc
    exact isDigit_of_mem_toDigits hc
  rw [hn, List.cons_append]
  simp only [scanWhole]
  by_cases hd : d = '0'
  · -- Zero is written with one digit.
    have hds : ds = [] := by
      rw [hzero hd, Nat.toDigits_zero] at hn
      exact (List.cons.inj hn).2.symm
    rw [if_pos hd, hzero hd, hds, List.nil_append]
  · have hspan := spanDigits_append (fun c hc => hdigits c (List.mem_cons_of_mem d hc)) hrest
    rw [if_neg hd, if_pos (hdigits d List.mem_cons_self), hspan, ← hn, digitsValue_toDigits]

theorem scanUnsigned_toDigits (negative : Bool) (n : Nat) {rest : List Char}
    (hrest : EndsNumber rest) :
    scanUnsigned negative (Nat.toDigits 10 n ++ rest) =
      some (if negative && n == 0 then .other else .int (if negative then -(n : Int) else n),
        rest) := by
  have hfraction : scanFraction rest = some (false, rest) := by
    unfold scanFraction
    split
    · exact absurd rfl (hrest '.' rfl).2.1
    · rfl
  have hexponent : scanExponent rest = some (false, rest) := by
    unfold scanExponent
    split
    · exact absurd rfl (hrest 'e' rfl).2.2.1
    · exact absurd rfl (hrest 'E' rfl).2.2.2
    · rfl
  simp only [scanUnsigned, scanWhole_toDigits n hrest, hfraction, hexponent, Bool.false_or]
  split <;> rfl

theorem render_ofNat (n : Nat) : (Number.int n).render = Nat.toDigits 10 n := by
  simp [Number.render, Int.repr_eq_if]

theorem render_negSucc (n : Nat) :
    (Number.int (.negSucc n)).render = '-' :: Nat.toDigits 10 (n + 1) := by
  simp [Number.render, Int.repr]

theorem scanNumber_digit {c : Char} (hc : isDigit c = true) (cs : List Char) :
    scanNumber (c :: cs) = scanUnsigned false (c :: cs) := by
  unfold scanNumber
  split
  · next h =>
    obtain ⟨rfl, -⟩ := List.cons.inj h
    cases hc
  · rfl

/-- A number literal that was written is read back, whatever the number. -/
theorem scanNumber_render (n : Number) {rest : List Char} (hrest : EndsNumber rest) :
    scanNumber (n.render ++ rest) = some (n, rest) := by
  cases n with
  | other => exact scanUnsigned_toDigits true 0 hrest
  | int z =>
    cases z with
    | ofNat n =>
      obtain ⟨d, ds, hn, -⟩ := toDigits_eq_cons n
      have hd : isDigit d = true := isDigit_of_mem_toDigits (hn ▸ List.mem_cons_self)
      have hscan := scanUnsigned_toDigits false n hrest
      show scanNumber ((Number.int n).render ++ rest) = some (.int n, rest)
      rw [render_ofNat]
      rw [hn, List.cons_append] at hscan ⊢
      rw [scanNumber_digit hd, hscan]
      rfl
    | negSucc n =>
      rw [render_negSucc]
      exact scanUnsigned_toDigits true (n + 1) hrest

/-- A number literal starts with a minus sign or a digit. -/
theorem render_eq_cons (n : Number) :
    ∃ c cs, n.render = c :: cs ∧ (c = '-' ∨ isDigit c = true) := by
  cases n with
  | other => exact ⟨'-', ['0'], rfl, Or.inl rfl⟩
  | int z =>
    cases z with
    | ofNat n =>
      obtain ⟨d, ds, hn, -⟩ := toDigits_eq_cons n
      refine ⟨d, ds, (render_ofNat n).trans hn, Or.inr ?_⟩
      exact isDigit_of_mem_toDigits (hn ▸ List.mem_cons_self)
    | negSucc n => exact ⟨'-', _, render_negSucc n, Or.inl rfl⟩

/-! ### Cutting off one token -/

theorem tokens_blank {blanks : List Char} (h : ∀ c ∈ blanks, isSpace c = true) (rest : List Char) :
    tokens (blanks ++ rest) = tokens rest := by
  induction blanks with
  | nil => rfl
  | cons c cs ih =>
    rw [List.cons_append, tokens, if_pos (h c List.mem_cons_self)]
    exact ih fun d hd => h d (List.mem_cons_of_mem c hd)

theorem tokens_of_next? {c : Char} {cs rest : List Char} {t : Token} (hc : isSpace c = false)
    (h : next? (c :: cs) = some (t, rest)) : tokens (c :: cs) = t :: tokens rest := by
  rw [tokens, if_neg (by simp [hc])]
  split
  · next heq =>
    rw [h] at heq
    cases heq
    rfl
  · next heq =>
    rw [h] at heq
    cases heq

theorem tokens_quote {l : Lexeme} (h : Quotable l) (rest : List Char) :
    tokens (quote l ++ rest) = .str l :: tokens rest := by
  have hquote : quote l ++ rest = '"' :: (l ++ '"' :: rest) := by
    simp [quote]
  rw [hquote]
  apply tokens_of_next? rfl
  show (scanText (l ++ '"' :: rest)).map (fun r => (Token.str r.1, r.2)) = _
  rw [h rest]
  rfl

theorem tokens_number (n : Number) {rest : List Char} (hrest : EndsNumber rest) :
    tokens (n.render ++ rest) = .num n :: tokens rest := by
  obtain ⟨c, cs, hn, hc⟩ := render_eq_cons n
  -- The first character neither is a blank nor starts another kind of token.
  have hspace : isSpace c = false := by
    cases hs : isSpace c with
    | false => rfl
    | true =>
      simp only [isSpace, Bool.or_eq_true, decide_eq_true_eq] at hs
      obtain ((rfl | rfl) | rfl) | rfl := hs <;> exact absurd hc (by decide)
  have hnext : ∀ cs, next? (c :: cs) = (scanNumber (c :: cs)).map fun r => (.num r.1, r.2) := by
    intro cs
    unfold next?
    split
    case h_11 => rfl
    all_goals
      next h =>
        obtain ⟨rfl, -⟩ := List.cons.inj h
        exact absurd hc (by decide)
  have hscan := scanNumber_render n hrest
  rw [hn, List.cons_append] at hscan ⊢
  apply tokens_of_next? hspace
  rw [hnext, hscan]
  rfl

/-! ### The tokens of a tree -/

mutual

/-- The tokens of a tree, in the order in which they are written. -/
def toTokens : Json → List Token
  | .null => [.null]
  | .bool b => [.bool b]
  | .num n => [.num n]
  | .str l => [.str l]
  | .arr [] => [.openArr, .closeArr]
  | .arr (item :: items) => .openArr :: toTokens item ++ itemTokens items ++ [.closeArr]
  | .obj [] => [.openObj, .closeObj]
  | .obj ((name, value) :: members) =>
    .openObj :: .str name :: .colon :: toTokens value ++ memberTokens members ++ [.closeObj]

/-- The tokens of the items after the first. -/
def itemTokens : List Json → List Token
  | [] => []
  | item :: items => .comma :: toTokens item ++ itemTokens items

/-- The tokens of the members after the first. -/
def memberTokens : List (Lexeme × Json) → List Token
  | [] => []
  | (name, value) :: members =>
    .comma :: .str name :: .colon :: toTokens value ++ memberTokens members

end

/-- All texts and names of the tree can stand between quotes. -/
inductive Printable : Json → Prop where
  | null : Printable .null
  | bool (b : Bool) : Printable (.bool b)
  | num (n : Number) : Printable (.num n)
  | str {l : Lexeme} (h : Quotable l) : Printable (.str l)
  | arr {items : List Json} (h : ∀ j ∈ items, Printable j) : Printable (.arr items)
  | obj {members : List (Lexeme × Json)} (hnames : ∀ m ∈ members, Quotable m.1)
      (hvalues : ∀ m ∈ members, Printable m.2) : Printable (.obj members)

/-- The style puts nothing but blanks between the tokens. -/
structure Style.Spaced (style : Style) : Prop where
  /-- Before an item, and before a closing mark. -/
  gap : ∀ depth, ∀ c ∈ style.gap depth, isSpace c = true
  /-- After a colon. -/
  colon : ∃ blanks, style.colon = ':' :: blanks ∧ ∀ c ∈ blanks, isSpace c = true

theorem Style.spaced_pretty : Style.pretty.Spaced where
  gap depth c hc := by
    obtain rfl | hc := List.mem_cons.mp hc
    · rfl
    · rw [(List.mem_replicate.mp hc).2]
      rfl
  colon := by
    refine ⟨[' '], rfl, ?_⟩
    intro c hc
    rw [List.mem_singleton.mp hc]
    rfl

/-- The text of the tree is cut into the tokens of the tree, at every depth and
    before everything that cannot go on with a number. -/
def Cuts (style : Style) (j : Json) : Prop :=
  ∀ depth rest, EndsNumber rest → tokens (render style depth j ++ rest) = j.toTokens ++ tokens rest

theorem endsNumber_renderItems (style : Style) (depth : Nat) (items : List Json)
    {rest : List Char} (hrest : EndsNumber rest) :
    EndsNumber (renderItems style depth items ++ rest) := by
  cases items with
  | nil => exact hrest
  | cons item items => exact endsNumber_cons (by decide) _

theorem endsNumber_renderMembers (style : Style) (depth : Nat) (members : List (Lexeme × Json))
    {rest : List Char} (hrest : EndsNumber rest) :
    EndsNumber (renderMembers style depth members ++ rest) := by
  cases members with
  | nil => exact hrest
  | cons member members => exact endsNumber_cons (by decide) _

section

variable {style : Style} (hstyle : style.Spaced)
include hstyle

theorem tokens_colon (rest : List Char) :
    tokens (style.colon ++ rest) = .colon :: tokens rest := by
  obtain ⟨blanks, hcolon, hblanks⟩ := hstyle.colon
  rw [hcolon, List.cons_append, tokens_of_next? rfl rfl, tokens_blank hblanks]

theorem tokens_renderItems {items : List Json} (hitems : ∀ j ∈ items, Cuts style j) (depth : Nat)
    {rest : List Char} (hrest : EndsNumber rest) :
    tokens (renderItems style depth items ++ rest) = itemTokens items ++ tokens rest := by
  induction items with
  | nil => rfl
  | cons item items ih =>
    have hfirst := hitems item List.mem_cons_self
    have hothers := ih fun j hj => hitems j (List.mem_cons_of_mem item hj)
    have hend := endsNumber_renderItems style depth items hrest
    simp only [renderItems, itemTokens, List.cons_append, List.append_assoc]
    rw [tokens_of_next? rfl rfl, tokens_blank (hstyle.gap depth), hfirst depth _ hend, hothers]

theorem tokens_renderMembers {members : List (Lexeme × Json)}
    (hnames : ∀ m ∈ members, Quotable m.1) (hvalues : ∀ m ∈ members, Cuts style m.2) (depth : Nat)
    {rest : List Char} (hrest : EndsNumber rest) :
    tokens (renderMembers style depth members ++ rest) = memberTokens members ++ tokens rest := by
  induction members with
  | nil => rfl
  | cons member members ih =>
    obtain ⟨name, value⟩ := member
    have hname : Quotable name := hnames _ List.mem_cons_self
    have hvalue : Cuts style value := hvalues _ List.mem_cons_self
    have hothers := ih (fun m hm => hnames m (List.mem_cons_of_mem _ hm))
      fun m hm => hvalues m (List.mem_cons_of_mem _ hm)
    have hend := endsNumber_renderMembers style depth members hrest
    simp only [renderMembers, memberTokens, List.cons_append, List.append_assoc]
    rw [tokens_of_next? rfl rfl, tokens_blank (hstyle.gap depth), tokens_quote hname,
      tokens_colon hstyle, hvalue depth _ hend, hothers]

/-- **The text of a tree is cut into the tokens of the tree.** -/
theorem tokens_render {j : Json} (h : j.Printable) : Cuts style j := by
  -- Before a closing mark stands a gap, so a number there has come to its end.
  have hclose : ∀ depth mark rest, isDigit mark = false ∧ mark ≠ '.' ∧ mark ≠ 'e' ∧ mark ≠ 'E' →
      EndsNumber (style.gap depth ++ mark :: rest) := by
    intro depth mark rest hmark
    exact endsNumber_blank (hstyle.gap depth) (endsNumber_cons hmark rest)
  induction h with
  | null => intro depth rest _; exact tokens_of_next? rfl rfl
  | bool b => intro depth rest _; cases b <;> exact tokens_of_next? rfl rfl
  | num n => intro depth rest hrest; exact tokens_number n hrest
  | str hl => intro depth rest _; exact tokens_quote hl rest
  | @arr items _ ih =>
    intro depth rest _
    cases items with
    | nil =>
      show tokens ('[' :: ']' :: rest) = .openArr :: .closeArr :: tokens rest
      rw [tokens_of_next? rfl rfl, tokens_of_next? rfl rfl]
    | cons item items =>
      have hfirst := ih item List.mem_cons_self
      have hothers : ∀ j ∈ items, Cuts style j := fun j hj => ih j (List.mem_cons_of_mem item hj)
      have hend := hclose depth ']' rest (by decide)
      have hitems := endsNumber_renderItems style (depth + 1) items hend
      simp only [render, toTokens, List.cons_append, List.append_assoc, List.nil_append]
      rw [tokens_of_next? rfl rfl, tokens_blank (hstyle.gap (depth + 1)), hfirst _ _ hitems,
        tokens_renderItems hstyle hothers _ hend, tokens_blank (hstyle.gap depth),
        tokens_of_next? rfl rfl]
  | @obj members hnames _ ih =>
    intro depth rest _
    cases members with
    | nil =>
      show tokens ('\x7b' :: '\x7d' :: rest) = .openObj :: .closeObj :: tokens rest
      rw [tokens_of_next? rfl rfl, tokens_of_next? rfl rfl]
    | cons member members =>
      obtain ⟨name, value⟩ := member
      have hname : Quotable name := hnames _ List.mem_cons_self
      have hfirst : Cuts style value := ih _ List.mem_cons_self
      have hend := hclose depth '\x7d' rest (by decide)
      have hmembers := endsNumber_renderMembers style (depth + 1) members hend
      have hothers := tokens_renderMembers hstyle (fun m hm => hnames m (List.mem_cons_of_mem _ hm))
        (fun m hm => ih m (List.mem_cons_of_mem _ hm)) (depth + 1) hend
      simp only [render, toTokens, List.cons_append, List.append_assoc, List.nil_append]
      rw [tokens_of_next? rfl rfl, tokens_blank (hstyle.gap (depth + 1)), tokens_quote hname,
        tokens_colon hstyle, hfirst _ _ hmembers, hothers, tokens_blank (hstyle.gap depth),
        tokens_of_next? rfl rfl]

end

/-- The pretty text of a tree has the tokens of the tree and no others. -/
theorem tokens_pretty {j : Json} (h : j.Printable) : tokens j.pretty.toList = j.toTokens := by
  have hcuts := tokens_render Style.spaced_pretty h 0 [] endsNumber_nil
  have hnil : tokens [] = [] := by rw [tokens]
  rw [List.append_nil, hnil, List.append_nil] at hcuts
  rw [pretty, String.toList_ofList]
  exact hcuts

end SsaFlow.Json
