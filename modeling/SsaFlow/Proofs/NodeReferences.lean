import Mathlib.Data.List.Basic
import Mathlib.Data.List.TakeWhile
import Mathlib.Data.Nat.Digits.Defs
import SsaFlow.Flow.Graph
import SsaFlow.Proofs.JsonTokens

/-! # Texts that refer to nodes

    A node is asked for by a text: the number of its instruction in decimal, with a
    letter and a sign in front if one likes, and white space around it.

    * `Text.Trims`: a text and what is left of it without the white space around it.
      It is what `Text.trim` computes, by `Text.trims_trim` and `Text.Trims.trim_eq`.
    * `InstrId.Spells`, `InstrId.Refers`: numerals and references, as a grammar.
    * `InstrId.parse?_eq_some_iff`, `parse?_eq_none_iff`: the references that are read.
    * `FlowGraph.nodeOfText_iff_refers`: the node or the error for every text.
-/

namespace SsaFlow

/-! ### White space around a text -/

namespace Text

variable {cs core : List Char}

/-- `core` is what is left of a text without the white space around it. -/
structure Trims (cs core : List Char) : Prop where
  /-- Only white space is taken away, at the two ends. -/
  parts : ∃ before after, cs = before ++ core ++ after ∧ (∀ c ∈ before, isBlank c = true) ∧
    ∀ c ∈ after, isBlank c = true
  /-- What is left does not start with white space. -/
  starts : ∀ c ∈ core.head?, isBlank c = false
  /-- Nor does it end with any. -/
  ends : ∀ c ∈ core.getLast?, isBlank c = false

/-- A text without white space is left as it is. -/
theorem Trims.of_no_blanks (h : ∀ c ∈ cs, isBlank c = false) : Trims cs cs where
  parts := ⟨[], [], by simp, by simp, by simp⟩
  starts c hc := h c (List.mem_of_mem_head? hc)
  ends c hc := h c (List.mem_of_mem_getLast? hc)

/-- Where dropping white space stops there is none. -/
theorem head?_dropWhile (cs : List Char) :
    ∀ c ∈ (cs.dropWhile isBlank).head?, isBlank c = false := by
  intro c hc
  have h := List.head?_dropWhile_not isBlank cs
  rw [Option.mem_def.mp hc] at h
  exact h

theorem dropWhile_of_starts (h : ∀ c ∈ cs.head?, isBlank c = false) :
    cs.dropWhile isBlank = cs := by
  cases cs with
  | nil => rfl
  | cons c rest =>
    have hc : isBlank c = false := h c rfl
    rw [List.dropWhile_cons, hc]
    rfl

/-- Trimming at the end takes away white space only, and all of it. -/
theorem trimRight_append (hends : ∀ c ∈ core.getLast?, isBlank c = false) {after : List Char}
    (hafter : ∀ c ∈ after, isBlank c = true) : trimRight (core ++ after) = core := by
  unfold trimRight
  rw [List.reverse_append, List.dropWhile_append_of_pos, dropWhile_of_starts, List.reverse_reverse]
  · rw [List.head?_reverse]
    exact hends
  · intro c hc
    exact hafter c (List.mem_reverse.mp hc)

/-- What is left is what trimming gives. -/
theorem Trims.trim_eq (h : Trims cs core) : trim cs = core := by
  obtain ⟨before, after, rfl, hbefore, hafter⟩ := h.parts
  unfold trim
  rw [List.append_assoc, List.dropWhile_append_of_pos hbefore]
  cases core with
  | nil =>
    -- A text of white space only is dropped at its front.
    have hnil : after.dropWhile isBlank = [] := List.dropWhile_eq_nil_iff.mpr hafter
    rw [List.nil_append, hnil]
    rfl
  | cons c rest =>
    have hstarts : ∀ d ∈ (c :: rest ++ after).head?, isBlank d = false := h.starts
    rw [dropWhile_of_starts hstarts]
    exact trimRight_append h.ends hafter

/-- Every text is white space around what trimming gives. -/
theorem trims_trim (cs : List Char) : Trims cs (trim cs) := by
  -- The white space at the end is taken off what the front leaves.
  let rest := cs.dropWhile isBlank
  let after := (rest.reverse.takeWhile isBlank).reverse
  have hrest : trim cs ++ after = rest := by
    show (rest.reverse.dropWhile isBlank).reverse ++ (rest.reverse.takeWhile isBlank).reverse = rest
    rw [← List.reverse_append, List.takeWhile_append_dropWhile, List.reverse_reverse]
  refine ⟨⟨cs.takeWhile isBlank, after, ?_, ?_, ?_⟩, ?_, ?_⟩
  · rw [List.append_assoc, hrest]
    exact List.takeWhile_append_dropWhile.symm
  · intro c hc
    exact List.mem_takeWhile_imp hc
  · intro c hc
    exact List.mem_takeWhile_imp (List.mem_reverse.mp hc)
  · -- What is left starts as the text does after its leading white space.
    intro c hc
    apply head?_dropWhile cs
    show c ∈ rest.head?
    rw [← hrest, List.head?_append, Option.mem_def.mp hc]
    rfl
  · intro c hc
    apply head?_dropWhile rest.reverse
    rw [← List.getLast?_reverse]
    exact hc

end Text

/-! ### The grammar of references -/

namespace InstrId

/-- The characters are a numeral for `n`: decimal digits, the highest first, one or
    more, with zeros in front or without. -/
def Spells (cs : List Char) (n : Nat) : Prop :=
  ∃ digits : List Nat, digits ≠ [] ∧ (∀ d ∈ digits, d < 10) ∧ cs = digits.map Nat.digitChar ∧
    n = Nat.ofDigits 10 digits.reverse

/-- The characters refer to the number `n`: a letter that may be left out, a sign that
    may be left out, and a numeral. -/
def Refers (cs : List Char) (n : Nat) : Prop :=
  ∃ letter sign numeral, cs = letter ++ sign ++ numeral ∧ (letter = [] ∨ letter = ['i']) ∧
    (sign = [] ∨ sign = ['+']) ∧ Spells numeral n

variable {cs : List Char} {n : Nat} {c : Char}

/-! ### Numerals -/

theorem isDigit_digitChar {d : Nat} (h : d < 10) : Json.isDigit d.digitChar = true := by
  have hmem : d.digitChar ∈ Nat.toDigits 10 d := by
    rw [Nat.toDigits_of_lt_base h]
    exact List.mem_cons_self
  exact Json.isDigit_of_mem_toDigits hmem

theorem toNat_of_isDigit (h : Json.isDigit c = true) : 48 ≤ c.toNat ∧ c.toNat ≤ 57 := by
  unfold Json.isDigit at h
  rw [Bool.and_eq_true, decide_eq_true_iff, decide_eq_true_iff] at h
  exact h

/-- Every digit is that of its value. -/
theorem digitChar_of_isDigit (h : Json.isDigit c = true) : Nat.digitChar (c.toNat - 48) = c := by
  obtain ⟨hlow, hhigh⟩ := toNat_of_isDigit h
  apply Char.toNat_inj.mp
  rw [Nat.toNat_digitChar_of_lt_ten (by omega)]
  omega

/-- The value is counted up from the highest digit. -/
theorem digitsValue_map_digitChar {digits : List Nat} (h : ∀ d ∈ digits, d < 10) :
    Json.digitsValue (digits.map Nat.digitChar) = Nat.ofDigits 10 digits.reverse := by
  unfold Json.digitsValue
  rw [List.foldl_map, Nat.ofDigits_eq_foldr, List.foldr_reverse]
  apply List.foldl_ext
  intro value d hd
  rw [Nat.toNat_digitChar_sub_48_of_lt_ten (h d hd)]
  simp only [Nat.cast_id]
  omega

theorem spells_iff (cs : List Char) (n : Nat) :
    Spells cs n ↔ cs ≠ [] ∧ cs.all Json.isDigit = true ∧ Json.digitsValue cs = n := by
  constructor
  · intro h
    obtain ⟨digits, hsome, hsmall, rfl, rfl⟩ := h
    refine ⟨?_, ?_, digitsValue_map_digitChar hsmall⟩
    · intro hnil
      exact hsome (List.map_eq_nil_iff.mp hnil)
    · rw [List.all_map, List.all_eq_true]
      intro d hd
      exact isDigit_digitChar (hsmall d hd)
  · intro h
    obtain ⟨hsome, hall, rfl⟩ := h
    rw [List.all_eq_true] at hall
    -- The digits are those that the characters stand for, and writing them gives the
    -- characters back.
    let digits := cs.map fun c => c.toNat - 48
    have hsmall : ∀ d ∈ digits, d < 10 := by
      intro d hd
      obtain ⟨c, hc, rfl⟩ := List.mem_map.mp hd
      have hrange := toNat_of_isDigit (hall c hc)
      omega
    have hback : digits.map Nat.digitChar = cs := by
      rw [List.map_map]
      refine Eq.trans (List.map_congr_left ?_) (List.map_id cs)
      intro c hc
      exact digitChar_of_isDigit (hall c hc)
    refine ⟨digits, ?_, hsmall, hback.symm, ?_⟩
    · intro hnil
      exact hsome (List.map_eq_nil_iff.mp hnil)
    · rw [← digitsValue_map_digitChar hsmall, hback]

theorem Spells.isDigit (h : Spells cs n) : ∀ c ∈ cs, Json.isDigit c = true := by
  obtain ⟨-, hall, -⟩ := (spells_iff cs n).mp h
  exact List.all_eq_true.mp hall

/-- The number of an instruction is spelled by its digits. -/
theorem spells_toDigits (n : Nat) : Spells (Nat.toDigits 10 n) n := by
  rw [spells_iff, List.all_eq_true]
  refine ⟨Nat.toDigits_ne_nil, ?_, Json.digitsValue_toDigits n⟩
  intro c hc
  exact Json.isDigit_of_mem_toDigits hc

/-! ### Marks in front -/

theorem afterMark_cons (mark c : Char) (rest : List Char) :
    afterMark mark (c :: rest) = if c = mark then rest else c :: rest := rfl

/-- A text that cannot start with a mark, after one that may be there. -/
theorem afterMark_iff {mark : Char} {P : List Char → Prop} (hP : ∀ rest, ¬ P (mark :: rest))
    (cs : List Char) :
    P (afterMark mark cs) ↔
      ∃ front rest, cs = front ++ rest ∧ (front = [] ∨ front = [mark]) ∧ P rest := by
  constructor
  · intro h
    cases cs with
    | nil => exact ⟨[], [], rfl, .inl rfl, h⟩
    | cons c rest =>
      rw [afterMark_cons] at h
      split at h
      · next heq =>
        subst heq
        exact ⟨[c], rest, rfl, .inr rfl, h⟩
      · exact ⟨[], c :: rest, rfl, .inl rfl, h⟩
  · intro h
    obtain ⟨front, rest, rfl, rfl | rfl, h⟩ := h
    · cases rest with
      | nil => exact h
      | cons c rest =>
        -- The mark itself cannot stand here.
        have hne : c ≠ mark := by
          intro heq
          rw [heq] at h
          exact hP rest h
        rw [List.nil_append, afterMark_cons, if_neg hne]
        exact h
    · rw [List.singleton_append, afterMark_cons, if_pos rfl]
      exact h

/-- A reference is a numeral once its marks are skipped. -/
theorem refers_iff (cs : List Char) (n : Nat) :
    Refers cs n ↔ Spells (afterMark '+' (afterMark 'i' cs)) n := by
  -- No numeral starts with a sign, and nothing with a sign in front or without starts
  -- with the letter, so skipping a mark once is all that can be done.
  have hsign : ∀ rest, ¬ Spells ('+' :: rest) n := by
    intro rest h
    exact absurd (h.isDigit '+' List.mem_cons_self) (by decide)
  have hletter : ∀ rest, ¬ Spells (afterMark '+' ('i' :: rest)) n := by
    intro rest h
    exact absurd (h.isDigit 'i' List.mem_cons_self) (by decide)
  rw [afterMark_iff (P := fun cs => Spells (afterMark '+' cs) n) hletter]
  simp only [afterMark_iff (P := fun cs => Spells cs n) hsign]
  constructor
  · intro h
    obtain ⟨letter, sign, numeral, rfl, hletters, hsigns, hspells⟩ := h
    exact ⟨letter, sign ++ numeral, List.append_assoc .., hletters, sign, numeral, rfl, hsigns,
      hspells⟩
  · intro h
    obtain ⟨letter, rest, rfl, hletters, sign, numeral, rfl, hsigns, hspells⟩ := h
    exact ⟨letter, sign, numeral, (List.append_assoc ..).symm, hletters, hsigns, hspells⟩

/-! ### What is read -/

theorem parse?_eq_some_iff (cs : List Char) (i : InstrId) :
    parse? cs = some i ↔ ∃ n, Refers cs n ∧ n < UInt32.size ∧ i = .ofNat n := by
  simp only [refers_iff, spells_iff]
  unfold parse?
  generalize afterMark '+' (afterMark 'i' cs) = digits
  constructor
  · intro h
    obtain ⟨⟨hsome, hall, hlt⟩, hi⟩ := Option.ite_none_right_eq_some.mp h
    exact ⟨Json.digitsValue digits, ⟨hsome, hall, rfl⟩, hlt, (Option.some.inj hi).symm⟩
  · intro h
    obtain ⟨n, ⟨hsome, hall, rfl⟩, hlt, rfl⟩ := h
    exact if_pos ⟨hsome, hall, hlt⟩

/-- Nothing is read off a text that is no reference, or one to a number that is too
    large. -/
theorem parse?_eq_none_iff (cs : List Char) :
    parse? cs = none ↔ ∀ n, Refers cs n → UInt32.size ≤ n := by
  constructor
  · intro h n hn
    by_contra hlt
    have hsome := (parse?_eq_some_iff cs (.ofNat n)).mpr ⟨n, hn, Nat.lt_of_not_le hlt, rfl⟩
    rw [h] at hsome
    cases hsome
  · intro h
    cases hparse : parse? cs with
    | none => rfl
    | some i =>
      obtain ⟨n, hn, hlt, -⟩ := (parse?_eq_some_iff cs i).mp hparse
      exact absurd (h n hn) (Nat.not_le_of_lt hlt)

/-! ### Shown ids -/

theorem toList_text (i : InstrId) : i.text.toList = 'i' :: Nat.toDigits 10 i.val.toNat := by
  unfold text
  rw [String.toList_append, Nat.toString_eq_repr, Nat.toList_repr]
  rfl

/-- An id as it is shown is a reference to its number. -/
theorem refers_text (i : InstrId) : Refers i.text.toList i.val.toNat := by
  refine ⟨['i'], [], Nat.toDigits 10 i.val.toNat, ?_, .inr rfl, .inl rfl, spells_toDigits _⟩
  exact i.toList_text

/-- It has no white space around it. -/
theorem trim_text (i : InstrId) : Text.trim i.text.toList = i.text.toList := by
  apply Text.Trims.trim_eq
  apply Text.Trims.of_no_blanks
  intro c hc
  rw [toList_text] at hc
  rcases List.mem_cons.mp hc with rfl | hc
  · decide
  · -- White space starts above the digits, or ends below them.
    have hrange := toNat_of_isDigit (Json.isDigit_of_mem_toDigits hc)
    simp only [Text.isBlank, Bool.or_eq_false_iff, Bool.and_eq_false_iff, decide_eq_false_iff_not,
      beq_eq_false_iff_ne]
    omega

end InstrId

/-! ### Nodes -/

namespace FlowGraph

variable {g : FlowGraph} {text : String} {n : Nat}

theorem nodeAt_eq_ok_iff (i : InstrId) (node : Node) :
    g.nodeAt i = .ok node ↔ node = ⟨i⟩ ∧ ∃ inst, g.program.instr? i = some inst := by
  unfold nodeAt
  cases g.program.instr? i with
  | none => simp
  | some inst => simp [eq_comm]

theorem nodeAt_eq_error_iff (i : InstrId) (e : FlowError) :
    g.nodeAt i = .error e ↔ g.program.instr? i = none ∧ e = .unknownInstr i.text := by
  unfold nodeAt
  cases g.program.instr? i with
  | none => simp [eq_comm]
  | some inst => simp

/-- A reference to a number that is small enough asks for the node of that number. -/
theorem nodeOfText_of_refers (h : InstrId.Refers (Text.trim text.toList) n)
    (hn : n < UInt32.size) : g.nodeOfText text = g.nodeAt (.ofNat n) := by
  have hparse := (InstrId.parse?_eq_some_iff _ (.ofNat n)).mpr ⟨n, h, hn, rfl⟩
  simp only [nodeOfText, hparse]

/-- Any other text is handed back in the error, without the white space around it. -/
theorem nodeOfText_of_not_refers
    (h : ∀ n, InstrId.Refers (Text.trim text.toList) n → UInt32.size ≤ n) :
    g.nodeOfText text = .error (.unknownInstr (String.ofList (Text.trim text.toList))) := by
  simp only [nodeOfText, (InstrId.parse?_eq_none_iff _).mpr h]

/-- Every text is of one of the two kinds. -/
theorem nodeOfText_cases (g : FlowGraph) (text : String) :
    (∃ n, InstrId.Refers (Text.trim text.toList) n ∧ n < UInt32.size ∧
      g.nodeOfText text = g.nodeAt (.ofNat n)) ∨
    (∀ n, InstrId.Refers (Text.trim text.toList) n → UInt32.size ≤ n) ∧
      g.nodeOfText text = .error (.unknownInstr (String.ofList (Text.trim text.toList))) := by
  cases hparse : InstrId.parse? (Text.trim text.toList) with
  | some i =>
    obtain ⟨n, href, hn, -⟩ := (InstrId.parse?_eq_some_iff _ i).mp hparse
    exact .inl ⟨n, href, hn, nodeOfText_of_refers href hn⟩
  | none =>
    have hnot := (InstrId.parse?_eq_none_iff _).mp hparse
    exact .inr ⟨hnot, nodeOfText_of_not_refers hnot⟩

/-- **What a text refers to.** Take any program and any text, and let `core` be the text
    without the white space around it. The answer is the node of instruction `n` exactly
    if `core` is an optional letter, an optional sign and a numeral for `n`, `n` is below
    2^32 and the program has that instruction. Everything else is an unknown instruction:
    the error shows the id if only the instruction is missing, and `core` if no id is
    meant. An id as it is shown leads to its node. -/
theorem nodeOfText_iff_refers (g : FlowGraph) (text : String) :
    (∃ core, Text.Trims text.toList core ∧
      (∀ node, g.nodeOfText text = .ok node ↔
        ∃ n, InstrId.Refers core n ∧ n < UInt32.size ∧ node = ⟨.ofNat n⟩ ∧
          ∃ inst, g.program.instr? (.ofNat n) = some inst) ∧
      ∀ e, g.nodeOfText text = .error e ↔
        (∃ n, InstrId.Refers core n ∧ n < UInt32.size ∧ g.program.instr? (.ofNat n) = none ∧
          e = .unknownInstr (InstrId.ofNat n).text) ∨
        (∀ n, InstrId.Refers core n → UInt32.size ≤ n) ∧
          e = .unknownInstr (String.ofList core)) ∧
    ∀ i inst, g.program.instr? i = some inst → g.nodeOfText i.text = .ok ⟨i⟩ := by
  refine ⟨⟨Text.trim text.toList, Text.trims_trim _, ?_, ?_⟩, ?_⟩
  · intro node
    constructor
    · intro h
      rcases g.nodeOfText_cases text with ⟨n, href, hn, heq⟩ | ⟨-, heq⟩
      · obtain ⟨hnode, hinst⟩ := (nodeAt_eq_ok_iff _ node).mp (heq.symm.trans h)
        exact ⟨n, href, hn, hnode, hinst⟩
      · cases heq.symm.trans h
    · intro h
      obtain ⟨n, href, hn, hnode, hinst⟩ := h
      rw [nodeOfText_of_refers href hn, nodeAt_eq_ok_iff]
      exact ⟨hnode, hinst⟩
  · intro e
    constructor
    · intro h
      rcases g.nodeOfText_cases text with ⟨n, href, hn, heq⟩ | ⟨hnot, heq⟩
      · obtain ⟨hinst, he⟩ := (nodeAt_eq_error_iff _ e).mp (heq.symm.trans h)
        exact .inl ⟨n, href, hn, hinst, he⟩
      · exact .inr ⟨hnot, Except.error.inj (h.symm.trans heq)⟩
    · intro h
      rcases h with ⟨n, href, hn, hinst, he⟩ | ⟨hnot, he⟩
      · rw [nodeOfText_of_refers href hn, nodeAt_eq_error_iff]
        exact ⟨hinst, he⟩
      · rw [nodeOfText_of_not_refers hnot, he]
  · intro i inst hi
    have href : InstrId.Refers (Text.trim i.text.toList) i.val.toNat := by
      rw [i.trim_text]
      exact i.refers_text
    have hid : InstrId.ofNat i.val.toNat = i := congrArg InstrId.mk UInt32.ofNat_toNat
    rw [nodeOfText_of_refers href i.val.toNat_lt_size, hid, nodeAt_eq_ok_iff]
    exact ⟨rfl, inst, hi⟩

/-- A program with one instruction, which has the largest id. -/
def topmost : FlowGraph where
  program := Program.empty.insert
    { id := ⟨0⟩
      signature := ⟨"topmost", [], .void, none⟩
      entry := ⟨0⟩
      blocks := .ofList [(⟨0⟩, ⟨⟨0⟩, [⟨4294967295⟩], .ret⟩)]
      instrs := .ofList [(⟨4294967295⟩, ⟨⟨4294967295⟩, ⟨0⟩, ⟨0⟩, .ret none, .void, none, .unknown⟩)]
      exprs := .empty
      nextBlock := 1 }
  config := .standard
  bound := none

/-- It is found by its id as it is shown, and under leading zeros, a sign and wide
    blanks. The number after it is none of an instruction. -/
theorem topmost_found :
    (topmost.program.instr? ⟨4294967295⟩).isSome = true ∧
      topmost.nodeOfText (InstrId.text ⟨4294967295⟩) = .ok ⟨⟨4294967295⟩⟩ ∧
      topmost.nodeOfText "\u3000i+004294967295\n" = .ok ⟨⟨4294967295⟩⟩ ∧
      topmost.nodeOfText " 4294967296" = .error (.unknownInstr "4294967296") := by
  have hinst : (topmost.program.instr? ⟨4294967295⟩).isSome = true := by decide
  obtain ⟨inst, hi⟩ := Option.isSome_iff_exists.mp hinst
  obtain ⟨⟨core, htrims, hok, -⟩, hshown⟩ :=
    nodeOfText_iff_refers topmost "\u3000i+004294967295\n"
  obtain ⟨⟨core', htrims', -, herror⟩, -⟩ := nodeOfText_iff_refers topmost " 4294967296"
  have hcore : core = "i+004294967295".toList := htrims.trim_eq.symm.trans (by decide)
  have hcore' : core' = "4294967296".toList := htrims'.trim_eq.symm.trans (by decide)
  refine ⟨hinst, hshown _ inst hi, (hok _).mpr ⟨4294967295, ?_, by decide, rfl, inst, hi⟩,
    (herror _).mpr (.inr ⟨?_, ?_⟩)⟩
  · rw [hcore]
    exact ⟨['i'], ['+'], "004294967295".toList, rfl, .inr rfl, .inr rfl,
      [0, 0, 4, 2, 9, 4, 9, 6, 7, 2, 9, 5], by decide, by decide, by decide, by decide⟩
  · rw [hcore']
    exact (InstrId.parse?_eq_none_iff _).mp (by decide)
  · rw [hcore']
    rfl

end FlowGraph

end SsaFlow
