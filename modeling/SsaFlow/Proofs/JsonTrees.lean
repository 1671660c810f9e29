import SsaFlow.Proofs.JsonTokens

/-! # Reading back a written tree

    The machine that reads tokens rebuilds the tree whose tokens it is given,
    and the tokens show how deep the tree is.

    * `run_toTokens`: the tokens of a tree take the machine past that tree,
      whatever containers are open around it.
    * `parse?_pretty`: the text of a tree is read as that tree, with nothing left.
    * `depth`, `nesting`: how many containers are open at once, in a tree and in
      a text; `nesting_pretty` says that a tree and its text agree.
-/

namespace SsaFlow.Json

/-! ### Tokens to trees -/

/-- A first item is read like an item that has to come: no value starts with a
    closing bracket. -/
theorem run_firstItem (j : Json) (stack : List Frame) (ts : List Token) :
    run (.firstItem stack) (j.toTokens ++ ts) =
      run (.value (.arr [] :: stack)) (j.toTokens ++ ts) := by
  cases j with
  | arr items => cases items <;> rfl
  | obj members => cases members <;> rfl
  | _ => rfl

mutual

/-- The tokens of a tree are read as that tree. -/
theorem run_toTokens : (j : Json) → ∀ (stack : List Frame) (ts : List Token),
    run (.value stack) (j.toTokens ++ ts) = run (close stack j) ts
  | .null, stack, ts => rfl
  | .bool b, stack, ts => rfl
  | .num n, stack, ts => rfl
  | .str l, stack, ts => rfl
  | .arr [], stack, ts => rfl
  | .arr (item :: items), stack, ts => by
    have hitems := run_itemTokens items stack [item] ts
    have htokens : (arr (item :: items)).toTokens ++ ts =
        .openArr :: (item.toTokens ++ (itemTokens items ++ .closeArr :: ts)) := by
      simp [toTokens]
    rw [htokens]
    show run (.firstItem stack) (item.toTokens ++ (itemTokens items ++ .closeArr :: ts)) = _
    rw [run_firstItem, run_toTokens item]
    exact hitems
  | .obj [], stack, ts => rfl
  | .obj ((name, value) :: members), stack, ts => by
    have hmembers := run_memberTokens members stack [(name, value)] ts
    have htokens : (obj ((name, value) :: members)).toTokens ++ ts =
        .openObj :: .str name :: .colon ::
          (value.toTokens ++ (memberTokens members ++ .closeObj :: ts)) := by
      simp [toTokens]
    rw [htokens]
    show run (.value (.obj [] name :: stack))
      (value.toTokens ++ (memberTokens members ++ .closeObj :: ts)) = _
    rw [run_toTokens value]
    exact hmembers

/-- The items after the first join those read before, up to the closing bracket. -/
theorem run_itemTokens : (items : List Json) → ∀ (stack : List Frame) (before : List Json)
    (ts : List Token),
    run (.afterItem stack before) (itemTokens items ++ .closeArr :: ts) =
      run (close stack (.arr (before.reverse ++ items))) ts
  | [], stack, before, ts => by
    rw [List.append_nil]
    rfl
  | item :: items, stack, before, ts => by
    have hitems := run_itemTokens items stack (item :: before) ts
    have htokens : itemTokens (item :: items) ++ .closeArr :: ts =
        .comma :: (item.toTokens ++ (itemTokens items ++ .closeArr :: ts)) := by
      simp [itemTokens]
    rw [htokens]
    show run (.value (.arr before :: stack))
      (item.toTokens ++ (itemTokens items ++ .closeArr :: ts)) = _
    rw [run_toTokens item]
    rw [List.reverse_cons, List.append_assoc] at hitems
    exact hitems

/-- The members after the first join those read before, up to the closing brace. -/
theorem run_memberTokens : (members : List (Lexeme × Json)) → ∀ (stack : List Frame)
    (before : List (Lexeme × Json)) (ts : List Token),
    run (.afterMember stack before) (memberTokens members ++ .closeObj :: ts) =
      run (close stack (.obj (before.reverse ++ members))) ts
  | [], stack, before, ts => by
    rw [List.append_nil]
    rfl
  | (name, value) :: members, stack, before, ts => by
    have hmembers := run_memberTokens members stack ((name, value) :: before) ts
    have htokens : memberTokens ((name, value) :: members) ++ .closeObj :: ts =
        .comma :: .str name :: .colon ::
          (value.toTokens ++ (memberTokens members ++ .closeObj :: ts)) := by
      simp [memberTokens]
    rw [htokens]
    show run (.value (.obj before name :: stack))
      (value.toTokens ++ (memberTokens members ++ .closeObj :: ts)) = _
    rw [run_toTokens value]
    rw [List.reverse_cons, List.append_assoc] at hmembers
    exact hmembers

end

/-- **The text of a tree is read as that tree**, and nothing is left of it. -/
theorem parse?_pretty {j : Json} (h : j.Printable) : parse? j.pretty = some (j, []) := by
  have hrun := run_toTokens j [] []
  rw [List.append_nil] at hrun
  unfold parse?
  rw [tokens_pretty h, hrun]
  rfl

/-! ### Depth -/

mutual

/-- How many containers stand inside one another, the tree itself included. -/
def depth : Json → Nat
  | .arr items => depthItems items + 1
  | .obj members => depthMembers members + 1
  | _ => 0

/-- The depth of the deepest item. -/
def depthItems : List Json → Nat
  | [] => 0
  | item :: items => max item.depth (depthItems items)

/-- The depth of the deepest member. -/
def depthMembers : List (Lexeme × Json) → Nat
  | [] => 0
  | (_, value) :: members => max value.depth (depthMembers members)

end

theorem depthItems_le_iff (items : List Json) (room : Nat) :
    depthItems items ≤ room ↔ ∀ j ∈ items, j.depth ≤ room := by
  induction items with
  | nil => simp [depthItems]
  | cons item items ih => simp only [depthItems, Nat.max_le, ih, List.forall_mem_cons]

theorem depthMembers_le_iff (members : List (Lexeme × Json)) (room : Nat) :
    depthMembers members ≤ room ↔ ∀ m ∈ members, m.2.depth ≤ room := by
  induction members with
  | nil => simp [depthMembers]
  | cons member members ih => simp only [depthMembers, Nat.max_le, ih, List.forall_mem_cons]

/-- An array needs room for itself and, inside, for each of its items. -/
theorem depth_arr_le_iff (items : List Json) (room : Nat) :
    (arr items).depth ≤ room ↔ ∃ inner, room = inner + 1 ∧ ∀ j ∈ items, j.depth ≤ inner := by
  cases room with
  | zero => simp [depth]
  | succ inner => simp [depth, depthItems_le_iff]

/-- An object needs room for itself and, inside, for each of its members. -/
theorem depth_obj_le_iff (members : List (Lexeme × Json)) (room : Nat) :
    (obj members).depth ≤ room ↔ ∃ inner, room = inner + 1 ∧ ∀ m ∈ members, m.2.depth ≤ inner := by
  cases room with
  | zero => simp [depth]
  | succ inner => simp [depth, depthMembers_le_iff]

/-! ### Nesting of texts -/

/-- The number of open containers after a token. -/
def Token.opened (before : Nat) : Token → Nat
  | .openArr | .openObj => before + 1
  | .closeArr | .closeObj => before - 1
  | _ => before

/-- The largest number of containers that are open at once along the tokens. -/
def deepest (opened : Nat) : List Token → Nat
  | [] => opened
  | t :: ts => max opened (deepest (t.opened opened) ts)

/-- How deep the containers of a text are nested. -/
def nesting (text : String) : Nat := deepest 0 (tokens text.toList)

theorem le_deepest (opened : Nat) (ts : List Token) : opened ≤ deepest opened ts := by
  cases ts with
  | nil => exact Nat.le_refl _
  | cons t ts => exact Nat.le_max_left _ _

mutual

/-- The tokens of a tree open as many containers as the tree is deep, and close
    them all again. -/
theorem deepest_toTokens : (j : Json) → ∀ (opened : Nat) (ts : List Token),
    deepest opened (j.toTokens ++ ts) = max (opened + j.depth) (deepest opened ts)
  | .null, opened, ts => rfl
  | .bool b, opened, ts => rfl
  | .num n, opened, ts => rfl
  | .str l, opened, ts => rfl
  | .arr [], opened, ts => by
    simp only [toTokens, List.cons_append, List.nil_append, deepest, Token.opened, depth,
      depthItems, Nat.add_sub_cancel]
    omega
  | .arr (item :: items), opened, ts => by
    have hitem := deepest_toTokens item (opened + 1) (itemTokens items ++ .closeArr :: ts)
    have hitems := deepest_itemTokens items (opened + 1) (.closeArr :: ts)
    simp only [toTokens, List.cons_append, List.append_assoc, List.nil_append, deepest,
      Token.opened, depth, depthItems, hitem, hitems, Nat.add_sub_cancel]
    omega
  | .obj [], opened, ts => by
    simp only [toTokens, List.cons_append, List.nil_append, deepest, Token.opened, depth,
      depthMembers, Nat.add_sub_cancel]
    omega
  | .obj ((name, value) :: members), opened, ts => by
    have hvalue := deepest_toTokens value (opened + 1) (memberTokens members ++ .closeObj :: ts)
    have hmembers := deepest_memberTokens members (opened + 1) (.closeObj :: ts)
    simp only [toTokens, List.cons_append, List.append_assoc, List.nil_append, deepest,
      Token.opened, depth, depthMembers, hvalue, hmembers, Nat.add_sub_cancel]
    omega

theorem deepest_itemTokens : (items : List Json) → ∀ (opened : Nat) (ts : List Token),
    deepest opened (itemTokens items ++ ts) = max (opened + depthItems items) (deepest opened ts)
  | [], opened, ts => (Nat.max_eq_right (le_deepest opened ts)).symm
  | item :: items, opened, ts => by
    have hitem := deepest_toTokens item opened (itemTokens items ++ ts)
    have hitems := deepest_itemTokens items opened ts
    simp only [itemTokens, List.cons_append, List.append_assoc, deepest, Token.opened, depthItems,
      hitem, hitems]
    omega

theorem deepest_memberTokens : (members : List (Lexeme × Json)) →
    ∀ (opened : Nat) (ts : List Token), deepest opened (memberTokens members ++ ts) =
      max (opened + depthMembers members) (deepest opened ts)
  | [], opened, ts => (Nat.max_eq_right (le_deepest opened ts)).symm
  | (name, value) :: members, opened, ts => by
    have hvalue := deepest_toTokens value opened (memberTokens members ++ ts)
    have hmembers := deepest_memberTokens members opened ts
    simp only [memberTokens, List.cons_append, List.append_assoc, deepest, Token.opened,
      depthMembers, hvalue, hmembers]
    omega

end

/-- The text of a tree nests as deep as the tree does. -/
theorem nesting_pretty {j : Json} (h : j.Printable) : nesting j.pretty = j.depth := by
  have hdeepest := deepest_toTokens j 0 []
  rw [List.append_nil, Nat.zero_add] at hdeepest
  unfold nesting
  rw [tokens_pretty h, hdeepest]
  exact Nat.max_eq_left (Nat.zero_le _)

end SsaFlow.Json
