import SsaFlow.Data.Entries

/-! # Tables

    Finite maps for quick look-ups. Each key has a number, and the binary digits
    of that number, lowest first, are the way to the key's entry in a tree. So a
    look-up takes as many steps as the number has digits, however much the table
    holds, as long as few keys share a number.

    * `find?_insert`, `find?_erase` and `find?_adjust` tell what writing does to
      look-ups.
    * `tabulate` stores the images of a list of keys, and `groups` collects the
      second halves of pairs under the first; `find?_tabulate` and `getD_groups`
      tell what they find.
-/

namespace SsaFlow

/-- A type whose values have numbers. Values may share one. -/
class Coded (κ : Type) where
  /-- The number of a value. -/
  code : κ → Nat

/-- Texts are told apart by comparison alone. -/
instance : Coded String := ⟨fun _ => 0⟩

/-! ### Trees -/

/-- A tree whose places are numbers: the root is zero, and below it the even
    numbers and the odd ones have a branch each, halved. -/
inductive DigitTree (α : Type) where
  /-- Nothing is stored here or below. -/
  | bare
  /-- What is stored here, and the branches. -/
  | fork (here : Option α) (even odd : DigitTree α)

namespace DigitTree

variable {α : Type}

/-- What is stored at the root. -/
def here : DigitTree α → Option α
  | bare => none
  | fork h _ _ => h

/-- The branch of the even numbers. -/
def even : DigitTree α → DigitTree α
  | bare => bare
  | fork _ e _ => e

/-- The branch of the odd numbers. -/
def odd : DigitTree α → DigitTree α
  | bare => bare
  | fork _ _ o => o

/-- What is stored at a place. -/
def find? : DigitTree α → Nat → Option α
  | bare, _ => none
  | fork h e o, n => if n = 0 then h else if n % 2 = 0 then e.find? (n / 2) else o.find? (n / 2)

/-- Store a value on the way to a place, at most `fuel` steps down. -/
def insertFrom (v : α) : (fuel : Nat) → (n : Nat) → DigitTree α → DigitTree α
  | 0, _, t => fork (some v) t.even t.odd
  | fuel + 1, n, t =>
    if n = 0 then fork (some v) t.even t.odd
    else if n % 2 = 0 then fork t.here (insertFrom v fuel (n / 2) t.even) t.odd
    else fork t.here t.even (insertFrom v fuel (n / 2) t.odd)

/-- Store a value at a place. No place is as many steps down as its number. -/
def insert (t : DigitTree α) (n : Nat) (v : α) : DigitTree α := insertFrom v n n t

@[simp] theorem find?_bare (n : Nat) : (bare : DigitTree α).find? n = none := rfl

theorem find?_zero (t : DigitTree α) : t.find? 0 = t.here := by
  cases t <;> rfl

theorem find?_of_even {n : Nat} (t : DigitTree α) (hn : n ≠ 0) (h : n % 2 = 0) :
    t.find? n = t.even.find? (n / 2) := by
  cases t with
  | bare => rfl
  | fork => simp [find?, even, hn, h]

theorem find?_of_odd {n : Nat} (t : DigitTree α) (h : n % 2 ≠ 0) :
    t.find? n = t.odd.find? (n / 2) := by
  have hn : n ≠ 0 := fun e => h (by simp [e])
  cases t with
  | bare => rfl
  | fork => simp [find?, odd, hn, h]

/-- Storing at the root changes nothing below. -/
theorem find?_fork_root (t : DigitTree α) (v : α) (m : Nat) :
    (fork (some v) t.even t.odd).find? m = if m = 0 then some v else t.find? m := by
  by_cases hm : m = 0
  · simp [find?, hm]
  · by_cases h : m % 2 = 0
    · simp [find?, hm, h, find?_of_even t hm h]
    · simp [find?, hm, h, find?_of_odd t h]

theorem find?_insertFrom (v : α) (fuel n : Nat) (t : DigitTree α) (hf : n ≤ fuel) (m : Nat) :
    (insertFrom v fuel n t).find? m = if m = n then some v else t.find? m := by
  induction fuel generalizing n t m with
  | zero =>
    have hn : n = 0 := Nat.le_zero.mp hf
    rw [hn]
    exact find?_fork_root t v m
  | succ fuel ih =>
    by_cases hn : n = 0
    · rw [insertFrom, if_pos hn, hn]
      exact find?_fork_root t v m
    · have hle : n / 2 ≤ fuel := by omega
      have hz : ¬ 0 = n := fun e => hn e.symm
      by_cases hp : n % 2 = 0
      · simp only [insertFrom, if_neg hn, if_pos hp, find?]
        by_cases hm : m = 0
        · simp [hm, hz, find?_zero]
        · by_cases h : m % 2 = 0
          · have heq : m / 2 = n / 2 ↔ m = n := by omega
            simp only [if_neg hm, if_pos h, ih (n / 2) t.even hle, heq, find?_of_even t hm h]
          · have hne : m ≠ n := fun e => h (e ▸ hp)
            simp only [if_neg hm, if_neg h, if_neg hne, find?_of_odd t h]
      · simp only [insertFrom, if_neg hn, if_neg hp, find?]
        by_cases hm : m = 0
        · simp [hm, hz, find?_zero]
        · by_cases h : m % 2 = 0
          · have hne : m ≠ n := fun e => hp (e ▸ h)
            simp only [if_neg hm, if_pos h, if_neg hne, find?_of_even t hm h]
          · have heq : m / 2 = n / 2 ↔ m = n := by omega
            simp only [if_neg hm, if_neg h, ih (n / 2) t.odd hle, heq, find?_of_odd t h]

theorem find?_insert (t : DigitTree α) (n : Nat) (v : α) (m : Nat) :
    (t.insert n v).find? m = if m = n then some v else t.find? m :=
  find?_insertFrom v n n t (Nat.le_refl n) m

/-- The image of every stored value. -/
def map {β : Type} (f : α → β) : DigitTree α → DigitTree β
  | bare => bare
  | fork h e o => fork (h.map f) (e.map f) (o.map f)

theorem find?_map {β : Type} (f : α → β) (t : DigitTree α) (n : Nat) :
    (t.map f).find? n = (t.find? n).map f := by
  induction t generalizing n with
  | bare => rfl
  | fork h e o ihe iho =>
    simp only [map, find?, ihe, iho]
    split
    · rfl
    · split <;> rfl

end DigitTree

/-! ### Tables -/

/-- A finite map from a type whose values have numbers. -/
structure Table (κ α : Type) where
  /-- The entries of the keys that share a number, at the place of that number. -/
  tree : DigitTree (List (κ × α))

namespace Table

section basic
variable {κ α : Type} [Coded κ]

/-- The table with nothing in it. -/
def empty : Table κ α := ⟨.bare⟩

/-- The entries of the keys that share a number with `k`. -/
def near (t : Table κ α) (k : κ) : List (κ × α) := (t.tree.find? (Coded.code k)).getD []

/-- Put other entries in place of those that share a number with `k`. -/
def replace (t : Table κ α) (k : κ) (l : List (κ × α)) : Table κ α :=
  ⟨t.tree.insert (Coded.code k) l⟩

theorem near_replace (t : Table κ α) (k : κ) (l : List (κ × α)) (j : κ) :
    (t.replace k l).near j = if Coded.code j = Coded.code k then l else t.near j := by
  unfold near replace
  rw [DigitTree.find?_insert]
  split <;> rfl

end basic

variable {κ α : Type} [DecidableEq κ] [Coded κ]

/-- The value of a key. -/
def find? (t : Table κ α) (k : κ) : Option α := Entries.lookup k (t.near k)

/-- Whether a key has a value. -/
def contains (t : Table κ α) (k : κ) : Bool := (t.find? k).isSome

/-- Store a value under a key. -/
def insert (t : Table κ α) (k : κ) (v : α) : Table κ α := t.replace k (Entries.put k v (t.near k))

/-- Remove a key. -/
def erase (t : Table κ α) (k : κ) : Table κ α := t.replace k (Entries.drop k (t.near k))

/-- Replace the value of a key by its image. -/
def adjust (t : Table κ α) (k : κ) (change : α → α) : Table κ α :=
  t.replace k (Entries.adjust k change (t.near k))

/-- The image of every value. -/
def map {β : Type} (f : α → β) (t : Table κ α) : Table κ β :=
  ⟨t.tree.map fun l => l.map fun e => (e.1, f e.2)⟩

@[simp] theorem find?_empty (k : κ) : (empty : Table κ α).find? k = none := rfl

/-- What a change of the entries near `k` does to look-ups, if it does to other
    keys what it should. -/
theorem find?_replace (t : Table κ α) (k : κ) (l : List (κ × α)) (j : κ)
    (h : j ≠ k → Entries.lookup j l = Entries.lookup j (t.near k)) :
    (t.replace k l).find? j = if j = k then Entries.lookup k l else t.find? j := by
  unfold find?
  rw [near_replace]
  by_cases hj : j = k
  · rw [if_pos hj, if_pos (congrArg Coded.code hj), hj]
  · rw [if_neg hj]
    by_cases hc : Coded.code j = Coded.code k
    · rw [if_pos hc, h hj]
      unfold near
      rw [hc]
    · rw [if_neg hc]

/-- After writing under `k`, reading `k` gives the new value and reading any
    other key gives what it gave before. -/
theorem find?_insert (t : Table κ α) (k : κ) (v : α) (j : κ) :
    (t.insert k v).find? j = if j = k then some v else t.find? j := by
  unfold insert
  rw [find?_replace _ _ _ _ fun hj => by rw [Entries.lookup_put, if_neg hj],
    Entries.lookup_put, if_pos rfl]

/-- Removing a key takes its value away and no other. -/
theorem find?_erase (t : Table κ α) (k j : κ) :
    (t.erase k).find? j = if j = k then none else t.find? j := by
  unfold erase
  rw [find?_replace _ _ _ _ fun hj => by rw [Entries.lookup_drop, if_neg hj],
    Entries.lookup_drop, if_pos rfl]

/-- Changing the value of a key changes it and no other. -/
theorem find?_adjust (t : Table κ α) (k : κ) (change : α → α) (j : κ) :
    (t.adjust k change).find? j = if j = k then (t.find? j).map change else t.find? j := by
  unfold adjust
  rw [find?_replace _ _ _ _ fun hj => by rw [Entries.lookup_adjust, if_neg hj],
    Entries.lookup_adjust, if_pos rfl]
  by_cases hj : j = k
  · rw [if_pos hj, if_pos hj, hj]
    rfl
  · rw [if_neg hj, if_neg hj]

theorem find?_map {β : Type} (f : α → β) (t : Table κ α) (k : κ) :
    (t.map f).find? k = (t.find? k).map f := by
  unfold find? near map
  rw [DigitTree.find?_map]
  cases t.tree.find? (Coded.code k) with
  | none => rfl
  | some l =>
    simp only [Option.map_some, Option.getD_some]
    induction l with
    | nil => rfl
    | cons e rest ih =>
      obtain ⟨k', v⟩ := e
      by_cases h : k' = k
      · simp [Entries.lookup, h]
      · simpa [Entries.lookup, h] using ih

/-- The table that stores an image under each key of a list. -/
def tabulate (keys : List κ) (f : κ → α) : Table κ α :=
  keys.foldr (fun k t => t.insert k (f k)) empty

theorem find?_tabulate (keys : List κ) (f : κ → α) (k : κ) :
    (tabulate keys f).find? k = if k ∈ keys then some (f k) else none := by
  induction keys with
  | nil => rfl
  | cons j rest ih =>
    show ((tabulate rest f).insert j (f j)).find? k = _
    rw [find?_insert, ih]
    by_cases h : k = j
    · simp [h]
    · simp [h]

/-- The second halves of pairs, in order, under the first. -/
def groups {β : Type} (pairs : List (κ × β)) : Table κ (List β) :=
  pairs.foldr (fun p t => t.insert p.1 (p.2 :: (t.find? p.1).getD [])) empty

/-- Under a key there are the second halves of the pairs that start with it. -/
theorem getD_groups {β : Type} (pairs : List (κ × β)) (k : κ) :
    ((groups pairs).find? k).getD [] = (pairs.filter fun p => p.1 = k).map Prod.snd := by
  induction pairs with
  | nil => simp [groups]
  | cons p rest ih =>
    by_cases h : p.1 = k
    · have hg : (groups (p :: rest)).find? k = some (p.2 :: ((groups rest).find? p.1).getD []) := by
        rw [groups, List.foldr_cons, find?_insert, if_pos h.symm]
        rfl
      rw [hg, List.filter_cons_of_pos (by simpa using h), List.map_cons, ← ih, h]
      rfl
    · have hg : (groups (p :: rest)).find? k = (groups rest).find? k := by
        rw [groups, List.foldr_cons, find?_insert, if_neg fun e => h e.symm]
        rfl
      rw [hg, List.filter_cons_of_neg (by simpa using h), ih]

end Table

end SsaFlow
