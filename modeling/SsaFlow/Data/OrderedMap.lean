import SsaFlow.Data.Table

/-! # Insertion-ordered maps

    A finite map that remembers the order in which its keys first arrived.
    Writing to a key that is present replaces the value and keeps the key's
    place; a new key goes to the end.

    * **The view** is the list of entries; no key occurs twice in it, and the
      type carries the proof.
    * **The index** is a table that makes look-ups quick. It finds what the entries
      say, and it is kept out of sight: maps with the same entries are equal.
    * **Reading**: `find?`, `contains`, `keys`, `values`, `size`.
    * **Writing**: `insert`, `erase`, `adjust`, `insertAll`.
-/

namespace SsaFlow

/-- A finite map whose entries stand in insertion order. -/
structure OrderedMap (κ α : Type) [DecidableEq κ] [Coded κ] where
  /-- The entries, oldest key first. -/
  entries : List (κ × α)
  /-- No key occurs twice. -/
  distinct : (entries.map Prod.fst).Nodup
  /-- A table that finds what the entries say. -/
  index : Squash { t : Table κ α // ∀ k, t.find? k = Entries.lookup k entries }

namespace OrderedMap

variable {κ α : Type} [DecidableEq κ] [Coded κ]

/-! ### Reading -/

/-- The map with no entries. -/
def empty : OrderedMap κ α := ⟨[], List.nodup_nil, .mk ⟨.empty, fun _ => rfl⟩⟩

instance : EmptyCollection (OrderedMap κ α) := ⟨empty⟩

instance : Inhabited (OrderedMap κ α) := ⟨empty⟩

/-- The keys, oldest first. -/
def keys (m : OrderedMap κ α) : List κ := m.entries.map Prod.fst

/-- The values, in the order of their keys. -/
def values (m : OrderedMap κ α) : List α := m.entries.map Prod.snd

/-- The number of entries. -/
def size (m : OrderedMap κ α) : Nat := m.entries.length

/-- The value stored under `k`. -/
def find? (m : OrderedMap κ α) (k : κ) : Option α :=
  Quot.lift (fun t => t.val.find? k) (fun s t _ => (s.property k).trans (t.property k).symm) m.index

/-- Whether `k` has a value. -/
def contains (m : OrderedMap κ α) (k : κ) : Bool := (m.find? k).isSome

/-- A look-up finds what the entries say. -/
theorem find?_eq_lookup (m : OrderedMap κ α) (k : κ) :
    m.find? k = Entries.lookup k m.entries := by
  obtain ⟨entries, distinct, index⟩ := m
  induction index using Quot.ind with
  | mk t => exact t.property k

@[ext] theorem ext {m n : OrderedMap κ α} (h : m.entries = n.entries) : m = n := by
  cases m
  cases n
  cases h
  congr
  exact Subsingleton.elim _ _

@[simp] theorem keys_empty : (empty : OrderedMap κ α).keys = [] := rfl

theorem keys_nodup (m : OrderedMap κ α) : m.keys.Nodup := m.distinct

/-! ### Writing -/

/-- Store `v` under `k`, keeping the place of a key that is present. -/
def insert (m : OrderedMap κ α) (k : κ) (v : α) : OrderedMap κ α where
  entries := Entries.put k v m.entries
  distinct := Entries.nodup_put k v m.distinct
  index := m.index.lift fun t => .mk ⟨t.val.insert k v, fun j => by
    rw [Table.find?_insert, Entries.lookup_put, t.property]⟩

/-- Remove `k`; the other entries keep their order. -/
def erase (m : OrderedMap κ α) (k : κ) : OrderedMap κ α where
  entries := Entries.drop k m.entries
  distinct := Entries.nodup_drop k m.distinct
  index := m.index.lift fun t => .mk ⟨t.val.erase k, fun j => by
    rw [Table.find?_erase, Entries.lookup_drop, t.property]⟩

/-- Replace the value under `k` by its image; nothing happens without one. -/
def adjust (m : OrderedMap κ α) (k : κ) (change : α → α) : OrderedMap κ α where
  entries := Entries.adjust k change m.entries
  distinct := (Entries.keys_adjust k change m.entries).symm ▸ m.distinct
  index := m.index.lift fun t => .mk ⟨t.val.adjust k change, fun j => by
    rw [Table.find?_adjust, Entries.lookup_adjust, t.property]⟩

/-- Write a list of entries, first to last. -/
def insertAll (m : OrderedMap κ α) (l : List (κ × α)) : OrderedMap κ α :=
  l.foldl (fun m e => m.insert e.1 e.2) m

/-- The map that a list of entries describes: a repeated key keeps its first
    place and its last value. -/
def ofList (l : List (κ × α)) : OrderedMap κ α := empty.insertAll l

/-! ### Laws -/

@[simp] theorem find?_empty (k : κ) : (empty : OrderedMap κ α).find? k = none := rfl

theorem find?_insert (m : OrderedMap κ α) (k : κ) (v : α) (j : κ) :
    (m.insert k v).find? j = if j = k then some v else m.find? j := by
  rw [find?_eq_lookup, find?_eq_lookup]
  exact Entries.lookup_put k v m.entries j

theorem keys_insert (m : OrderedMap κ α) (k : κ) (v : α) :
    (m.insert k v).keys = if k ∈ m.keys then m.keys else m.keys ++ [k] :=
  Entries.keys_put k v m.entries

theorem contains_iff (m : OrderedMap κ α) (k : κ) : m.contains k = true ↔ k ∈ m.keys := by
  unfold contains
  rw [find?_eq_lookup]
  exact Entries.lookup_isSome_iff k m.entries

/-- What is found under a key is exactly what the entries say. -/
theorem find?_eq_some_iff (m : OrderedMap κ α) (k : κ) (v : α) :
    m.find? k = some v ↔ (k, v) ∈ m.entries := by
  rw [find?_eq_lookup]
  exact ⟨Entries.mem_of_lookup, Entries.lookup_of_mem m.distinct⟩

/-- Removing a key takes its value away and no other. -/
theorem find?_erase (m : OrderedMap κ α) (k j : κ) :
    (m.erase k).find? j = if j = k then none else m.find? j := by
  rw [find?_eq_lookup, find?_eq_lookup]
  exact Entries.lookup_drop k m.entries j

/-- Changing the value of a key changes it and no other. -/
theorem find?_adjust (m : OrderedMap κ α) (k : κ) (change : α → α) (j : κ) :
    (m.adjust k change).find? j = if j = k then (m.find? j).map change else m.find? j := by
  rw [find?_eq_lookup, find?_eq_lookup]
  exact Entries.lookup_adjust k change m.entries j

end OrderedMap

end SsaFlow
