import SsaFlow.Data.OrderedMap

/-! # Memo tables

    A table of values that were computed once. It counts how often a value was
    found (`hits`) and how often it had to be computed (`misses`). Entries are
    never changed: the value that was stored first stays.

    A table is usually a part of a larger state; `Slot` says which part, and
    `Slot.cached` looks a key up in it or runs a computation, which may itself use the
    state.
-/

namespace SsaFlow

/-- A table of computed values. Its counts have no bound, where counters of 64 bits
    start over at 2^64. That makes no difference before as many look-ups, since each
    adds one to the sum of the counts (`Memo.Grew.lookups`). Counts that do not come
    from a table may be larger, and `MemoStats.add?` and `MemoStats.hitShare?` refuse
    those. -/
structure Memo (κ α : Type) [DecidableEq κ] [Coded κ] where
  /-- The values, by key. -/
  entries : OrderedMap κ α
  /-- How many look-ups found a value. -/
  hits : Nat
  /-- How many look-ups found none. -/
  misses : Nat

/-- The counts of a memo table. -/
structure MemoStats where
  /-- How many look-ups found a value. -/
  hits : Nat
  /-- How many look-ups found none. -/
  misses : Nat
  /-- How many values are stored. -/
  entries : Nat
  deriving DecidableEq

namespace MemoStats

/-- The counts of two tables together. -/
def add (a b : MemoStats) : MemoStats :=
  ⟨a.hits + b.hits, a.misses + b.misses, a.entries + b.entries⟩

instance : Add MemoStats := ⟨add⟩

/-- Whether every count fits into 64 bits. -/
def fits (s : MemoStats) : Bool :=
  s.hits < UInt64.size && s.misses < UInt64.size && s.entries < UInt64.size

/-- The counts of two tables together, unless one of them outgrows 64 bits. -/
def add? (a b : MemoStats) : Option MemoStats := if (a + b).fits then some (a + b) else none

/-- The share of look-ups that found a value; zero without look-ups, and none if
    the look-ups are too many to be counted in 64 bits. -/
def hitShare? (s : MemoStats) : Option Float :=
  if s.hits + s.misses = 0 then some 0
  else if s.hits + s.misses < UInt64.size then
    some ((UInt64.ofNat s.hits).toFloat / (UInt64.ofNat (s.hits + s.misses)).toFloat)
  else none

/-- The counts as they are shown. -/
def text (s : MemoStats) : String :=
  "CacheStatistics \x7b hits: " ++ toString s.hits ++ ", misses: " ++ toString s.misses ++
    ", entries: " ++ toString s.entries ++ " \x7d"

end MemoStats

namespace Memo

variable {κ α : Type} [DecidableEq κ] [Coded κ]

/-- A table without values. -/
def empty : Memo κ α := ⟨.empty, 0, 0⟩

/-- The stored value of a key; nothing is counted. -/
def find? (t : Memo κ α) (k : κ) : Option α := t.entries.find? k

/-- The number of stored values. -/
def size (t : Memo κ α) : Nat := t.entries.size

/-- Count a look-up that found a value. -/
def countHit (t : Memo κ α) : Memo κ α := { t with hits := t.hits + 1 }

/-- Count a look-up that found none. -/
def countMiss (t : Memo κ α) : Memo κ α := { t with misses := t.misses + 1 }

/-- Store a value, unless the key has one already. -/
def store (t : Memo κ α) (k : κ) (v : α) : Memo κ α :=
  match t.find? k with
  | some _ => t
  | none => { t with entries := t.entries.insert k v }

/-- The counts of a table. -/
def stats (t : Memo κ α) : MemoStats := ⟨t.hits, t.misses, t.size⟩

end Memo

/-- A memo table that is a part of a state. -/
structure Slot (σ κ α : Type) [DecidableEq κ] [Coded κ] where
  /-- The table. -/
  get : σ → Memo κ α
  /-- The state with another table. -/
  set : σ → Memo κ α → σ

namespace Slot

variable {σ κ α : Type} [DecidableEq κ] [Coded κ]

/-- The table that is the whole state. -/
def whole : Slot (Memo κ α) κ α := ⟨id, fun _ t => t⟩

/-- The value of a key: the stored one, or else the computed one, which is stored
    unless the computation stored one itself. -/
def cached (slot : Slot σ κ α) (k : κ) (compute : StateM σ α) : StateM σ α := fun s =>
  match (slot.get s).find? k with
  | some v => (v, slot.set s (slot.get s).countHit)
  | none =>
    let (v, s') := compute (slot.set s (slot.get s).countMiss)
    let t := (slot.get s').store k v
    ((t.find? k).getD v, slot.set s' t)

end Slot

end SsaFlow
