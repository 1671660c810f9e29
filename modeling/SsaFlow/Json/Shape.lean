import SsaFlow.Data.OrderedMap
import SsaFlow.Json.Parse

/-! # Shapes of JSON trees

    How trees stand for values: numbers of a width, texts, lists, records,
    variants and maps keyed by ids. A `Reader` refuses a tree of another shape.

    * **Nesting.** A reader is told how many containers it may still open; a
      part that it skips may be nested to any depth.
    * **Records** are objects with the fields in any order, unknown ones skipped
      and known ones at most once, or arrays of all fields in order.
    * **Variants** are a bare name, or an object with one member.
    * **Maps** are objects whose names are plain decimal numerals; a repeated
      key keeps its first place and its last value.
-/

namespace SsaFlow.Json

/-- A way to read a value off a tree, given how many containers may still be
    opened. -/
abbrev Reader (α : Type) := (room : Nat) → Json → Option α

/-- The number of containers that may be open at once. -/
def maxNesting : Nat := 127

/-! ### Scalars -/

/-- An integer literal. -/
def int? : Json → Option Int
  | .num (.int z) => some z
  | _ => none

/-- An integer literal from zero up to below `bound`. -/
def below? (bound : Nat) (j : Json) : Option Nat := do
  let z ← int? j
  if 0 ≤ z ∧ z.toNat < bound then some z.toNat else none

/-- A 16-bit unsigned integer. -/
def readUInt16 : Reader UInt16 := fun _ j => (below? UInt16.size j).map UInt16.ofNat

/-- A 32-bit unsigned integer. -/
def readUInt32 : Reader UInt32 := fun _ j => (below? UInt32.size j).map UInt32.ofNat

/-- A 64-bit unsigned integer. -/
def readUInt64 : Reader UInt64 := fun _ j => (below? UInt64.size j).map UInt64.ofNat

/-- A 32-bit signed integer. -/
def readInt32 : Reader Int32 := fun _ j => do
  let z ← int? j
  if -2147483648 ≤ z ∧ z ≤ 2147483647 then some (Int32.ofInt z) else none

/-- A truth value. -/
def readBool : Reader Bool
  | _, .bool b => some b
  | _, _ => none

/-- The text that a lexeme stands for. -/
def text? (l : Lexeme) : Option String := (unescape l).map String.ofList

/-- A text. -/
def readString : Reader String
  | _, .str l => text? l
  | _, _ => none

/-! ### Options, lists, pairs -/

/-- A value, or `null` for its absence. -/
def readOption {α : Type} (read : Reader α) : Reader (Option α)
  | _, .null => some none
  | room, j => (read room j).map some

/-- An array of any length. -/
def readList {α : Type} (read : Reader α) : Reader (List α)
  | room + 1, .arr items => items.mapM (read room)
  | _, _ => none

/-- An array of two items. -/
def readPair {α β : Type} (first : Reader α) (second : Reader β) : Reader (α × β)
  | room + 1, .arr [a, b] => do
    let x ← first room a
    let y ← second room b
    return (x, y)
  | _, _ => none

/-! ### Records -/

/-- The value of the member called `name`: absent, once, or refused when the
    name is repeated. -/
def member? (members : List (String × Json)) (name : String) : Option (Option Json) :=
  match members.filter (fun m => m.1 = name) with
  | [] => some none
  | [m] => some (some m.2)
  | _ => none

/-- The members of an object, with their names resolved. -/
def named? (members : List (Lexeme × Json)) : Option (List (String × Json)) :=
  members.mapM fun m => (text? m.1).map fun name => (name, m.2)

/-- The fields of a record, in the order of `names`; a field is absent where an
    object has no member of its name. -/
def fields? (names : List String) : Json → Option (List (Option Json))
  | .arr items => if items.length = names.length then some (items.map some) else none
  | .obj members => do
    let members ← named? members
    names.mapM (member? members)
  | _ => none

/-- A field that has to be there. -/
def required {α : Type} (read : Reader α) (room : Nat) (field : Option Json) : Option α :=
  field.bind (read room)

/-- A field that may be absent or `null`. -/
def optional {α : Type} (read : Reader α) (room : Nat) (field : Option Json) : Option (Option α) :=
  match field with
  | none => some none
  | some j => readOption read room j

/-! ### Variants -/

/-- The name of a variant and, if it is written as an object, its payload. -/
def variant? : Json → Option (String × Option Json)
  | .str l => (text? l).map fun name => (name, none)
  | .obj [(l, payload)] => (text? l).map fun name => (name, some payload)
  | _ => none

/-- Whether a variant without content is written as one: no payload, or
    `null`. -/
def isUnit : Option Json → Bool
  | none => true
  | some .null => true
  | some _ => false

/-- A variant: `unit` knows the names without content, `tagged` reads the
    payload of the others. -/
def readVariant {α : Type} (unit : String → Option α) (tagged : String → Reader α) : Reader α
  | _, .str l => (text? l).bind unit
  | room + 1, .obj [(l, payload)] =>
    match text? l with
    | none => none
    | some name =>
      match unit name with
      | some a => if isUnit (some payload) then some a else none
      | none => tagged name room payload
  | _, _ => none

/-- A record with the given fields: `build` reads them, with the room that is
    left inside. -/
def readRecord {α : Type} (names : List String) (build : Nat → List (Option Json) → Option α) :
    Reader α
  | room + 1, j => (fields? names j).bind (build room)
  | _, _ => none

/-! ### Maps keyed by ids -/

/-- A plain decimal numeral below 2^32: digits, no sign and no leading zero. -/
def numeral? (l : Lexeme) : Option UInt32 :=
  match l with
  | [] => none
  | d :: rest =>
    if l.all isDigit ∧ (d ≠ '0' ∨ rest = []) ∧ digitsValue l < UInt32.size then
      some (UInt32.ofNat (digitsValue l))
    else none

/-- A member whose name is an id. -/
def readEntry {κ α : Type} (key : UInt32 → κ) (read : Reader α) (room : Nat)
    (member : Lexeme × Json) : Option (κ × α) := do
  let k ← numeral? member.1
  let v ← read room member.2
  return (key k, v)

/-- An object whose names are ids. -/
def readMap {κ α : Type} [DecidableEq κ] [Coded κ] (key : UInt32 → κ) (read : Reader α) :
    Reader (OrderedMap κ α)
  | room + 1, .obj members => (members.mapM (readEntry key read room)).map OrderedMap.ofList
  | _, _ => none

/-- An entry as a member whose name is the id. -/
def ofEntry {κ α : Type} (key : κ → UInt32) (write : α → Json) (e : κ × α) : Lexeme × Json :=
  ((toString (key e.1).toNat).toList, write e.2)

/-- A map keyed by ids, as an object. -/
def ofMap {κ α : Type} [DecidableEq κ] [Coded κ] (key : κ → UInt32) (write : α → Json)
    (m : OrderedMap κ α) : Json :=
  .obj (m.entries.map (ofEntry key write))

/-! ### Whole texts -/

/-- Read a text that holds one tree and nothing else. -/
def readText {α : Type} (read : Reader α) (text : String) : Option α := do
  let tree ← parseAll? text
  read maxNesting tree

end SsaFlow.Json
