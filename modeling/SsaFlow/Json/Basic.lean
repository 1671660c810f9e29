import SsaFlow.Json.Text

/-! # JSON trees

    A JSON tree keeps a text and a member's name as they are written, so that
    whoever reads the tree decides whether the escapes matter: a name of a
    field is resolved first, a numeric key must be written plainly, and a part
    that nobody reads may even hold half a surrogate pair.
-/

namespace SsaFlow

/-- A number literal. -/
inductive Json.Number where
  /-- An integer: digits with an optional minus sign. -/
  | int (value : Int)
  /-- Any other literal: one with a fraction or an exponent, or minus zero. No
      field of any format here takes one, so its value is not kept. -/
  | other
  deriving DecidableEq, Inhabited

/-- A JSON tree. -/
inductive Json where
  /-- The literal `null`. -/
  | null
  /-- A truth value. -/
  | bool (value : Bool)
  /-- A number. -/
  | num (value : Json.Number)
  /-- A text, as written between its quotes. -/
  | str (text : Json.Lexeme)
  /-- An array. -/
  | arr (items : List Json)
  /-- An object: its members in the order in which they are written. -/
  | obj (members : List (Json.Lexeme × Json))
  deriving Inhabited

namespace Json

/-- The tree of a text. -/
def ofString (s : String) : Json := .str (escape s.toList)

/-- The tree of an integer. -/
def ofInt (z : Int) : Json := .num (.int z)

/-- The tree of a natural number. -/
def ofNat (n : Nat) : Json := .ofInt n

/-- An object with the given member names. -/
def ofMembers (members : List (String × Json)) : Json :=
  .obj (members.map fun m => (escape m.1.toList, m.2))

/-- A value that may be absent, written as `null` when it is. -/
def ofOption {α : Type} (write : α → Json) : Option α → Json
  | none => .null
  | some a => write a

/-- A list, written as an array. -/
def ofList {α : Type} (write : α → Json) (l : List α) : Json := .arr (l.map write)

end Json

end SsaFlow
