import SsaFlow.Json.Shape
import SsaFlow.Text.Shortest

/-! # Constants

    The values that a program can write down: truth values, integers of any
    size, floating-point numbers by their bits, texts, and null.

    An integer is saved as its sign and its digits in base 2^32, lowest first.
    On reading, a zero sign makes the value zero whatever the digits say.
-/

namespace SsaFlow

/-- A constant value. -/
inductive Constant where
  /-- A truth value. -/
  | bool (value : Bool)
  /-- An integer. -/
  | int (value : Int)
  /-- A 64-bit floating-point number, by its bits. -/
  | float (bits : UInt64)
  /-- A text. -/
  | string (value : String)
  /-- The null pointer. -/
  | null
  deriving DecidableEq, Inhabited

namespace Constant

/-! ### Conversions -/

/-- An integer that fits into 64 bits. -/
def int64? (z : Int) : Option Int :=
  if -9223372036854775808 ≤ z ∧ z ≤ 9223372036854775807 then some z else none

/-- The constant as a 64-bit integer. -/
def toInt64? : Constant → Option Int
  | int z => int64? z
  | bool b => some (if b then 1 else 0)
  | _ => none

/-- The constant as a truth value: an integer is true unless it is zero. -/
def toBool? : Constant → Option Bool
  | bool b => some b
  | int z => some (z != 0)
  | null => some false
  | _ => none

/-! ### Text -/

/-- A constant as it is shown. A text stands between quotes as it is. -/
def text : Constant → String
  | bool true => "true"
  | bool false => "false"
  | int z => toString z
  | float bits => Text.Shortest.ofBits bits
  | string s => "\"" ++ s ++ "\""
  | null => "null"

/-! ### Saved form -/

/-- The digits of a natural number in base 2^32, lowest first. -/
def limbs (n : Nat) : List Nat :=
  if _h : n = 0 then [] else n % UInt32.size :: limbs (n / UInt32.size)
termination_by n
decreasing_by exact Nat.div_lt_self (Nat.pos_of_ne_zero _h) (by decide)

/-- The number with the given digits in base 2^32, lowest first. -/
def ofLimbs : List UInt32 → Nat
  | [] => 0
  | d :: rest => d.toNat + UInt32.size * ofLimbs rest

/-- An integer as a tree: its sign and digits. -/
def intJson (z : Int) : Json := .arr [.ofInt z.sign, .arr ((limbs z.natAbs).map .ofNat)]

/-- A constant as a tree. -/
def toJson : Constant → Json
  | bool b => .ofMembers [("Bool", .bool b)]
  | int z => .ofMembers [("Int", intJson z)]
  | float bits => .ofMembers [("Float", .ofNat bits.toNat)]
  | string s => .ofMembers [("String", .ofString s)]
  | null => .ofString "Null"

/-- A sign: minus one, zero or one. -/
def readSign : Json.Reader Int := fun _ j => do
  let z ← Json.int? j
  if z = -1 ∨ z = 0 ∨ z = 1 then some z else none

/-- An integer off its sign and digits. -/
def readInt : Json.Reader Int := fun room j => do
  let (sign, digits) ← Json.readPair readSign (Json.readList Json.readUInt32) room j
  return sign * (ofLimbs digits : Int)

/-- A constant off its tree. -/
def read : Json.Reader Constant :=
  Json.readVariant (fun name => if name = "Null" then some null else none)
    fun name room payload =>
      if name = "Bool" then (Json.readBool room payload).map bool
      else if name = "Int" then (readInt room payload).map int
      else if name = "Float" then (Json.readUInt64 room payload).map float
      else if name = "String" then (Json.readString room payload).map string
      else none

end Constant

end SsaFlow
