import SsaFlow.Json.Render
import SsaFlow.Json.Shape

/-! # Types of values

    What an instruction may produce. `unknown` is the type of memory whose
    shape could not be determined: a write of that type may have reached any
    variable that escaped.

    Besides the type itself: its text, its size, and its saved form.
-/

namespace SsaFlow

/-- The type of a value. -/
inductive Ty where
  /-- No value. -/
  | void
  /-- A truth value. -/
  | bool
  /-- An integer of some width. -/
  | int (bits : UInt16) (signed : Bool)
  /-- A floating-point number of some width. -/
  | float (bits : UInt16)
  /-- A pointer. -/
  | pointer (target : Ty)
  /-- A reference. -/
  | reference (target : Ty)
  /-- A class, by name. -/
  | named (name : String)
  /-- A function. -/
  | function (params : List Ty) (returns : Ty)
  /-- Memory of a shape that is not known. -/
  | unknown
  deriving Inhabited

namespace Ty

/-! ### Equality -/

mutual

/-- Whether two types are the same. -/
def same : Ty → Ty → Bool
  | void, void => true
  | bool, bool => true
  | int bits signed, int bits' signed' => bits == bits' && signed == signed'
  | float bits, float bits' => bits == bits'
  | pointer t, pointer t' => same t t'
  | reference t, reference t' => same t t'
  | named name, named name' => name == name'
  | function params returns, function params' returns' =>
    sameAll params params' && same returns returns'
  | unknown, unknown => true
  | _, _ => false

/-- Whether two lists of types are the same. -/
def sameAll : List Ty → List Ty → Bool
  | [], [] => true
  | t :: rest, t' :: rest' => same t t' && sameAll rest rest'
  | _, _ => false

end

mutual

theorem same_iff : (a b : Ty) → (same a b = true ↔ a = b)
  | void, b => by cases b <;> simp [same]
  | bool, b => by cases b <;> simp [same]
  | int _ _, b => by cases b <;> simp [same]
  | float _, b => by cases b <;> simp [same]
  | pointer t, b => by cases b <;> simp [same, same_iff t]
  | reference t, b => by cases b <;> simp [same, same_iff t]
  | named _, b => by cases b <;> simp [same]
  | function params returns, b => by
    cases b <;> simp [same, sameAll_iff params, same_iff returns]
  | unknown, b => by cases b <;> simp [same]

theorem sameAll_iff : (a b : List Ty) → (sameAll a b = true ↔ a = b)
  | [], b => by cases b <;> simp [sameAll]
  | t :: rest, b => by cases b <;> simp [sameAll, same_iff t, sameAll_iff rest]

end

instance : DecidableEq Ty := fun a b => decidable_of_iff _ (same_iff a b)

/-! ### Questions -/

/-- Whether the shape is not known. -/
def isUnknown : Ty → Bool
  | unknown => true
  | _ => false

/-- Whether values are numbers. -/
def isNumeric : Ty → Bool
  | int _ _ => true
  | float _ => true
  | _ => false

/-- What a pointer or a reference points at. -/
def pointee? : Ty → Option Ty
  | pointer t => some t
  | reference t => some t
  | _ => none

/-- The size of a value in bytes; a class is handled through its address. -/
def byteSize : Ty → Nat
  | void => 0
  | unknown => 0
  | bool => 1
  | int bits _ => (bits.toNat + 7) / 8
  | float bits => (bits.toNat + 7) / 8
  | pointer _ => 8
  | reference _ => 8
  | named _ => 8
  | function _ _ => 8

/-! ### Text -/

mutual

/-- A type as it is shown. -/
def text : Ty → String
  | void => "void"
  | bool => "bool"
  | int bits true => "int" ++ toString bits.toNat
  | int bits false => "uint" ++ toString bits.toNat
  | float bits => "float" ++ toString bits.toNat
  | pointer t => t.text ++ "*"
  | reference t => t.text ++ "&"
  | named name => "class " ++ name
  | function params returns =>
    "fn(" ++ String.intercalate ", " (texts params) ++ ") -> " ++ returns.text
  | unknown => "unknown"

/-- Types as they are shown, one by one. -/
def texts : List Ty → List String
  | [] => []
  | t :: rest => t.text :: texts rest

end

/-! ### Saved form -/

mutual

/-- A type as a tree. -/
def toJson : Ty → Json
  | void => .ofString "Void"
  | bool => .ofString "Bool"
  | int bits signed =>
    .ofMembers [("Int", .ofMembers [("bits", .ofNat bits.toNat), ("signed", .bool signed)])]
  | float bits => .ofMembers [("Float", .ofNat bits.toNat)]
  | pointer t => .ofMembers [("Pointer", t.toJson)]
  | reference t => .ofMembers [("Reference", t.toJson)]
  | named name => .ofMembers [("Class", .ofString name)]
  | function params returns =>
    .ofMembers [("Function",
      .ofMembers [("params", .arr (toJsons params)), ("returns", returns.toJson)])]
  | unknown => .ofString "Unknown"

/-- Types as trees, one by one. -/
def toJsons : List Ty → List Json
  | [] => []
  | t :: rest => t.toJson :: toJsons rest

end

/-- The types without content, by name. -/
def ofName? (name : String) : Option Ty :=
  if name = "Void" then some void
  else if name = "Bool" then some bool
  else if name = "Unknown" then some unknown
  else none

/-- An integer type's record. -/
def readInt : Json.Reader Ty :=
  Json.readRecord ["bits", "signed"] fun
    | room, [bits, signed] => do
      let bits ← Json.required Json.readUInt16 room bits
      let signed ← Json.required Json.readBool room signed
      return int bits signed
    | _, _ => none

/-- A type off its tree. Every type inside another stands inside at least one
    container more, so the room left bounds the depth. -/
def read : Json.Reader Ty
  | 0, .str l => (Json.text? l).bind ofName?
  | 0, _ => none
  | room + 1, j =>
    match Json.variant? j with
    | none => none
    | some (name, none) => ofName? name
    | some (name, some payload) =>
      if name = "Int" then readInt room payload
      else if name = "Float" then (Json.readUInt16 room payload).map float
      else if name = "Pointer" then (read room payload).map pointer
      else if name = "Reference" then (read room payload).map reference
      else if name = "Class" then (Json.readString room payload).map named
      else if name = "Function" then
        match room with
        | inner + 2 =>
          match Json.fields? ["params", "returns"] payload with
          | some [some (.arr params), some returns] => do
            let params ← params.mapM (fun p => read inner p)
            let returns ← read (inner + 1) returns
            return function params returns
          | _ => none
        | _ => none
      else if Json.isUnit (some payload) then ofName? name
      else none

end Ty

end SsaFlow
