import SsaFlow.Data.Table
import SsaFlow.Json.Shape

/-! # Ids

    Functions, blocks, instructions and expressions are named by 32-bit
    numbers. Each family has a type of its own, and a letter in front of the
    number when it is shown.
-/

namespace SsaFlow

/-- The name of an instruction, shared by the whole program. -/
structure InstrId where
  /-- The number. -/
  val : UInt32
  deriving DecidableEq, Inhabited

/-- The name of a source expression, shared by the whole program. -/
structure ExprId where
  /-- The number. -/
  val : UInt32
  deriving DecidableEq, Inhabited

/-- The name of a function. -/
structure FuncId where
  /-- The number. -/
  val : UInt32
  deriving DecidableEq, Inhabited

/-- The name of a block of one function. -/
structure BlockId where
  /-- The number. -/
  val : UInt32
  deriving DecidableEq, Inhabited

/-! ### The numbers, for tables -/

instance : Coded InstrId := ⟨fun i => i.val.toNat⟩

instance : Coded ExprId := ⟨fun e => e.val.toNat⟩

instance : Coded FuncId := ⟨fun f => f.val.toNat⟩

instance : Coded BlockId := ⟨fun b => b.val.toNat⟩

/-! ### Shown form: a letter and the number -/

/-- An instruction id as it is shown. -/
def InstrId.text (i : InstrId) : String := "i" ++ toString i.val.toNat

/-- An expression id as it is shown. -/
def ExprId.text (e : ExprId) : String := "e" ++ toString e.val.toNat

/-- A function id as it is shown. -/
def FuncId.text (f : FuncId) : String := "f" ++ toString f.val.toNat

/-- A block id as it is shown. -/
def BlockId.text (b : BlockId) : String := "block" ++ toString b.val.toNat

/-- The instruction id with number `n`. -/
def InstrId.ofNat (n : Nat) : InstrId := ⟨UInt32.ofNat n⟩

/-- The expression id with number `n`. -/
def ExprId.ofNat (n : Nat) : ExprId := ⟨UInt32.ofNat n⟩

/-- The function id with number `n`. -/
def FuncId.ofNat (n : Nat) : FuncId := ⟨UInt32.ofNat n⟩

/-- The order of instruction ids. -/
def InstrId.le (a b : InstrId) : Bool := a.val ≤ b.val

/-- The order of block ids. -/
def BlockId.le (a b : BlockId) : Bool := a.val ≤ b.val

/-! ### Saved form: the bare number -/

/-- An instruction id as a tree. -/
def InstrId.toJson (i : InstrId) : Json := .ofNat i.val.toNat

/-- An instruction id off its tree. -/
def InstrId.read : Json.Reader InstrId := fun room j => (Json.readUInt32 room j).map InstrId.mk

/-- An expression id as a tree. -/
def ExprId.toJson (e : ExprId) : Json := .ofNat e.val.toNat

/-- An expression id off its tree. -/
def ExprId.read : Json.Reader ExprId := fun room j => (Json.readUInt32 room j).map ExprId.mk

/-- A function id as a tree. -/
def FuncId.toJson (f : FuncId) : Json := .ofNat f.val.toNat

/-- A function id off its tree. -/
def FuncId.read : Json.Reader FuncId := fun room j => (Json.readUInt32 room j).map FuncId.mk

/-- A block id as a tree. -/
def BlockId.toJson (b : BlockId) : Json := .ofNat b.val.toNat

/-- A block id off its tree. -/
def BlockId.read : Json.Reader BlockId := fun room j => (Json.readUInt32 room j).map BlockId.mk

end SsaFlow
