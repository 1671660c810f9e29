import SsaFlow.Data.OrderedMap
import SsaFlow.Ir.Ids

/-! # Construction contexts

    The numbers that the next instruction, expression and function get, the
    functions that have a number already, and notes of mistakes. One context
    serves all functions of a program, so that ids are unique in the program.
-/

namespace SsaFlow

/-- What the construction of a program has used up and noted. -/
structure Context where
  /-- The number of the next instruction. -/
  nextInstr : Nat
  /-- The number of the next expression. -/
  nextExpr : Nat
  /-- The number of the next function. -/
  nextFunc : Nat
  /-- The functions that have a number, in the order of their numbers. -/
  declared : OrderedMap String FuncId
  /-- The name of the function that was opened last. -/
  current : Option String
  /-- Mistakes that did not stop the construction. -/
  notes : List String

namespace Context

/-- The context at the start. -/
def empty : Context := ⟨0, 0, 0, .empty, none, []⟩

/-- A new instruction id. -/
def freshInstr (c : Context) : InstrId × Context :=
  (.ofNat c.nextInstr, { c with nextInstr := c.nextInstr + 1 })

/-- A new expression id. -/
def freshExpr (c : Context) : ExprId × Context :=
  (.ofNat c.nextExpr, { c with nextExpr := c.nextExpr + 1 })

/-- The id of a function: the one that its name has, or a new one. -/
def funcId (c : Context) (name : String) : FuncId × Context :=
  match c.declared.find? name with
  | some f => (f, c)
  | none =>
    let f := FuncId.ofNat c.nextFunc
    (f, { c with nextFunc := c.nextFunc + 1, declared := c.declared.insert name f })

/-- Note which function is under construction. -/
def setCurrent (c : Context) (name : String) : Context := { c with current := some name }

/-- Note a mistake. -/
def note (c : Context) (text : String) : Context := { c with notes := c.notes ++ [text] }

/-- Whether a mistake was noted. -/
def hasNotes (c : Context) : Bool := !c.notes.isEmpty

end Context

end SsaFlow
