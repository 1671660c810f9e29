import SsaFlow.Flow.Config
import SsaFlow.Ir.Program
import SsaFlow.Text.Blank

/-! # Flow graphs and their nodes

    A flow graph is a program seen under a configuration. Its nodes are the
    instructions, one node each. This module holds the nodes, the look-ups by id
    and by name, and the text form of a node reference: a number, with or without
    a letter in front.
-/

namespace SsaFlow

/-- A node: the instruction behind it. -/
structure Node where
  /-- The instruction. -/
  instr : InstrId
  deriving DecidableEq, Inhabited

instance : Coded Node := ⟨fun n => Coded.code n.instr⟩

/-- A node as it is shown. -/
def Node.text (n : Node) : String := "node(" ++ n.instr.text ++ ")"

/-- The order of nodes: that of the instructions. -/
def Node.le (a b : Node) : Bool := a.instr.le b.instr

/-- A way to give instructions a tighter type than that of their result. -/
abbrev TypeBound := Program → Instr → Option Ty

namespace TypeBound

/-- Every number is a 64-bit integer. -/
def widen : TypeBound := fun _ i => if i.ty.isNumeric then some (.int 64 true) else none

/-- A pointer or a reference is what it points at. -/
def pointee : TypeBound := fun _ i => i.ty.pointee?

end TypeBound

/-- A program under a configuration. -/
structure FlowGraph where
  /-- The program. -/
  program : Program
  /-- What counts as a flow step. -/
  config : FlowConfig
  /-- Tighter types, if there are any. -/
  bound : Option TypeBound

/-- What can go wrong with a look-up. -/
inductive FlowError where
  /-- No function has this name. -/
  | unknownFunction (name : String)
  /-- No instruction is meant by this text. -/
  | unknownInstr (text : String)
  deriving DecidableEq

/-- The message of a failed look-up. -/
def FlowError.message : FlowError → String
  | unknownFunction name => "Unknown function: " ++ name
  | unknownInstr text => "Unknown instruction: " ++ text

/-! ### Node references -/

/-- What follows a mark that may stand in front of a text. -/
def InstrId.afterMark (mark : Char) : List Char → List Char
  | [] => []
  | c :: rest => if c = mark then rest else c :: rest

/-- The number that a reference spells: an optional letter `i`, an optional plus
    sign, and digits whose value is below 2^32. -/
def InstrId.parse? (cs : List Char) : Option InstrId :=
  let digits := afterMark '+' (afterMark 'i' cs)
  if digits ≠ [] ∧ digits.all Json.isDigit ∧ Json.digitsValue digits < UInt32.size then
    some (.ofNat (Json.digitsValue digits))
  else none

namespace FlowGraph

/-! ### Look-ups -/

/-- The instruction behind a node. -/
def instr? (g : FlowGraph) (n : Node) : Option Instr := g.program.instr? n.instr

/-- The function that the instruction behind a node names. -/
def enclosing? (g : FlowGraph) (n : Node) : Option FuncId := (g.instr? n).map Instr.function

/-- The function of a name. -/
def namedFunction (g : FlowGraph) (name : String) : Except FlowError Function :=
  match g.program.named? name with
  | some f => .ok f
  | none => .error (.unknownFunction name)

/-- The node of an instruction that exists. -/
def nodeAt (g : FlowGraph) (i : InstrId) : Except FlowError Node :=
  match g.program.instr? i with
  | some _ => .ok ⟨i⟩
  | none => .error (.unknownInstr i.text)

/-- The node that a text refers to. White space around the reference does not
    count. -/
def nodeOfText (g : FlowGraph) (text : String) : Except FlowError Node :=
  let trimmed := Text.trim text.toList
  match InstrId.parse? trimmed with
  | some i => g.nodeAt i
  | none => .error (.unknownInstr (String.ofList trimmed))

/-- The nodes of one function, in layout order. -/
def nodes (g : FlowGraph) (f : FuncId) : List Node :=
  match g.program.function? f with
  | some f => f.listing.map fun i => ⟨i.id⟩
  | none => []

/-! ### Types and places -/

/-- The type of a node's value. -/
def type? (g : FlowGraph) (n : Node) : Option Ty := (g.instr? n).map Instr.ty

/-- The tightest type that is known for a node's value. -/
def bound? (g : FlowGraph) (n : Node) : Option Ty :=
  (g.instr? n).map fun i => ((g.bound.bind fun b => b g.program i)).getD i.ty

/-- Where a node comes from. -/
def location? (g : FlowGraph) (n : Node) : Option Location := (g.instr? n).map Instr.location

end FlowGraph

end SsaFlow
