import SsaFlow.Ir.Constant
import SsaFlow.Ir.Ids
import SsaFlow.Ir.Location
import SsaFlow.Ir.Ty

/-! # Instructions and source expressions

    An instruction computes one value. What it does is its `Operation`; the
    instructions that an operation uses are its operands, each in a role. An
    instruction may be bound to the source expression whose value it computes;
    conversion expressions wrap another expression.

    Memory is in SSA form too: a load names the definition of the memory that it
    reads, and a chi joins a possible write (`part`) with the memory as it was
    before (`total`).
-/

namespace SsaFlow

/-! ### Operations -/

/-- The two-operand computations. -/
inductive BinaryOp where
  /-- Sum. -/
  | add
  /-- Difference. -/
  | sub
  /-- Product. -/
  | mul
  /-- Quotient. -/
  | div
  /-- Remainder. -/
  | rem
  /-- Bitwise and. -/
  | and
  /-- Bitwise or. -/
  | or
  /-- Bitwise exclusive or. -/
  | xor
  /-- Shift to the left. -/
  | shl
  /-- Shift to the right. -/
  | shr
  /-- A pointer moved by an offset. -/
  | pointerAdd
  deriving DecidableEq, Inhabited

/-- The comparisons. -/
inductive CompareOp where
  /-- Equal. -/
  | eq
  /-- Not equal. -/
  | ne
  /-- Less. -/
  | lt
  /-- Less or equal. -/
  | le
  /-- Greater. -/
  | gt
  /-- Greater or equal. -/
  | ge
  deriving DecidableEq, Inhabited

/-- How a value is converted. -/
inductive Conversion where
  /-- Without a check. -/
  | plain
  /-- With a check at run time. -/
  | checked
  /-- To a base class. -/
  | toBase
  /-- To a derived class. -/
  | toDerived
  deriving DecidableEq, Inhabited

/-- What a call calls. -/
inductive CallTarget where
  /-- A function that is known. -/
  | static (callee : FuncId)
  /-- Whatever an instruction's value points at. -/
  | indirect (callee : InstrId)
  deriving DecidableEq, Inhabited

/-- What an instruction does. -/
inductive Operation where
  /-- A constant. -/
  | constant (value : Constant)
  /-- The address of a variable. -/
  | variableAddress (name : String)
  /-- The value of a parameter on entry. -/
  | parameter (index : UInt64)
  /-- The receiver on entry. -/
  | receiver
  /-- The same value again. -/
  | copy (source : InstrId)
  /-- A read through `address` of the memory that `source` defines. -/
  | load (address source : InstrId)
  /-- A write of `value` through `address`. -/
  | store (address value : InstrId)
  /-- The value that belongs to the block from which control came. -/
  | phi (incoming : List (BlockId × InstrId))
  /-- A conversion. -/
  | convert (how : Conversion) (operand : InstrId)
  /-- Memory after a possible write of `part` over `total`. -/
  | chi (total part : InstrId)
  /-- A computation with two operands. -/
  | binary (op : BinaryOp) (left right : InstrId)
  /-- A comparison. -/
  | compare (op : CompareOp) (left right : InstrId)
  /-- A call. -/
  | call (target : CallTarget) (arguments : List InstrId) (object : Option InstrId)
  /-- Memory that a call writes through an argument: its position, or minus one
      for the receiver. -/
  | sideEffect (call : InstrId) (index : Int32)
  /-- The end of the function, with its result. -/
  | ret (value : Option InstrId)
  deriving DecidableEq, Inhabited

/-- The side effect index of a call's receiver. -/
def receiverIndex : Int32 := -1

/-- Whether the operands may be exchanged. -/
def BinaryOp.isCommutative : BinaryOp → Bool
  | add | mul | and | or | xor => true
  | _ => false

/-! ### Operands -/

/-- The part that an operand plays. -/
inductive Role where
  /-- The value that is passed on. -/
  | sourceValue
  /-- The value that comes from a block. -/
  | phiIncoming (block : BlockId)
  /-- The value that is converted. -/
  | unary
  /-- Memory before a possible write. -/
  | chiTotal
  /-- The possible write. -/
  | chiPart
  /-- The first of two. -/
  | left
  /-- The second of two. -/
  | right
  /-- The address of memory. -/
  | address
  /-- An argument of a call. -/
  | argument (index : UInt64)
  /-- The receiver of a call. -/
  | receiver
  /-- What is called. -/
  | callTarget
  /-- The call that has a side effect. -/
  | sideEffectCall
  /-- The result of a function. -/
  | returnValue
  deriving DecidableEq, Inhabited

/-- An instruction that another one uses. -/
structure Operand where
  /-- The part it plays. -/
  role : Role
  /-- The instruction. -/
  instr : InstrId
  deriving DecidableEq, Inhabited

namespace Operation

/-- The operands, in a fixed order. -/
def operands : Operation → List Operand
  | constant _ => []
  | variableAddress _ => []
  | parameter _ => []
  | receiver => []
  | copy source => [⟨.sourceValue, source⟩]
  | load address source => [⟨.address, address⟩, ⟨.sourceValue, source⟩]
  | store address value => [⟨.address, address⟩, ⟨.sourceValue, value⟩]
  | phi incoming => incoming.map fun e => ⟨.phiIncoming e.1, e.2⟩
  | convert _ operand => [⟨.unary, operand⟩]
  | chi total part => [⟨.chiTotal, total⟩, ⟨.chiPart, part⟩]
  | binary _ left right => [⟨.left, left⟩, ⟨.right, right⟩]
  | compare _ left right => [⟨.left, left⟩, ⟨.right, right⟩]
  | call target arguments object =>
    (match target with
      | .static _ => []
      | .indirect callee => [⟨.callTarget, callee⟩]) ++
    object.toList.map (fun o => ⟨.receiver, o⟩) ++
    arguments.zipIdx.map fun a => ⟨.argument (UInt64.ofNat a.2), a.1⟩
  | sideEffect source _ => [⟨.sideEffectCall, source⟩]
  | ret value => value.toList.map fun v => ⟨.returnValue, v⟩

/-- The first operand in a role. -/
def operandIn? (op : Operation) (role : Role) : Option InstrId :=
  (op.operands.find? fun o => o.role = role).map Operand.instr

/-- Whether the operation converts a value. -/
def isConversion : Operation → Bool
  | convert _ _ => true
  | _ => false

end Operation

/-! ### Instructions -/

/-- An instruction. -/
structure Instr where
  /-- Its id. -/
  id : InstrId
  /-- The function it says it belongs to. -/
  function : FuncId
  /-- The block it says it belongs to. -/
  block : BlockId
  /-- What it does. -/
  op : Operation
  /-- The type of its value. -/
  ty : Ty
  /-- The source expression whose value it computes. -/
  expr : Option ExprId
  /-- Where it comes from. -/
  location : Location
  deriving DecidableEq, Inhabited

/-- The operands of an instruction. -/
def Instr.operands (i : Instr) : List Operand := i.op.operands

/-! ### Source expressions -/

/-- What a source expression is. -/
inductive ExprKind where
  /-- A conversion of another expression; none for a conversion that has no
      source of its own. -/
  | conversion (operand : Option ExprId)
  /-- Anything else. -/
  | other
  deriving DecidableEq, Inhabited

/-- A source expression. -/
structure Expr where
  /-- Its id. -/
  id : ExprId
  /-- What it is. -/
  kind : ExprKind
  /-- Its text. -/
  text : String
  /-- Where it stands. -/
  location : Location
  deriving DecidableEq, Inhabited

/-- Whether an expression is a conversion. -/
def Expr.isConversion (e : Expr) : Bool :=
  match e.kind with
  | .conversion _ => true
  | .other => false

end SsaFlow
