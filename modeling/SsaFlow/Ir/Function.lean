import SsaFlow.Ir.Block
import SsaFlow.Ir.Instr

/-! # Functions

    A function is a signature and a body: blocks, instructions and expressions,
    each in a map that remembers their order. The order of the blocks is the
    layout of the function, and the instructions of the function are those that
    its blocks list, in layout order.
-/

namespace SsaFlow

/-- A formal parameter. -/
structure Param where
  /-- Its name. -/
  name : String
  /-- Its type. -/
  ty : Ty
  deriving DecidableEq, Inhabited

/-- What callers of a function see. -/
structure Signature where
  /-- The function's name. -/
  name : String
  /-- The parameters. -/
  params : List Param
  /-- The type of the result. -/
  returns : Ty
  /-- The type of the receiver, for a member function. -/
  thisType : Option Ty
  deriving DecidableEq, Inhabited

/-- A function. -/
structure Function where
  /-- Its id. -/
  id : FuncId
  /-- What callers see. -/
  signature : Signature
  /-- The block where control starts. -/
  entry : BlockId
  /-- The blocks, in layout order. -/
  blocks : OrderedMap BlockId Block
  /-- The instructions. -/
  instrs : OrderedMap InstrId Instr
  /-- The source expressions. -/
  exprs : OrderedMap ExprId Expr
  /-- The number that the next new block gets. -/
  nextBlock : UInt32
  deriving Inhabited

namespace Function

/-- A function with an empty entry block and nothing else. -/
def fresh (id : FuncId) (name : String) : Function where
  id := id
  signature := ⟨name, [], .void, none⟩
  entry := ⟨0⟩
  blocks := OrderedMap.empty.insert ⟨0⟩ (Block.fresh ⟨0⟩)
  instrs := .empty
  exprs := .empty
  nextBlock := 1

/-- The function's name. -/
def name (f : Function) : String := f.signature.name

/-- The block stored under an id. -/
def block? (f : Function) (b : BlockId) : Option Block := f.blocks.find? b

/-- The instruction stored under an id. -/
def instr? (f : Function) (i : InstrId) : Option Instr := f.instrs.find? i

/-- The expression stored under an id. -/
def expr? (f : Function) (e : ExprId) : Option Expr := f.exprs.find? e

/-- The parameter at a position. -/
def param? (f : Function) (index : Nat) : Option Param := f.signature.params[index]?

/-- The ids that the blocks list, in layout order. -/
def listed (f : Function) : List InstrId := f.blocks.values.flatMap Block.instrs

/-- The instructions that the blocks list, in layout order; a listed id without
    an instruction is passed over. -/
def listing (f : Function) : List Instr := f.listed.filterMap f.instr?

/-- The ids of the blocks that may hand control to `b`, in layout order. -/
def predecessors (f : Function) (b : BlockId) : List BlockId :=
  (f.blocks.values.filter fun p => p.successors.contains b).map Block.id

/-- Every block that the function names: the stored ones, the targets of all
    terminators and the entry, in the order of their numbers. -/
def namedBlocks (f : Function) : List BlockId :=
  (f.blocks.keys ++ f.blocks.values.flatMap Block.successors ++ [f.entry]).mergeSort BlockId.le
    |>.eraseDups

/-- Add an empty block under the next number. A block that is already stored
    there is replaced, in its place. None once the numbers are used up. -/
def newBlock? (f : Function) : Option (BlockId × Function) :=
  if f.nextBlock.toNat + 1 < UInt32.size then
    let id : BlockId := ⟨f.nextBlock⟩
    some (id, { f with
      blocks := f.blocks.insert id (Block.fresh id)
      nextBlock := f.nextBlock + 1 })
  else none

end Function

end SsaFlow
