import SsaFlow.Ir.Ids

/-! # Blocks

    A block lists instructions and ends in a terminator, which says where
    control goes next. A block under construction has none yet.
-/

namespace SsaFlow

/-- How a block ends. -/
inductive Terminator where
  /-- Control goes to one block. -/
  | jump (target : BlockId)
  /-- Control goes to one of two blocks, as a condition says. -/
  | branch (condition : InstrId) (thenBlock elseBlock : BlockId)
  /-- Control leaves the function. -/
  | ret
  /-- Control never gets here. -/
  | unreachable
  /-- The block has no end yet. -/
  | unset
  deriving DecidableEq, Inhabited

namespace Terminator

/-- The blocks to which control may go, in the order in which they are named. -/
def successors : Terminator → List BlockId
  | jump target => [target]
  | branch _ thenBlock elseBlock => [thenBlock, elseBlock]
  | _ => []

/-- The condition of a branch. -/
def condition? : Terminator → Option InstrId
  | branch condition _ _ => some condition
  | _ => none

end Terminator

/-- A block. -/
structure Block where
  /-- Its id. -/
  id : BlockId
  /-- The instructions it lists, in order. -/
  instrs : List InstrId
  /-- How it ends. -/
  terminator : Terminator
  deriving DecidableEq, Inhabited

namespace Block

/-- A block that lists nothing and has no end yet. -/
def fresh (id : BlockId) : Block := ⟨id, [], .unset⟩

/-- Whether the block has an end. -/
def isTerminated (b : Block) : Bool :=
  match b.terminator with
  | .unset => false
  | _ => true

/-- The blocks to which control may go. -/
def successors (b : Block) : List BlockId := b.terminator.successors

/-- List one more instruction. -/
def append (b : Block) (i : InstrId) : Block := { b with instrs := b.instrs ++ [i] }

end Block

end SsaFlow
