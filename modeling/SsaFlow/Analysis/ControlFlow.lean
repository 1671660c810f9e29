import SsaFlow.Data.Digraph
import SsaFlow.Ir.Function

/-! # Control flow

    The edges between the blocks of one function. An edge goes from a stored
    block to a target of its terminator, whether or not that target is stored;
    a branch whose two targets are the same block has one edge.
-/

namespace SsaFlow

/-- The control flow of one function. -/
structure ControlFlow where
  /-- Where control starts. -/
  entry : BlockId
  /-- The stored blocks without successors, in layout order. -/
  exits : List BlockId
  /-- The edges, in layout order of the blocks they start from. -/
  graph : Digraph BlockId
  /-- The blocks that control can get to. -/
  reached : Visited BlockId

/-- A terminator names two blocks at most, so a repeat follows what it repeats. -/
theorem Terminator.eraseReps_successors (t : Terminator) :
    t.successors.eraseReps = t.successors.eraseDups := by
  cases t with
  | branch condition thenBlock elseBlock =>
    by_cases h : thenBlock = elseBlock
    · simp [successors, List.eraseReps, List.eraseRepsBy, List.eraseRepsBy.loop,
        List.eraseDups_cons, h]
    · have hbeq : (thenBlock == elseBlock) = false := beq_eq_false_iff_ne.mpr h
      simp [successors, List.eraseReps, List.eraseRepsBy, List.eraseRepsBy.loop,
        List.eraseDups_cons, hbeq, Ne.symm h]
  | _ => rfl

namespace ControlFlow

/-- The edges that start at one stored block. A target that is named twice in a
    row has one edge. -/
def edgesOf (entry : BlockId × Block) : List (BlockId × BlockId) :=
  entry.2.successors.eraseReps.map fun t => (entry.1, t)

theorem edgesOf_eq (entry : BlockId × Block) :
    edgesOf entry = entry.2.successors.eraseDups.map fun t => (entry.1, t) := by
  unfold edgesOf Block.successors
  rw [Terminator.eraseReps_successors]

/-- The edges between the blocks of a function. -/
def graphOf (f : Function) : Digraph BlockId := .ofEdges (f.blocks.entries.flatMap edgesOf)

/-- The control flow of a function. -/
def of (f : Function) : ControlFlow :=
  let graph := graphOf f
  { entry := f.entry
    exits := (f.blocks.entries.filter fun e => e.2.successors.isEmpty).map Prod.fst
    graph := graph
    reached := graph.reach f.entry }

/-- The blocks to which control may go from `b`. -/
def successors (c : ControlFlow) (b : BlockId) : List BlockId := c.graph.succ b

/-- The blocks from which control may come to `b`. -/
def predecessors (c : ControlFlow) (b : BlockId) : List BlockId := c.graph.pred b

/-- The blocks that control can get to. -/
def reachable (c : ControlFlow) : List BlockId := c.reached.members

/-- Whether control can get to `b`. -/
def isReachable (c : ControlFlow) (b : BlockId) : Bool := c.reached.contains b

/-- The reachable blocks in reverse postorder: the entry first, and every other
    block after the blocks that lead to it, loops apart. -/
def reversePostorder (c : ControlFlow) : List BlockId := (c.graph.postorder c.entry).reverse

end ControlFlow

end SsaFlow
