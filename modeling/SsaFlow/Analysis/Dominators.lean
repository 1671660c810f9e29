import SsaFlow.Analysis.Candidates

/-! # Dominators

    The immediate dominator of a block is the one of its other dominators that has
    the most dominators of its own. To see whether a block dominates another one
    climbs from the other, parent by parent.

    Blocks that control cannot get to have no immediate dominator and are
    dominated by themselves alone.
-/

namespace SsaFlow

/-! ### Immediate dominators -/

/-- A table of parents in which every way up ends. -/
structure ParentTree where
  /-- The height of each block. -/
  ranks : Table BlockId Nat
  /-- The parent of each block that has one. -/
  parents : Table BlockId (Option BlockId)
  /-- A parent is lower. -/
  lower : ∀ b p, (parents.find? b).join = some p →
    (ranks.find? p).getD 0 < (ranks.find? b).getD 0

namespace ParentTree

/-- The height of `b`. -/
def rank (t : ParentTree) (b : BlockId) : Nat := (t.ranks.find? b).getD 0

/-- The parent of `b`. -/
def parent? (t : ParentTree) (b : BlockId) : Option BlockId := (t.parents.find? b).join

/-- The way up from `b`: its parent, the parent of that, and so on. -/
def climb (t : ParentTree) (b : BlockId) : List BlockId :=
  match _h : t.parent? b with
  | none => []
  | some p => p :: t.climb p
termination_by t.rank b
decreasing_by exact t.lower b p _h

end ParentTree

namespace Candidates

/-- The last of the blocks with the greatest number. -/
def greatest? (number : BlockId → Nat) : List BlockId → Option BlockId
  | [] => none
  | a :: rest =>
    match greatest? number rest with
    | none => some a
    | some d => if number a ≤ number d then some d else some a

/-- Of the other candidates for `b`, the one that has the most. -/
def nearest? (ranks : Table BlockId Nat) (t : Candidates) (b : BlockId) : Option BlockId :=
  greatest? (fun a => (ranks.find? a).getD 0)
    (((t.find? b).getD .none).members.filter fun a => a ≠ b)

/-- Each of `blocks` below its nearest candidate. Candidates of any kind need not form a
    tree, so one that is no lower is not taken. Among dominators there is none such:
    the parent is the nearest candidate, by `ControlFlow.parent?_dominatorTree_eq`, in
    whatever order candidates are listed, by `Dominators.greatest?_eq_parent?`. -/
def tree (t : Candidates) (blocks : List BlockId) : ParentTree :=
  let ranks := Table.tabulate blocks t.count
  { ranks := ranks
    parents := .tabulate blocks fun b =>
      (nearest? ranks t b).filter fun p => (ranks.find? p).getD 0 < (ranks.find? b).getD 0
    lower := fun b p h => by
      rw [Table.find?_tabulate] at h
      split at h
      · exact of_decide_eq_true (Option.filter_eq_some_iff.mp h).2
      · cases h }

end Candidates

/-- The tree of immediate dominators. -/
structure Dominators where
  /-- The reachable blocks, in reverse postorder. -/
  order : List BlockId
  /-- Their immediate dominators. -/
  tree : ParentTree
  /-- The ways up from them, for quick tests. -/
  ways : Table BlockId (Visited BlockId)

namespace Dominators

/-- The dominator tree of a function's control flow. -/
def of (c : ControlFlow) : Dominators :=
  let blocks := c.reversePostorder
  let tree := c.dominators.tree blocks
  ⟨blocks, tree, .tabulate blocks fun b => .ofList (tree.climb b)⟩

/-- The immediate dominator of `b`. -/
def parent? (t : Dominators) (b : BlockId) : Option BlockId := t.tree.parent? b

/-- The blocks whose immediate dominator is `a`, in reverse postorder. -/
def children (t : Dominators) (a : BlockId) : List BlockId :=
  t.order.filter fun b => t.parent? b = some a

/-- Whether `a` dominates `b`: it is `b`, or on the way up from `b`. -/
def dominates (t : Dominators) (a b : BlockId) : Bool :=
  a = b || ((t.ways.find? b).getD .none).contains a

/-- Whether `a` dominates `b` and is another block. -/
def strictlyDominates (t : Dominators) (a b : BlockId) : Bool := a ≠ b && t.dominates a b

end Dominators

end SsaFlow
