import SsaFlow.Analysis.Dominators
import SsaFlow.Analysis.ValueClasses

/-! # Guards

    A branch checks something about its condition, and each outcome of the branch
    leads to its own block. A guard says which instructions a condition checks
    for each outcome. The outcome controls a block if every way there leaves the
    branch along that outcome's edge; then a checked value is safe in that block,
    and so is every value of its class.
-/

namespace SsaFlow

/-- What is known about the blocks and values of one function. -/
structure Analyses where
  /-- Its control flow. -/
  flow : ControlFlow
  /-- Its dominator tree. -/
  dominators : Dominators
  /-- Its value classes. -/
  classes : ValueClasses

/-- Everything that is known about a function. -/
def Analyses.of (f : Function) : Analyses :=
  let flow := ControlFlow.of f
  ⟨flow, Dominators.of flow, ValueClasses.of f⟩

/-- The condition of a branch, and where the branch stands and leads. -/
structure BranchTest where
  /-- The instruction that decides. -/
  condition : Instr
  /-- The block that ends in the branch. -/
  block : BlockId
  /-- Where control goes when the condition is true. -/
  thenBlock : BlockId
  /-- Where control goes when it is false. -/
  elseBlock : BlockId

namespace BranchTest

/-- The condition at the end of a block, if it ends in a branch on an
    instruction of the function. -/
def endOf? (f : Function) (b : BlockId) : Option BranchTest := do
  let block ← f.block? b
  match block.terminator with
  | .branch condition thenBlock elseBlock =>
    let condition ← f.instr? condition
    return ⟨condition, b, thenBlock, elseBlock⟩
  | _ => none

/-- Where an outcome leads. -/
def target (c : BranchTest) (outcome : Bool) : BlockId :=
  if outcome then c.thenBlock else c.elseBlock

/-- Whether control can get to the target of an outcome, and can come there from
    outside only along the edge of that outcome: the outcomes lead to different
    blocks, and every other edge into the target comes from a block that the
    target dominates. -/
def isSoleWay (c : BranchTest) (a : Analyses) (outcome : Bool) : Bool :=
  let target := c.target outcome
  target ≠ c.target (!outcome) && a.flow.isReachable target &&
    (a.flow.predecessors target).all fun p => p = c.block || a.dominators.dominates target p

/-- Whether every way to `b` leaves the branch along the edge of an outcome: the
    outcome's target dominates `b`, and that edge is the sole way to the target. -/
def controls (c : BranchTest) (a : Analyses) (b : BlockId) (outcome : Bool) : Bool :=
  a.dominators.dominates (c.target outcome) b && c.isSoleWay a outcome

end BranchTest

/-- A way to tell which instructions a condition checks. -/
structure Guard where
  /-- Its name. -/
  name : String
  /-- Whether the condition with the given outcome checks an instruction. -/
  checks : BranchTest → Instr → Bool → Bool

namespace Guard

/-! ### Guards to choose from -/

/-- Nothing is checked. -/
def never : Guard := ⟨"never", fun _ _ _ => false⟩

/-- Everything is checked. -/
def always : Guard := ⟨"always", fun _ _ _ => true⟩

/-- The condition checks itself when it comes out as `value`. -/
def condition (value : Bool) : Guard :=
  ⟨"condition", fun c i outcome => outcome = value && i.id = c.condition.id⟩

/-- A comparison checks its left operand when it comes out as `value`. -/
def compare (op : CompareOp) (value : Bool) : Guard :=
  ⟨"compare", fun c i outcome =>
    match c.condition.op with
    | .compare op' left _ => op = op' && outcome = value && i.id = left
    | _ => false⟩

/-- The condition checks its operands when it comes out as `value`. -/
def operand (value : Bool) : Guard :=
  ⟨"operand", fun c i outcome =>
    outcome = value && c.condition.operands.any fun o => o.instr = i.id⟩

/-- What is checked is listed: condition, instruction and outcome. -/
def table (rows : List (InstrId × InstrId × Bool)) : Guard :=
  ⟨"table", fun c i outcome => rows.contains (c.condition.id, i.id, outcome)⟩

/-- A branch on `checked`, or on a comparison with it, checks `checked` when it
    comes out as `value`. -/
def branchOn (checked : InstrId) (value : Bool) : Guard :=
  ⟨"branch-on-value", fun c i outcome =>
    outcome = value && i.id = checked &&
      (c.condition.id = checked ||
        match c.condition.op with
        | .compare _ left right => left = checked || right = checked
        | _ => false)⟩

end Guard

/-! ### Guarded instructions of one function -/

/-- The conditions of a function's branches, in layout order. -/
def Function.conditions (f : Function) : List BranchTest :=
  f.blocks.keys.filterMap (BranchTest.endOf? f)

/-- The outcomes of a branch. -/
def outcomes : List Bool := [true, false]

/-- The instructions of a value's class that stand in a block which the target
    of an outcome dominates. -/
def BranchTest.guarded (c : BranchTest) (f : Function) (a : Analyses) (outcome : Bool)
    (checked : Instr) : List InstrId :=
  (a.classes.classOf checked.id).filter fun member =>
    match f.instr? member with
    | some i => a.dominators.dominates (c.target outcome) i.block
    | none => false

/-- The guarded instructions of a function. -/
def Guard.guardedIn (g : Guard) (f : Function) (a : Analyses) : List InstrId :=
  Visited.distinct (f.conditions.flatMap fun c =>
    (outcomes.filter (c.isSoleWay a)).flatMap fun outcome =>
      (f.listing.filter fun checked => g.checks c checked outcome).flatMap
        (c.guarded f a outcome))

/-- Whether an instruction is guarded, decided from its own class. -/
def Guard.isGuarded (g : Guard) (f : Function) (a : Analyses) (i : Instr) : Bool :=
  let same := (a.classes.classOf i.id).filterMap f.instr?
  f.conditions.any fun c => outcomes.any fun outcome =>
    c.controls a i.block outcome && same.any fun checked => g.checks c checked outcome

end SsaFlow
