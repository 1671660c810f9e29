import SsaFlow.Flow.Guard
import SsaFlow.Flow.Memo
import SsaFlow.Flow.Projection
import SsaFlow.Flow.Step

/-! # Flow queries

    The queries whose answers rest on whole-function computations: neighbours in
    the step graph, closures, and guards. Those computations are kept in memo
    tables, so a query is a computation on the state of the tables. The answers
    do not depend on that state, the counts do.
-/

namespace SsaFlow

/-- A node within a function has the number of the node. -/
instance : Coded (FuncId × Node) := ⟨fun p => Coded.code p.2⟩

/-- The memo tables of a flow graph. -/
structure FlowTables where
  /-- The steps of each function. -/
  steps : Memo FuncId (Digraph Node)
  /-- What can be reached from each node. -/
  closures : Memo (FuncId × Node) (List Node)
  /-- What is known about each function. -/
  analyses : Memo FuncId Analyses

namespace FlowTables

/-- Nothing has been computed. -/
def empty : FlowTables := ⟨.empty, .empty, .empty⟩

/-- The counts of all tables together. -/
def stats (c : FlowTables) : MemoStats := c.steps.stats + c.closures.stats + c.analyses.stats

/-- The counts of the closures. -/
def closureStats (c : FlowTables) : MemoStats := c.closures.stats

/-- The table of steps. -/
def stepSlot : Slot FlowTables FuncId (Digraph Node) :=
  ⟨FlowTables.steps, fun c t => { c with steps := t }⟩

/-- The table of closures. -/
def closureSlot : Slot FlowTables (FuncId × Node) (List Node) :=
  ⟨FlowTables.closures, fun c t => { c with closures := t }⟩

/-- The table of analyses. -/
def analysisSlot : Slot FlowTables FuncId Analyses :=
  ⟨FlowTables.analyses, fun c t => { c with analyses := t }⟩

end FlowTables

/-- A computation on the memo tables. -/
abbrev Query (α : Type) := StateM FlowTables α

/-- The answer to a query that is asked first, with nothing in the tables. -/
def Query.answer {α : Type} (q : Query α) : α := (q .empty).1

/-- What is known about a function that is stored under `key`. -/
def cachedAnalyses (f : Function) (key : FuncId) : Query Analyses :=
  FlowTables.analysisSlot.cached key fun tables => (Analyses.of f, tables)

namespace FlowGraph

/-! ### Steps and closures -/

/-- The steps of a function. -/
def cachedSteps (g : FlowGraph) (f : FuncId) : Query (Digraph Node) :=
  FlowTables.stepSlot.cached f fun tables => (g.steps f, tables)

/-- The nodes into which `n` flows in one step, repeats kept. -/
def successors (g : FlowGraph) (n : Node) : Query (List Node) :=
  match g.enclosing? n with
  | some f => do return (← g.cachedSteps f).succ n
  | none => pure []

/-- The nodes that flow into `n` in one step, repeats kept. -/
def predecessors (g : FlowGraph) (n : Node) : Query (List Node) :=
  match g.enclosing? n with
  | some f => do return (← g.cachedSteps f).pred n
  | none => pure []

/-- The nodes into which `n` flows in any number of steps, `n` among them. -/
def reachFrom (g : FlowGraph) (n : Node) : Query (List Node) :=
  match g.enclosing? n with
  | some f =>
    FlowTables.closureSlot.cached (f, n) do
      let steps ← g.cachedSteps f
      return (steps.reach n).members
  | none => pure [n]

/-- Whether data moves from `a` to `b` in any number of steps. -/
def flows (g : FlowGraph) (a b : Node) : Query Bool :=
  if a = b then pure true
  else
    match g.enclosing? a, g.enclosing? b with
    | some f, some f' =>
      if f = f' then do return (← g.reachFrom a).contains b else pure false
    | _, _ => pure false

/-- Whether data moves from one expression to another. -/
def exprFlows (g : FlowGraph) (a b : ExprId) : Query Bool :=
  match g.nodeOfExpr? a, g.nodeOfExpr? b with
  | some a, some b => g.flows a b
  | _, _ => pure false

/-! ### Guards -/

/-- The guarded nodes of one function. -/
def guardedIn (g : FlowGraph) (f : FuncId) (guard : Guard) : Query (List Node) :=
  match g.program.function? f with
  | some function => do
    let a ← cachedAnalyses function f
    return (guard.guardedIn function a).map Node.mk
  | none => pure []

/-- The guarded nodes of all functions. -/
def guarded (g : FlowGraph) (guard : Guard) : Query (List Node) := do
  let parts ← g.program.functions.keys.mapM fun f => g.guardedIn f guard
  return Visited.distinct parts.flatten

/-- Whether a node is guarded. -/
def isGuarded (g : FlowGraph) (n : Node) (guard : Guard) : Query Bool :=
  match g.instr? n with
  | some i =>
    match g.program.function? i.function with
    | some function => do
      let a ← cachedAnalyses function i.function
      return guard.isGuarded function a i
    | none => pure false
  | none => pure false

/-- The nodes that any of some guards guards. -/
def guardedByAny (g : FlowGraph) (guards : List Guard) : Query (List Node) := do
  let parts ← guards.mapM g.guarded
  return Visited.distinct parts.flatten

/-- Whether any of some guards guards a node. The first one that does settles
    it. -/
def isGuardedByAny (g : FlowGraph) (guards : List Guard) (n : Node) : Query Bool :=
  match guards with
  | [] => pure false
  | guard :: rest => do
    if ← g.isGuarded n guard then return true else g.isGuardedByAny rest n

/-! ### Text -/

/-- A flow graph with the counts of its tables, as it is shown. -/
def text (g : FlowGraph) (cache : FlowTables) : String :=
  "DataFlowGraph \x7b functions: " ++ toString g.program.functions.size ++ ", config: " ++
    g.config.text ++ ", cache: " ++ cache.stats.text ++ " \x7d"

end FlowGraph

end SsaFlow
