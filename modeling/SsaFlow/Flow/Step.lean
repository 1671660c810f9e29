import SsaFlow.Data.Digraph
import SsaFlow.Flow.Graph

/-! # Flow steps

    Data moves in one step from an operand to an instruction that passes it on:
    copies, loads, stores and phis always do, conversions and possible writes as
    the configuration says. A function's steps form a graph on its nodes.
-/

namespace SsaFlow

/-- The instructions whose value flows into an instruction in one step. -/
def FlowConfig.sources (c : FlowConfig) (i : Instr) : List InstrId :=
  match i.op with
  | .copy source => [source]
  | .load _ source => [source]
  | .store _ value => [value]
  | .phi incoming => incoming.map Prod.snd
  | .convert .toDerived _ => []
  | .convert _ operand => if c.trackConversions then [operand] else []
  | .chi total part => if c.partialChi.allows i.ty.isUnknown then [total, part] else [total]
  | _ => []

/-- The steps into one instruction. -/
def FlowConfig.stepsInto (c : FlowConfig) (i : Instr) : List (Node × Node) :=
  (c.sources i).map fun source => (⟨source⟩, ⟨i.id⟩)

namespace FlowGraph

/-- Whether data moves from `a` to `b` in one step. -/
def isStep (g : FlowGraph) (a b : Node) : Bool :=
  match g.instr? b with
  | some i => (g.config.sources i).contains a.instr
  | none => false

/-- The steps of one function, in layout order of the instructions they lead to. -/
def steps (g : FlowGraph) (f : FuncId) : Digraph Node :=
  match g.program.function? f with
  | some f => .ofEdges (f.listing.flatMap g.config.stepsInto)
  | none => .ofEdges []

end FlowGraph

end SsaFlow
