import SsaFlow.Data.Digraph
import SsaFlow.Flow.Graph
import SsaFlow.Ir.Listing

/-! # What a node stands for

    A node can be seen as a source expression, as a parameter, as the state of
    memory after a possible write, or as what a call writes through an argument.
    Each view is a partial function, `kind?` tells which one applies, and
    `display` shows the node accordingly. `nodeOfExpr?` and `nodeOfParam?` lead
    back.
-/

namespace SsaFlow

/-- What a node stands for. -/
inductive NodeKind where
  /-- A source expression. -/
  | expression
  /-- A parameter or the receiver. -/
  | parameter
  /-- Memory after a possible write. -/
  | postUpdate
  /-- What a call writes through an argument. -/
  | definitionByReference
  /-- An instruction and nothing more. -/
  | instruction
  deriving DecidableEq

/-- A kind as it is shown. -/
def NodeKind.text : NodeKind → String
  | expression => "expr"
  | parameter => "param"
  | postUpdate => "post-update"
  | definitionByReference => "def-by-ref"
  | instruction => "inst"

/-- The place of a parameter. -/
inductive Position where
  /-- In the parameter list. -/
  | explicit (index : UInt64)
  /-- The receiver. -/
  | receiver
  deriving DecidableEq

/-- A parameter of a function. -/
structure ParamRef where
  /-- The function. -/
  function : FuncId
  /-- The place. -/
  position : Position
  /-- The name. -/
  name : String
  /-- The type. -/
  ty : Ty
  deriving DecidableEq

/-- A parameter as it is shown. -/
def ParamRef.text (p : ParamRef) : String :=
  match p.position with
  | .explicit _ => p.name
  | .receiver => "this"

/-! ### Source expressions -/

/-- How many ids are indexed whose expressions have not been met. -/
def Program.unmet (p : Program) (met : List ExprId) : Nat :=
  (p.exprOwner.keys.filter fun x => (p.expr? x).any fun e => e.id ∉ met).length

theorem Program.mem_exprOwner_of_expr? {p : Program} {x : ExprId} {e : Expr}
    (h : p.expr? x = some e) : x ∈ p.exprOwner.keys := by
  unfold expr? at h
  obtain ⟨owner, howner, -⟩ := Option.bind_eq_some_iff.mp h
  rw [← OrderedMap.contains_iff, OrderedMap.contains, howner]
  rfl

/-- Meeting one more expression leaves fewer. -/
theorem Program.unmet_lt {p : Program} {met : List ExprId} {x : ExprId} {e : Expr}
    (h : p.expr? x = some e) (hmet : e.id ∉ met) : p.unmet (e.id :: met) < p.unmet met := by
  unfold unmet
  -- What is left afterwards is a part of what was left before, without `x`.
  have hpart : (p.exprOwner.keys.filter fun y => (p.expr? y).any fun d => d.id ∉ e.id :: met) =
      (p.exprOwner.keys.filter fun y => (p.expr? y).any fun d => d.id ∉ met).filter
        fun y => (p.expr? y).any fun d => d.id ∉ e.id :: met := by
    rw [List.filter_filter]
    refine List.filter_congr fun y _ => ?_
    cases p.expr? y with
    | none => rfl
    | some d => by_cases hd : d.id ∈ met <;> simp [hd]
  rw [hpart, List.length_filter_lt_length_iff_exists]
  refine ⟨x, List.mem_filter.mpr ⟨mem_exprOwner_of_expr? h, ?_⟩, ?_⟩
  · simp [h, hmet]
  · simp [h]

/-- Follow the operands of conversions from the expression of `x` to the first
    expression that is none; stop at an expression that was met before. -/
def Program.stripFrom (p : Program) (met : Visited ExprId) (x : ExprId) : Option Expr :=
  match _he : p.expr? x with
  | none => none
  | some e =>
    if _h : met.contains e.id = true then none
    else
      match e.kind with
      | .other => some e
      | .conversion none => none
      | .conversion (some operand) => p.stripFrom (met.add e.id) operand
termination_by p.unmet met.members
decreasing_by exact unmet_lt _he fun hm => _h ((met.contains_iff e.id).mpr hm)

/-- The expression that an instruction computes, without conversions. -/
def Program.unconverted? (p : Program) (i : Instr) : Option Expr := i.expr.bind (p.stripFrom .none)

namespace FlowGraph

/-- The expression that a node computes, without conversions. -/
def bareExpr? (g : FlowGraph) (n : Node) : Option Expr :=
  (g.instr? n).bind g.program.unconverted?

/-- The expression that a node computes, conversions included. -/
def boundExpr? (g : FlowGraph) (n : Node) : Option Expr := do
  let i ← g.instr? n
  let e ← i.expr
  g.program.expr? e

/-- The first instruction that is bound to an expression. -/
def nodeOfExpr? (g : FlowGraph) (e : ExprId) : Option Node :=
  (g.program.listing.find? fun i => i.expr = some e).map fun i => ⟨i.id⟩

/-! ### Parameters -/

/-- The parameter of a function at a position in the list. -/
def explicitParam? (f : Function) (index : UInt64) : Option ParamRef :=
  (f.param? index.toNat).map fun p => ⟨f.id, .explicit index, p.name, p.ty⟩

/-- The parameter whose value a node is. -/
def parameter? (g : FlowGraph) (n : Node) : Option ParamRef := do
  let i ← g.instr? n
  let f ← g.program.function? i.function
  match i.op with
  | .parameter index => explicitParam? f index
  | .receiver => f.signature.thisType.map fun ty => ⟨f.id, .receiver, "this", ty⟩
  | _ => none

/-- Whether an operation gives the value of the parameter at a place. -/
def isAt (position : Position) (op : Operation) : Bool :=
  match position, op with
  | .explicit index, .parameter index' => index = index'
  | .receiver, .receiver => true
  | _, _ => false

/-- The first node of a function that is its parameter at a place. -/
def nodeOfParam? (g : FlowGraph) (f : FuncId) (position : Position) : Option Node := do
  let f ← g.program.function? f
  (f.listing.find? fun i => isAt position i.op).map fun i => ⟨i.id⟩

/-! ### Writes through arguments -/

/-- What a call writes through one of its arguments. -/
structure ByReference where
  /-- The node. -/
  node : Node
  /-- The call. -/
  call : Instr
  /-- The position of the argument, or minus one for the receiver. -/
  index : Int32

/-- The position of an argument, unless the index is negative. -/
def position? (index : Int32) : Option UInt64 :=
  if 0 ≤ index.toInt then some (UInt64.ofNat index.toInt.toNat) else none

/-- The view of a node as a write through an argument. -/
def byReference? (g : FlowGraph) (n : Node) : Option ByReference := do
  let i ← g.instr? n
  match i.op with
  | .sideEffect source index =>
    let call ← g.program.instr? source
    return ⟨n, call, index⟩
  | _ => none

/-- The instruction that is passed where the call writes. -/
def ByReference.argumentInstr? (d : ByReference) : Option InstrId :=
  if d.index = receiverIndex then d.call.op.operandIn? .receiver
  else (position? d.index).bind fun index => d.call.op.operandIn? (.argument index)

/-- The expression that is passed where the call writes. -/
def passedExpr? (g : FlowGraph) (d : ByReference) : Option Expr := do
  let a ← d.argumentInstr?
  let i ← g.program.instr? a
  g.program.unconverted? i

/-- The parameter of the callee where the call writes; known for static callees
    and arguments in the list. -/
def writtenParameter? (g : FlowGraph) (d : ByReference) : Option ParamRef :=
  match d.call.op with
  | .call (.static callee) _ _ => do
    let index ← position? d.index
    let f ← g.program.function? callee
    explicitParam? f index
  | _ => none

/-- The expression of the argument through which a node is written. -/
def definingExpr? (g : FlowGraph) (n : Node) : Option Expr :=
  (g.byReference? n).bind g.passedExpr?

/-! ### Possible writes -/

/-- The node of memory before the possible write that a node stands for. -/
def preUpdate? (g : FlowGraph) (n : Node) : Option Node :=
  (g.instr? n).bind fun i =>
    match i.op with
    | .chi total _ => some ⟨total⟩
    | _ => none

/-! ### Kinds and display -/

/-- What a node stands for. -/
def kind? (g : FlowGraph) (n : Node) : Option NodeKind :=
  (g.instr? n).map fun i =>
    match i.op with
    | .parameter _ => .parameter
    | .receiver => .parameter
    | .sideEffect _ _ => .definitionByReference
    | .chi _ _ => .postUpdate
    | _ => if (g.program.unconverted? i).isSome then .expression else .instruction

/-- A node as it is shown, unless it stands for memory after a possible write. -/
def displayPlain (g : FlowGraph) (n : Node) : String :=
  match g.parameter? n with
  | some p => p.text
  | none =>
    match g.byReference? n with
    | some d =>
      match g.passedExpr? d with
      | some e => "ref arg " ++ e.text
      | none => "ref arg #" ++ toString d.index.toInt
    | none =>
      match g.bareExpr? n with
      | some e => e.text
      | none =>
        match g.instr? n with
        | some i => i.text
        | none => n.text

/-- A node as it is shown, following at most `fuel` possible writes back. -/
def displayFrom (g : FlowGraph) : (fuel : Nat) → Node → String
  | 0, n => n.text
  | fuel + 1, n =>
    match g.preUpdate? n with
    | some before => "post-update of " ++ g.displayFrom fuel before
    | none => g.displayPlain n

/-- A node as it is shown. A chain of possible writes longer than the number of
    instructions would never end. -/
def display (g : FlowGraph) (n : Node) : String :=
  g.displayFrom (g.program.instrOwner.size + 1) n

end FlowGraph

end SsaFlow
