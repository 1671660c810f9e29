import Mathlib
import SsaFlow.Flow.Projection
import SsaFlow.Proofs.ConversionChains
import SsaFlow.Proofs.FinishedPrograms
import SsaFlow.Proofs.NodeListing

/-! # Kinds, views and the way back

    The kind of a node is read off its operation. The views look further: at the
    signature, at the call that writes, at the expressions. In a program that a session
    finished they never look in vain, so that the kind tells which view there is.

    The ways back search the listings. A parameter may be read by many instructions, and
    an expression be bound to many; the first one answers for all.

    * `Operation.place?` and `Function.paramAt?`: the place that an operation reads, and
      what the signature has there. `FlowGraph.parameter?_eq` takes the view apart.
    * `FlowGraph.kind_tells_view`: each kind is told by its view.
    * `FlowGraph.lookups_invert`: what is found by a parameter or by an expression is
      seen as that parameter or expression.
-/

namespace SsaFlow

/-! ### Places -/

/-- The place of the parameter that an operation reads. -/
def Operation.place? : Operation → Option Position
  | .parameter index => some (.explicit index)
  | .receiver => some .receiver
  | _ => none

/-- The kind that an operation has by itself, whatever it is bound to. -/
def Operation.ownKind? : Operation → Option NodeKind
  | .parameter _ => some .parameter
  | .receiver => some .parameter
  | .sideEffect _ _ => some .definitionByReference
  | .chi _ _ => some .postUpdate
  | _ => none

namespace Operation

variable (op : Operation)

theorem ownKind?_cases :
    op.ownKind? = some .parameter ∨ op.ownKind? = some .definitionByReference ∨
      op.ownKind? = some .postUpdate ∨ op.ownKind? = none := by
  cases op with
  | parameter index => exact .inl rfl
  | receiver => exact .inl rfl
  | sideEffect source index => exact .inr (.inl rfl)
  | chi total part => exact .inr (.inr (.inl rfl))
  | _ => exact .inr (.inr (.inr rfl))

/-- An operation that reads a place is a parameter. -/
theorem place?_isSome_iff : op.place?.isSome = true ↔ op.ownKind? = some .parameter := by
  cases op with
  | parameter index => exact iff_of_true rfl rfl
  | receiver => exact iff_of_true rfl rfl
  | _ => exact iff_of_false (fun h => by cases h) fun h => by cases h

theorem isAt_iff (position : Position) :
    FlowGraph.isAt position op = true ↔ op.place? = some position := by
  cases position with
  | explicit index =>
    cases op with
    | parameter index' =>
      show decide (index = index') = true ↔ some (Position.explicit index') = some (.explicit index)
      rw [decide_eq_true_iff, Option.some.injEq, Position.explicit.injEq]
      exact eq_comm
    | _ => exact iff_of_false (fun h => by cases h) fun h => by cases h
  | receiver =>
    cases op with
    | receiver => exact iff_of_true rfl rfl
    | _ => exact iff_of_false (fun h => by cases h) fun h => by cases h

end Operation

/-- What the signature of a function has at a place. -/
def Function.paramAt? (f : Function) : Position → Option ParamRef
  | .explicit index => FlowGraph.explicitParam? f index
  | .receiver => f.signature.thisType.map fun ty => ⟨f.id, .receiver, "this", ty⟩

namespace Function

variable {f : Function} {position : Position} {r : ParamRef}

/-- It names the function and the place. -/
theorem names_of_paramAt? (h : f.paramAt? position = some r) :
    r.function = f.id ∧ r.position = position := by
  cases position with
  | explicit index =>
    obtain ⟨param, -, rfl⟩ := Option.map_eq_some_iff.mp h
    exact ⟨rfl, rfl⟩
  | receiver =>
    obtain ⟨ty, -, rfl⟩ := Option.map_eq_some_iff.mp h
    exact ⟨rfl, rfl⟩

/-- A signature that covers an operation has something where the operation reads. -/
theorem exists_paramAt? {op : Operation} (hcovers : f.signature.Covers op)
    (hplace : op.place? = some position) : ∃ r, f.paramAt? position = some r := by
  cases op with
  | parameter index =>
    obtain rfl := Option.some.inj hplace
    have hlt : index.toNat < f.signature.params.length := hcovers
    have hparam : f.param? index.toNat = some f.signature.params[index.toNat] :=
      List.getElem?_eq_getElem hlt
    show ∃ r, FlowGraph.explicitParam? f index = some r
    unfold FlowGraph.explicitParam?
    rw [hparam]
    exact ⟨_, rfl⟩
  | receiver =>
    obtain rfl := Option.some.inj hplace
    obtain ⟨ty, hty⟩ := Option.isSome_iff_exists.mp hcovers
    show ∃ r, f.signature.thisType.map _ = some r
    rw [hty]
    exact ⟨_, rfl⟩
  | _ => cases hplace

end Function

/-! ### Views -/

namespace FlowGraph

variable {g : FlowGraph} {n : Node} {inst : Instr} {k : FuncId} {f : Function}

/-- The view as a parameter: the place that the operation reads, and what the signature
    has there. -/
theorem parameter?_eq (hn : g.instr? n = some inst)
    (hf : g.program.function? inst.function = some f) :
    g.parameter? n = inst.op.place?.bind f.paramAt? := by
  unfold parameter?
  rw [hn, Option.bind_eq_bind, Option.bind_some, hf, Option.bind_eq_bind, Option.bind_some]
  cases inst.op <;> rfl

/-- **Parameters are seen where they are read.** -/
theorem parameter?_isSome_iff (h : g.program.Finished) (hn : g.instr? n = some inst) :
    (g.parameter? n).isSome = true ↔ inst.op.ownKind? = some .parameter := by
  obtain ⟨f, hf, hi⟩ := h.instr_in_function hn
  rw [parameter?_eq hn hf, ← Operation.place?_isSome_iff]
  cases hplace : inst.op.place? with
  | none => rfl
  | some position =>
    obtain ⟨r, hr⟩ := Function.exists_paramAt? (h.supplied _ f hf _ inst hi) hplace
    rw [Option.bind_some, hr]
    exact iff_of_true rfl rfl

/-- **Writes through arguments are seen at side effects**: the call is an operand, so it
    is there. -/
theorem byReference?_isSome_iff (h : g.program.WellFormed) (hn : g.instr? n = some inst) :
    (g.byReference? n).isSome = true ↔ inst.op.ownKind? = some .definitionByReference := by
  unfold byReference?
  rw [hn, Option.bind_eq_bind, Option.bind_some]
  cases hop : inst.op with
  | sideEffect source index =>
    refine ⟨fun _ => rfl, fun _ => ?_⟩
    obtain ⟨f, hf, hi⟩ := h.instr_in_function hn
    have hoperand : (⟨.sideEffectCall, source⟩ : Operand) ∈ inst.operands := by
      unfold Instr.operands
      rw [hop]
      exact List.mem_singleton.mpr rfl
    obtain ⟨call, hcall⟩ := h.operand_in_function hf hi hoperand
    have hfound : g.program.instr? source = some call :=
      h.instr?_eq_some_iff.mpr ⟨inst.function, f, hf, hcall⟩
    show ((g.program.instr? source).bind _).isSome = true
    rw [hfound]
    rfl
  | _ => exact iff_of_false (fun h => by cases h) fun h => by cases h

theorem preUpdate?_isSome_iff (hn : g.instr? n = some inst) :
    (g.preUpdate? n).isSome = true ↔ inst.op.ownKind? = some .postUpdate := by
  unfold preUpdate?
  rw [hn, Option.bind_some]
  cases inst.op with
  | chi total part => exact iff_of_true rfl rfl
  | _ => exact iff_of_false (fun h => by cases h) fun h => by cases h

/-- The kind is that of the operation, and for the others told by the expression. -/
theorem kind?_eq (hn : g.instr? n = some inst) :
    g.kind? n = some (inst.op.ownKind?.getD
      (if (g.bareExpr? n).isSome then .expression else .instruction)) := by
  unfold kind? bareExpr?
  rw [hn, Option.map_some, Option.bind_some]
  cases inst.op <;> rfl

theorem byReference?_of_definingExpr? (h : (g.definingExpr? n).isSome = true) :
    (g.byReference? n).isSome = true := by
  unfold definingExpr? at h
  cases hview : g.byReference? n with
  | none =>
    rw [hview] at h
    cases h
  | some d => rfl

/-- **The kind tells the view.** In a program that a session finished, whatever its steps,
    the kind of an instruction's node is that of parameters exactly if the node is seen
    as a parameter, that of writes through arguments exactly if it is seen as one, and
    that of possible writes exactly if it is seen as one. It is that of expressions
    exactly if none of these is seen, but an expression without conversions, and the
    last kind exactly if nothing at all is seen. Only a write through an argument has an
    expression of its argument. -/
theorem kind_tells_view (steps : List SsaFlow.Step) (g : FlowGraph)
    (hfinish : (Session.empty.run steps).1.finish = .ok g.program) (n : Node) {inst : Instr}
    (hn : g.instr? n = some inst) :
    (g.kind? n = some .parameter ↔ (g.parameter? n).isSome = true) ∧
    (g.kind? n = some .definitionByReference ↔ (g.byReference? n).isSome = true) ∧
    (g.kind? n = some .postUpdate ↔ (g.preUpdate? n).isSome = true) ∧
    (g.kind? n = some .expression ↔
      ¬ (g.parameter? n).isSome = true ∧ ¬ (g.byReference? n).isSome = true ∧
        ¬ (g.preUpdate? n).isSome = true ∧ (g.bareExpr? n).isSome = true) ∧
    (g.kind? n = some .instruction ↔
      ¬ (g.parameter? n).isSome = true ∧ ¬ (g.byReference? n).isSome = true ∧
        ¬ (g.preUpdate? n).isSome = true ∧ ¬ (g.bareExpr? n).isSome = true) ∧
    ((g.definingExpr? n).isSome = true → g.kind? n = some .definitionByReference) := by
  have h : g.program.Finished := Session.finished_of_finish hfinish
  have hdefining : (g.definingExpr? n).isSome = true →
      inst.op.ownKind? = some .definitionByReference := by
    intro hd
    rw [← byReference?_isSome_iff h.toWellFormed hn]
    exact byReference?_of_definingExpr? hd
  rw [parameter?_isSome_iff h hn, byReference?_isSome_iff h.toWellFormed hn,
    preUpdate?_isSome_iff hn, kind?_eq hn]
  rcases inst.op.ownKind?_cases with hown | hown | hown | hown
  · rw [hown] at hdefining ⊢
    simpa using hdefining
  · rw [hown]
    simp
  · rw [hown] at hdefining ⊢
    simpa using hdefining
  · -- The operation has no kind of its own, so the expression decides.
    rw [hown] at hdefining ⊢
    by_cases hexpr : (g.bareExpr? n).isSome = true
    · simpa [hexpr] using hdefining
    · simpa [hexpr] using hdefining

/-- The steps that build a member function. Its last block, which is filled first, reads
    the parameter, and so does its entry block. There a call of the function itself
    writes through its argument, and memory is joined with what it wrote. A constant and
    both instructions that read the parameter are bound to the same expression. -/
def memberSteps : List SsaFlow.Step :=
  [.program (.function "member"), .function (.thisType .bool), .function (.param "x" .bool),
    .function .newBlock, .function (.switchTo ⟨1⟩), .block (.parameter 0),
    .block (.expr .other "x"), .block (.bind ⟨0⟩ ⟨0⟩), .block (.terminate .ret),
    .function .enterEntry, .block (.parameter 0), .block (.bind ⟨1⟩ ⟨0⟩), .block .receiver,
    .block (.call (.static ⟨0⟩) [⟨1⟩] (some ⟨2⟩) .void), .block (.sideEffect ⟨3⟩ 0 .bool),
    .block (.chi ⟨1⟩ ⟨4⟩ .bool), .block (.constant (.bool true) .bool), .block (.bind ⟨6⟩ ⟨0⟩),
    .block (.terminate (.jump ⟨1⟩)), .function .build]

/-- The function as a flow graph. -/
def member : FlowGraph := ⟨(Session.empty.run memberSteps).1.program, .standard, none⟩

theorem finish_member : (Session.empty.run memberSteps).1.finish = .ok member.program := rfl

/-- All five kinds are there, each with its view: the parameter, the receiver, the call,
    what it writes, the join, and the constant. -/
theorem member_kinds :
    (member.parameter? ⟨⟨0⟩⟩).isSome = true ∧ member.kind? ⟨⟨0⟩⟩ = some .parameter ∧
      member.kind? ⟨⟨2⟩⟩ = some .parameter ∧
      ¬ (member.bareExpr? ⟨⟨3⟩⟩).isSome = true ∧ member.kind? ⟨⟨3⟩⟩ = some .instruction ∧
      (member.definingExpr? ⟨⟨4⟩⟩).isSome = true ∧
      member.kind? ⟨⟨4⟩⟩ = some .definitionByReference ∧
      (member.preUpdate? ⟨⟨5⟩⟩).isSome = true ∧ member.kind? ⟨⟨5⟩⟩ = some .postUpdate ∧
      (member.bareExpr? ⟨⟨6⟩⟩).isSome = true ∧ member.kind? ⟨⟨6⟩⟩ = some .expression := by
  obtain ⟨hparameter, -⟩ := kind_tells_view memberSteps member finish_member ⟨⟨0⟩⟩ rfl
  obtain ⟨hreceiver, -⟩ := kind_tells_view memberSteps member finish_member ⟨⟨2⟩⟩ rfl
  obtain ⟨-, -, -, -, hcall, -⟩ := kind_tells_view memberSteps member finish_member ⟨⟨3⟩⟩ rfl
  obtain ⟨-, -, -, -, -, hwrite⟩ := kind_tells_view memberSteps member finish_member ⟨⟨4⟩⟩ rfl
  obtain ⟨-, -, hjoin, -⟩ := kind_tells_view memberSteps member finish_member ⟨⟨5⟩⟩ rfl
  obtain ⟨-, -, -, hconstant, -⟩ := kind_tells_view memberSteps member finish_member ⟨⟨6⟩⟩ rfl
  have hloose : ¬ (member.bareExpr? ⟨⟨3⟩⟩).isSome = true := by decide
  have hargument : (member.definingExpr? ⟨⟨4⟩⟩).isSome = true := by cbv
  have hbound : (member.bareExpr? ⟨⟨6⟩⟩).isSome = true := by cbv
  exact ⟨rfl, hparameter.mpr rfl, hreceiver.mpr rfl, hloose,
    hcall.mpr ⟨by decide, by decide, by decide, hloose⟩, hargument, hwrite hargument, rfl,
    hjoin.mpr rfl, hbound, hconstant.mpr ⟨by decide, by decide, by decide, hbound⟩⟩

/-! ### The way back to parameters -/

/-- What is found at a place reads the place, in the function that was asked. -/
theorem nodeOfParam?_cases (h : g.program.WellFormed) {position : Position}
    (hfound : g.nodeOfParam? k position = some n) :
    ∃ f inst, g.program.function? k = some f ∧ g.instr? n = some inst ∧ inst.function = k ∧
      inst.op.place? = some position := by
  unfold nodeOfParam? at hfound
  obtain ⟨f, hf, hfirst⟩ := Option.bind_eq_some_iff.mp hfound
  obtain ⟨inst, hinst, rfl⟩ := Option.map_eq_some_iff.mp hfirst
  have hstored : f.instr? inst.id = some inst :=
    (h.mem_listing_iff hf).mp (List.mem_of_find?_eq_some hinst)
  have hat : isAt position inst.op = true :=
    List.find?_some (p := fun i : Instr => isAt position i.op) hinst
  refine ⟨f, inst, hf, ?_, (h.instr_names hf hstored).2, (inst.op.isAt_iff position).mp hat⟩
  exact h.instr?_eq_some_iff.mpr ⟨k, f, hf, hstored⟩

/-- Where a place is read, something is found. -/
theorem exists_nodeOfParam? (h : g.program.WellFormed) {position : Position}
    (hn : g.instr? n = some inst) (hplace : inst.op.place? = some position) :
    ∃ m, g.nodeOfParam? inst.function position = some m := by
  obtain ⟨f, hf, hi⟩ := h.instr_in_function hn
  have hid : inst.id = n.instr := (h.instr_names hf hi).1
  have hlisted : inst ∈ f.listing := by
    rw [h.mem_listing_iff hf, hid]
    exact hi
  have hsome : (f.listing.find? fun i => isAt position i.op).isSome = true := by
    rw [List.find?_isSome]
    exact ⟨inst, hlisted, (inst.op.isAt_iff position).mpr hplace⟩
  obtain ⟨first, hfirst⟩ := Option.isSome_iff_exists.mp hsome
  refine ⟨⟨first.id⟩, ?_⟩
  unfold nodeOfParam?
  rw [hf, Option.bind_eq_bind, Option.bind_some, hfirst]
  rfl

/-- **What is found at a place** is seen as what the signature has there. -/
theorem parameter?_of_nodeOfParam? (h : g.program.Finished) {position : Position}
    (hf : g.program.function? k = some f) (hfound : g.nodeOfParam? k position = some n) :
    g.parameter? n = f.paramAt? position ∧ ∃ r, f.paramAt? position = some r := by
  obtain ⟨f', inst, hf', hn, rfl, hplace⟩ := nodeOfParam?_cases h.toWellFormed hfound
  obtain rfl : f' = f := Option.some.inj (hf'.symm.trans hf)
  obtain ⟨f'', hf'', hi⟩ := h.instr_in_function hn
  obtain rfl : f'' = f' := Option.some.inj (hf''.symm.trans hf)
  refine ⟨?_, Function.exists_paramAt? (h.supplied _ _ hf _ inst hi) hplace⟩
  rw [parameter?_eq hn hf, hplace, Option.bind_some]

/-! ### The way back to expressions -/

/-- What is found by an expression is the first of the listing that is bound to it. -/
theorem nodeOfExpr?_cases (h : g.program.WellFormed) {e : ExprId}
    (hfound : g.nodeOfExpr? e = some n) :
    ∃ before inst after, g.program.listing = before ++ inst :: after ∧ n = ⟨inst.id⟩ ∧
      inst.expr = some e ∧ (∀ j ∈ before, j.expr ≠ some e) ∧ g.instr? n = some inst := by
  unfold nodeOfExpr? at hfound
  obtain ⟨inst, hinst, rfl⟩ := Option.map_eq_some_iff.mp hfound
  obtain ⟨hbound, before, after, heq, hbefore⟩ := List.find?_eq_some_iff_append.mp hinst
  refine ⟨before, inst, after, heq, rfl, of_decide_eq_true hbound, ?_, ?_⟩
  · intro j hj
    simpa using hbefore j hj
  · exact h.instr?_of_mem_listing (List.mem_of_find?_eq_some hinst)

/-- Where an instruction is bound to an expression, something is found by it. -/
theorem exists_nodeOfExpr? (h : g.program.WellFormed) {e : ExprId}
    (hn : g.instr? n = some inst) (he : inst.expr = some e) : ∃ m, g.nodeOfExpr? e = some m := by
  have hsome : (g.program.listing.find? fun i => i.expr = some e).isSome = true := by
    rw [List.find?_isSome]
    exact ⟨inst, h.mem_listing_of_instr? hn, decide_eq_true he⟩
  obtain ⟨first, hfirst⟩ := Option.isSome_iff_exists.mp hsome
  exact ⟨⟨first.id⟩, Option.map_eq_some_iff.mpr ⟨first, hfirst, rfl⟩⟩

end FlowGraph

/-- What an instruction is bound to is found in the program, under its own id. -/
theorem Program.Finished.exists_expr? {p : Program} (h : p.Finished) {i : InstrId} {inst : Instr}
    {e : ExprId} (hi : p.instr? i = some inst) (he : inst.expr = some e) :
    ∃ x, p.expr? e = some x ∧ x.id = e := by
  obtain ⟨f, hf, hfi⟩ := h.instr_in_function hi
  have hkey : e ∈ f.exprs.keys := (f.exprs.contains_iff e).mp ((h.sound _ f hf).bound i inst hfi e he)
  -- Some function has the id, so there is a last one that has it, and that one answers.
  obtain ⟨owner, hlast⟩ := exists_lastWith? hf hkey
  obtain ⟨⟨l, hl⟩, hkey'⟩ := mem_of_lastWith? hlast
  obtain ⟨x, hx⟩ := (owner.exprs.mem_keys_iff e).mp hkey'
  refine ⟨x, ?_, h.exprs l owner e x hl hx⟩
  rw [h.obtained.expr?_eq_last, hlast]
  exact hx

namespace FlowGraph

/-- **There and back.** In a program that a session finished, whatever its steps: the node
    that is found by a function and a place is seen as the parameter of this function at
    this place. A node that is seen as a parameter need not be the one that is found by
    it, but some node is, and it is seen as the same parameter. By an expression a node
    is found exactly if some instruction is bound to it. It is then the first such node
    in the order of the listing, and what it computes, conversions included, is the
    expression of that id, the only one in the program if the counters fit into ids. -/
theorem lookups_invert (steps : List SsaFlow.Step) (g : FlowGraph)
    (hfinish : (Session.empty.run steps).1.finish = .ok g.program) :
    (∀ k position n, g.nodeOfParam? k position = some n →
      ∃ r, g.parameter? n = some r ∧ r.function = k ∧ r.position = position) ∧
    (∀ n r, g.parameter? n = some r →
      ∃ m, g.nodeOfParam? r.function r.position = some m ∧ g.parameter? m = some r) ∧
    (∀ e, (∃ n, g.nodeOfExpr? e = some n) ↔
      ∃ i inst, g.program.instr? i = some inst ∧ inst.expr = some e) ∧
    ∀ e n, g.nodeOfExpr? e = some n →
      (∃ before inst after, g.program.listing = before ++ inst :: after ∧ n = ⟨inst.id⟩ ∧
        inst.expr = some e ∧ ∀ j ∈ before, j.expr ≠ some e) ∧
      ∃ x, g.boundExpr? n = some x ∧ g.program.expr? e = some x ∧ x.id = e ∧
        ((Session.empty.run steps).1.context.InRange →
          ∀ k f y, g.program.function? k = some f → f.expr? e = some y → y = x) := by
  have h : g.program.Finished := Session.finished_of_finish hfinish
  refine ⟨?_, ?_, ?_, ?_⟩
  · intro k position n hfound
    obtain ⟨f, -, hf, -⟩ := nodeOfParam?_cases h.toWellFormed hfound
    obtain ⟨hview, r, hr⟩ := parameter?_of_nodeOfParam? h hf hfound
    obtain ⟨hfunction, hposition⟩ := Function.names_of_paramAt? hr
    exact ⟨r, hview.trans hr, hfunction.trans (h.indexed.filed k f hf), hposition⟩
  · intro n r hr
    have hseen := hr
    unfold parameter? at hseen
    obtain ⟨inst, hn, -⟩ := Option.bind_eq_some_iff.mp hseen
    obtain ⟨f, hf, hi⟩ := h.instr_in_function hn
    rw [parameter?_eq hn hf] at hr
    obtain ⟨position, hplace, hparam⟩ := Option.bind_eq_some_iff.mp hr
    obtain ⟨hfunction, rfl⟩ := Function.names_of_paramAt? hparam
    rw [hfunction, h.indexed.filed _ f hf]
    obtain ⟨m, hm⟩ := exists_nodeOfParam? h.toWellFormed hn hplace
    refine ⟨m, hm, ?_⟩
    rw [(parameter?_of_nodeOfParam? h hf hm).1]
    exact hparam
  · intro e
    constructor
    · intro hfound
      obtain ⟨n, hn⟩ := hfound
      obtain ⟨-, inst, -, -, -, hbound, -, hinst⟩ := nodeOfExpr?_cases h.toWellFormed hn
      exact ⟨n.instr, inst, hinst, hbound⟩
    · intro hbound
      obtain ⟨i, inst, hi, he⟩ := hbound
      exact exists_nodeOfExpr? (n := ⟨i⟩) h.toWellFormed hi he
  · intro e n hfound
    obtain ⟨before, inst, after, heq, hnode, hbound, hbefore, hn⟩ :=
      nodeOfExpr?_cases h.toWellFormed hfound
    obtain ⟨x, hx, hid⟩ := h.exists_expr? hn hbound
    have hview : g.boundExpr? n = some x := by
      unfold boundExpr?
      rw [hn, Option.bind_eq_bind, Option.bind_some, hbound]
      exact hx
    refine ⟨⟨before, inst, after, heq, hnode, hbound, hbefore⟩, x, hview, hx, hid, ?_⟩
    intro hroom k f y hf hy
    obtain ⟨hprogram, -⟩ := Session.finish_cases hfinish
    have hplace : g.program.ExprsInPlace := hprogram ▸ Session.exprsInPlace_run steps hroom
    have hfoundToo := (hplace.expr?_eq_some_iff h.obtained).mpr ⟨k, f, hf, hy⟩
    exact Option.some.inj (hfoundToo.symm.trans hx)

/-- The parameter is found where the entry block reads it, which is listed first, also
    from the node of the last block; so is the expression to which three nodes are
    bound. -/
theorem member_found :
    member.nodeOfParam? ⟨0⟩ .receiver = some ⟨⟨2⟩⟩ ∧
      (∃ r, member.parameter? ⟨⟨2⟩⟩ = some r ∧ r.function = ⟨0⟩ ∧ r.position = .receiver) ∧
      member.parameter? ⟨⟨0⟩⟩ = some ⟨⟨0⟩, .explicit 0, "x", .bool⟩ ∧
      (∃ m, member.nodeOfParam? ⟨0⟩ (.explicit 0) = some m ∧
        member.parameter? m = some ⟨⟨0⟩, .explicit 0, "x", .bool⟩) ∧
      member.nodeOfParam? ⟨0⟩ (.explicit 0) = some ⟨⟨1⟩⟩ ∧
      member.nodeOfExpr? ⟨0⟩ = some ⟨⟨1⟩⟩ ∧
      ∃ x, member.boundExpr? ⟨⟨1⟩⟩ = some x ∧ x.id = ⟨0⟩ := by
  obtain ⟨hplace, hback, -, hexpr⟩ := lookups_invert memberSteps member finish_member
  obtain ⟨-, x, hx, -, hid, -⟩ := hexpr ⟨0⟩ ⟨⟨1⟩⟩ rfl
  exact ⟨rfl, hplace ⟨0⟩ .receiver ⟨⟨2⟩⟩ rfl, rfl, hback ⟨⟨0⟩⟩ _ rfl, rfl, rfl, x, hx, hid⟩

end FlowGraph

end SsaFlow
