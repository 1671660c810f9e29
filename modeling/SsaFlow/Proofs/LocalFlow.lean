import Mathlib
import SsaFlow.Proofs.Answers
import SsaFlow.Proofs.Traversal
import SsaFlow.Proofs.Validation

/-! # Flow is the closure of the step relation

    One flow step is decided from the instruction that it leads to. Flow in any
    number of steps is found by a traversal of a graph that is built once for
    each function. In a well-formed program the two fit together: the graph of a
    function has exactly the steps into its instructions, and no step leaves a
    function.

    The main result is `flows_iff_chain`.
-/

namespace SsaFlow

/-- What flows into an instruction in one step is among its operands. -/
theorem FlowConfig.mem_operands_of_mem_sources (c : FlowConfig) {i : Instr} {x : InstrId}
    (h : x ∈ c.sources i) : ∃ o ∈ i.operands, o.instr = x := by
  unfold sources at h
  unfold Instr.operands
  cases hop : i.op with
  | copy source =>
    simp only [hop, List.mem_singleton] at h
    exact ⟨⟨.sourceValue, source⟩, List.mem_cons_self, h.symm⟩
  | load address source =>
    simp only [hop, List.mem_singleton] at h
    exact ⟨⟨.sourceValue, source⟩, List.mem_cons_of_mem _ List.mem_cons_self, h.symm⟩
  | store address value =>
    simp only [hop, List.mem_singleton] at h
    exact ⟨⟨.sourceValue, value⟩, List.mem_cons_of_mem _ List.mem_cons_self, h.symm⟩
  | phi incoming =>
    simp only [hop] at h
    obtain ⟨e, he, heq⟩ := List.mem_map.mp h
    exact ⟨⟨.phiIncoming e.1, e.2⟩, List.mem_map.mpr ⟨e, he, rfl⟩, heq⟩
  | convert how operand =>
    -- Whether a conversion is a step depends on its kind; its operand is one.
    have hx : x = operand := by
      cases how <;> simp [hop] at h <;> exact h.2
    exact ⟨⟨.unary, operand⟩, List.mem_cons_self, hx.symm⟩
  | chi total part =>
    have hx : x = total ∨ x = part := by
      simp only [hop] at h
      split at h
      · simpa using h
      · exact Or.inl (by simpa using h)
    rcases hx with heq | heq
    · exact ⟨⟨.chiTotal, total⟩, List.mem_cons_self, heq.symm⟩
    · exact ⟨⟨.chiPart, part⟩, List.mem_cons_of_mem _ List.mem_cons_self, heq.symm⟩
  | _ => simp [hop] at h

namespace FlowGraph

variable {g : FlowGraph} {a b : Node} {k : FuncId}

/-- Data moves from `a` to `b` in one step. -/
def Step (g : FlowGraph) (a b : Node) : Prop := g.isStep a b = true

theorem step_iff : g.Step a b ↔ ∃ i, g.instr? b = some i ∧ a.instr ∈ g.config.sources i := by
  unfold Step isStep
  cases g.instr? b with
  | none => simp
  | some i => simp

/-! ### Nodes and functions -/

theorem enclosing?_eq_some_iff (h : g.program.WellFormed) :
    g.enclosing? a = some k ↔
      ∃ f i, g.program.function? k = some f ∧ f.instr? a.instr = some i := by
  unfold enclosing? instr?
  rw [Option.map_eq_some_iff]
  constructor
  · intro ha
    obtain ⟨i, hi, heq⟩ := ha
    obtain ⟨f, hf, hfi⟩ := h.instr_in_function hi
    exact ⟨f, i, heq ▸ hf, hfi⟩
  · intro ha
    obtain ⟨f, i, hf, hi⟩ := ha
    exact ⟨i, h.instr?_eq_some_iff.mpr ⟨k, f, hf, hi⟩, (h.instr_names hf hi).2⟩

/-- A step stays within a function, and leads to a node that has one. -/
theorem enclosing?_of_step (h : g.program.WellFormed) (hstep : g.Step a b) :
    ∃ k, g.enclosing? a = some k ∧ g.enclosing? b = some k := by
  obtain ⟨i, hi, hsource⟩ := step_iff.mp hstep
  obtain ⟨f, hf, hfi⟩ := h.instr_in_function hi
  obtain ⟨o, ho, heq⟩ := g.config.mem_operands_of_mem_sources hsource
  obtain ⟨i', hi'⟩ := h.operand_in_function hf hfi ho
  refine ⟨i.function, ?_, ?_⟩
  · exact (enclosing?_eq_some_iff h).mpr ⟨f, i', hf, heq ▸ hi'⟩
  · exact (enclosing?_eq_some_iff h).mpr ⟨f, i, hf, hfi⟩

/-! ### The graph of a function -/

theorem mem_stepsInto_iff (c : FlowConfig) (i : Instr) :
    (a, b) ∈ c.stepsInto i ↔ a.instr ∈ c.sources i ∧ b.instr = i.id := by
  unfold FlowConfig.stepsInto
  rw [List.mem_map]
  constructor
  · intro h
    obtain ⟨source, hsource, heq⟩ := h
    cases heq
    exact ⟨hsource, rfl⟩
  · intro h
    exact ⟨a.instr, h.1, by rw [← h.2]⟩

/-- The graph of a function has exactly the steps into its instructions. -/
theorem edge_steps_iff (h : g.program.WellFormed) :
    (g.steps k).Edge a b ↔ g.Step a b ∧ g.enclosing? b = some k := by
  rw [enclosing?_eq_some_iff h, step_iff]
  unfold steps Digraph.Edge
  cases hf : g.program.function? k with
  | none =>
    constructor
    · intro hmem; cases hmem
    · intro hb
      obtain ⟨_, f, _, hnone, _⟩ := hb
      cases hnone
  | some f =>
    simp only [Digraph.edges_ofEdges]
    rw [List.mem_flatMap]
    constructor
    · intro hmem
      obtain ⟨i, hi, hpair⟩ := hmem
      obtain ⟨hsource, hb⟩ := (mem_stepsInto_iff g.config i).mp hpair
      have hfi : f.instr? b.instr = some i := hb ▸ (h.mem_listing_iff hf).mp hi
      exact ⟨⟨i, h.instr?_eq_some_iff.mpr ⟨k, f, hf, hfi⟩, hsource⟩, f, i, rfl, hfi⟩
    · intro hb
      obtain ⟨⟨i, hi, hsource⟩, f', i', hf', hfi⟩ := hb
      cases hf'
      -- The program-wide look-up and the function's own find one instruction.
      have heq : i' = i :=
        Option.some.inj ((h.instr?_eq_some_iff.mpr ⟨k, f, hf, hfi⟩).symm.trans hi)
      subst heq
      have hid := (h.instr_names hf hfi).1
      exact ⟨i', (h.mem_listing_iff hf).mpr (hid ▸ hfi),
        (mem_stepsInto_iff g.config i').mpr ⟨hsource, hid.symm⟩⟩

/-! ### Chains of steps -/

/-- A chain of steps stays within a function. -/
theorem enclosing?_of_chain (h : g.program.WellFormed) (hchain : Relation.ReflTransGen g.Step a b)
    (ha : g.enclosing? a = some k) : g.enclosing? b = some k := by
  induction hchain with
  | refl => exact ha
  | tail _ hstep ih =>
    obtain ⟨k', hfrom, hto⟩ := enclosing?_of_step h hstep
    rw [hto, ← hfrom, ih]

/-- The traversal finds what chains of steps lead to. -/
theorem mem_closure_iff (h : g.program.WellFormed) :
    b ∈ g.closure a ↔ Relation.ReflTransGen g.Step a b := by
  unfold closure
  cases ha : g.enclosing? a with
  | none =>
    -- No step leaves a node without an instruction.
    constructor
    · intro hb
      rw [List.mem_singleton.mp hb]
    · intro hchain
      rcases hchain.cases_head with heq | hmore
      · exact List.mem_singleton.mpr heq.symm
      · obtain ⟨c, hstep, _⟩ := hmore
        obtain ⟨k, hk, _⟩ := enclosing?_of_step h hstep
        rw [ha] at hk
        cases hk
  | some k =>
    show b ∈ ((g.steps k).reach a).members ↔ _
    rw [Digraph.mem_reach_iff, Path.exists_iff_reflTransGen]
    constructor
    · intro hpath
      have hsub : ∀ x y, (g.steps k).Edge x y → g.Step x y := fun x y hedge =>
        ((edge_steps_iff h).mp hedge).1
      exact Relation.ReflTransGen.mono hsub a b hpath
    · -- Every prefix of the chain ends in the function, so its steps are edges.
      intro hchain
      induction hchain with
      | refl => exact .refl
      | @tail x y hbefore hstep ih =>
        refine ih.tail ((edge_steps_iff h).mpr ⟨hstep, ?_⟩)
        exact enclosing?_of_chain h (hbefore.tail hstep) ha

theorem reaches_iff (h : g.program.WellFormed) :
    g.reaches a b = true ↔ Relation.ReflTransGen g.Step a b := by
  unfold reaches
  by_cases hab : a = b
  · rw [if_pos hab, hab]
    exact ⟨fun _ => .refl, fun _ => rfl⟩
  · rw [if_neg hab, ← mem_closure_iff h]
    cases ha : g.enclosing? a with
    | none =>
      -- The closure of such a node is the node alone.
      unfold closure
      simp [ha, Ne.symm hab]
    | some k =>
      -- The shortcut for nodes of different functions loses no chain.
      have hb : b ∈ g.closure a → g.enclosing? b = some k := fun hmem =>
        enclosing?_of_chain h ((mem_closure_iff h).mp hmem) ha
      cases hk : g.enclosing? b with
      | none =>
        refine ⟨fun hfalse => absurd hfalse Bool.false_ne_true, fun hmem => ?_⟩
        rw [hb hmem] at hk
        cases hk
      | some k' =>
        by_cases heq : k = k'
        · simp [heq]
        · simp only [if_neg heq]
          refine ⟨fun hfalse => absurd hfalse Bool.false_ne_true, fun hmem => ?_⟩
          rw [hb hmem] at hk
          exact absurd (Option.some.inj hk) heq

/-- **Flow is closed steps**: in a program that was obtained without edits and
    passes the check, and whatever was asked before, data flows from one node to
    another exactly if a chain of steps leads there, and the nodes found from a
    node are exactly the ends of such chains. -/
theorem flows_iff_chain (g : FlowGraph) (hp : g.program.Obtained)
    (hv : g.program.validate = .ok ()) (asked : List Question) (a b : Node) :
    (g.answerAfter asked (g.flows a b) = true ↔
        Relation.ReflTransGen (fun x y => g.isStep x y = true) a b) ∧
      (b ∈ g.answerAfter asked (g.reachFrom a) ↔
        Relation.ReflTransGen (fun x y => g.isStep x y = true) a b) := by
  have hwf := hp.wellFormed hv
  rw [(g.yields_flows a b).answerAfter, (g.yields_reachFrom a).answerAfter]
  exact ⟨reaches_iff hwf, mem_closure_iff hwf⟩

/-- In the loop the flag flows through the phi at the head into its copy, also
    after other questions, and no chain of steps leads back to where it came from. -/
theorem loop_flag_flows_into_copy :
    Program.loop.validate = .ok () ∧
      (let g : FlowGraph := ⟨Program.loop, .standard, none⟩
      let asked : List Question := [.successors ⟨⟨1⟩⟩, .flows ⟨⟨2⟩⟩ ⟨⟨0⟩⟩]
      g.answerAfter asked (g.flows ⟨⟨0⟩⟩ ⟨⟨2⟩⟩) = true ∧
        (⟨⟨2⟩⟩ : Node) ∈ g.answerAfter asked (g.reachFrom ⟨⟨0⟩⟩) ∧
        ¬ Relation.ReflTransGen (fun x y => g.isStep x y = true) ⟨⟨2⟩⟩ ⟨⟨0⟩⟩) := by
  refine ⟨Program.validate_loop, ?_⟩
  intro g asked
  have hchain : Relation.ReflTransGen (fun x y => g.isStep x y = true) ⟨⟨0⟩⟩ ⟨⟨2⟩⟩ :=
    .head (b := ⟨⟨1⟩⟩) rfl (.single rfl)
  have hthere := flows_iff_chain g Program.obtained_loop Program.validate_loop asked ⟨⟨0⟩⟩ ⟨⟨2⟩⟩
  have hback := flows_iff_chain g Program.obtained_loop Program.validate_loop [] ⟨⟨2⟩⟩ ⟨⟨0⟩⟩
  refine ⟨hthere.1.mpr hchain, hthere.2.mpr hchain, ?_⟩
  intro hreturn
  have hno : g.answerAfter [] (g.flows ⟨⟨2⟩⟩ ⟨⟨0⟩⟩) = false := by cbv
  rw [hback.1.mpr hreturn] at hno
  cases hno

end FlowGraph

end SsaFlow
