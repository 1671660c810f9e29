import Mathlib
import SsaFlow.Proofs.LocalFlow

/-! # Steps and how often they occur

    An instruction may take the same value several times, say a phi with one
    operand for two ways in. The graph of a function then has the step as often. In
    a well-formed program three counts agree: how often a node is among the
    successors of another, how often the other is among its predecessors, and how
    often its instruction takes the other's value.

    * `Digraph.count_succ`, `Digraph.count_pred`: both tables of a graph repeat an
      edge as often as it is in the graph.
    * `FlowGraph.takes`: the values that a node takes, and `count_steps`: the graph
      of a function has each step as often as the node takes the value.
    * `FlowGraph.step_counts_agree`: the three counts.
-/

namespace SsaFlow

/-! ### Repeated edges -/

namespace Digraph

variable {α : Type} [DecidableEq α] [Coded α]

theorem count_succ (g : Digraph α) (a b : α) : (g.succ a).count b = g.edges.count (a, b) := by
  rw [succ_eq, List.count_eq_countP, List.countP_map, List.countP_filter, List.count_eq_countP]
  refine List.countP_congr fun e _ => ?_
  simp [Prod.ext_iff, and_comm]

theorem count_pred (g : Digraph α) (a b : α) : (g.pred b).count a = g.edges.count (a, b) := by
  rw [pred_eq, List.count_eq_countP, List.countP_map, List.countP_filter, List.count_eq_countP]
  refine List.countP_congr fun e _ => ?_
  simp [Prod.ext_iff]

end Digraph

/-! ### The steps into one instruction -/

namespace FlowConfig

variable {a b : Node}

theorem count_stepsInto (c : FlowConfig) {i : Instr} (hid : i.id = b.instr) :
    (c.stepsInto i).count (a, b) = (c.sources i).count a.instr := by
  have hpair : (a, b) = ((⟨a.instr⟩, ⟨i.id⟩) : Node × Node) := by rw [hid]
  have hinj : Function.Injective fun source : InstrId => ((⟨source⟩, ⟨i.id⟩) : Node × Node) := by
    intro x y hxy
    exact congrArg (fun e => e.1.instr) hxy
  unfold stepsInto
  rw [hpair]
  exact List.count_map_of_injective _ _ hinj a.instr

theorem count_stepsInto_of_ne (c : FlowConfig) {i : Instr} (hid : i.id ≠ b.instr) :
    (c.stepsInto i).count (a, b) = 0 := by
  rw [List.count_eq_zero, FlowGraph.mem_stepsInto_iff]
  intro h
  exact hid h.2.symm

/-- If no two instructions of a list have one id, only one of them matters for the
    steps into a node. -/
theorem count_flatMap_stepsInto (c : FlowConfig) {l : List Instr} (hl : (l.map Instr.id).Nodup)
    {i : Instr} (hi : i ∈ l) (hid : i.id = b.instr) :
    (l.flatMap c.stepsInto).count (a, b) = (c.sources i).count a.instr := by
  induction l with
  | nil => cases hi
  | cons j rest ih =>
    rw [List.map_cons, List.nodup_cons] at hl
    rw [List.flatMap_cons, List.count_append]
    rcases List.mem_cons.mp hi with rfl | hi'
    · -- The rest of the list has other ids.
      have hrest : (rest.flatMap c.stepsInto).count (a, b) = 0 := by
        rw [List.count_eq_zero, List.mem_flatMap]
        rintro ⟨j, hj, hpair⟩
        have hjd := ((FlowGraph.mem_stepsInto_iff c j).mp hpair).2
        exact hl.1 (List.mem_map.mpr ⟨j, hj, hjd.symm.trans hid.symm⟩)
      rw [c.count_stepsInto hid, hrest, Nat.add_zero]
    · have hne : j.id ≠ b.instr := by
        intro heq
        exact hl.1 (List.mem_map.mpr ⟨i, hi', hid.trans heq.symm⟩)
      rw [c.count_stepsInto_of_ne hne, ih hl.2 hi', Nat.zero_add]

end FlowConfig

namespace FlowGraph

variable {g : FlowGraph} {a b : Node} {k : FuncId}

/-- The instructions whose values a node takes in one step, repeats kept. -/
def takes (g : FlowGraph) (b : Node) : List InstrId :=
  match g.instr? b with
  | some i => g.config.sources i
  | none => []

theorem step_iff_mem_takes : g.Step a b ↔ a.instr ∈ g.takes b := by
  rw [step_iff]
  unfold takes
  cases g.instr? b with
  | none => simp
  | some i => simp

/-- **The graph of a function** has a step as often as the node where it ends takes
    the value. -/
theorem count_steps (h : g.program.WellFormed) (hb : g.enclosing? b = some k) :
    (g.steps k).edges.count (a, b) = (g.takes b).count a.instr := by
  obtain ⟨f, i, hf, hi⟩ := (enclosing?_eq_some_iff h).mp hb
  have hinstr : g.instr? b = some i := h.instr?_eq_some_iff.mpr ⟨k, f, hf, hi⟩
  have hid := (h.instr_names hf hi).1
  have hmem : i ∈ f.listing := (h.mem_listing_iff hf).mpr (hid.symm ▸ hi)
  have hnodup : (f.listing.map Instr.id).Nodup := by
    rw [h.map_id_listing hf]
    exact (h.sound k f hf).listedOnce
  unfold steps takes
  rw [hf, hinstr]
  exact g.config.count_flatMap_stepsInto hnodup hmem hid

theorem count_takes_eq_zero (hno : ¬ g.Step a b) : (g.takes b).count a.instr = 0 := by
  rw [List.count_eq_zero, ← step_iff_mem_takes]
  exact hno

/-- The graph of another function than that of a node has no step into the node. -/
theorem count_steps_of_ne (h : g.program.WellFormed) (hb : g.enclosing? b ≠ some k) :
    (g.steps k).edges.count (a, b) = 0 := by
  rw [List.count_eq_zero]
  intro hedge
  exact hb ((edge_steps_iff h).mp hedge).2

theorem count_successors (h : g.program.WellFormed) (asked : List Question) :
    (g.answerAfter asked (g.successors a)).count b = (g.takes b).count a.instr := by
  rw [(g.yields_successors a).answerAfter]
  cases ha : g.enclosing? a with
  | none =>
    -- A node without a function takes part in no step.
    refine (count_takes_eq_zero fun hstep => ?_).symm
    obtain ⟨k, hk, _⟩ := enclosing?_of_step h hstep
    rw [ha] at hk
    cases hk
  | some k =>
    show ((g.steps k).succ a).count b = _
    rw [Digraph.count_succ]
    by_cases hb : g.enclosing? b = some k
    · exact count_steps h hb
    · rw [count_steps_of_ne h hb, count_takes_eq_zero]
      intro hstep
      obtain ⟨k', hfrom, hto⟩ := enclosing?_of_step h hstep
      rw [ha] at hfrom
      exact hb (hto.trans hfrom.symm)

theorem count_predecessors (h : g.program.WellFormed) (asked : List Question) :
    (g.answerAfter asked (g.predecessors b)).count a = (g.takes b).count a.instr := by
  rw [(g.yields_predecessors b).answerAfter]
  cases hb : g.enclosing? b with
  | none =>
    refine (count_takes_eq_zero fun hstep => ?_).symm
    obtain ⟨k, _, hk⟩ := enclosing?_of_step h hstep
    rw [hb] at hk
    cases hk
  | some k =>
    show ((g.steps k).pred b).count a = _
    rw [Digraph.count_pred]
    exact count_steps h hb

/-- **The counts agree**: in a program that was obtained without edits and passes the
    check, and whatever was asked before, `b` is among the successors of `a` as often
    as `a` is among the predecessors of `b` and as often as the instruction of `b`
    takes the value of `a`'s. So there is a step from `a` to `b` exactly if they are
    neighbours in either table, and then both are in one function. -/
theorem step_counts_agree (g : FlowGraph) (hp : g.program.Obtained)
    (hv : g.program.validate = .ok ()) (asked : List Question) (a b : Node) :
    (g.answerAfter asked (g.successors a)).count b = (g.takes b).count a.instr ∧
    (g.answerAfter asked (g.predecessors b)).count a = (g.takes b).count a.instr ∧
    (g.isStep a b = true ↔ b ∈ g.answerAfter asked (g.successors a)) ∧
    (g.isStep a b = true ↔ a ∈ g.answerAfter asked (g.predecessors b)) ∧
    (g.isStep a b = true → ∃ k f, g.enclosing? a = some k ∧ g.enclosing? b = some k ∧
      g.program.function? k = some f ∧ a.instr ∈ f.instrs.keys ∧ b.instr ∈ f.instrs.keys) := by
  have hwf := hp.wellFormed hv
  have hsucc := count_successors (a := a) (b := b) hwf asked
  have hpred := count_predecessors (a := a) (b := b) hwf asked
  have hstep : g.isStep a b = true ↔ 0 < (g.takes b).count a.instr := by
    rw [List.count_pos_iff]
    exact step_iff_mem_takes
  refine ⟨hsucc, hpred, ?_, ?_, ?_⟩
  · rw [hstep, ← hsucc, List.count_pos_iff]
  · rw [hstep, ← hpred, List.count_pos_iff]
  · intro hab
    obtain ⟨k, ha, hb⟩ := enclosing?_of_step hwf hab
    obtain ⟨f, i, hf, hi⟩ := (enclosing?_eq_some_iff hwf).mp ha
    obtain ⟨f', j, hf', hj⟩ := (enclosing?_eq_some_iff hwf).mp hb
    obtain rfl : f = f' := Option.some.inj (hf.symm.trans hf')
    exact ⟨k, f, ha, hb, hf, (f.instrs.mem_keys_iff _).mpr ⟨i, hi⟩,
      (f.instrs.mem_keys_iff _).mpr ⟨j, hj⟩⟩

/-- The steps that build a function in which a phi takes a flag twice and itself
    once, and a possible write takes the phi in both places. -/
def repeatSteps : List SsaFlow.Step :=
  [.program (.function "repeat"), .function .enterEntry, .block (.constant (.bool true) .bool),
    .block (.phi [(⟨0⟩, ⟨0⟩), (⟨0⟩, ⟨0⟩), (⟨0⟩, ⟨1⟩)] .bool), .block (.chi ⟨1⟩ ⟨1⟩ .bool),
    .block (.terminate .ret), .function .build]

/-- The function as a flow graph. -/
def repeats : FlowGraph := ⟨(Session.empty.run repeatSteps).1.program, .standard, none⟩

/-- The flag flows into the phi twice, the phi into itself once and into the possible
    write twice, also after other questions. -/
theorem repeats_counted :
    repeats.program.validate = .ok () ∧
      (repeats.answerAfter [] (repeats.successors ⟨⟨0⟩⟩)).count ⟨⟨1⟩⟩ = 2 ∧
      (⟨⟨1⟩⟩ : Node) ∈ repeats.answerAfter [.successors ⟨⟨0⟩⟩] (repeats.successors ⟨⟨1⟩⟩) ∧
      (repeats.answerAfter [.successors ⟨⟨0⟩⟩] (repeats.predecessors ⟨⟨2⟩⟩)).count ⟨⟨1⟩⟩ = 2 := by
  have hv : repeats.program.validate = .ok () := rfl
  have hp : repeats.program.Obtained := .built repeatSteps
  obtain ⟨hphi, -⟩ := step_counts_agree repeats hp hv [] ⟨⟨0⟩⟩ ⟨⟨1⟩⟩
  obtain ⟨-, -, hself, -⟩ := step_counts_agree repeats hp hv [.successors ⟨⟨0⟩⟩] ⟨⟨1⟩⟩ ⟨⟨1⟩⟩
  obtain ⟨-, hchi, -⟩ := step_counts_agree repeats hp hv [.successors ⟨⟨0⟩⟩] ⟨⟨1⟩⟩ ⟨⟨2⟩⟩
  exact ⟨hv, hphi.trans rfl, hself.mp rfl, hchi.trans rfl⟩

end FlowGraph

end SsaFlow
