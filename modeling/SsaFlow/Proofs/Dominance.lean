import SsaFlow.Proofs.DominatorSets

/-! # Control paths and dominance

    A control path of a function starts at its entry and follows the
    terminators. The computed edges, reachable blocks and dominators are those
    that the paths define.

    * `Function.ControlEdge`, `ControlPath` and `Reachable`: read off the
      terminators of the stored blocks.
    * `ControlFlow.edge_of`: the edges of the computed graph.
    * `ControlFlow.isReachable_of_iff`: the computed reachable blocks.
    * `Dominators.dominates_iff_on_every_path`: the computation of dominators
      ends, since the sets of candidates only get smaller, and one block dominates
      another if it is on every path there, or if they are the same.
-/

namespace SsaFlow

/-! ### Paths of a function -/

namespace Function

/-- Control may go from `a` to `b`: the block stored under `a` names `b` in its
    terminator. -/
def ControlEdge (f : Function) (a b : BlockId) : Prop :=
  ∃ block, f.block? a = some block ∧ b ∈ block.successors

/-- A path of control from the entry to `b`, with the edges that it takes. -/
def ControlPath (f : Function) (b : BlockId) (es : List (BlockId × BlockId)) : Prop :=
  Path f.ControlEdge f.entry b es

/-- Control can get to `b`. -/
def Reachable (f : Function) (b : BlockId) : Prop := ∃ es, f.ControlPath b es

end Function

/-! ### The computed edges and reachable blocks -/

namespace ControlFlow

/-- The computed edges are those of the terminators. -/
theorem edge_of (f : Function) : (ControlFlow.of f).graph.Edge = f.ControlEdge := by
  funext a b
  show ((a, b) ∈ f.blocks.entries.flatMap edgesOf) = f.ControlEdge a b
  rw [List.mem_flatMap, eq_iff_iff]
  constructor
  · intro h
    obtain ⟨⟨key, block⟩, hentry, hedge⟩ := h
    rw [edgesOf_eq] at hedge
    obtain ⟨t, ht, heq⟩ := List.mem_map.mp hedge
    have hkey : key = a := congrArg Prod.fst heq
    have htarget : t = b := congrArg Prod.snd heq
    subst hkey htarget
    exact ⟨block, (f.blocks.find?_eq_some_iff key block).mpr hentry, List.mem_eraseDups.mp ht⟩
  · intro h
    obtain ⟨block, hblock, hsucc⟩ := h
    refine ⟨(a, block), (f.blocks.find?_eq_some_iff a block).mp hblock, ?_⟩
    rw [edgesOf_eq]
    exact List.mem_map.mpr ⟨b, List.mem_eraseDups.mpr hsucc, rfl⟩

theorem reaches_of_iff (f : Function) (b : BlockId) :
    (ControlFlow.of f).Reaches b ↔ f.Reachable b := by
  unfold Reaches
  rw [edge_of]
  rfl

theorem onlyThrough_of_iff (f : Function) (a b : BlockId) :
    (ControlFlow.of f).OnlyThrough a b ↔ Passes f.ControlEdge f.entry a b := by
  unfold OnlyThrough
  rw [edge_of]
  rfl

theorem mem_predecessors_of_iff (f : Function) (a b : BlockId) :
    a ∈ (ControlFlow.of f).predecessors b ↔ f.ControlEdge a b := by
  rw [← edge_of]
  exact (ControlFlow.of f).graph.mem_pred_iff a b

theorem isReachable_of_iff (f : Function) (b : BlockId) :
    (ControlFlow.of f).isReachable b = true ↔ f.Reachable b := by
  show (ControlFlow.of f).reached.contains b = true ↔ ∃ es, Path f.ControlEdge f.entry b es
  rw [Visited.contains_iff, ← edge_of]
  exact (ControlFlow.of f).graph.mem_reach_iff f.entry b

end ControlFlow

/-! ### Dominance -/

namespace Dominators

theorem members_ways (c : ControlFlow) (b : BlockId) :
    (((Dominators.of c).ways.find? b).getD .none).members =
      if b ∈ c.reversePostorder then c.dominatorTree.climb b else [] := by
  show (((Table.tabulate c.reversePostorder _).find? b).getD Visited.none).members = _
  rw [Table.find?_tabulate]
  split
  · exact Visited.members_ofList _
  · rfl

theorem dominates_of_iff (c : ControlFlow) (a b : BlockId) :
    (Dominators.of c).dominates a b = true ↔
      a = b ∨ (∃ es, Path c.graph.Edge c.entry b es) ∧
        ∀ es, Path c.graph.Edge c.entry b es → a ∈ Path.places c.entry es := by
  have hway : a ∈ (((Dominators.of c).ways.find? b).getD .none).members ↔
      c.Reaches b ∧ a ≠ b ∧ c.OnlyThrough a b := by
    rw [members_ways]
    split
    · exact c.mem_climb_iff a b
    · next hout =>
      rw [c.mem_reversePostorder_iff] at hout
      exact ⟨fun h => absurd h List.not_mem_nil, fun h => absurd h.1 hout⟩
  unfold dominates
  rw [Bool.or_eq_true, decide_eq_true_eq, Visited.contains_iff, hway]
  constructor
  · intro h
    rcases h with heq | ⟨hb, _, ha⟩
    · exact Or.inl heq
    · exact Or.inr ⟨hb, ha⟩
  · intro h
    rcases h with heq | ⟨hb, ha⟩
    · exact Or.inl heq
    · -- No climb meets the block that it starts from, so equality is tested apart.
      by_cases heq : a = b
      · exact Or.inl heq
      · exact Or.inr ⟨hb, heq, ha⟩

/-- **Dominance is a matter of paths**: the rounds over the blocks of a function, the
    entry apart, come to an end. At every moment of the run, whatever is worked out
    anew for a block was there before. So each round that changes anything takes
    candidates away, there are only so many, and the first round that changes nothing
    leaves the dominators. By these, one block dominates another exactly if they are
    the same, or if control can get to the other and passes through the one on every
    path there. -/
theorem dominates_iff_on_every_path (f : Function) :
    let flow := ControlFlow.of f
    flow.reversePostorder = f.entry :: flow.others ∧
    (∀ m done, done <+: flow.others →
      (done.foldl flow.visit (flow.afterRounds m, false)).1.Descending flow flow.others) ∧
    (∃ n ≤ flow.others.length * flow.reversePostorder.length,
      (∀ m < n, (flow.round flow.others (flow.afterRounds m)).2 = true) ∧
      flow.afterRounds n = flow.dominators ∧
      flow.round flow.others flow.dominators = (flow.dominators, false)) ∧
    ∀ a b, (Dominators.of flow).dominates a b = true ↔
      a = b ∨ f.Reachable b ∧ ∀ es, f.ControlPath b es → a ∈ Path.places f.entry es := by
  intro flow
  refine ⟨flow.reversePostorder_eq, ?_, flow.exists_rounds, ?_⟩
  · intro m done hdone
    exact (flow.descending_afterRounds m).foldl (_, false) fun b hb => hdone.subset hb
  · intro a b
    have h := dominates_of_iff flow a b
    rw [ControlFlow.edge_of] at h
    exact h

end Dominators

end SsaFlow
