import SsaFlow.Proofs.BlockLayout
import SsaFlow.Proofs.Dominance

/-! # Edges by where they start and by where they end

    Control flow keeps two lists for each block: where control may go from it, and
    where control may come from. Both are filled from the terminators of the stored
    blocks, and a function lists the predecessors of a block a second time, off its
    blocks alone. All of them tell of the same edges.

    * `Terminator.Names`: the targets of a terminator, one rule for each place where
      it names one.
    * `ControlFlow.successors_of`: the targets of the stored block, in the order in
      which they are named. For predecessors see `ControlFlow.predecessors_of`.
    * `ControlFlow.edges_agree`: the lists are dual, without repeats, and complete,
      also where a target is not stored.
-/

namespace SsaFlow

/-! ### What a terminator names -/

namespace Terminator

/-- A terminator names a block as one to which control may go. -/
inductive Names : Terminator → BlockId → Prop where
  /-- The target of a jump. -/
  | jump (target : BlockId) : Names (.jump target) target
  /-- Where a branch goes if its condition holds. -/
  | thenBlock (condition : InstrId) (thenBlock elseBlock : BlockId) :
      Names (.branch condition thenBlock elseBlock) thenBlock
  /-- Where a branch goes if its condition fails. -/
  | elseBlock (condition : InstrId) (thenBlock elseBlock : BlockId) :
      Names (.branch condition thenBlock elseBlock) elseBlock

theorem mem_successors_iff (t : Terminator) (b : BlockId) : b ∈ t.successors ↔ t.Names b := by
  constructor
  · intro h
    cases t with
    | jump target =>
      obtain rfl := List.mem_singleton.mp h
      exact .jump b
    | branch condition thenBlock elseBlock =>
      rcases List.mem_cons.mp h with rfl | h
      · exact .thenBlock condition b elseBlock
      · obtain rfl := List.mem_singleton.mp h
        exact .elseBlock condition thenBlock b
    | _ => cases h
  · intro h
    cases h with
    | jump => exact List.mem_cons_self
    | thenBlock => exact List.mem_cons_self
    | elseBlock => exact List.mem_cons_of_mem _ List.mem_cons_self

theorem mem_eraseReps_successors (t : Terminator) (b : BlockId) :
    b ∈ t.successors.eraseReps ↔ b ∈ t.successors := by
  rw [eraseReps_successors, List.mem_eraseDups]

/-- Erasing what is named twice in a row leaves no repeats. -/
theorem nodup_eraseReps_successors (t : Terminator) : t.successors.eraseReps.Nodup := by
  rw [eraseReps_successors]
  cases t with
  | jump target => exact List.nodup_singleton target
  | branch condition thenBlock elseBlock =>
    show [thenBlock, elseBlock].eraseDups.Nodup
    by_cases h : elseBlock = thenBlock
    · simp [List.eraseDups_cons, h]
    · simp [List.eraseDups_cons, h, Ne.symm h]
  | _ => exact List.nodup_nil

end Terminator

theorem Function.controlEdge_iff_names (f : Function) (p b : BlockId) :
    f.ControlEdge p b ↔ ∃ block, f.block? p = some block ∧ block.terminator.Names b := by
  simp only [ControlEdge, Block.successors, Terminator.mem_successors_iff]

/-! ### The entry of a key -/

/-- If keys are distinct, what the entries of one key give together is what its value
    gives. -/
theorem Entries.flatMap_at {κ α β : Type} [DecidableEq κ] (give : α → List β) (k : κ)
    {l : List (κ × α)} (h : (l.map Prod.fst).Nodup) :
    (l.flatMap fun e => if e.1 = k then give e.2 else []) = (lookup k l).elim [] give := by
  induction l with
  | nil => rfl
  | cons e rest ih =>
    obtain ⟨k', v⟩ := e
    rw [List.map_cons, List.nodup_cons] at h
    rw [List.flatMap_cons, lookup]
    by_cases hk : k' = k
    · have hrest : (rest.flatMap fun e => if e.1 = k then give e.2 else []) = [] := by
        rw [List.flatMap_eq_nil_iff]
        intro e he
        apply if_neg
        intro hek
        apply h.1
        rw [hk]
        exact List.mem_map.mpr ⟨e, he, hek⟩
      rw [if_pos hk, if_pos hk, hrest, List.append_nil]
      rfl
    · rw [if_neg hk, if_neg hk, List.nil_append]
      exact ih h.2

/-- The keys of the entries that pass a test are the keys that pass one which asks the
    same of them. -/
theorem OrderedMap.map_fst_filter {κ α : Type} [DecidableEq κ] [Coded κ] (m : OrderedMap κ α)
    {onEntry : κ × α → Bool} {onKey : κ → Bool}
    (h : ∀ k v, m.find? k = some v → onEntry (k, v) = onKey k) :
    (m.entries.filter onEntry).map Prod.fst = m.keys.filter onKey := by
  unfold keys
  rw [List.filter_map]
  congr 1
  apply List.filter_congr
  intro e he
  exact h e.1 e.2 ((m.find?_eq_some_iff e.1 e.2).mpr he)

/-! ### The two lists of a block -/

namespace ControlFlow

variable (f : Function)

/-- The edges of a stored block start at its key. -/
theorem edgesOf_out (e : BlockId × Block) (p : BlockId) :
    ((edgesOf e).filter fun edge => edge.1 = p).map Prod.snd =
      if e.1 = p then e.2.successors.eraseReps else [] := by
  unfold edgesOf
  by_cases h : e.1 = p
  · simp [List.filter_map, Function.comp_def, h]
  · simp [List.filter_map, Function.comp_def, h]

/-- Control goes from a stored block to the targets of its terminator, in the order in
    which they are named, and from any other block nowhere. -/
theorem successors_of (p : BlockId) :
    (ControlFlow.of f).successors p =
      (f.block? p).elim [] fun block => block.successors.eraseReps := by
  show (graphOf f).succ p = (f.blocks.find? p).elim [] _
  rw [Digraph.succ_eq, OrderedMap.find?_eq_lookup, ← Entries.flatMap_at _ p f.blocks.distinct]
  show ((f.blocks.entries.flatMap edgesOf).filter _).map _ = _
  rw [List.filter_flatMap, List.map_flatMap]
  simp only [edgesOf_out]

theorem mem_successors_of_iff (p b : BlockId) :
    b ∈ (ControlFlow.of f).successors p ↔ f.ControlEdge p b := by
  rw [← edge_of]
  exact (ControlFlow.of f).graph.mem_succ_iff p b

theorem nodup_successors_of (p : BlockId) : ((ControlFlow.of f).successors p).Nodup := by
  rw [successors_of]
  cases f.block? p with
  | none => exact List.nodup_nil
  | some block =>
    exact block.terminator.nodup_eraseReps_successors

/-- The two lists are dual: control comes to `b` from the stored blocks from which it
    goes there, in layout order. -/
theorem predecessors_of_eq_filter (b : BlockId) :
    (ControlFlow.of f).predecessors b =
      f.blocks.keys.filter fun p => b ∈ (ControlFlow.of f).successors p := by
  rw [predecessors_of]
  apply f.blocks.map_fst_filter
  intro p block hblock
  have hfind : f.block? p = some block := hblock
  rw [successors_of, hfind, List.contains_eq_mem]
  exact decide_eq_decide.mpr (block.terminator.mem_eraseReps_successors b).symm

theorem nodup_predecessors_of (b : BlockId) : ((ControlFlow.of f).predecessors b).Nodup := by
  rw [predecessors_of_eq_filter]
  exact f.blocks.keys_nodup.filter _

/-- Control leaves the function at the stored blocks from which it goes nowhere. -/
theorem exits_of :
    (ControlFlow.of f).exits =
      f.blocks.keys.filter fun p => (ControlFlow.of f).successors p = [] := by
  show (f.blocks.entries.filter fun e => e.2.successors.isEmpty).map Prod.fst = _
  apply f.blocks.map_fst_filter
  intro p block hblock
  have hfind : f.block? p = some block := hblock
  have hnil : block.successors.eraseReps = [] ↔ block.successors = [] := by
    simp only [List.eq_nil_iff_forall_not_mem, Block.successors,
      Terminator.mem_eraseReps_successors]
  rw [successors_of, hfind, Bool.eq_iff_iff, List.isEmpty_iff, decide_eq_true_iff]
  exact hnil.symm

/-- **The lists agree.** Take any function, with targets that are stored or not. `b` is
    among the successors of `p` exactly if `p` is a stored block whose terminator names
    `b`, and exactly then `p` is among the predecessors of `b`. No list has a repeat.
    Predecessors and exits are in layout order: they are the stored blocks which have
    `b` as a successor, and those which have none. If blocks are stored under their ids,
    the function itself lists the same predecessors. -/
theorem edges_agree (f : Function) :
    let flow := ControlFlow.of f
    (∀ p b, b ∈ flow.successors p ↔
      ∃ block, f.block? p = some block ∧ block.terminator.Names b) ∧
    (∀ p b, p ∈ flow.predecessors b ↔
      ∃ block, f.block? p = some block ∧ block.terminator.Names b) ∧
    (∀ p, (flow.successors p).Nodup) ∧
    (∀ b, (flow.predecessors b).Nodup) ∧
    (∀ b, flow.predecessors b = f.blocks.keys.filter fun p => b ∈ flow.successors p) ∧
    (flow.exits = f.blocks.keys.filter fun p => flow.successors p = []) ∧
    ((∀ p block, f.block? p = some block → block.id = p) →
      ∀ b, flow.predecessors b = f.predecessors b) := by
  intro flow
  refine ⟨?_, ?_, nodup_successors_of f, nodup_predecessors_of f, predecessors_of_eq_filter f,
    exits_of f, ?_⟩
  · intro p b
    rw [mem_successors_of_iff]
    exact f.controlEdge_iff_names p b
  · intro p b
    rw [mem_predecessors_of_iff]
    exact f.controlEdge_iff_names p b
  · intro hfiled
    apply f.predecessors_agree_iff.mpr
    intro p block hblock _
    exact hfiled p block hblock

/-- A function that is laid out in another order than that of its ids. One branch has
    the same target twice, and the other goes to a block that is not stored. -/
def scattered : Function where
  id := ⟨0⟩
  signature := ⟨"scattered", [], .void, none⟩
  entry := ⟨0⟩
  blocks := .ofList [(⟨3⟩, ⟨⟨3⟩, [], .jump ⟨1⟩⟩), (⟨0⟩, ⟨⟨0⟩, [⟨0⟩], .branch ⟨0⟩ ⟨1⟩ ⟨1⟩⟩),
    (⟨2⟩, ⟨⟨2⟩, [], .ret⟩), (⟨1⟩, ⟨⟨1⟩, [], .branch ⟨0⟩ ⟨9⟩ ⟨0⟩⟩), (⟨4⟩, ⟨⟨4⟩, [], .unset⟩)]
  instrs := .ofList [(⟨0⟩, ⟨⟨0⟩, ⟨0⟩, ⟨0⟩, .constant (.bool true), .bool, none, .unknown⟩)]
  exprs := .empty
  nextBlock := 5

/-- Both branches into block 1 are found, in layout order and once each; so is the one
    into the block that is not stored. -/
theorem scattered_edges :
    (∀ p block, scattered.block? p = some block → block.id = p) ∧
      (ControlFlow.of scattered).successors ⟨0⟩ = [⟨1⟩] ∧
      (ControlFlow.of scattered).predecessors ⟨1⟩ = [⟨3⟩, ⟨0⟩] ∧
      (ControlFlow.of scattered).predecessors ⟨1⟩ = scattered.predecessors ⟨1⟩ ∧
      ⟨1⟩ ∈ (ControlFlow.of scattered).predecessors ⟨9⟩ ∧
      (ControlFlow.of scattered).exits = [⟨2⟩, ⟨4⟩] := by
  have hfiled : ∀ p block, scattered.block? p = some block → block.id = p := by
    intro p block hblock
    have hall : ∀ e ∈ scattered.blocks.entries, e.2.id = e.1 := by decide
    exact hall (p, block) ((scattered.blocks.find?_eq_some_iff p block).mp hblock)
  obtain ⟨-, hpred, -, -, -, -, hids⟩ := edges_agree scattered
  refine ⟨hfiled, rfl, rfl, hids hfiled ⟨1⟩, ?_, rfl⟩
  exact (hpred ⟨1⟩ ⟨9⟩).mpr ⟨_, rfl, .thenBlock ⟨0⟩ ⟨9⟩ ⟨0⟩⟩

end ControlFlow

end SsaFlow
