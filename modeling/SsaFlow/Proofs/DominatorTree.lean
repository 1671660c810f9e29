import SsaFlow.Proofs.ReversePostorder

/-! # The tree of immediate dominators

    The parent of a block is picked from the set of its strict dominators, as the
    one that has the most dominators of its own. Strict dominators of one block lie
    on a chain along which these numbers grow, so no two of them are equal and the
    order in which the set is searched does not matter.

    * `Function.ImmediatelyDominates`: the strict dominator that the others
      dominate, and `ImmediatelyDominates.unique`: there is one at most.
    * `Dominators.parent?_eq_some_iff`, `parent?_eq_none_iff`: the parents.
    * `Dominators.greatest?_eq_parent?`: the search, in any order.
    * `Dominators.exists_climb_to_entry`: every way up ends at the entry.
    * `Dominators.parents_form_tree`: all of it.
-/

namespace SsaFlow

/-! ### Immediate dominators -/

namespace Function

variable {f : Function} {b d p q : BlockId}

/-- `p` is the last of the strict dominators of `b`: every strict dominator of `b`
    dominates `p`. -/
structure ImmediatelyDominates (f : Function) (p b : BlockId) : Prop where
  /-- Control gets to `b` only through `p`. -/
  strictly : f.StrictlyDominates p b
  /-- Control gets to `p` only through the strict dominators of `b`. -/
  last : ∀ d, f.StrictlyDominates d b → ∀ es, f.ControlPath p es → d ∈ Path.places f.entry es

theorem StrictlyDominates.reachable (h : f.StrictlyDominates d b) (hb : f.Reachable b) :
    f.Reachable d :=
  Passes.reachable h.2 hb

/-- Nothing is passed before the entry. -/
theorem not_strictlyDominates_entry (f : Function) (d : BlockId) :
    ¬ f.StrictlyDominates d f.entry := by
  intro h
  exact h.1 (Passes.eq_start h.2)

/-- The entry comes before every other block. -/
theorem strictlyDominates_of_ne_entry (hne : b ≠ f.entry) : f.StrictlyDominates f.entry b :=
  ⟨Ne.symm hne, Passes.start f.ControlEdge f.entry b⟩

/-- A block that control can get to has one immediate dominator at most. -/
theorem ImmediatelyDominates.unique (hb : f.Reachable b) (hp : f.ImmediatelyDominates p b)
    (hq : f.ImmediatelyDominates q b) : q = p := by
  -- Each of the two is on every path to the other.
  have hqp : Passes f.ControlEdge f.entry q p := hp.last q hq.strictly
  have hpq : Passes f.ControlEdge f.entry p q := hq.last p hp.strictly
  exact Passes.antisymm (hp.strictly.reachable hb) hqp hpq

end Function

/-! ### The computed tree -/

/-- A block has no more dominators than there are blocks that control can get
    to. -/
theorem ControlFlow.count_le_length {c : ControlFlow} {b : BlockId} (hb : c.Reaches b) :
    c.dominators.count b ≤ c.reversePostorder.length := by
  obtain ⟨s, hs⟩ := exists_dominators hb
  unfold Candidates.count
  rw [hs, Option.getD_some]
  have hsub : s.members ⊆ c.reversePostorder := by
    intro a ha
    have hab := (mem_dominators_iff hs).mp ha
    exact (c.mem_reversePostorder_iff a).mpr (hab.reachable hb)
  exact (List.subperm_of_subset (c.descending_dominators.distinct b s hs) hsub).length_le

namespace Dominators

variable {f : Function} {a b p : BlockId}

theorem exists_parent?_of_strictlyDominates {d : BlockId} (hb : f.Reachable b)
    (hd : f.StrictlyDominates d b) :
    ∃ p, (Dominators.of (ControlFlow.of f)).parent? b = some p := by
  have hthrough := (ControlFlow.onlyThrough_of_iff f d b).mpr hd.2
  exact ControlFlow.exists_parent? ((ControlFlow.reaches_of_iff f b).mpr hb) hthrough hd.1

/-- **The parent** of a block is its immediate dominator. -/
theorem parent?_eq_some_iff (f : Function) (b p : BlockId) :
    (Dominators.of (ControlFlow.of f)).parent? b = some p ↔
      f.Reachable b ∧ f.ImmediatelyDominates p b := by
  have himmediate : ∀ q, (Dominators.of (ControlFlow.of f)).parent? b = some q →
      f.Reachable b ∧ f.ImmediatelyDominates q b := by
    intro q hq
    obtain ⟨hb, hne, hthrough, hlast⟩ := ControlFlow.of_parent?_eq_some hq
    refine ⟨(ControlFlow.reaches_of_iff f b).mp hb, ⟨hne, ?_⟩, ?_⟩
    · exact (ControlFlow.onlyThrough_of_iff f q b).mp hthrough
    · intro d hd
      have hdb := (ControlFlow.onlyThrough_of_iff f d b).mpr hd.2
      exact (ControlFlow.onlyThrough_of_iff f d q).mp (hlast d hd.1 hdb)
  constructor
  · exact himmediate p
  · intro h
    obtain ⟨hb, hp⟩ := h
    -- There is a parent, and it can only be `p`.
    obtain ⟨q, hq⟩ := exists_parent?_of_strictlyDominates hb hp.strictly
    rw [← (himmediate q hq).2.unique hb hp] at hq
    exact hq

/-- The entry has no parent, nor has a block that control cannot get to. All others
    have one. -/
theorem parent?_eq_none_iff (f : Function) (b : BlockId) :
    (Dominators.of (ControlFlow.of f)).parent? b = none ↔ b = f.entry ∨ ¬ f.Reachable b := by
  constructor
  · intro hnone
    by_contra hno
    rw [not_or, not_not] at hno
    obtain ⟨hne, hb⟩ := hno
    obtain ⟨p, hp⟩ :=
      exists_parent?_of_strictlyDominates hb (Function.strictlyDominates_of_ne_entry hne)
    rw [hnone] at hp
    cases hp
  · intro h
    rw [Option.eq_none_iff_forall_ne_some]
    intro p hp
    obtain ⟨hb, himm⟩ := (parent?_eq_some_iff f b p).mp hp
    rcases h with rfl | hdead
    · exact f.not_strictlyDominates_entry p himm.strictly
    · exact hdead hb

/-- **In any order**: however the dominators of each block are listed, of the strict
    dominators of a block the one with the most dominators is the parent. -/
theorem greatest?_eq_parent? (f : Function) (sets : BlockId → List BlockId)
    (hsets : ∀ b s, (ControlFlow.of f).dominators.find? b = some s → (sets b).Perm s.members)
    (hb : f.Reachable b) :
    Candidates.greatest? (fun a => (sets a).length) ((sets b).filter fun a => a ≠ b) =
      (Dominators.of (ControlFlow.of f)).parent? b := by
  have hreached : ∀ x, f.Reachable x → ∃ s, (ControlFlow.of f).dominators.find? x = some s := by
    intro x hx
    exact ControlFlow.exists_dominators ((ControlFlow.reaches_of_iff f x).mpr hx)
  have hcount : ∀ x, f.Reachable x → (sets x).length = (ControlFlow.of f).dominators.count x := by
    intro x hx
    obtain ⟨s, hs⟩ := hreached x hx
    unfold Candidates.count
    rw [hs, Option.getD_some]
    exact (hsets x s hs).length_eq
  have hmem : ∀ a, a ∈ (sets b).filter (fun a => a ≠ b) ↔ f.StrictlyDominates a b := by
    intro a
    obtain ⟨s, hs⟩ := hreached b hb
    rw [List.mem_filter, decide_eq_true_eq, (hsets b s hs).mem_iff,
      ControlFlow.mem_dominators_iff hs, ControlFlow.onlyThrough_of_iff]
    exact And.comm
  cases hparent : (Dominators.of (ControlFlow.of f)).parent? b with
  | none =>
    have hnil : (sets b).filter (fun a => a ≠ b) = [] := by
      rw [List.eq_nil_iff_forall_not_mem]
      intro a ha
      rcases (parent?_eq_none_iff f b).mp hparent with rfl | hdead
      · exact f.not_strictlyDominates_entry a ((hmem a).mp ha)
      · exact hdead hb
    rw [hnil]
    rfl
  | some p =>
    obtain ⟨_, hp⟩ := (parent?_eq_some_iff f b p).mp hparent
    have hpmem := (hmem p).mpr hp.strictly
    obtain ⟨d, hd⟩ := Candidates.exists_greatest? (fun a => (sets a).length) hpmem
    have hdb : f.StrictlyDominates d b := (hmem d).mp (Candidates.mem_of_greatest? hd)
    have hle : (sets p).length ≤ (sets d).length := Candidates.le_greatest? hd hpmem
    have hpreach := hp.strictly.reachable hb
    rw [hcount p hpreach, hcount d (hdb.reachable hb)] at hle
    -- The block that was found dominates the parent; another one had fewer dominators.
    have hdp : d = p := by
      by_contra hne
      have hthrough := (ControlFlow.onlyThrough_of_iff f d p).mpr (hp.last d hdb)
      have hlt := ControlFlow.count_lt ((ControlFlow.reaches_of_iff f p).mpr hpreach) hthrough hne
      omega
    rw [hd, hdp]

/-! ### Children and ways up -/

theorem mem_children_iff (f : Function) (b p : BlockId) :
    b ∈ (Dominators.of (ControlFlow.of f)).children p ↔
      (Dominators.of (ControlFlow.of f)).parent? b = some p := by
  unfold children
  rw [List.mem_filter, decide_eq_true_eq]
  refine and_iff_right_of_imp ?_
  intro hp
  exact (f.mem_reversePostorder_iff b).mpr ((parent?_eq_some_iff f b p).mp hp).1

/-- From a block that control can get to, parent by parent, one is at the entry
    after fewer steps than the block has dominators. -/
theorem exists_climb_to_entry (hb : f.Reachable b) :
    ∃ n < (ControlFlow.of f).dominators.count b,
      (fun o => o.bind (Dominators.of (ControlFlow.of f)).parent?)^[n] (some b) = some f.entry := by
  induction b using ParentTree.climb.induct (ControlFlow.of f).dominatorTree with
  | case1 b hnone =>
    obtain rfl : b = f.entry := ((parent?_eq_none_iff f b).mp hnone).resolve_right (not_not.mpr hb)
    obtain ⟨s, hs⟩ := ControlFlow.exists_dominators ((ControlFlow.reaches_of_iff f f.entry).mpr hb)
    refine ⟨0, ?_, rfl⟩
    unfold Candidates.count
    rw [hs, Option.getD_some]
    exact List.length_pos_of_mem ((ControlFlow.mem_dominators_iff hs).mpr (Passes.refl _ _ _))
  | case2 b p hsome ih =>
    obtain ⟨hreach, hne, hthrough, _⟩ := ControlFlow.of_parent?_eq_some hsome
    have hp := (ControlFlow.reaches_of_iff f p).mp (hthrough.reachable hreach)
    obtain ⟨n, hn, hclimb⟩ := ih hp
    have hlt := ControlFlow.count_lt hreach hthrough hne
    have hup : (Dominators.of (ControlFlow.of f)).parent? b = some p := hsome
    refine ⟨n + 1, by omega, ?_⟩
    simp only [Function.iterate_succ_apply, Option.bind_some, hup]
    exact hclimb

/-- **The parents form a tree**: exactly the entry and the blocks that control cannot
    get to have none. The parent of any other block is its one immediate dominator,
    in whatever order the dominators are listed from which it is picked. The children
    of a block are the blocks whose parent it is, each once and in reverse postorder.
    From every block that control can get to, the parents lead to the entry. -/
theorem parents_form_tree (f : Function) :
    let flow := ControlFlow.of f
    let tree := Dominators.of flow
    (∀ b, tree.parent? b = none ↔ b = f.entry ∨ ¬ f.Reachable b) ∧
    (∀ b, f.Reachable b → b ≠ f.entry → ∃ p, tree.parent? b = some p ∧
      f.ImmediatelyDominates p b ∧ ∀ q, f.ImmediatelyDominates q b → q = p) ∧
    (∀ sets : BlockId → List BlockId,
      (∀ b s, flow.dominators.find? b = some s → (sets b).Perm s.members) →
      ∀ b, f.Reachable b → tree.parent? b =
        Candidates.greatest? (fun a => (sets a).length) ((sets b).filter fun a => a ≠ b)) ∧
    (∀ p, (∀ b, b ∈ tree.children p ↔ tree.parent? b = some p) ∧ (tree.children p).Nodup ∧
      (tree.children p).Sublist flow.reversePostorder) ∧
    (∀ b, f.Reachable b → ∃ n < flow.reversePostorder.length,
      (fun o => o.bind tree.parent?)^[n] (some b) = some f.entry) := by
  intro flow tree
  refine ⟨parent?_eq_none_iff f, ?_, ?_, ?_, ?_⟩
  · intro b hb hne
    have hsome : tree.parent? b ≠ none := by
      rw [Ne, parent?_eq_none_iff, not_or, not_not]
      exact ⟨hne, hb⟩
    obtain ⟨p, hp⟩ := Option.ne_none_iff_exists'.mp hsome
    have himm := ((parent?_eq_some_iff f b p).mp hp).2
    exact ⟨p, hp, himm, fun q hq => himm.unique hb hq⟩
  · intro sets hsets b hb
    exact (greatest?_eq_parent? f sets hsets hb).symm
  · intro p
    have hsub : (tree.children p).Sublist flow.reversePostorder := List.filter_sublist
    exact ⟨fun b => mem_children_iff f b p, flow.nodup_reversePostorder.sublist hsub, hsub⟩
  · intro b hb
    obtain ⟨n, hn, hclimb⟩ := exists_climb_to_entry hb
    have hle := ControlFlow.count_le_length ((ControlFlow.reaches_of_iff f b).mpr hb)
    exact ⟨n, Nat.lt_of_lt_of_le hn hle, hclimb⟩

end Dominators

end SsaFlow
