import Mathlib
import SsaFlow.Flow.Guard
import SsaFlow.Proofs.Dominance

/-! # What a branch outcome controls

    An outcome of a branch is said to control a block if every way to the block
    leaves the branch along the edge of that outcome. The test that decides it
    looks only at dominators and at the edges into the outcome's target. This
    module compares the test with the paths themselves.

    * `controls_iff_arrivals`: the test in terms of paths.
    * `controls_on_every_path_iff`: when the test succeeds, the edge is on every
      path to the block, except when the outcome leads back to the entry.
    * `controls_iff_on_every_path`: away from the entry and from dead code, the
      test is exact.
-/

namespace SsaFlow

namespace Function

variable {f : Function} {b t p guard : BlockId} {es : List (BlockId × BlockId)}

/-- Control passes through `t` whenever it gets to `b`. -/
def OnEveryPath (f : Function) (t b : BlockId) : Prop :=
  ∀ es, f.ControlPath b es → t ∈ Path.places f.entry es

/-- Control takes the edge from `a` to `t` whenever it gets to `b`. -/
def EdgeOnEveryPath (f : Function) (a t b : BlockId) : Prop :=
  ∀ es, f.ControlPath b es → (a, t) ∈ es

/-! ### Paths and the edges into one block -/

/-- If `t` can only be entered first from `guard`, every path through `t` takes
    the edge from there. The entry is entered without any edge, hence `hne`. -/
theorem edge_mem_of_passes (h : f.ControlPath b es) (ht : t ∈ Path.places f.entry es)
    (hne : t ≠ f.entry)
    (hsole : ∀ p, f.ControlEdge p t → p = guard ∨ t = p ∨ f.OnEveryPath t p) :
    (guard, t) ∈ es := by
  obtain ⟨before, p, after, rfl, hbefore, hfar, hedge, _⟩ := Path.first_arrival h ht hne
  have hp : p = guard := by
    rcases hsole p hedge with heq | heq | hdom
    · exact heq
    · -- `t` itself is not where a first arrival at `t` comes from.
      exact absurd hbefore.end_mem_places (heq ▸ hfar)
    · exact absurd (hdom before hbefore) hfar
  rw [← hp]
  exact List.mem_append_right before List.mem_cons_self

/-- A path that takes an edge into `t` passes through `t`. -/
theorem passes_of_edge_mem (h : (guard, t) ∈ es) : t ∈ Path.places f.entry es :=
  List.mem_cons_of_mem f.entry (List.mem_map.mpr ⟨(guard, t), h, rfl⟩)

/-- If the edge from `guard` to `t` is on every path to `b`, every other edge into
    `t` comes from a block that control gets to only through `t`. Otherwise a path
    there, that edge, and the last part of a path to `b` make a detour. -/
theorem passes_of_other_edge (hb : f.Reachable b) (hall : f.EdgeOnEveryPath guard t b)
    (hedge : f.ControlEdge p t) (hne : p ≠ guard) : f.OnEveryPath t p := by
  intro es hes
  refine Decidable.byContradiction fun hfar => ?_
  obtain ⟨fs, hfs⟩ := hb
  have ht : t ∈ Path.places f.entry fs := passes_of_edge_mem (hall fs hfs)
  obtain ⟨_, after, _, _, hafter, hlast⟩ := Path.last_departure hfs ht
  -- Up to `p` the detour does not meet `t`, and after `t` it does not come back.
  have hdetour : f.ControlPath b (es ++ (p, t) :: after) := Path.append hes (.step hedge hafter)
  rcases List.mem_append.mp (hall _ hdetour) with hin | hin
  · exact hfar (passes_of_edge_mem hin)
  · rcases List.mem_cons.mp hin with heq | hin'
    · exact hne (congrArg Prod.fst heq).symm
    · exact hlast (List.mem_map.mpr ⟨(guard, t), hin', rfl⟩)

/-- No edge into the entry is needed to get anywhere. -/
theorem exists_path_without_return (guard : BlockId) (hb : f.Reachable b) :
    ∃ es, f.ControlPath b es ∧ (guard, f.entry) ∉ es := by
  obtain ⟨es, hes⟩ := hb
  obtain ⟨_, after, _, _, hafter, hlast⟩ :=
    Path.last_departure hes (Path.start_mem_places f.entry es)
  refine ⟨after, hafter, ?_⟩
  intro hin
  exact hlast (List.mem_map.mpr ⟨(guard, f.entry), hin, rfl⟩)

end Function

namespace BranchTest

variable {f : Function} {c : BranchTest} {g b : BlockId} {o : Bool}

/-! ### The test -/

/-- The condition at the end of a block stands in that block, and its targets are
    those of the block's branch. -/
theorem branch_of_endOf? (hc : endOf? f g = some c) :
    c.block = g ∧ ∃ block condition, f.block? g = some block ∧
      block.terminator = .branch condition c.thenBlock c.elseBlock := by
  unfold endOf? at hc
  cases hblock : f.block? g with
  | none => simp [hblock] at hc
  | some block =>
    cases hterm : block.terminator with
    | branch condition thenBlock elseBlock =>
      cases hinstr : f.instr? condition with
      | none => simp [hblock, hterm, hinstr] at hc
      | some i =>
        have heq : (⟨i, g, thenBlock, elseBlock⟩ : BranchTest) = c := by
          simpa [hblock, hterm, hinstr] using hc
        subst heq
        exact ⟨rfl, block, condition, rfl, hterm⟩
    | _ => simp [hblock, hterm] at hc

theorem block_of_endOf? (hc : endOf? f g = some c) : c.block = g := (branch_of_endOf? hc).1

/-- The test says: the target is the block or on every path there, the outcomes
    differ, the target can be reached, and every edge into it comes from the
    branch, from itself or from a block behind it. -/
theorem controls_iff_arrivals (f : Function) (c : BranchTest) (b : BlockId) (o : Bool) :
    c.controls (Analyses.of f) b o = true ↔
      (c.target o = b ∨ f.Reachable b ∧ f.OnEveryPath (c.target o) b) ∧
      c.target o ≠ c.target (!o) ∧ f.Reachable (c.target o) ∧
      ∀ p, f.ControlEdge p (c.target o) →
        p = c.block ∨ c.target o = p ∨ f.Reachable p ∧ f.OnEveryPath (c.target o) p := by
  have hdom : ∀ a b, (Analyses.of f).dominators.dominates a b = true ↔
      a = b ∨ f.Reachable b ∧ f.OnEveryPath a b := by
    intro a b
    have h := Dominators.dominates_of_iff (ControlFlow.of f) a b
    rw [ControlFlow.edge_of] at h
    exact h
  have hreach : (Analyses.of f).flow.isReachable (c.target o) = true ↔ f.Reachable (c.target o) :=
    ControlFlow.isReachable_of_iff f (c.target o)
  have hpred : ∀ p, p ∈ (Analyses.of f).flow.predecessors (c.target o) ↔
      f.ControlEdge p (c.target o) :=
    fun p => ControlFlow.mem_predecessors_of_iff f p (c.target o)
  simp only [controls, isSoleWay, Bool.and_eq_true, Bool.or_eq_true, List.all_eq_true,
    decide_eq_true_eq, hdom, hreach, hpred, ne_eq, and_assoc]

/-! ### Soundness and its limit -/

/-- A block that an outcome controls can be reached, and only through the
    outcome's target. -/
theorem passes_of_controls (h : c.controls (Analyses.of f) b o = true) :
    f.Reachable b ∧ f.OnEveryPath (c.target o) b := by
  obtain ⟨hdom, _, hreach, _⟩ := (controls_iff_arrivals f c b o).mp h
  rcases hdom with heq | hdom
  · -- Dominance of a block over itself says nothing about paths; the target is
    -- reachable by the other half of the test.
    subst heq
    exact ⟨hreach, fun es hes => Path.end_mem_places hes⟩
  · exact hdom

/-- Unless the outcome leads to the entry, its edge is on every path to a block
    that it controls. -/
theorem edgeOnEveryPath_of_controls (hc : endOf? f g = some c)
    (h : c.controls (Analyses.of f) b o = true) (hne : c.target o ≠ f.entry) :
    f.EdgeOnEveryPath g (c.target o) b := by
  intro es hes
  obtain ⟨_, _, _, harrive⟩ := (controls_iff_arrivals f c b o).mp h
  refine Function.edge_mem_of_passes hes ((passes_of_controls h).2 es hes) hne ?_
  intro p hp
  rcases harrive p hp with heq | heq | hdom
  · exact Or.inl (heq.trans (block_of_endOf? hc))
  · exact Or.inr (Or.inl heq)
  · exact Or.inr (Or.inr hdom.2)

/-- **Control and paths**: a block that an outcome controls can be reached, and
    the outcome's edge is on every path there exactly if the outcome does not
    lead back to the entry, where control can be without having taken any
    edge. -/
theorem controls_on_every_path_iff (f : Function) (g b : BlockId) (c : BranchTest) (o : Bool)
    (hc : endOf? f g = some c) (h : c.controls (Analyses.of f) b o = true) :
    f.Reachable b ∧
      ((∀ es, f.ControlPath b es → (g, c.target o) ∈ es) ↔ c.target o ≠ f.entry) := by
  have hb := (passes_of_controls h).1
  refine ⟨hb, ?_, edgeOnEveryPath_of_controls hc h⟩
  -- A path that does not return to the entry lacks any edge into it.
  intro hall heq
  obtain ⟨es, hes, hfar⟩ := Function.exists_path_without_return g hb
  exact hfar (heq ▸ hall es hes)

/-- A truth value for a branch to test, in block `b`. -/
def flagIn (b : BlockId) : Instr := ⟨⟨0⟩, ⟨0⟩, b, .constant (.bool true), .bool, none, .unknown⟩

/-- A loop behind the entry: from block 1 control goes to the body, block 2, which
    leads back, or out to block 3. -/
def headedLoop : Function where
  id := ⟨0⟩
  signature := ⟨"headed", [], .void, none⟩
  entry := ⟨0⟩
  blocks := .ofList
    [(⟨0⟩, ⟨⟨0⟩, [], .jump ⟨1⟩⟩), (⟨1⟩, ⟨⟨1⟩, [⟨0⟩], .branch ⟨0⟩ ⟨2⟩ ⟨3⟩⟩),
      (⟨2⟩, ⟨⟨2⟩, [], .jump ⟨1⟩⟩), (⟨3⟩, ⟨⟨3⟩, [], .ret⟩)]
  instrs := .ofList [(⟨0⟩, flagIn ⟨1⟩)]
  exprs := .empty
  nextBlock := 4

/-- The branch of that loop. -/
def headedTest : BranchTest := ⟨flagIn ⟨1⟩, ⟨1⟩, ⟨2⟩, ⟨3⟩⟩

/-- The body of the loop is controlled, and the edge into it is on every path. -/
theorem headedLoop_body_on_every_path :
    headedTest.controls (Analyses.of headedLoop) ⟨2⟩ true = true ∧ headedLoop.Reachable ⟨2⟩ ∧
      ((∀ es, headedLoop.ControlPath ⟨2⟩ es → (⟨1⟩, ⟨2⟩) ∈ es) ↔ (⟨2⟩ : BlockId) ≠ ⟨0⟩) := by
  have hcontrols : headedTest.controls (Analyses.of headedLoop) ⟨2⟩ true = true := by cbv
  exact ⟨hcontrols, controls_on_every_path_iff headedLoop ⟨1⟩ ⟨2⟩ headedTest true rfl hcontrols⟩

/-- A loop around the entry: from block 0 control goes back to block 0, or out to
    block 1. -/
def entryLoop : Function where
  id := ⟨0⟩
  signature := ⟨"entry", [], .void, none⟩
  entry := ⟨0⟩
  blocks := .ofList [(⟨0⟩, ⟨⟨0⟩, [⟨0⟩], .branch ⟨0⟩ ⟨0⟩ ⟨1⟩⟩), (⟨1⟩, ⟨⟨1⟩, [], .ret⟩)]
  instrs := .ofList [(⟨0⟩, flagIn ⟨0⟩)]
  exprs := .empty
  nextBlock := 2

/-- The branch of that loop. -/
def entryTest : BranchTest := ⟨flagIn ⟨0⟩, ⟨0⟩, ⟨0⟩, ⟨1⟩⟩

/-- The outcome that goes back to the entry is said to control the way out, to
    which control gets without ever going back. -/
theorem entryLoop_exit_without_edge :
    endOf? entryLoop ⟨0⟩ = some entryTest ∧
      entryTest.controls (Analyses.of entryLoop) ⟨1⟩ true = true ∧
      ∃ es, entryLoop.ControlPath ⟨1⟩ es ∧ (⟨0⟩, entryTest.target true) ∉ es := by
  refine ⟨rfl, by cbv, [(⟨0⟩, ⟨1⟩)], ?_, by decide⟩
  show Path entryLoop.ControlEdge ⟨0⟩ ⟨1⟩ [(⟨0⟩, ⟨1⟩)]
  exact .step ⟨_, rfl, by decide⟩ (.stay _)

/-! ### Exactness -/

/-- If the edge of an outcome is on every path to a block that can be reached, and
    no dead block leads to the outcome's target, the test succeeds. -/
theorem controls_of_edgeOnEveryPath (hc : endOf? f g = some c)
    (hlive : ∀ p ∈ (ControlFlow.of f).predecessors (c.target o), f.Reachable p)
    (hdiff : c.target o ≠ c.target (!o)) (hb : f.Reachable b)
    (hall : f.EdgeOnEveryPath g (c.target o) b) : c.controls (Analyses.of f) b o = true := by
  have hpass : f.OnEveryPath (c.target o) b := fun es hes =>
    Function.passes_of_edge_mem (hall es hes)
  have htarget : f.Reachable (c.target o) := by
    obtain ⟨es, hes⟩ := hb
    exact Path.exists_to_place hes (hpass es hes)
  refine (controls_iff_arrivals f c b o).mpr ⟨Or.inr ⟨hb, hpass⟩, hdiff, htarget, ?_⟩
  intro p hedge
  by_cases hp : p = g
  · exact Or.inl (hp.trans (block_of_endOf? hc).symm)
  · have hreach := hlive p ((ControlFlow.mem_predecessors_of_iff f p (c.target o)).mpr hedge)
    exact Or.inr (Or.inr ⟨hreach, Function.passes_of_other_edge hb hall hedge hp⟩)

/-- **Exact control**: if an outcome leads neither to the entry nor to a block that
    dead code leads to, it controls a block exactly if the outcomes differ, the
    block can be reached, and the outcome's edge is on every path there. -/
theorem controls_iff_on_every_path (f : Function) (g b : BlockId) (c : BranchTest) (o : Bool)
    (hc : endOf? f g = some c) (hentry : c.target o ≠ f.entry)
    (hlive : ∀ p ∈ (ControlFlow.of f).predecessors (c.target o), f.Reachable p) :
    c.controls (Analyses.of f) b o = true ↔
      c.target o ≠ c.target (!o) ∧ f.Reachable b ∧
        ∀ es, f.ControlPath b es → (g, c.target o) ∈ es := by
  constructor
  · intro h
    obtain ⟨_, hdiff, _, _⟩ := (controls_iff_arrivals f c b o).mp h
    exact ⟨hdiff, (passes_of_controls h).1, edgeOnEveryPath_of_controls hc h hentry⟩
  · intro h
    obtain ⟨hdiff, hb, hall⟩ := h
    exact controls_of_edgeOnEveryPath hc hlive hdiff hb hall

/-- Both sides hold of the body of the loop, and its only predecessor is the
    header. -/
theorem headedLoop_body_exact :
    (∀ p ∈ (ControlFlow.of headedLoop).predecessors ⟨2⟩, headedLoop.Reachable p) ∧
      headedTest.target true ≠ headedTest.target false ∧ headedLoop.Reachable ⟨2⟩ ∧
        ∀ es, headedLoop.ControlPath ⟨2⟩ es → (⟨1⟩, ⟨2⟩) ∈ es := by
  have hlive : ∀ p ∈ (ControlFlow.of headedLoop).predecessors ⟨2⟩, headedLoop.Reachable p := by
    intro p hp
    have hpred : (ControlFlow.of headedLoop).predecessors ⟨2⟩ = [⟨1⟩] := by cbv
    rw [hpred, List.mem_singleton] at hp
    subst hp
    refine ⟨[(⟨0⟩, ⟨1⟩)], ?_⟩
    show Path headedLoop.ControlEdge ⟨0⟩ ⟨1⟩ [(⟨0⟩, ⟨1⟩)]
    exact .step ⟨_, rfl, by decide⟩ (.stay _)
  have hcontrols : headedTest.controls (Analyses.of headedLoop) ⟨2⟩ true = true := by cbv
  exact ⟨hlive, (controls_iff_on_every_path headedLoop ⟨1⟩ ⟨2⟩ headedTest true rfl (by decide)
    hlive).mp hcontrols⟩

end BranchTest

end SsaFlow
