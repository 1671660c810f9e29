import Mathlib
import SsaFlow.Proofs.GuardControl

/-! # Dead code and branch outcomes

    Blocks that control cannot get to can be taken out of a function. This changes
    no path, so it changes neither which blocks can be reached nor which dominate
    which. But the test of what an outcome controls goes over all edges into the
    outcome's target, and an edge from a dead block makes it fail.

    * `Function.Without`: a function with some blocks taken out.
    * `Function.Without.controlPath_iff`: the paths stay.
    * `BranchTest.controls_without_iff`: taking dead blocks out never ends control,
      and changes it exactly where one of them leads to the outcome's target.
-/

namespace SsaFlow

namespace Function

/-- `f'` is `f` without the blocks in `dead`. The instructions do not matter: those
    of the blocks that are gone may stay or be gone as well. -/
structure Without (f : Function) (dead : List BlockId) (f' : Function) : Prop where
  /-- Control starts where it did. -/
  entry : f'.entry = f.entry
  /-- The blocks are gone. -/
  gone : ∀ b ∈ dead, f'.block? b = none
  /-- All others are as they were. -/
  rest : ∀ b ∉ dead, f'.block? b = f.block? b

namespace Without

variable {f f' : Function} {dead : List BlockId} {a b : BlockId} {es : List (BlockId × BlockId)}

/-- The edges are those that start in a block that is left. -/
theorem controlEdge_iff (h : f.Without dead f') :
    f'.ControlEdge a b ↔ a ∉ dead ∧ f.ControlEdge a b := by
  unfold ControlEdge
  by_cases ha : a ∈ dead
  · rw [h.gone a ha]
    simp [ha]
  · rw [h.rest a ha]
    simp [ha]

/-- From a block that control can get to, no path leads through a dead block. -/
theorem path_of_reachable (h : f.Without dead f') (hdead : ∀ p ∈ dead, ¬ f.Reachable p)
    (hpath : Path f.ControlEdge a b es) (ha : f.Reachable a) : Path f'.ControlEdge a b es := by
  induction hpath with
  | stay a => exact .stay a
  | @step a b c es edge rest ih =>
    have hb : f.Reachable b := by
      obtain ⟨fs, hfs⟩ := ha
      exact ⟨_, Path.append hfs (.step edge (.stay b))⟩
    apply Path.step _ (ih hb)
    exact h.controlEdge_iff.mpr ⟨fun hm => hdead a hm ha, edge⟩

/-- **The paths stay** as they are. -/
theorem controlPath_iff (h : f.Without dead f') (hdead : ∀ p ∈ dead, ¬ f.Reachable p) :
    f'.ControlPath b es ↔ f.ControlPath b es := by
  unfold ControlPath
  rw [h.entry]
  constructor
  · exact Path.mono fun x y hedge => (h.controlEdge_iff.mp hedge).2
  · intro hpath
    exact h.path_of_reachable hdead hpath ⟨[], .stay f.entry⟩

theorem reachable_iff (h : f.Without dead f') (hdead : ∀ p ∈ dead, ¬ f.Reachable p) :
    f'.Reachable b ↔ f.Reachable b :=
  exists_congr fun _ => h.controlPath_iff hdead

theorem onEveryPath_iff (h : f.Without dead f') (hdead : ∀ p ∈ dead, ¬ f.Reachable p) :
    f'.OnEveryPath a b ↔ f.OnEveryPath a b := by
  unfold OnEveryPath
  rw [h.entry]
  exact forall_congr' fun _ => imp_congr_left (h.controlPath_iff hdead)

end Without

end Function

namespace BranchTest

variable {f f' : Function} {dead : List BlockId} {g b : BlockId} {c c' : BranchTest} {o : Bool}

/-- A branch that is left leads where it did. -/
theorem endOf?_without (h : f.Without dead f') (hc : endOf? f g = some c)
    (hc' : endOf? f' g = some c') : g ∉ dead ∧ c'.block = c.block ∧ c'.target = c.target := by
  obtain ⟨hg, block, condition, hblock, hterm⟩ := branch_of_endOf? hc
  obtain ⟨hg', block', condition', hblock', hterm'⟩ := branch_of_endOf? hc'
  have hleft : g ∉ dead := by
    intro hm
    rw [h.gone g hm] at hblock'
    cases hblock'
  rw [h.rest g hleft, hblock] at hblock'
  cases hblock'
  rw [hterm] at hterm'
  injection hterm' with _ hthen helse
  refine ⟨hleft, hg'.trans hg.symm, ?_⟩
  funext outcome
  unfold target
  rw [hthen, helse]

/-- With its instructions kept, a function that loses other blocks keeps the
    condition at the end of `g`. -/
theorem endOf?_of_instrs (h : f.Without dead f') (hinstrs : ∀ i, f'.instr? i = f.instr? i)
    (hg : g ∉ dead) : endOf? f' g = endOf? f g := by
  unfold endOf?
  rw [h.rest g hg]
  simp only [hinstrs]

/-- Among the edges into the target of an outcome the test tolerates none from a
    dead block. -/
theorem controls_iff_without (hdead : ∀ p ∈ dead, ¬ f.Reachable p) (h : f.Without dead f')
    (hc : endOf? f g = some c) (hc' : endOf? f' g = some c') :
    c.controls (Analyses.of f) b o = true ↔
      c'.controls (Analyses.of f') b o = true ∧ ∀ p ∈ dead, ¬ f.ControlEdge p (c.target o) := by
  obtain ⟨hg, hblock, htarget⟩ := endOf?_without h hc hc'
  rw [controls_iff_arrivals, controls_iff_arrivals, hblock, htarget]
  simp only [h.reachable_iff hdead, h.onEveryPath_iff hdead, h.controlEdge_iff]
  constructor
  · rintro ⟨hdom, hdiff, hreach, harrive⟩
    refine ⟨⟨hdom, hdiff, hreach, fun p hp => harrive p hp.2⟩, ?_⟩
    intro p hp hedge
    rcases harrive p hedge with heq | heq | hlive
    · rw [block_of_endOf? hc] at heq
      exact hg (heq ▸ hp)
    · exact hdead p hp (heq ▸ hreach)
    · exact hdead p hp hlive.1
  · rintro ⟨⟨hdom, hdiff, hreach, harrive⟩, hnone⟩
    refine ⟨hdom, hdiff, hreach, ?_⟩
    intro p hedge
    exact harrive p ⟨fun hp => hnone p hp hedge, hedge⟩

/-- **Dead code and control**: take blocks that control cannot get to out of a
    function, but not the branch at the end of `g`. Its condition is the same if the
    instructions stay. What an outcome controls before, it controls after. For one
    block the answers before and after are the same exactly if the outcome does not
    control it after, or none of the blocks that are gone led to the outcome's
    target. -/
theorem controls_without_iff (f f' : Function) (dead : List BlockId) (g : BlockId) (c : BranchTest)
    (hdead : ∀ p ∈ dead, ¬ f.Reachable p) (h : f.Without dead f') (hg : g ∉ dead)
    (hc : endOf? f g = some c) :
    ((∀ i, f'.instr? i = f.instr? i) → endOf? f' g = some c) ∧
    ∀ c', endOf? f' g = some c' → ∀ b o,
      (c.controls (Analyses.of f) b o = true → c'.controls (Analyses.of f') b o = true) ∧
      (c.controls (Analyses.of f) b o = c'.controls (Analyses.of f') b o ↔
        c'.controls (Analyses.of f') b o = false ∨
          ∀ p ∈ dead, ¬ f.ControlEdge p (c.target o)) := by
  refine ⟨fun hinstrs => (endOf?_of_instrs h hinstrs hg).trans hc, ?_⟩
  intro c' hc' b o
  have hiff := controls_iff_without (b := b) (o := o) hdead h hc hc'
  refine ⟨fun hbefore => (hiff.mp hbefore).1, ?_, ?_⟩
  · intro hsame
    cases hafter : c'.controls (Analyses.of f') b o with
    | false => exact .inl rfl
    | true => exact .inr (hiff.mp (hsame.trans hafter)).2
  · intro hcond
    rw [Bool.eq_iff_iff, hiff]
    rcases hcond with hafter | hnone
    · rw [hafter]
      simp
    · exact and_iff_left hnone

/-- A branch to two ends, and a dead block that jumps to the first of them. -/
def strayJump : Function where
  id := ⟨0⟩
  signature := ⟨"stray", [], .void, none⟩
  entry := ⟨0⟩
  blocks := .ofList
    [(⟨0⟩, ⟨⟨0⟩, [⟨0⟩], .branch ⟨0⟩ ⟨1⟩ ⟨2⟩⟩), (⟨1⟩, ⟨⟨1⟩, [], .ret⟩), (⟨2⟩, ⟨⟨2⟩, [], .ret⟩),
      (⟨3⟩, ⟨⟨3⟩, [], .jump ⟨1⟩⟩)]
  instrs := .ofList [(⟨0⟩, flagIn ⟨0⟩)]
  exprs := .empty
  nextBlock := 4

/-- The same without the dead block. -/
def strayCleared : Function := { strayJump with blocks := strayJump.blocks.erase ⟨3⟩ }

/-- The branch. -/
def strayTest : BranchTest := ⟨flagIn ⟨0⟩, ⟨0⟩, ⟨1⟩, ⟨2⟩⟩

theorem strayJump_dead : ∀ p ∈ [(⟨3⟩ : BlockId)], ¬ strayJump.Reachable p := by
  intro p hp
  rw [List.mem_singleton.mp hp, ← ControlFlow.isReachable_of_iff, Bool.not_eq_true]
  cbv

theorem strayJump_without : strayJump.Without [⟨3⟩] strayCleared where
  entry := rfl
  gone := by
    intro b hb
    rw [List.mem_singleton.mp hb]
    rfl
  rest := by
    intro b hb
    exact (OrderedMap.find?_erase _ _ b).trans (if_neg fun heq => hb (List.mem_singleton.mpr heq))

/-- With the dead block, the first outcome does not control its own target, without
    it it does. -/
theorem strayJump_hides_control :
    strayJump.Without [⟨3⟩] strayCleared ∧ ¬ strayJump.Reachable ⟨3⟩ ∧
      endOf? strayJump ⟨0⟩ = some strayTest ∧ endOf? strayCleared ⟨0⟩ = some strayTest ∧
      strayTest.controls (Analyses.of strayJump) ⟨1⟩ true = false ∧
      strayTest.controls (Analyses.of strayCleared) ⟨1⟩ true = true := by
  refine ⟨strayJump_without, strayJump_dead ⟨3⟩ List.mem_cons_self, rfl, rfl, ?_, ?_⟩
  · cbv
  · cbv

/-- The dead block leads to the target of the first outcome only, so the answers for
    the second outcome are the same. -/
theorem strayJump_second_outcome :
    (∀ p ∈ [(⟨3⟩ : BlockId)], ¬ strayJump.Reachable p) ∧ strayJump.Without [⟨3⟩] strayCleared ∧
      endOf? strayJump ⟨0⟩ = some strayTest ∧ endOf? strayCleared ⟨0⟩ = some strayTest ∧
      strayTest.controls (Analyses.of strayJump) ⟨2⟩ false =
        strayTest.controls (Analyses.of strayCleared) ⟨2⟩ false := by
  obtain ⟨hkept, hanswers⟩ := controls_without_iff strayJump strayCleared [⟨3⟩] ⟨0⟩ strayTest
    strayJump_dead strayJump_without (by decide) rfl
  have hcond : endOf? strayCleared ⟨0⟩ = some strayTest := hkept fun _ => rfl
  refine ⟨strayJump_dead, strayJump_without, rfl, hcond, ?_⟩
  apply (hanswers strayTest hcond ⟨2⟩ false).2.mpr
  refine .inr ?_
  rintro p hp ⟨block, hblock, hsucc⟩
  rw [List.mem_singleton.mp hp] at hblock
  cases hblock
  exact absurd hsucc (by decide)

end BranchTest

end SsaFlow
