import Mathlib
import SsaFlow.Proofs.Answers
import SsaFlow.Proofs.ValueNumbers

/-! # Guard queries

    Two searches tell which nodes are guarded. One goes from the values that a
    condition checks to the members of their classes, the other from a node to
    the members of its own class. `FlowGraph.Guarded` says what both look for,
    and in a program that was obtained without edits and passes the check both
    find just that, for any guard and whatever was asked before.
-/

namespace SsaFlow

/-! ### One function -/

/-- The conditions of a function are those at the ends of its blocks. -/
theorem Function.mem_conditions_iff (f : Function) (c : BranchTest) :
    c ∈ f.conditions ↔ ∃ b, BranchTest.endOf? f b = some c := by
  unfold conditions
  rw [List.mem_filterMap]
  constructor
  · intro h
    obtain ⟨b, _, hb⟩ := h
    exact ⟨b, hb⟩
  · intro h
    obtain ⟨b, hb⟩ := h
    refine ⟨b, (f.blocks.mem_keys_iff b).mpr ?_, hb⟩
    cases hblock : f.block? b with
    | none => simp [BranchTest.endOf?, hblock] at hb
    | some block => exact ⟨block, hblock⟩

theorem mem_outcomes (outcome : Bool) : outcome ∈ outcomes := by
  cases outcome <;> decide

namespace Guard

/-- The guard covers the instruction `i`, which the function stores as `m`: some
    outcome of a branch controls the block of `i`, and the condition with that
    outcome checks an instruction with the same number. -/
def Covers (guard : Guard) (f : Function) (m : InstrId) (i : Instr) : Prop :=
  ∃ b c outcome k checked, BranchTest.endOf? f b = some c ∧ f.instr? k = some checked ∧
    guard.checks c checked outcome = true ∧ (ValueClasses.of f).sameNumber k m = true ∧
    c.controls (Analyses.of f) i.block outcome = true

variable {p : Program} {f : Function} {m : InstrId} {i : Instr} {key : FuncId}

/-- **From the checked values**: the set of a function's guarded instructions. -/
theorem mem_guardedIn_iff (guard : Guard) (h : p.WellFormed) (hf : p.function? key = some f) :
    m ∈ guard.guardedIn f (Analyses.of f) ↔ ∃ i, f.instr? m = some i ∧ guard.Covers f m i := by
  have hclass : ∀ k, m ∈ (Analyses.of f).classes.classOf k ↔
      (ValueClasses.of f).sameNumber k m = true := fun k =>
    ValueClasses.mem_classOf_of_iff (h.sound key f hf)
  unfold guardedIn
  rw [Visited.mem_distinct_iff]
  simp only [List.mem_flatMap, List.mem_filter, BranchTest.guarded, hclass,
    f.mem_conditions_iff, h.mem_listing_iff hf]
  constructor
  · intro hfound
    obtain ⟨c, ⟨b, hb⟩, outcome, ⟨_, hsole⟩, checked, ⟨hk, hchecks⟩, hsame, hdom⟩ := hfound
    cases hi : f.instr? m with
    | none => simp [hi] at hdom
    | some i =>
      refine ⟨i, rfl, b, c, outcome, checked.id, checked, hb, hk, hchecks, hsame, ?_⟩
      unfold BranchTest.controls
      rw [hsole, Bool.and_true]
      simpa only [hi] using hdom
  · intro hcovers
    obtain ⟨i, hi, b, c, outcome, k, checked, hb, hk, hchecks, hsame, hcontrols⟩ := hcovers
    -- The search goes by the ids that instructions carry, which are their keys.
    obtain rfl : checked.id = k := (h.instr_names hf hk).1
    unfold BranchTest.controls at hcontrols
    obtain ⟨hdom, hsole⟩ := (Bool.and_eq_true _ _).mp hcontrols
    refine ⟨c, ⟨b, hb⟩, outcome, ⟨mem_outcomes outcome, hsole⟩, checked, ⟨hk, hchecks⟩, hsame, ?_⟩
    simpa only [hi] using hdom

/-- **From the node**: the test of one instruction. -/
theorem isGuarded_iff (guard : Guard) (h : p.WellFormed) (hf : p.function? key = some f)
    (hi : f.instr? m = some i) :
    guard.isGuarded f (Analyses.of f) i = true ↔ guard.Covers f m i := by
  obtain rfl : i.id = m := (h.instr_names hf hi).1
  -- Here the class is that of the node, so the number relation is turned round.
  have hclass : ∀ k, k ∈ (Analyses.of f).classes.classOf i.id ↔
      (ValueClasses.of f).sameNumber k i.id = true := by
    intro k
    rw [ValueClasses.sameNumber_comm]
    exact ValueClasses.mem_classOf_of_iff (h.sound key f hf)
  unfold isGuarded
  simp only [List.any_eq_true, Bool.and_eq_true, List.mem_filterMap, hclass,
    f.mem_conditions_iff]
  constructor
  · intro hfound
    obtain ⟨c, ⟨b, hb⟩, outcome, _, hcontrols, checked, ⟨k, hsame, hk⟩, hchecks⟩ := hfound
    exact ⟨b, c, outcome, k, checked, hb, hk, hchecks, hsame, hcontrols⟩
  · intro hcovers
    obtain ⟨b, c, outcome, k, checked, hb, hk, hchecks, hsame, hcontrols⟩ := hcovers
    exact ⟨c, ⟨b, hb⟩, outcome, mem_outcomes outcome, hcontrols, checked, ⟨k, hsame, hk⟩, hchecks⟩

end Guard

/-! ### A whole program -/

namespace FlowGraph

variable {g : FlowGraph} {n : Node}

/-- The guard covers the instruction of a node in its function. -/
def Guarded (g : FlowGraph) (guard : Guard) (n : Node) : Prop :=
  ∃ key f i, g.program.function? key = some f ∧ f.instr? n.instr = some i ∧
    guard.Covers f n.instr i

/-- The set of all guarded nodes, function by function, in any program. -/
theorem mem_guardedAll_iff_exists (g : FlowGraph) (guard : Guard) :
    n ∈ g.guardedAll guard ↔
      ∃ k f, g.program.function? k = some f ∧ n.instr ∈ guard.guardedIn f (Analyses.of f) := by
  unfold guardedAll guardedOf
  rw [Visited.mem_distinct_iff, ← List.flatMap_def, List.mem_flatMap]
  constructor
  · rintro ⟨k, hk, hm⟩
    obtain ⟨f, hf⟩ := (g.program.functions.mem_keys_iff k).mp hk
    simp only [show g.program.function? k = some f from hf, List.mem_map] at hm
    obtain ⟨i, hi, rfl⟩ := hm
    exact ⟨k, f, hf, hi⟩
  · rintro ⟨k, f, hf, hm⟩
    refine ⟨k, (g.program.functions.mem_keys_iff k).mpr ⟨f, hf⟩, ?_⟩
    simp only [hf, List.mem_map]
    exact ⟨n.instr, hm, rfl⟩

/-- The set of all guarded nodes. -/
theorem mem_guardedAll_iff (guard : Guard) (h : g.program.WellFormed) :
    n ∈ g.guardedAll guard ↔ g.Guarded guard n := by
  rw [mem_guardedAll_iff_exists]
  constructor
  · rintro ⟨key, f, hf, hn⟩
    obtain ⟨i, hi, hcovers⟩ := (guard.mem_guardedIn_iff h hf).mp hn
    exact ⟨key, f, i, hf, hi, hcovers⟩
  · rintro ⟨key, f, i, hf, hi, hcovers⟩
    exact ⟨key, f, hf, (guard.mem_guardedIn_iff h hf).mpr ⟨i, hi, hcovers⟩⟩

/-- The test of one node, which goes by the function that its instruction names. -/
theorem guards_iff (guard : Guard) (h : g.program.WellFormed) :
    g.guards n guard = true ↔ g.Guarded guard n := by
  unfold guards
  constructor
  · intro hyes
    cases hi : g.instr? n with
    | none => simp [hi] at hyes
    | some i =>
      obtain ⟨f, hf, hfi⟩ := h.instr_in_function hi
      simp only [hi, hf] at hyes
      exact ⟨i.function, f, i, hf, hfi, (guard.isGuarded_iff h hf hfi).mp hyes⟩
  · intro hguarded
    obtain ⟨key, f, i, hf, hfi, hcovers⟩ := hguarded
    -- The function that stores the instruction is the one that the test looks up.
    have hi : g.instr? n = some i := h.instr?_eq_some_iff.mpr ⟨key, f, hf, hfi⟩
    obtain rfl : i.function = key := (h.instr_names hf hfi).2
    simp only [hi, hf]
    exact (guard.isGuarded_iff h hf hfi).mpr hcovers

theorem mem_guardedByAny_iff (guards : List Guard) :
    n ∈ Visited.distinct (guards.map g.guardedAll).flatten ↔
      ∃ guard ∈ guards, n ∈ g.guardedAll guard := by
  rw [Visited.mem_distinct_iff, ← List.flatMap_def, List.mem_flatMap]

/-- **The two searches agree**: in a program that was obtained without edits and
    passes the check, and whatever was asked before each query, the test of a
    node and the set of guarded nodes both tell which nodes a guard covers. A
    list of guards covers what some guard in it covers, in the set as in the
    test. -/
theorem guard_queries_agree (g : FlowGraph) (hp : g.program.Obtained)
    (hv : g.program.validate = .ok ()) (asked asked' : List Question) (n : Node) :
    (∀ guard : Guard,
        (g.answerAfter asked (g.isGuarded n guard) = true ↔
          n ∈ g.answerAfter asked' (g.guarded guard)) ∧
        (n ∈ g.answerAfter asked' (g.guarded guard) ↔ g.Guarded guard n)) ∧
      ∀ guards : List Guard,
        (n ∈ g.answerAfter asked' (g.guardedByAny guards) ↔
          ∃ guard ∈ guards, n ∈ g.answerAfter asked (g.guarded guard)) ∧
        (g.answerAfter asked (g.isGuardedByAny guards n) = true ↔
          n ∈ g.answerAfter asked' (g.guardedByAny guards)) := by
  have hwf := hp.wellFormed hv
  refine ⟨?_, ?_⟩
  · intro guard
    rw [(g.yields_isGuarded n guard).answerAfter, (g.yields_guarded guard).answerAfter,
      guards_iff guard hwf, mem_guardedAll_iff guard hwf]
    exact ⟨Iff.rfl, Iff.rfl⟩
  · intro guards
    rw [(g.yields_guardedByAny guards).answerAfter,
      (g.yields_isGuardedByAny guards n).answerAfter, mem_guardedByAny_iff, List.any_eq_true]
    refine ⟨?_, ?_⟩
    · simp only [(g.yields_guarded _).answerAfter]
    · simp only [guards_iff _ hwf, mem_guardedAll_iff _ hwf]

/-- In the body of the loop the copy of the tested flag is guarded: the guard
    covers it, the set has it, also after other questions, and so has the set of
    a list of guards. -/
theorem loop_copy_is_guarded :
    Program.loop.validate = .ok () ∧
      (let g : FlowGraph := ⟨Program.loop, .standard, none⟩
      let n : Node := ⟨⟨2⟩⟩
      let asked : List Question := [.guarded .never, .isGuarded n .always]
      g.Guarded (.condition true) n ∧ n ∈ g.answerAfter asked (g.guarded (.condition true)) ∧
        g.answerAfter [] (g.isGuardedByAny [.never, .condition true] n) = true ∧
        n ∈ g.answerAfter asked (g.guardedByAny [.never, .condition true])) := by
  refine ⟨Program.validate_loop, ?_⟩
  intro g n asked
  have hagree := guard_queries_agree g Program.obtained_loop Program.validate_loop [] asked n
  have hyes : g.answerAfter [] (g.isGuarded n (.condition true)) = true := by cbv
  have hany : g.answerAfter [] (g.isGuardedByAny [.never, .condition true] n) = true := by cbv
  have hset := (hagree.1 _).1.mp hyes
  exact ⟨(hagree.1 _).2.mp hset, hset, hany, (hagree.2 _).2.mp hany⟩

end FlowGraph

end SsaFlow
