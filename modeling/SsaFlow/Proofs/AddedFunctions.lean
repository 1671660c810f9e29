import Mathlib
import SsaFlow.Proofs.GuardQueries
import SsaFlow.Proofs.LocalFlow

/-! # Functions that are added later

    Queries look nodes up in the whole program, and go by the function that an
    instruction names. Still a function that is added to a program that passes the
    check changes no answer about the nodes that were there, whatever it holds: it
    need not pass the check itself, and its instructions may name other functions and
    use their values.

    * `Program.Extends`: every function is still there. With the indexes in step,
      instructions are found as before (`instr?_of_extends`), and the other functions
      have others (`function?_of_extends`).
    * `FlowGraph.steps_of_extends` and what follows for closures and guards.
    * `FlowGraph.answers_kept_by_add`: all answers about old nodes.
-/

namespace SsaFlow

namespace Program

variable {p q : Program} {f : Function} {k : FuncId} {i : InstrId} {inst : Instr}

/-- Every function of `p` is in `q`, under the same id. -/
def Extends (q p : Program) : Prop := ∀ k f, p.function? k = some f → q.function? k = some f

theorem extends_of_add? (h : p.add? f = .ok q) : q.Extends p := by
  obtain ⟨rfl, hid, -, -⟩ := add?_cases h
  intro k g hg
  rw [function?_insert]
  have hne : k ≠ f.id := by
    rintro rfl
    rw [hid] at hg
    cases hg
  rw [if_neg hne]
  exact hg

/-- An instruction is found as before. -/
theorem Indexed.instr?_of_extends (hp : p.Indexed) (hq : q.Indexed) (hext : q.Extends p)
    (hi : p.instr? i = some inst) : q.instr? i = some inst := by
  obtain ⟨k, f, hf, hfi⟩ := (hp.instr?_eq_some_iff i inst).mp hi
  exact (hq.instr?_eq_some_iff i inst).mpr ⟨k, f, hext k f hf, hfi⟩

/-- A function that stores an old instruction is an old function. -/
theorem Indexed.function?_of_extends (hp : p.Indexed) (hq : q.Indexed) (hext : q.Extends p)
    (hf : q.function? k = some f) (hkey : i ∈ f.instrs.keys) (hi : p.instr? i = some inst) :
    p.function? k = some f := by
  obtain ⟨l, g, hg, hgi⟩ := (hp.instr?_eq_some_iff i inst).mp hi
  have hkey' : i ∈ g.instrs.keys := (g.instrs.mem_keys_iff i).mpr ⟨inst, hgi⟩
  obtain rfl : k = l := hq.owner_unique hf (hext l g hg) hkey hkey'
  rw [hg, ← hf, hext k g hg]

end Program

/-- What a guard covers in a function are instructions of the function. -/
theorem Guard.mem_keys_of_mem_guardedIn {guard : Guard} {f : Function} {a : Analyses} {m : InstrId}
    (h : m ∈ guard.guardedIn f a) : m ∈ f.instrs.keys := by
  unfold guardedIn at h
  rw [Visited.mem_distinct_iff] at h
  simp only [List.mem_flatMap, BranchTest.guarded, List.mem_filter] at h
  obtain ⟨c, -, outcome, -, checked, -, -, hdom⟩ := h
  rw [OrderedMap.mem_keys_iff]
  cases hi : f.instr? m with
  | none => simp [hi] at hdom
  | some i => exact ⟨i, hi⟩

namespace FlowGraph

variable {p q : Program} {c : FlowConfig} {bound bound' : Option TypeBound} {n m : Node}

/-! ### Steps and closures -/

/-- An old function has the steps that it had. -/
theorem steps_of_extends (hext : q.Extends p) {k : FuncId} {f : Function}
    (hf : p.function? k = some f) : steps ⟨q, c, bound'⟩ k = steps ⟨p, c, bound⟩ k := by
  unfold steps
  simp only [hf, hext k f hf]

/-- The function of an old node is the one that it was, and has the steps that it had. -/
theorem enclosing?_of_extends (hp : p.WellFormed) (hq : q.Indexed) (hext : q.Extends p)
    (hn : p.instr? n.instr ≠ none) (c : FlowConfig) (bound bound' : Option TypeBound) :
    ∃ k, enclosing? ⟨p, c, bound⟩ n = some k ∧ enclosing? ⟨q, c, bound'⟩ n = some k ∧
      steps ⟨q, c, bound'⟩ k = steps ⟨p, c, bound⟩ k := by
  obtain ⟨i, hi⟩ := Option.ne_none_iff_exists'.mp hn
  have hi' := hp.indexed.instr?_of_extends hq hext hi
  -- The check makes sure that the instruction names a function of the program.
  obtain ⟨f, hf, -⟩ := hp.instr_in_function hi
  refine ⟨i.function, ?_, ?_, steps_of_extends hext hf⟩
  · unfold enclosing? instr?
    rw [hi]
    rfl
  · unfold enclosing? instr?
    rw [hi']
    rfl

theorem closure_of_extends (hp : p.WellFormed) (hq : q.Indexed) (hext : q.Extends p)
    (hn : p.instr? n.instr ≠ none) : closure ⟨q, c, bound'⟩ n = closure ⟨p, c, bound⟩ n := by
  obtain ⟨k, hk, hk', hsteps⟩ := enclosing?_of_extends hp hq hext hn c bound bound'
  unfold closure
  rw [hk, hk']
  simp only [hsteps]

theorem reaches_of_extends (hp : p.WellFormed) (hq : q.Indexed) (hext : q.Extends p)
    (hn : p.instr? n.instr ≠ none) (m : Node) :
    reaches ⟨q, c, bound'⟩ n m = reaches ⟨p, c, bound⟩ n m := by
  obtain ⟨k, hk, hk', -⟩ := enclosing?_of_extends hp hq hext hn c bound bound'
  have hclosure : closure ⟨q, c, bound'⟩ n = closure ⟨p, c, bound⟩ n :=
    closure_of_extends hp hq hext hn
  unfold reaches
  rw [hk, hk', hclosure]
  by_cases hm : p.instr? m.instr = none
  · -- A new node may name an old function, but no chain of steps leads there.
    have hnone : enclosing? ⟨p, c, bound⟩ m = none := by
      unfold enclosing? instr?
      rw [hm]
      rfl
    have hout : (closure ⟨p, c, bound⟩ n).contains m = false := by
      rw [Bool.eq_false_iff, Ne, List.contains_iff_mem]
      intro hmem
      have hsome := enclosing?_of_chain hp ((mem_closure_iff hp).mp hmem) hk
      rw [hnone] at hsome
      cases hsome
    rw [hnone, hout]
    cases enclosing? ⟨q, c, bound'⟩ m <;> simp
  · obtain ⟨l, hl, hl', -⟩ := enclosing?_of_extends hp hq hext hm c bound bound'
    rw [hl, hl']

/-! ### Guards -/

theorem guards_of_extends (hp : p.WellFormed) (hq : q.Indexed) (hext : q.Extends p)
    (hn : p.instr? n.instr ≠ none) (guard : Guard) :
    guards ⟨q, c, bound'⟩ n guard = guards ⟨p, c, bound⟩ n guard := by
  obtain ⟨i, hi⟩ := Option.ne_none_iff_exists'.mp hn
  obtain ⟨f, hf, -⟩ := hp.instr_in_function hi
  have hi' := hp.indexed.instr?_of_extends hq hext hi
  unfold guards instr?
  simp only [hi, hi', hf, hext _ _ hf]

/-- Of the old nodes, a guard covers those that it covered. -/
theorem mem_guardedAll_of_extends (hp : p.Indexed) (hq : q.Indexed) (hext : q.Extends p)
    (guard : Guard) :
    m ∈ guardedAll ⟨p, c, bound⟩ guard ↔
      m ∈ guardedAll ⟨q, c, bound'⟩ guard ∧ p.instr? m.instr ≠ none := by
  rw [mem_guardedAll_iff_exists, mem_guardedAll_iff_exists]
  constructor
  · rintro ⟨k, f, hf, hm⟩
    refine ⟨⟨k, f, hext k f hf, hm⟩, ?_⟩
    obtain ⟨i, hi⟩ := (f.instrs.mem_keys_iff m.instr).mp (Guard.mem_keys_of_mem_guardedIn hm)
    exact Option.ne_none_iff_exists'.mpr ⟨i, (hp.instr?_eq_some_iff _ i).mpr ⟨k, f, hf, hi⟩⟩
  · rintro ⟨⟨k, f, hf, hm⟩, hold⟩
    obtain ⟨i, hi⟩ := Option.ne_none_iff_exists'.mp hold
    exact ⟨k, f, hp.function?_of_extends hq hext hf (Guard.mem_keys_of_mem_guardedIn hm) hi, hm⟩

/-! ### All answers -/

/-- **Answers stay**: when a function is added to a program that was obtained without
    edits and passes the check, the answers about the nodes that were there stay the
    same, whatever the function is and whatever was asked before and after. So do the
    neighbours of a node, the nodes found from it, its flow into any node, old or not,
    and its guards. Of the guarded nodes, the old ones are those that were guarded. -/
theorem answers_kept_by_add (p q : Program) (f : Function) (hp : p.Obtained)
    (hv : p.validate = .ok ()) (hadd : p.add? f = .ok q) (c : FlowConfig)
    (bound bound' : Option TypeBound) (asked asked' : List Question) :
    let g : FlowGraph := ⟨p, c, bound⟩
    let g' : FlowGraph := ⟨q, c, bound'⟩
    (∀ n : Node, p.instr? n.instr ≠ none →
      g'.answerAfter asked' (g'.successors n) = g.answerAfter asked (g.successors n) ∧
      g'.answerAfter asked' (g'.predecessors n) = g.answerAfter asked (g.predecessors n) ∧
      g'.answerAfter asked' (g'.reachFrom n) = g.answerAfter asked (g.reachFrom n) ∧
      (∀ m, g'.answerAfter asked' (g'.flows n m) = g.answerAfter asked (g.flows n m)) ∧
      ∀ guard, g'.answerAfter asked' (g'.isGuarded n guard) =
        g.answerAfter asked (g.isGuarded n guard)) ∧
    ∀ (guard : Guard) (m : Node), m ∈ g.answerAfter asked (g.guarded guard) ↔
      m ∈ g'.answerAfter asked' (g'.guarded guard) ∧ p.instr? m.instr ≠ none := by
  intro g g'
  have hwf := hp.wellFormed hv
  have hq : q.Indexed := hwf.indexed.add hadd
  have hext := Program.extends_of_add? hadd
  constructor
  · intro n hn
    obtain ⟨k, hk, hk', hsteps⟩ := enclosing?_of_extends hwf hq hext hn c bound bound'
    refine ⟨?_, ?_, ?_, ?_, ?_⟩
    · rw [(g.yields_successors n).answerAfter, (g'.yields_successors n).answerAfter, hk, hk']
      simp only [hsteps, g, g']
    · rw [(g.yields_predecessors n).answerAfter, (g'.yields_predecessors n).answerAfter, hk, hk']
      simp only [hsteps, g, g']
    · rw [(g.yields_reachFrom n).answerAfter, (g'.yields_reachFrom n).answerAfter]
      exact closure_of_extends hwf hq hext hn
    · intro m
      rw [(g.yields_flows n m).answerAfter, (g'.yields_flows n m).answerAfter]
      exact reaches_of_extends hwf hq hext hn m
    · intro guard
      rw [(g.yields_isGuarded n guard).answerAfter, (g'.yields_isGuarded n guard).answerAfter]
      exact guards_of_extends hwf hq hext hn guard
  · intro guard m
    rw [(g.yields_guarded guard).answerAfter, (g'.yields_guarded guard).answerAfter]
    exact mem_guardedAll_of_extends hwf.indexed hq hext guard

/-- A function whose only instruction copies a value of the loop and names the loop as
    its function. -/
def intruder : Function where
  id := ⟨1⟩
  signature := ⟨"intruder", [], .void, none⟩
  entry := ⟨0⟩
  blocks := .ofList [(⟨0⟩, ⟨⟨0⟩, [⟨9⟩], .ret⟩)]
  instrs := .ofList [(⟨9⟩, ⟨⟨9⟩, ⟨0⟩, ⟨2⟩, .copy ⟨1⟩, .bool, none, .unknown⟩)]
  exprs := .empty
  nextBlock := 1

/-- It can be added to the loop, though the program then fails the check, and there is a
    step from the phi of the loop into the copy. Still the phi does not flow there, its
    successors are what they were, and the copy in the body is guarded as before. -/
theorem intruder_changes_no_answer :
    let q := Program.loop.insert intruder
    let g' : FlowGraph := ⟨q, .standard, none⟩
    Program.loop.add? intruder = .ok q ∧ q.validate ≠ .ok () ∧ g'.isStep ⟨⟨1⟩⟩ ⟨⟨9⟩⟩ = true ∧
      g'.answerAfter [] (g'.flows ⟨⟨1⟩⟩ ⟨⟨9⟩⟩) = false ∧
      g'.answerAfter [.isGuarded ⟨⟨9⟩⟩ .always] (g'.successors ⟨⟨1⟩⟩) = [⟨⟨2⟩⟩] ∧
      (⟨⟨2⟩⟩ : Node) ∈ g'.answerAfter [] (g'.guarded (.condition true)) := by
  intro q g'
  have hadd : Program.loop.add? intruder = .ok q := rfl
  have hkept := fun asked' => answers_kept_by_add Program.loop q intruder Program.obtained_loop
    Program.validate_loop hadd .standard none none [] asked'
  let g : FlowGraph := ⟨Program.loop, .standard, none⟩
  have hflows : g.answerAfter [] (g.flows ⟨⟨1⟩⟩ ⟨⟨9⟩⟩) = false := by cbv
  have hsucc : g.answerAfter [] (g.successors ⟨⟨1⟩⟩) = [⟨⟨2⟩⟩] := by cbv
  have hguarded : (⟨⟨2⟩⟩ : Node) ∈ g.answerAfter [] (g.guarded (.condition true)) := by
    rw [← List.contains_iff_mem]
    cbv
  have hphi : Program.loop.instr? ⟨1⟩ ≠ none := by decide
  refine ⟨hadd, by decide, rfl, ?_, ?_, (((hkept []).2 _ _).mp hguarded).1⟩
  · exact (((hkept []).1 ⟨⟨1⟩⟩ hphi).2.2.2.1 ⟨⟨9⟩⟩).trans hflows
  · exact ((hkept [.isGuarded ⟨⟨9⟩⟩ .always]).1 ⟨⟨1⟩⟩ hphi).1.trans hsucc

end FlowGraph

end SsaFlow
