import SsaFlow.Flow.Query

/-! # Answers and memo tables

    A query may find a value in a memo table or compute it; the answer is the
    same. The argument has three parts.

    * `Memo.Agrees`: every stored value is the wanted one. Looking up and storing
      through a `Slot` keeps that (`Slot.Keeps.cached`).
    * `Query.Yields`: whatever right tables a query starts from, it gives one
      answer and leaves the tables right. Each query of a flow graph yields the
      answer that is computed without tables.
    * `FlowGraph.answerAfter`: the answer after other questions were asked;
      `Query.Yields.answerAfter` says that these make no difference.
-/

namespace SsaFlow

/-! ### Tables that agree with a computation -/

namespace Memo

variable {κ α : Type} [DecidableEq κ] [Coded κ] {m : Memo κ α} {want : κ → Option α} {k : κ} {v : α}

/-- Every stored value is the wanted one. -/
def Agrees (m : Memo κ α) (want : κ → Option α) : Prop :=
  ∀ k v, m.find? k = some v → want k = some v

theorem agrees_empty (want : κ → Option α) : (empty : Memo κ α).Agrees want := by
  intro k v h
  cases h

/-- After storing the wanted value of a key, the key has that value. -/
theorem Agrees.find?_store (h : m.Agrees want) (hv : want k = some v) :
    (m.store k v).find? k = some v := by
  unfold store
  split
  · -- An entry that is there already stays, and it is the wanted one.
    next w hw => rw [hw, ← h k w hw, hv]
  · show (m.entries.insert k v).find? k = some v
    rw [OrderedMap.find?_insert, if_pos rfl]

/-- Storing a wanted value keeps the table in agreement. -/
theorem Agrees.store (h : m.Agrees want) (hv : want k = some v) : (m.store k v).Agrees want := by
  unfold Memo.store
  split
  · exact h
  · intro j w hj
    have hj' : (m.entries.insert k v).find? j = some w := hj
    rw [OrderedMap.find?_insert] at hj'
    by_cases hjk : j = k
    · rw [if_pos hjk] at hj'
      rw [hjk, hv, hj']
    · rw [if_neg hjk] at hj'
      exact h j w hj'

end Memo

namespace Slot

variable {σ κ α : Type} [DecidableEq κ] [Coded κ]

/-- Under an invariant of the state, the table in a slot agrees with `want`, and
    any table that agrees may take its place. -/
structure Keeps (slot : Slot σ κ α) (inv : σ → Prop) (want : κ → Option α) : Prop where
  /-- What was put into the slot is found there. -/
  get_set : ∀ s m, slot.get (slot.set s m) = m
  /-- The table agrees. -/
  agrees : ∀ s, inv s → (slot.get s).Agrees want
  /-- Another table that agrees keeps the invariant. -/
  replace : ∀ s m, inv s → m.Agrees want → inv (slot.set s m)

/-- A cached computation gives the wanted value and keeps the invariant, if the
    computation itself does. -/
theorem Keeps.cached {slot : Slot σ κ α} {inv : σ → Prop} {want : κ → Option α} {k : κ} {v : α}
    {compute : StateM σ α} (h : slot.Keeps inv want) (hv : want k = some v)
    (hcompute : ∀ s, inv s → (compute s).1 = v ∧ inv (compute s).2) (s : σ) (hs : inv s) :
    (slot.cached k compute s).1 = v ∧ inv (slot.cached k compute s).2 := by
  have hagrees := h.agrees s hs
  unfold Slot.cached
  cases hfind : (slot.get s).find? k with
  | some w =>
    have hw : w = v := Option.some.inj ((hagrees k w hfind).symm.trans hv)
    -- Counting a hit changes no entry.
    exact ⟨hw, h.replace s _ hs hagrees⟩
  | none =>
    -- The computation may use the tables itself, so its result is stored into
    -- the tables that it leaves, not into those it was given.
    have hmiss : inv (slot.set s (slot.get s).countMiss) := h.replace s _ hs hagrees
    obtain ⟨hvalue, hafter⟩ := hcompute _ hmiss
    have hagrees' := h.agrees _ hafter
    refine ⟨?_, ?_⟩
    · show (((slot.get (compute _).2).store k (compute _).1).find? k).getD (compute _).1 = v
      rw [hvalue, hagrees'.find?_store hv]
      rfl
    · show inv (slot.set (compute _).2 ((slot.get (compute _).2).store k (compute _).1))
      rw [hvalue]
      exact h.replace _ _ hafter (hagrees'.store hv)

end Slot

/-! ### Right tables -/

/-- Every value in the tables of a flow graph is the one that would be computed
    again. -/
structure FlowTables.Faithful (g : FlowGraph) (t : FlowTables) : Prop where
  /-- The steps of a function. -/
  steps : t.steps.Agrees fun f => some (g.steps f)
  /-- The closure of a node. -/
  closures : t.closures.Agrees fun key => some ((g.steps key.1).reach key.2).members
  /-- The analyses of a function of the program. -/
  analyses : t.analyses.Agrees fun f => (g.program.function? f).map Analyses.of

theorem FlowTables.faithful_empty (g : FlowGraph) : FlowTables.empty.Faithful g :=
  ⟨Memo.agrees_empty _, Memo.agrees_empty _, Memo.agrees_empty _⟩

/-- From right tables, the query gives the answer `v` and leaves right tables. -/
def Query.Yields {α : Type} (g : FlowGraph) (q : Query α) (v : α) : Prop :=
  ∀ t, t.Faithful g → (q t).1 = v ∧ (q t).2.Faithful g

namespace Query

variable {α β : Type} {g : FlowGraph}

theorem yields_pure (v : α) : Yields g (pure v) v := fun _ ht => ⟨rfl, ht⟩

theorem Yields.bind {q : Query α} {v : α} {next : α → Query β} {w : β} (h : q.Yields g v)
    (hnext : (next v).Yields g w) : Yields g (q >>= next) w := by
  intro t ht
  obtain ⟨hv, ht'⟩ := h t ht
  show (next (q t).1 (q t).2).1 = w ∧ (next (q t).1 (q t).2).2.Faithful g
  rw [hv]
  exact hnext _ ht'

theorem Yields.map {q : Query α} {v : α} (h : q.Yields g v) (f : α → β) :
    Yields g (do return f (← q)) (f v) :=
  h.bind (yields_pure (f v))

theorem yields_mapM {q : α → Query β} {v : α → β} (h : ∀ a, (q a).Yields g (v a)) (l : List α) :
    Yields g (l.mapM q) (l.map v) := by
  induction l with
  | nil => exact yields_pure []
  | cons a rest ih =>
    rw [List.mapM_cons]
    exact (h a).bind (ih.bind (yields_pure _))

end Query

/-! ### What each query yields -/

namespace FlowGraph

open Query

variable (g : FlowGraph)

theorem yields_cachedSteps (f : FuncId) : (g.cachedSteps f).Yields g (g.steps f) := by
  have hkeeps : FlowTables.stepSlot.Keeps (FlowTables.Faithful g) fun f => some (g.steps f) :=
    ⟨fun _ _ => rfl, fun _ h => h.steps, fun _ _ h hm => ⟨hm, h.closures, h.analyses⟩⟩
  exact hkeeps.cached rfl fun t ht => ⟨rfl, ht⟩

theorem yields_cachedAnalyses {f : FuncId} {function : Function}
    (hf : g.program.function? f = some function) :
    (cachedAnalyses function f).Yields g (Analyses.of function) := by
  have hkeeps : FlowTables.analysisSlot.Keeps (FlowTables.Faithful g)
      fun f => (g.program.function? f).map Analyses.of :=
    ⟨fun _ _ => rfl, fun _ h => h.analyses, fun _ _ h hm => ⟨h.steps, h.closures, hm⟩⟩
  exact hkeeps.cached (by rw [hf]; rfl) fun t ht => ⟨rfl, ht⟩

theorem yields_successors (n : Node) :
    (g.successors n).Yields g
      (match g.enclosing? n with
        | some f => (g.steps f).succ n
        | none => []) := by
  unfold successors
  cases g.enclosing? n with
  | none => exact yields_pure []
  | some f => exact (g.yields_cachedSteps f).map fun steps => steps.succ n

theorem yields_predecessors (n : Node) :
    (g.predecessors n).Yields g
      (match g.enclosing? n with
        | some f => (g.steps f).pred n
        | none => []) := by
  unfold predecessors
  cases g.enclosing? n with
  | none => exact yields_pure []
  | some f => exact (g.yields_cachedSteps f).map fun steps => steps.pred n

/-- The closure of a node, computed without tables. -/
def closure (n : Node) : List Node :=
  match g.enclosing? n with
  | some f => ((g.steps f).reach n).members
  | none => [n]

theorem yields_reachFrom (n : Node) : (g.reachFrom n).Yields g (g.closure n) := by
  have hkeeps : FlowTables.closureSlot.Keeps (FlowTables.Faithful g)
      fun key => some ((g.steps key.1).reach key.2).members :=
    ⟨fun _ _ => rfl, fun _ h => h.closures, fun _ _ h hm => ⟨h.steps, hm, h.analyses⟩⟩
  unfold reachFrom closure
  cases g.enclosing? n with
  | none => exact yields_pure [n]
  | some f =>
    exact hkeeps.cached rfl ((g.yields_cachedSteps f).map fun steps => (steps.reach n).members)

/-- Whether data moves from `a` to `b`, decided without tables. -/
def reaches (a b : Node) : Bool :=
  if a = b then true
  else
    match g.enclosing? a, g.enclosing? b with
    | some f, some f' => if f = f' then (g.closure a).contains b else false
    | _, _ => false

theorem yields_flows (a b : Node) : (g.flows a b).Yields g (g.reaches a b) := by
  unfold flows reaches
  by_cases hab : a = b
  · rw [if_pos hab, if_pos hab]
    exact yields_pure true
  · rw [if_neg hab, if_neg hab]
    cases g.enclosing? a with
    | none => exact yields_pure false
    | some f =>
      cases g.enclosing? b with
      | none => exact yields_pure false
      | some f' =>
        by_cases hf : f = f'
        · simp only [if_pos hf]
          exact (g.yields_reachFrom a).map fun l => l.contains b
        · simp only [if_neg hf]
          exact yields_pure false

theorem yields_exprFlows (a b : ExprId) :
    (g.exprFlows a b).Yields g
      (match g.nodeOfExpr? a, g.nodeOfExpr? b with
        | some a, some b => g.reaches a b
        | _, _ => false) := by
  unfold exprFlows
  cases g.nodeOfExpr? a with
  | none => exact yields_pure false
  | some a =>
    cases g.nodeOfExpr? b with
    | none => exact yields_pure false
    | some b => exact g.yields_flows a b

/-- The guarded nodes of a function, computed without tables. -/
def guardedOf (guard : Guard) (f : FuncId) : List Node :=
  match g.program.function? f with
  | some function => (guard.guardedIn function (Analyses.of function)).map Node.mk
  | none => []

theorem yields_guardedIn (f : FuncId) (guard : Guard) :
    (g.guardedIn f guard).Yields g (g.guardedOf guard f) := by
  unfold guardedIn guardedOf
  cases hf : g.program.function? f with
  | none => exact yields_pure []
  | some function =>
    exact (g.yields_cachedAnalyses hf).map fun a => (guard.guardedIn function a).map Node.mk

/-- The guarded nodes of all functions, computed without tables. -/
def guardedAll (guard : Guard) : List Node :=
  Visited.distinct (g.program.functions.keys.map (g.guardedOf guard)).flatten

theorem yields_guarded (guard : Guard) : (g.guarded guard).Yields g (g.guardedAll guard) :=
  (yields_mapM (fun f => g.yields_guardedIn f guard) g.program.functions.keys).map
    fun parts => Visited.distinct parts.flatten

/-- Whether a node is guarded, decided without tables. -/
def guards (n : Node) (guard : Guard) : Bool :=
  match g.instr? n with
  | some i =>
    match g.program.function? i.function with
    | some function => guard.isGuarded function (Analyses.of function) i
    | none => false
  | none => false

theorem yields_isGuarded (n : Node) (guard : Guard) :
    (g.isGuarded n guard).Yields g (g.guards n guard) := by
  unfold isGuarded guards
  cases g.instr? n with
  | none => exact yields_pure false
  | some i =>
    cases hf : g.program.function? i.function with
    | none =>
      simp only [hf]
      exact yields_pure false
    | some function =>
      simp only [hf]
      exact (g.yields_cachedAnalyses hf).map fun a => guard.isGuarded function a i

theorem yields_guardedByAny (guards : List Guard) :
    (g.guardedByAny guards).Yields g (Visited.distinct (guards.map g.guardedAll).flatten) :=
  (yields_mapM g.yields_guarded guards).map fun parts => Visited.distinct parts.flatten

theorem yields_isGuardedByAny (guards : List Guard) (n : Node) :
    (g.isGuardedByAny guards n).Yields g (guards.any (g.guards n)) := by
  induction guards with
  | nil => exact yields_pure false
  | cons guard rest ih =>
    unfold isGuardedByAny
    refine (g.yields_isGuarded n guard).bind ?_
    rw [List.any_cons]
    -- The guards after the first one that covers the node are not asked.
    cases g.guards n guard with
    | true => exact yields_pure true
    | false => exact ih

/-! ### Questions and histories -/

/-- A question that can be put to a flow graph. -/
inductive Question where
  /-- What does a node flow into? -/
  | successors (n : Node)
  /-- What flows into a node? -/
  | predecessors (n : Node)
  /-- What does a node flow into in the end? -/
  | reachFrom (n : Node)
  /-- Does one node flow into another? -/
  | flows (a b : Node)
  /-- Does one expression flow into another? -/
  | exprFlows (a b : ExprId)
  /-- Which nodes of a function are guarded? -/
  | guardedIn (f : FuncId) (guard : Guard)
  /-- Which nodes are guarded? -/
  | guarded (guard : Guard)
  /-- Is a node guarded? -/
  | isGuarded (n : Node) (guard : Guard)
  /-- Which nodes does any of some guards guard? -/
  | guardedByAny (guards : List Guard)
  /-- Does any of some guards guard a node? -/
  | isGuardedByAny (guards : List Guard) (n : Node)

/-- The tables after a question. -/
def pose (t : FlowTables) : Question → FlowTables
  | .successors n => (g.successors n t).2
  | .predecessors n => (g.predecessors n t).2
  | .reachFrom n => (g.reachFrom n t).2
  | .flows a b => (g.flows a b t).2
  | .exprFlows a b => (g.exprFlows a b t).2
  | .guardedIn f guard => (g.guardedIn f guard t).2
  | .guarded guard => (g.guarded guard t).2
  | .isGuarded n guard => (g.isGuarded n guard t).2
  | .guardedByAny guards => (g.guardedByAny guards t).2
  | .isGuardedByAny guards n => (g.isGuardedByAny guards n t).2

/-- The tables after a list of questions to a new flow graph. -/
def tablesAfter (asked : List Question) : FlowTables := asked.foldl g.pose .empty

/-- The answer to a query after a list of questions to a new flow graph. -/
def answerAfter {α : Type} (asked : List Question) (q : Query α) : α := (q (g.tablesAfter asked)).1

/-- A question leaves right tables. -/
theorem faithful_pose {t : FlowTables} (ht : t.Faithful g) (question : Question) :
    (g.pose t question).Faithful g := by
  cases question with
  | successors n => exact (g.yields_successors n t ht).2
  | predecessors n => exact (g.yields_predecessors n t ht).2
  | reachFrom n => exact (g.yields_reachFrom n t ht).2
  | flows a b => exact (g.yields_flows a b t ht).2
  | exprFlows a b => exact (g.yields_exprFlows a b t ht).2
  | guardedIn f guard => exact (g.yields_guardedIn f guard t ht).2
  | guarded guard => exact (g.yields_guarded guard t ht).2
  | isGuarded n guard => exact (g.yields_isGuarded n guard t ht).2
  | guardedByAny guards => exact (g.yields_guardedByAny guards t ht).2
  | isGuardedByAny guards n => exact (g.yields_isGuardedByAny guards n t ht).2

theorem faithful_tablesAfter (asked : List Question) : (g.tablesAfter asked).Faithful g := by
  -- Right tables stay right, question by question.
  have hrun : ∀ t : FlowTables, t.Faithful g → (asked.foldl g.pose t).Faithful g := by
    induction asked with
    | nil => exact fun t ht => ht
    | cons question rest ih => exact fun t ht => ih _ (g.faithful_pose ht question)
  exact hrun _ (FlowTables.faithful_empty g)

end FlowGraph

/-- Questions that were asked before make no difference to an answer. -/
theorem Query.Yields.answerAfter {α : Type} {g : FlowGraph} {q : Query α} {v : α}
    (h : q.Yields g v) (asked : List FlowGraph.Question) : g.answerAfter asked q = v :=
  (h _ (g.faithful_tablesAfter asked)).1

end SsaFlow
