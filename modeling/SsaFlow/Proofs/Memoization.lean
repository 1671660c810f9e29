import SsaFlow.Proofs.Answers
import SsaFlow.Proofs.Validation

/-! # Memoization

    The memo tables of a flow graph save work and show in nothing but the counts.
    What a query does to the tables is told by the calls it makes on them.

    * `Query.Calls`: the tables on which a query calls, one after the other, a
      computation that is run on a miss included.
    * `Query.Calls.grew`: every call is counted once, and every miss stores one
      entry.
    * `FlowGraph.Request`: all that can be asked, whether or not it needs tables.
    * `FlowGraph.replies_as_if_fresh`: answers, entries and counts after any
      requests.
-/

namespace SsaFlow

/-! ### Counts -/

theorem OrderedMap.size_insert_of_find?_eq_none {κ α : Type} [DecidableEq κ] [Coded κ]
    {m : OrderedMap κ α} {k : κ} (v : α) (h : m.find? k = none) :
    (m.insert k v).size = m.size + 1 := by
  have hsize : ∀ m : OrderedMap κ α, m.size = m.keys.length := fun m => (List.length_map ..).symm
  have hkey : k ∉ m.keys := by
    rw [← contains_iff]
    unfold contains
    rw [h]
    exact Bool.false_ne_true
  rw [hsize, hsize, keys_insert, if_neg hkey, List.length_append]
  rfl

namespace Memo

variable {κ α : Type} [DecidableEq κ] [Coded κ] {m m' m'' : Memo κ α} {a b : Nat}

/-- How a table changes in a number of calls. -/
structure Grew (m : Memo κ α) (calls : Nat) (m' : Memo κ α) : Prop where
  /-- Every call is a hit or a miss. -/
  lookups : m'.hits + m'.misses = m.hits + m.misses + calls
  /-- There are as many new entries as misses. -/
  sized : m'.size + m.misses = m.size + m'.misses
  /-- Without a call nothing changes. -/
  idle : calls = 0 → m' = m

theorem Grew.refl (m : Memo κ α) : m.Grew 0 m := ⟨rfl, rfl, fun _ => rfl⟩

theorem Grew.trans (h : m.Grew a m') (h' : m'.Grew b m'') : m.Grew (a + b) m'' where
  lookups := by rw [h'.lookups, h.lookups, Nat.add_assoc]
  sized := by
    have := h.sized
    have := h'.sized
    omega
  idle hzero := by rw [h'.idle (by omega), h.idle (by omega)]

theorem grew_countHit (m : Memo κ α) : m.Grew 1 m.countHit where
  lookups := by
    show m.hits + 1 + m.misses = _
    omega
  sized := rfl
  idle h := nomatch h

/-- A missing value is stored in a new entry. -/
theorem grew_store {k : κ} (v : α) (h : m.find? k = none) : m.Grew 1 (m.countMiss.store k v) := by
  have hstore : m.countMiss.store k v =
      { m with entries := m.entries.insert k v, misses := m.misses + 1 } := by
    unfold store
    split
    · next w hw => exact nomatch h.symm.trans hw
    · rfl
  rw [hstore]
  have hsize : (m.entries.insert k v).size = m.entries.size + 1 :=
    OrderedMap.size_insert_of_find?_eq_none v h
  constructor
  · show m.hits + (m.misses + 1) = _
    omega
  · show (m.entries.insert k v).size + m.misses = m.entries.size + (m.misses + 1)
    omega
  · intro hone
    cases hone

end Memo

namespace Slot

variable {σ κ α : Type} [DecidableEq κ] [Coded κ] {slot : Slot σ κ α} {k : κ} {s : σ}

theorem cached_of_hit {v : α} (compute : StateM σ α) (h : (slot.get s).find? k = some v) :
    slot.cached k compute s = (v, slot.set s (slot.get s).countHit) := by
  unfold cached
  rw [h]

/-- A computed value is stored into the table that its computation leaves. -/
theorem cached_of_miss (compute : StateM σ α) (h : (slot.get s).find? k = none) :
    (slot.cached k compute s).2 =
      let r := compute (slot.set s (slot.get s).countMiss)
      slot.set r.2 ((slot.get r.2).store k r.1) := by
  unfold cached
  rw [h]
  rfl

end Slot

/-! ### The tables -/

/-- A table of a flow graph. -/
inductive FlowTable where
  /-- The steps of functions. -/
  | steps
  /-- The closures of nodes. -/
  | closures
  /-- The analyses of functions. -/
  | analyses
  deriving DecidableEq

namespace FlowTable

/-- The keys of a table. -/
abbrev Key : FlowTable → Type
  | steps => FuncId
  | closures => FuncId × Node
  | analyses => FuncId

/-- The values of a table. -/
abbrev Value : FlowTable → Type
  | steps => Digraph Node
  | closures => List Node
  | analyses => Analyses

instance (n : FlowTable) : DecidableEq n.Key :=
  match n with
  | steps => inferInstanceAs (DecidableEq FuncId)
  | closures => inferInstanceAs (DecidableEq (FuncId × Node))
  | analyses => inferInstanceAs (DecidableEq FuncId)

instance (n : FlowTable) : Coded n.Key :=
  match n with
  | steps => inferInstanceAs (Coded FuncId)
  | closures => inferInstanceAs (Coded (FuncId × Node))
  | analyses => inferInstanceAs (Coded FuncId)

/-- Where a table is kept. -/
def slot : (n : FlowTable) → Slot FlowTables n.Key n.Value
  | steps => FlowTables.stepSlot
  | closures => FlowTables.closureSlot
  | analyses => FlowTables.analysisSlot

variable {n n' : FlowTable}

theorem get_set (n : FlowTable) (t : FlowTables) (m : Memo n.Key n.Value) :
    n.slot.get (n.slot.set t m) = m := by
  cases n <;> rfl

theorem get_set_of_ne (h : n ≠ n') (t : FlowTables) (m : Memo n'.Key n'.Value) :
    n.slot.get (n'.slot.set t m) = n.slot.get t := by
  cases n <;> cases n'
  case steps.steps | closures.closures | analyses.analyses => exact absurd rfl h
  all_goals rfl

end FlowTable

/-! ### Calls -/

namespace Query

variable {α β : Type} {q : Query α} {t : FlowTables} {log : List FlowTable}

/-- From the tables `t` on, the query calls on the tables `log`, in this order. A
    computation that is run on a miss does not call on the table it is run for. -/
inductive Calls : {α : Type} → Query α → FlowTables → List FlowTable → Prop where
  | pure {α : Type} (v : α) (t : FlowTables) : Calls (pure v) t []
  | bind {α β : Type} {q : Query α} {next : α → Query β} {t : FlowTables}
      {log log' : List FlowTable} (first : Calls q t log)
      (rest : Calls (next (q t).1) (q t).2 log') : Calls (q >>= next) t (log ++ log')
  | hit {n : FlowTable} {k : n.Key} {v : n.Value} {t : FlowTables} (compute : Query n.Value)
      (found : (n.slot.get t).find? k = some v) : Calls (n.slot.cached k compute) t [n]
  | miss {n : FlowTable} {k : n.Key} {t : FlowTables} {compute : Query n.Value}
      {log : List FlowTable} (missing : (n.slot.get t).find? k = none)
      (computed : Calls compute (n.slot.set t (n.slot.get t).countMiss) log) (apart : n ∉ log) :
      Calls (n.slot.cached k compute) t (n :: log)

/-- **The counts tell the calls**, and the entries the misses. -/
theorem Calls.grew (h : Calls q t log) (n : FlowTable) :
    (n.slot.get t).Grew (log.count n) (n.slot.get (q t).2) := by
  induction h with
  | pure v t => exact .refl _
  | bind _ _ ih ih' =>
    rw [List.count_append]
    exact ih.trans ih'
  | @hit n' k v t compute found =>
    rw [Slot.cached_of_hit compute found]
    by_cases hn : n = n'
    · subst hn
      rw [FlowTable.get_set, List.count_singleton_self]
      exact Memo.grew_countHit _
    · rw [FlowTable.get_set_of_ne hn, List.count_cons_of_ne (Ne.symm hn)]
      exact .refl _
  | @miss n' k t compute log missing _ apart ih =>
    rw [Slot.cached_of_miss compute missing]
    by_cases hn : n = n'
    · -- The computation left the table alone, so the key is still missing.
      subst hn
      have hidle := ih.idle (List.count_eq_zero.mpr apart)
      rw [FlowTable.get_set] at hidle
      rw [FlowTable.get_set, hidle, List.count_cons_self, List.count_eq_zero.mpr apart]
      exact Memo.grew_store _ missing
    · rw [FlowTable.get_set_of_ne hn] at ih
      rw [FlowTable.get_set_of_ne hn, List.count_cons_of_ne (Ne.symm hn)]
      exact ih

/-- A value that is computed without tables takes one call. -/
theorem calls_cached_value {n : FlowTable} (k : n.Key) (v : n.Value) (t : FlowTables) :
    Calls (n.slot.cached k (Pure.pure v)) t [n] := by
  cases hfind : (n.slot.get t).find? k with
  | some w => exact .hit _ hfind
  | none => exact .miss hfind (.pure v _) List.not_mem_nil

/-- The calls of the query can be told, whatever tables it starts from. -/
def Traced (q : Query α) : Prop := ∀ t, ∃ log, q.Calls t log

theorem traced_pure (v : α) : Traced (pure v) := fun t => ⟨[], .pure v t⟩

theorem Traced.bind {next : α → Query β} (h : q.Traced) (hnext : ∀ v, (next v).Traced) :
    Traced (q >>= next) := by
  intro t
  obtain ⟨log, hcalls⟩ := h t
  obtain ⟨log', hcalls'⟩ := hnext (q t).1 (q t).2
  exact ⟨log ++ log', hcalls.bind hcalls'⟩

theorem Traced.map (h : q.Traced) (f : α → β) : Traced (do return f (← q)) :=
  h.bind fun v => traced_pure (f v)

theorem traced_mapM {q : α → Query β} (h : ∀ a, (q a).Traced) (l : List α) :
    Traced (l.mapM q) := by
  induction l with
  | nil => exact traced_pure []
  | cons a rest ih =>
    rw [List.mapM_cons]
    exact (h a).bind fun v => ih.map fun vs => v :: vs

end Query

/-! ### The calls of each query -/

namespace FlowGraph

open Query

variable (g : FlowGraph)

theorem calls_cachedSteps (f : FuncId) (t : FlowTables) : (g.cachedSteps f).Calls t [.steps] :=
  calls_cached_value (n := .steps) f (g.steps f) t

theorem traced_cachedSteps (f : FuncId) : (g.cachedSteps f).Traced :=
  fun t => ⟨_, g.calls_cachedSteps f t⟩

theorem traced_cachedAnalyses (function : Function) (f : FuncId) :
    (cachedAnalyses function f).Traced :=
  fun t => ⟨_, calls_cached_value (n := .analyses) f (Analyses.of function) t⟩

theorem traced_successors (n : Node) : (g.successors n).Traced := by
  unfold successors
  cases g.enclosing? n with
  | none => exact traced_pure []
  | some f => exact (g.traced_cachedSteps f).map fun steps => steps.succ n

theorem traced_predecessors (n : Node) : (g.predecessors n).Traced := by
  unfold predecessors
  cases g.enclosing? n with
  | none => exact traced_pure []
  | some f => exact (g.traced_cachedSteps f).map fun steps => steps.pred n

theorem traced_reachFrom (n : Node) : (g.reachFrom n).Traced := by
  unfold reachFrom
  cases g.enclosing? n with
  | none => exact traced_pure [n]
  | some f =>
    intro t
    cases hfind : t.closures.find? (f, n) with
    | some l => exact ⟨_, .hit (n := .closures) _ hfind⟩
    | none =>
      -- The closure is computed from the steps, which are in another table.
      have hcompute : ∀ t', Calls (do return ((← g.cachedSteps f).reach n).members) t' [.steps] :=
        fun t' => (g.calls_cachedSteps f t').bind (.pure _ _)
      exact ⟨_, .miss (n := .closures) hfind (hcompute _) (by decide)⟩

theorem traced_flows (a b : Node) : (g.flows a b).Traced := by
  unfold flows
  split
  · exact traced_pure true
  · split
    · split
      · exact (g.traced_reachFrom a).map fun l => l.contains b
      · exact traced_pure false
    · exact traced_pure false

theorem traced_exprFlows (a b : ExprId) : (g.exprFlows a b).Traced := by
  unfold exprFlows
  split
  · exact g.traced_flows _ _
  · exact traced_pure false

theorem traced_guardedIn (f : FuncId) (guard : Guard) : (g.guardedIn f guard).Traced := by
  unfold guardedIn
  cases g.program.function? f with
  | none => exact traced_pure []
  | some function =>
    exact (traced_cachedAnalyses function f).map fun a => (guard.guardedIn function a).map Node.mk

theorem traced_guarded (guard : Guard) : (g.guarded guard).Traced :=
  (traced_mapM (fun f => g.traced_guardedIn f guard) g.program.functions.keys).map
    fun parts => Visited.distinct parts.flatten

theorem traced_isGuarded (n : Node) (guard : Guard) : (g.isGuarded n guard).Traced := by
  unfold isGuarded
  split
  · split
    · exact (traced_cachedAnalyses _ _).map fun a => guard.isGuarded _ a _
    · exact traced_pure false
  · exact traced_pure false

theorem traced_guardedByAny (guards : List Guard) : (g.guardedByAny guards).Traced :=
  (traced_mapM g.traced_guarded guards).map fun parts => Visited.distinct parts.flatten

theorem traced_isGuardedByAny (guards : List Guard) (n : Node) :
    (g.isGuardedByAny guards n).Traced := by
  induction guards with
  | nil => exact traced_pure false
  | cons guard rest ih =>
    unfold isGuardedByAny
    refine (g.traced_isGuarded n guard).bind fun covered => ?_
    cases covered with
    | true => exact traced_pure true
    | false => exact ih

/-! ### Requests -/

/-- What can be asked of a flow graph. -/
inductive Request where
  /-- Does data move from one node to another in one step? -/
  | isStep (a b : Node)
  /-- A question whose answer rests on whole functions. -/
  | about (question : Question)

/-- An answer of a flow graph. -/
inductive Reply where
  /-- Some nodes. -/
  | nodes (value : List Node)
  /-- Yes or no. -/
  | flag (value : Bool)

/-- Answer a request. -/
def reply : Request → Query Reply
  | .isStep a b => pure (.flag (g.isStep a b))
  | .about (.successors n) => do return .nodes (← g.successors n)
  | .about (.predecessors n) => do return .nodes (← g.predecessors n)
  | .about (.reachFrom n) => do return .nodes (← g.reachFrom n)
  | .about (.flows a b) => do return .flag (← g.flows a b)
  | .about (.exprFlows a b) => do return .flag (← g.exprFlows a b)
  | .about (.guardedIn f guard) => do return .nodes (← g.guardedIn f guard)
  | .about (.guarded guard) => do return .nodes (← g.guarded guard)
  | .about (.isGuarded n guard) => do return .flag (← g.isGuarded n guard)
  | .about (.guardedByAny guards) => do return .nodes (← g.guardedByAny guards)
  | .about (.isGuardedByAny guards n) => do return .flag (← g.isGuardedByAny guards n)

/-- A request is answered from right tables as it is from empty ones. -/
theorem yields_reply (request : Request) : (g.reply request).Yields g (g.reply request).answer := by
  suffices h : ∃ v, (g.reply request).Yields g v by
    obtain ⟨v, hv⟩ := h
    have hanswer : (g.reply request).answer = v := (hv _ (FlowTables.faithful_empty g)).1
    rw [hanswer]
    exact hv
  cases request with
  | isStep a b => exact ⟨_, yields_pure _⟩
  | about question =>
    cases question with
    | successors n => exact ⟨_, (g.yields_successors n).map Reply.nodes⟩
    | predecessors n => exact ⟨_, (g.yields_predecessors n).map Reply.nodes⟩
    | reachFrom n => exact ⟨_, (g.yields_reachFrom n).map Reply.nodes⟩
    | flows a b => exact ⟨_, (g.yields_flows a b).map Reply.flag⟩
    | exprFlows a b => exact ⟨_, (g.yields_exprFlows a b).map Reply.flag⟩
    | guardedIn f guard => exact ⟨_, (g.yields_guardedIn f guard).map Reply.nodes⟩
    | guarded guard => exact ⟨_, (g.yields_guarded guard).map Reply.nodes⟩
    | isGuarded n guard => exact ⟨_, (g.yields_isGuarded n guard).map Reply.flag⟩
    | guardedByAny guards => exact ⟨_, (g.yields_guardedByAny guards).map Reply.nodes⟩
    | isGuardedByAny guards n => exact ⟨_, (g.yields_isGuardedByAny guards n).map Reply.flag⟩

theorem traced_reply (request : Request) : (g.reply request).Traced := by
  cases request with
  | isStep a b => exact traced_pure _
  | about question =>
    cases question with
    | successors n => exact (g.traced_successors n).map Reply.nodes
    | predecessors n => exact (g.traced_predecessors n).map Reply.nodes
    | reachFrom n => exact (g.traced_reachFrom n).map Reply.nodes
    | flows a b => exact (g.traced_flows a b).map Reply.flag
    | exprFlows a b => exact (g.traced_exprFlows a b).map Reply.flag
    | guardedIn f guard => exact (g.traced_guardedIn f guard).map Reply.nodes
    | guarded guard => exact (g.traced_guarded guard).map Reply.nodes
    | isGuarded n guard => exact (g.traced_isGuarded n guard).map Reply.flag
    | guardedByAny guards => exact (g.traced_guardedByAny guards).map Reply.nodes
    | isGuardedByAny guards n => exact (g.traced_isGuardedByAny guards n).map Reply.flag

/-- **Memoization is invisible.** Whatever is asked of a new flow graph, in any
    order and with repeats, every reply is the one that a graph gives if it is
    asked nothing else. Afterwards every entry is what would be computed again,
    every table has as many entries as it had misses, and its hits and misses
    are the calls that were made on it. -/
theorem replies_as_if_fresh (asked : List Request) :
    ((asked.mapM g.reply) .empty).1 = asked.map (fun request => (g.reply request).answer) ∧
    ((asked.mapM g.reply) .empty).2.Faithful g ∧
    (∃ log, Calls (asked.mapM g.reply) .empty log) ∧
    ∀ log, Calls (asked.mapM g.reply) .empty log → ∀ n : FlowTable,
      (n.slot.get ((asked.mapM g.reply) .empty).2).size =
        (n.slot.get ((asked.mapM g.reply) .empty).2).misses ∧
      (n.slot.get ((asked.mapM g.reply) .empty).2).hits +
        (n.slot.get ((asked.mapM g.reply) .empty).2).misses = log.count n := by
  obtain ⟨hreplies, hfaithful⟩ :=
    yields_mapM g.yields_reply asked .empty (FlowTables.faithful_empty g)
  refine ⟨hreplies, hfaithful, traced_mapM g.traced_reply asked .empty, ?_⟩
  intro log hcalls n
  have hgrew := hcalls.grew n
  have hempty : n.slot.get .empty = Memo.empty := by cases n <;> rfl
  rw [hempty] at hgrew
  have hsized := hgrew.sized
  have hlookups := hgrew.lookups
  simp only [Memo.empty, Memo.size, OrderedMap.size, OrderedMap.empty, List.length_nil] at *
  omega

/-- Requests about the program with the loop. -/
def loopRequests : List Request :=
  [.about (.reachFrom ⟨⟨0⟩⟩), .isStep ⟨⟨0⟩⟩ ⟨⟨1⟩⟩, .about (.flows ⟨⟨0⟩⟩ ⟨⟨2⟩⟩),
    .about (.successors ⟨⟨0⟩⟩)]

/-- Of two requests for one closure, the first computes it from the steps and the
    second finds it; the steps are found when they are asked for again. -/
theorem loop_calls_counted :
    ∃ log, Calls (loopRequests.mapM (reply ⟨Program.loop, .standard, none⟩)) .empty log ∧
      log.count .closures = 2 ∧ log.count .steps = 2 ∧ log.count .analyses = 0 := by
  obtain ⟨-, -, ⟨log, hcalls⟩, hcounts⟩ :=
    replies_as_if_fresh ⟨Program.loop, .standard, none⟩ loopRequests
  refine ⟨log, hcalls, ?_⟩
  rw [← (hcounts log hcalls .closures).2, ← (hcounts log hcalls .steps).2,
    ← (hcounts log hcalls .analyses).2]
  decide +kernel

end FlowGraph

end SsaFlow
