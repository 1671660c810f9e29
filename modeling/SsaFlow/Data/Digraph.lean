import SsaFlow.Data.Table

/-! # Finite directed graphs

    A graph is the list of its edges, and their order is the order of successors
    and predecessors. Two tables make both quick to find.

    * `reach`: the nodes at the end of a path from a node, by a worklist.
    * `postorder`: the same nodes in the order in which a depth-first walk leaves
      them, by a stack of nodes to enter and to leave.

    Both end because the edges out of nodes not seen so far become fewer.
-/

namespace SsaFlow

/-- A finite directed graph. -/
structure Digraph (α : Type) [DecidableEq α] [Coded α] where
  /-- The edges, from a node to a node. -/
  edges : List (α × α)
  /-- The ends of the edges, by where they start. -/
  ends : Table α (List α)
  /-- The starts of the edges, by where they end. -/
  starts : Table α (List α)
  /-- The table of ends is right. -/
  getD_ends : ∀ a, (ends.find? a).getD [] = (edges.filter fun e => e.1 = a).map Prod.snd
  /-- The table of starts is right. -/
  getD_starts : ∀ b, (starts.find? b).getD [] = (edges.filter fun e => e.2 = b).map Prod.fst

namespace Digraph

variable {α : Type} [DecidableEq α] [Coded α]

/-- The graph with the given edges. -/
def ofEdges (edges : List (α × α)) : Digraph α where
  edges := edges
  ends := .groups edges
  starts := .groups (edges.map Prod.swap)
  getD_ends := Table.getD_groups edges
  getD_starts b := by
    rw [Table.getD_groups, List.filter_map, List.map_map]
    rfl

@[simp] theorem edges_ofEdges (edges : List (α × α)) : (ofEdges edges).edges = edges := rfl

/-- The ends of the edges that start at `a`, in order, repeats kept. -/
def succ (g : Digraph α) (a : α) : List α := (g.ends.find? a).getD []

/-- The starts of the edges that end at `b`, in order, repeats kept. -/
def pred (g : Digraph α) (b : α) : List α := (g.starts.find? b).getD []

theorem succ_eq (g : Digraph α) (a : α) :
    g.succ a = (g.edges.filter fun e => e.1 = a).map Prod.snd :=
  g.getD_ends a

theorem pred_eq (g : Digraph α) (b : α) :
    g.pred b = (g.edges.filter fun e => e.2 = b).map Prod.fst :=
  g.getD_starts b

/-! ### The measure of a walk -/

/-- How many edges start at a node that is not in `seen`. -/
def pending (g : Digraph α) (seen : List α) : Nat :=
  (g.edges.filter fun e => e.1 ∉ seen).length

/-- Seeing more nodes leaves no more edges open. -/
theorem pending_anti (g : Digraph α) {seen seen' : List α} (h : ∀ a ∈ seen, a ∈ seen') :
    g.pending seen' ≤ g.pending seen := by
  unfold pending
  rw [← List.countP_eq_length_filter, ← List.countP_eq_length_filter]
  refine List.countP_mono_left ?_
  intro e _ he
  simp only [decide_eq_true_eq] at he ⊢
  exact fun hm => he (h _ hm)

/-- Seeing a node that has an edge leaves fewer edges open. -/
theorem pending_lt (g : Digraph α) {seen : List α} {a : α} (ha : a ∉ seen) (hs : g.succ a ≠ []) :
    g.pending (a :: seen) < g.pending seen := by
  unfold pending
  rw [succ_eq] at hs
  generalize g.edges = l at hs ⊢
  induction l with
  | nil => simp at hs
  | cons e rest ih =>
    have hle : (rest.filter fun e => e.1 ∉ a :: seen).length ≤
        (rest.filter fun e => e.1 ∉ seen).length :=
      pending_anti (ofEdges rest) fun b hb => by simp [hb]
    by_cases he : e.1 = a
    · have h₁ : ¬ e.1 ∉ a :: seen := by simp [he]
      have h₂ : e.1 ∉ seen := by rw [he]; exact ha
      rw [List.filter_cons_of_neg (by simpa using h₁), List.filter_cons_of_pos (by simpa using h₂)]
      simp only [List.length_cons]
      omega
    · have hs' : ((rest.filter fun e => e.1 = a).map Prod.snd) ≠ [] := by
        rwa [List.filter_cons_of_neg (by simpa using he)] at hs
      have ih' := ih hs'
      by_cases hm : e.1 ∈ seen
      · rw [List.filter_cons_of_neg (by simp [hm]), List.filter_cons_of_neg (by simp [hm])]
        exact ih'
      · rw [List.filter_cons_of_pos (by simp [hm, he]), List.filter_cons_of_pos (by simp [hm])]
        simp only [List.length_cons]
        omega

/-- A walk with a shorter list, that has seen no less, is closer to its end. -/
theorem lex_of_subset (g : Digraph α) {seen seen' : List α} {m n : Nat}
    (h : ∀ a ∈ seen, a ∈ seen') (hlt : m < n) :
    Prod.Lex (· < ·) (· < ·) (g.pending seen', m) (g.pending seen, n) := by
  rcases Nat.lt_or_eq_of_le (g.pending_anti h) with hp | hp
  · exact Prod.Lex.left _ _ hp
  · rw [hp]
    exact Prod.Lex.right _ hlt

/-- A walk that enters a new node is closer to its end. -/
theorem lex_of_enter (g : Digraph α) {seen : List α} {a : α} {m n : Nat} (ha : a ∉ seen)
    (h : g.succ a = [] → m < n) :
    Prod.Lex (· < ·) (· < ·) (g.pending (a :: seen), m) (g.pending seen, n) := by
  by_cases hs : g.succ a = []
  · exact g.lex_of_subset (fun b hb => List.mem_cons_of_mem a hb) (h hs)
  · exact Prod.Lex.left _ _ (g.pending_lt ha hs)

end Digraph

/-! ### Reachable nodes -/

/-- Nodes that have been met, as a list and as a table for quick tests. -/
structure Visited (α : Type) [DecidableEq α] [Coded α] where
  /-- The nodes, latest first. -/
  members : List α
  /-- The nodes as keys. -/
  marks : Table α Unit
  /-- The table is right. -/
  marks_iff : ∀ a, marks.contains a = true ↔ a ∈ members

namespace Visited

variable {α : Type} [DecidableEq α] [Coded α]

/-- No node has been met. -/
def none : Visited α := ⟨[], .empty, fun a => by simp [Table.contains]⟩

/-- Whether a node has been met. -/
def contains (v : Visited α) (a : α) : Bool := v.marks.contains a

theorem contains_iff (v : Visited α) (a : α) : v.contains a = true ↔ a ∈ v.members :=
  v.marks_iff a

/-- Meet one more node. -/
def add (v : Visited α) (a : α) : Visited α where
  members := a :: v.members
  marks := v.marks.insert a ()
  marks_iff b := by
    by_cases h : b = a
    · simp [Table.contains, Table.find?_insert, h]
    · have hv := v.marks_iff b
      unfold Table.contains at hv ⊢
      rw [Table.find?_insert, if_neg h, hv, List.mem_cons]
      exact ⟨Or.inr, fun hm => hm.resolve_left h⟩

/-- The nodes of a list, the first one met last. -/
def ofList (l : List α) : Visited α := l.foldr (fun a v => v.add a) none

/-- The members of a list without repeats, the latest new one first. -/
def distinct (l : List α) : List α :=
  (l.foldl (fun v a => if v.contains a then v else v.add a) none).members

@[simp] theorem members_none : (none : Visited α).members = [] := rfl

@[simp] theorem members_add (v : Visited α) (a : α) : (v.add a).members = a :: v.members := rfl

@[simp] theorem members_ofList (l : List α) : (ofList l).members = l := by
  induction l with
  | nil => rfl
  | cons a rest ih => exact congrArg (a :: ·) ih

theorem mem_distinct_iff (l : List α) (x : α) : x ∈ distinct l ↔ x ∈ l := by
  -- What the fold has met is what it started from and what it has read.
  have hrun : ∀ v : Visited α,
      x ∈ (l.foldl (fun v a => if v.contains a then v else v.add a) v).members ↔
        x ∈ v.members ∨ x ∈ l := by
    induction l with
    | nil => simp
    | cons a rest ih =>
      intro v
      rw [List.foldl_cons, ih, List.mem_cons]
      by_cases ha : v.contains a = true
      · have hmem : a ∈ v.members := (v.contains_iff a).mp ha
        rw [if_pos ha]
        constructor
        · intro h
          exact h.imp_right Or.inr
        · intro h
          rcases h with hx | rfl | hx
          · exact Or.inl hx
          · exact Or.inl hmem
          · exact Or.inr hx
      · rw [if_neg ha, members_add, List.mem_cons, or_assoc, or_left_comm]
  unfold distinct
  simpa using hrun none

theorem nodup_distinct (l : List α) : (distinct l).Nodup := by
  unfold distinct
  refine List.foldlRecOn (motive := fun v : Visited α => v.members.Nodup) l _ List.nodup_nil ?_
  intro v hv a _
  split
  · exact hv
  · next ha => exact List.nodup_cons.mpr ⟨fun hm => ha ((v.contains_iff a).mpr hm), hv⟩

end Visited

namespace Digraph

variable {α : Type} [DecidableEq α] [Coded α]

/-- Add to `seen` everything that can be reached from `todo`. -/
def explore (g : Digraph α) (seen : Visited α) (todo : List α) : Visited α :=
  match todo with
  | [] => seen
  | a :: rest =>
    if _h : seen.contains a = true then g.explore seen rest
    else g.explore (seen.add a) (g.succ a ++ rest)
termination_by (g.pending seen.members, todo.length)
decreasing_by
  · exact Prod.Lex.right _ (by simp)
  · exact g.lex_of_enter (fun hm => _h ((seen.contains_iff a).mpr hm)) fun hs => by simp [hs]

/-- The nodes that can be reached from `a`, `a` among them. -/
def reach (g : Digraph α) (a : α) : Visited α := g.explore .none [a]

/-! ### Depth-first order -/

/-- What a depth-first walk still has to do with a node. -/
inductive Visit (α : Type) where
  /-- Go there, unless it has been met by then. -/
  | enter (a : α)
  /-- Leave it, with all behind it done. -/
  | leave (a : α)

/-- How much there is to do: what is entered is left later. -/
def Visit.load : List (Visit α) → Nat
  | [] => 0
  | enter _ :: rest => load rest + 2
  | leave _ :: rest => load rest + 1

/-- Work off a stack of visits: the nodes that are left, in that order. On entering
    a node, its successors that have not been met go on the stack, above the visit
    that leaves it; a node may be waiting there several times. -/
def unwind (g : Digraph α) (seen : Visited α) (stack : List (Visit α)) : List α :=
  match stack with
  | [] => []
  | .leave a :: rest => a :: g.unwind seen rest
  | .enter a :: rest =>
    if _h : seen.contains a = true then g.unwind seen rest
    else
      let next := (g.succ a).filter fun b => !(seen.add a).contains b
      g.unwind (seen.add a) (next.map .enter ++ .leave a :: rest)
termination_by (g.pending seen.members, Visit.load stack)
decreasing_by
  · exact Prod.Lex.right _ (by simp [Visit.load])
  · exact Prod.Lex.right _ (by simp [Visit.load])
  · exact g.lex_of_enter (fun hm => _h ((seen.contains_iff a).mpr hm)) fun hs => by
      simp [hs, Visit.load]

/-- The nodes that can be reached from `a`, in the order in which a depth-first
    walk from `a` leaves them. -/
def postorder (g : Digraph α) (a : α) : List α := g.unwind .none [.enter a]

end Digraph

end SsaFlow
