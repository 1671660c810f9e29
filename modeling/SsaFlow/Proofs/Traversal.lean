import SsaFlow.Data.Digraph
import SsaFlow.Proofs.Paths

/-! # What traversals find

    The worklist and the depth-first walk over a finite graph find the same
    nodes: those at the end of a path that keeps away from what was seen before.

    * `mem_explore_iff`, `mem_reach_iff`: the worklist.
    * `walk`: the depth-first walk as a recursion, without a stack, and
      `postorder_eq_walk`: the stack does the same.
    * `mem_walk_iff`, `mem_postorder_iff`: what the walk enters.
    * `nodup_postorder`: the walk leaves no node twice.
-/

namespace SsaFlow

/-- What a list of pairs has under `a`. -/
theorem mem_map_snd_filter_iff {α β : Type} [DecidableEq α] (l : List (α × β)) (a : α) (b : β) :
    b ∈ (l.filter fun e => e.1 = a).map Prod.snd ↔ (a, b) ∈ l := by
  constructor
  · intro h
    obtain ⟨e, he, rfl⟩ := List.mem_map.mp h
    obtain ⟨hmem, hfst⟩ := List.mem_filter.mp he
    have heq : e.1 = a := by simpa using hfst
    rw [← heq]
    exact hmem
  · intro h
    exact List.mem_map.mpr ⟨(a, b), List.mem_filter.mpr ⟨h, by simp⟩, rfl⟩

namespace Digraph

variable {α : Type} [DecidableEq α] [Coded α]

/-- There is an edge from `a` to `b`. -/
def Edge (g : Digraph α) (a b : α) : Prop := (a, b) ∈ g.edges

theorem mem_succ_iff (g : Digraph α) (a b : α) : b ∈ g.succ a ↔ g.Edge a b := by
  rw [succ_eq]
  exact mem_map_snd_filter_iff g.edges a b

theorem mem_pred_iff (g : Digraph α) (a b : α) : a ∈ g.pred b ↔ g.Edge a b := by
  rw [pred_eq]
  unfold Edge
  constructor
  · intro h
    obtain ⟨e, he, rfl⟩ := List.mem_map.mp h
    obtain ⟨hmem, hsnd⟩ := List.mem_filter.mp he
    have heq : e.2 = b := by simpa using hsnd
    rw [← heq]
    exact hmem
  · intro h
    exact List.mem_map.mpr ⟨(a, b), List.mem_filter.mpr ⟨h, by simp⟩, rfl⟩

/-- Working off a node that has not been seen: the node itself, and whatever can
    be reached from its successors without coming back. -/
theorem avoiding_iff_succ (g : Digraph α) {seen : List α} {a : α} (ha : a ∉ seen) (x : α) :
    Avoiding g.Edge seen a x ↔ x = a ∨ ∃ b ∈ g.succ a, Avoiding g.Edge (a :: seen) b x := by
  rw [avoiding_iff_enter ha]
  simp only [mem_succ_iff]

/-! ### The worklist -/

/-- The worklist adds what can be reached from its nodes along paths that keep
    away from what was seen before. -/
theorem mem_explore_iff (g : Digraph α) (seen : Visited α) (todo : List α) (x : α) :
    x ∈ (g.explore seen todo).members ↔
      x ∈ seen.members ∨ ∃ a ∈ todo, Avoiding g.Edge seen.members a x := by
  induction seen, todo using explore.induct g with
  | case1 seen =>
    rw [explore]
    simp
  | case2 seen a rest hseen ih =>
    -- Nothing leads on from a node that was seen before.
    have ha : a ∈ seen.members := (seen.contains_iff a).mp hseen
    rw [explore, dif_pos hseen, ih]
    constructor
    · intro h
      rcases h with hx | ⟨b, hb, hbx⟩
      · exact Or.inl hx
      · exact Or.inr ⟨b, List.mem_cons_of_mem a hb, hbx⟩
    · intro h
      rcases h with hx | ⟨b, hb, hbx⟩
      · exact Or.inl hx
      · rcases List.mem_cons.mp hb with rfl | hb'
        · exact absurd ha hbx.start_not_mem
        · exact Or.inr ⟨b, hb', hbx⟩
  | case3 seen a rest hseen ih =>
    have ha : a ∉ seen.members := fun hm => hseen ((seen.contains_iff a).mpr hm)
    rw [explore, dif_neg hseen, ih, Visited.members_add]
    have henter := g.avoiding_iff_succ ha x
    constructor
    · intro h
      rcases h with hx | ⟨b, hb, hbx⟩
      · rcases List.mem_cons.mp hx with rfl | hx'
        · exact Or.inr ⟨x, List.mem_cons_self, Avoiding.refl ha⟩
        · exact Or.inl hx'
      · rcases List.mem_append.mp hb with hsucc | hrest
        · exact Or.inr ⟨a, List.mem_cons_self, henter.mpr (Or.inr ⟨b, hsucc, hbx⟩)⟩
        · exact Or.inr ⟨b, List.mem_cons_of_mem a hrest,
            hbx.anti fun y hy => List.mem_cons_of_mem a hy⟩
    · -- A path from the node that is worked off goes on from one of its successors.
      have hfrom : Avoiding g.Edge seen.members a x →
          x ∈ a :: seen.members ∨
            ∃ b ∈ g.succ a ++ rest, Avoiding g.Edge (a :: seen.members) b x := by
        intro hax
        rcases henter.mp hax with rfl | ⟨b, hsucc, hbx⟩
        · exact Or.inl List.mem_cons_self
        · exact Or.inr ⟨b, List.mem_append_left rest hsucc, hbx⟩
      intro h
      rcases h with hx | ⟨b, hb, hbx⟩
      · exact Or.inl (List.mem_cons_of_mem a hx)
      · rcases List.mem_cons.mp hb with rfl | hb'
        · exact hfrom hbx
        · rcases hbx.cons_or_from a with hfar | hax
          · exact Or.inr ⟨b, List.mem_append_right _ hb', hfar⟩
          · exact hfrom hax

/-- The nodes that can be reached from `a` are those at the end of a path. -/
theorem mem_reach_iff (g : Digraph α) (a x : α) :
    x ∈ (g.reach a).members ↔ ∃ es, Path g.Edge a x es := by
  unfold reach
  rw [mem_explore_iff]
  simp [avoiding_nil_iff]

/-! ### The depth-first walk -/

/-- Walk from each node of `todo` in turn, never entering a node of `seen`: the
    nodes that were entered, in the order in which they are left. -/
def walk (g : Digraph α) (seen todo : List α) : List α :=
  match todo with
  | [] => []
  | a :: rest =>
    if _h : a ∈ seen then g.walk seen rest
    else
      let left := g.walk (a :: seen) (g.succ a) ++ [a]
      left ++ g.walk (left ++ seen) rest
termination_by (g.pending seen, todo.length)
decreasing_by
  · exact Prod.Lex.right _ (by simp)
  · exact g.lex_of_enter _h fun hs => by simp [hs]
  · exact g.lex_of_subset (fun b hb => List.mem_append_right _ hb) (by simp)

/-- The walk need not be sent to nodes that were seen before. -/
theorem walk_filter (g : Digraph α) (seen todo : List α) {before : List α}
    (h : ∀ a ∈ before, a ∈ seen) :
    g.walk seen (todo.filter fun a => a ∉ before) = g.walk seen todo := by
  induction seen, todo using walk.induct g with
  | case1 seen => rfl
  | case2 seen a rest hseen ih =>
    rw [walk, dif_pos hseen]
    by_cases ha : a ∈ before
    · rw [List.filter_cons_of_neg (by simpa using ha)]
      exact ih h
    · rw [List.filter_cons_of_pos (by simpa using ha), walk, dif_pos hseen]
      exact ih h
  | case3 seen a rest hseen left _ ihrest =>
    have ha : a ∉ before := fun hm => hseen (h a hm)
    have hlater : ∀ b ∈ before, b ∈ left ++ seen := fun b hb => List.mem_append_right left (h b hb)
    rw [List.filter_cons_of_pos (by simpa using ha), walk, dif_neg hseen, walk, dif_neg hseen]
    show left ++ g.walk (left ++ seen) _ = left ++ g.walk (left ++ seen) rest
    rw [ihrest hlater]

/-- **The stack does the walk**: nodes that wait on top of the stack are worked off
    as the walk works off its list. Whatever lies below them comes after that, with
    the nodes that the walk entered seen. -/
theorem unwind_enter (g : Digraph α) (seen todo : List α) (v : Visited α)
    (hv : ∀ x, x ∈ v.members ↔ x ∈ seen) (below : List (Visit α)) :
    ∃ v' : Visited α, (∀ x, x ∈ v'.members ↔ x ∈ g.walk seen todo ++ seen) ∧
      g.unwind v (todo.map .enter ++ below) = g.walk seen todo ++ g.unwind v' below := by
  match todo with
  | [] =>
    rw [walk]
    exact ⟨v, hv, rfl⟩
  | a :: rest =>
    rw [List.map_cons, List.cons_append, unwind]
    by_cases ha : a ∈ seen
    · rw [dif_pos ((v.contains_iff a).mpr ((hv a).mpr ha)), walk, dif_pos ha]
      exact g.unwind_enter seen rest v hv below
    · have hfar : ¬ v.contains a = true := fun hm => ha ((hv a).mp ((v.contains_iff a).mp hm))
      rw [dif_neg hfar, walk, dif_neg ha]
      have hadd : ∀ x, x ∈ (v.add a).members ↔ x ∈ a :: seen := by
        intro x
        rw [Visited.members_add, List.mem_cons, List.mem_cons, hv]
      -- What is put on the stack is what the walk would not pass over at once.
      have hnext : ((g.succ a).filter fun b => !(v.add a).contains b) =
          (g.succ a).filter fun b => b ∉ a :: seen := by
        refine List.filter_congr fun b _ => ?_
        rw [Bool.eq_iff_iff, Bool.not_eq_true', ← Bool.not_eq_true, Visited.contains_iff, hadd,
          decide_eq_true_eq]
      -- The successors, then the visit that leaves `a`, then the rest of the list.
      obtain ⟨v₁, hv₁, hsucc⟩ := g.unwind_enter (a :: seen)
        ((g.succ a).filter fun b => b ∉ a :: seen) (v.add a) hadd
        (.leave a :: (rest.map .enter ++ below))
      rw [g.walk_filter (a :: seen) (g.succ a) fun _ hb => hb] at hv₁ hsucc
      have hleft : ∀ x, x ∈ v₁.members ↔ x ∈ (g.walk (a :: seen) (g.succ a) ++ [a]) ++ seen := by
        intro x
        rw [hv₁, List.append_assoc, List.singleton_append]
      obtain ⟨v₂, hv₂, hrest⟩ := g.unwind_enter _ rest v₁ hleft below
      refine ⟨v₂, ?_, ?_⟩
      · intro x
        rw [hv₂]
        simp only [List.mem_append]
        exact or_left_comm.trans or_assoc.symm
      · simp only [hnext]
        rw [hsucc, unwind, hrest]
        simp only [List.append_assoc, List.cons_append, List.nil_append]
termination_by (g.pending seen, todo.length)
decreasing_by
  · exact Prod.Lex.right _ (by simp)
  · exact g.lex_of_enter ha fun hs => by simp [hs]
  · exact g.lex_of_subset (fun b hb => List.mem_append_right _ hb) (by simp)

/-- The stack lists the nodes as the walk does. -/
theorem postorder_eq_walk (g : Digraph α) (a : α) : g.postorder a = g.walk [] [a] := by
  obtain ⟨v, _, heq⟩ := g.unwind_enter [] [a] .none (fun _ => Iff.rfl) []
  unfold postorder
  rw [List.append_nil] at heq
  rw [← List.map_singleton, heq, unwind, List.append_nil]

/-- The walk enters the same nodes as the worklist would. -/
theorem mem_walk_iff (g : Digraph α) (seen todo : List α) (x : α) :
    x ∈ g.walk seen todo ↔ ∃ a ∈ todo, Avoiding g.Edge seen a x := by
  induction seen, todo using walk.induct g generalizing x with
  | case1 seen =>
    rw [walk]
    simp
  | case2 seen a rest hseen ih =>
    rw [walk, dif_pos hseen, ih]
    constructor
    · intro h
      obtain ⟨b, hb, hbx⟩ := h
      exact ⟨b, List.mem_cons_of_mem a hb, hbx⟩
    · intro h
      obtain ⟨b, hb, hbx⟩ := h
      rcases List.mem_cons.mp hb with rfl | hb'
      · exact absurd hseen hbx.start_not_mem
      · exact ⟨b, hb', hbx⟩
  | case3 seen a rest hseen left ihsucc ihrest =>
    -- What the walk from `a` leaves is what can be reached from `a`.
    have hleft : ∀ y, y ∈ left ↔ Avoiding g.Edge seen a y := by
      intro y
      rw [g.avoiding_iff_succ hseen, List.mem_append, ihsucc, List.mem_singleton]
      exact Or.comm
    rw [walk, dif_neg hseen]
    show x ∈ left ++ g.walk (left ++ seen) rest ↔ _
    rw [List.mem_append, hleft, ihrest]
    constructor
    · intro h
      rcases h with hax | ⟨b, hb, hbx⟩
      · exact ⟨a, List.mem_cons_self, hax⟩
      · exact ⟨b, List.mem_cons_of_mem a hb, hbx.anti fun y hy => List.mem_append_right left hy⟩
    · intro h
      obtain ⟨b, hb, es, hes, hfar⟩ := h
      by_cases hmeet : ∃ y ∈ Path.places b es, y ∈ left
      · -- The path meets what was left already, so its end was left as well.
        left
        obtain ⟨y, hy, hyleft⟩ := hmeet
        exact ((hleft y).mp hyleft).trans (Avoiding.of_mem_places hes hfar hy)
      · right
        have hfar' : Avoiding g.Edge (left ++ seen) b x := by
          refine ⟨es, hes, ?_⟩
          intro y hy hm
          rcases List.mem_append.mp hm with hl | hs
          · exact hmeet ⟨y, hy, hl⟩
          · exact hfar y hy hs
        rcases List.mem_cons.mp hb with rfl | hb'
        · exact absurd ((hleft b).mpr (Avoiding.refl hseen))
            fun hl => hfar'.start_not_mem (List.mem_append_left seen hl)
        · exact ⟨b, hb', hfar'⟩

/-- The postorder from `a` lists what can be reached from `a`. -/
theorem mem_postorder_iff (g : Digraph α) (a x : α) :
    x ∈ g.postorder a ↔ ∃ es, Path g.Edge a x es := by
  rw [postorder_eq_walk, mem_walk_iff]
  simp [avoiding_nil_iff]

/-- The walk leaves no node twice. -/
theorem nodup_walk (g : Digraph α) (seen todo : List α) : (g.walk seen todo).Nodup := by
  induction seen, todo using walk.induct g with
  | case1 seen =>
    rw [walk]
    exact List.nodup_nil
  | case2 seen a rest hseen ih =>
    rw [walk, dif_pos hseen]
    exact ih
  | case3 seen a rest hseen left ihsucc ihrest =>
    rw [walk, dif_neg hseen]
    show (left ++ g.walk (left ++ seen) rest).Nodup
    have hleft : left.Nodup := by
      refine List.nodup_append.mpr ⟨ihsucc, by simp, ?_⟩
      intro y hy z hz heq
      subst heq
      -- The walk from the successors keeps away from `a`.
      obtain ⟨b, _, hby⟩ := (g.mem_walk_iff _ _ y).mp hy
      have hya : y = a := List.mem_singleton.mp hz
      exact hby.end_not_mem (hya ▸ List.mem_cons_self)
    refine List.nodup_append.mpr ⟨hleft, ihrest, ?_⟩
    intro y hy z hz heq
    subst heq
    obtain ⟨b, _, hby⟩ := (g.mem_walk_iff _ _ y).mp hz
    exact hby.end_not_mem (List.mem_append_left seen hy)

theorem nodup_postorder (g : Digraph α) (a : α) : (g.postorder a).Nodup := by
  rw [postorder_eq_walk]
  exact g.nodup_walk [] [a]

/-- The walk leaves last where it starts. -/
theorem getLast?_postorder (g : Digraph α) (a : α) : (g.postorder a).getLast? = some a := by
  have hdone : ∀ seen, g.walk seen [] = [] := fun seen => by rw [walk]
  rw [postorder_eq_walk, walk, dif_neg List.not_mem_nil]
  simp only [hdone, List.append_nil]
  exact List.getLast?_concat

end Digraph

end SsaFlow
