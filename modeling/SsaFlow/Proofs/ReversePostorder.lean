import SsaFlow.Proofs.Dominance

/-! # Reverse postorder

    A depth-first walk leaves a node before the nodes through which it came
    there. So in the reverse order a block comes after the blocks that control
    must pass to get to it, and only edges that close a cycle lead backwards.

    * `Digraph.exists_path_left_later`: the path along which the walk came.
    * `Digraph.left_before_or_path`: where an edge leads, seen from its start.
    * `Function.StrictlyDominates`: another block that is on every path.
    * `Function.sublist_reversePostorder`: it comes first.
    * `ControlFlow.reversePostorder_follows_control`: all that the order says
      about control.
-/

namespace SsaFlow

/-- The walk comes to each node along a path whose other nodes it leaves later. -/
theorem Digraph.exists_path_left_later {α : Type} [DecidableEq α] [Coded α] (g : Digraph α)
    (seen todo : List α) {x : α} (hx : x ∈ g.walk seen todo) :
    ∃ s ∈ todo, ∃ es, Path g.Edge s x es ∧
      ∀ y ∈ Path.places s es, y = x ∨ [x, y].Sublist (g.walk seen todo) := by
  induction seen, todo using walk.induct g with
  | case1 seen =>
    rw [walk] at hx
    cases hx
  | case2 seen a rest hseen ih =>
    rw [walk, dif_pos hseen] at hx ⊢
    obtain ⟨s, hs, hpath⟩ := ih hx
    exact ⟨s, List.mem_cons_of_mem a hs, hpath⟩
  | case3 seen a rest hseen left ihsucc ihrest =>
    rw [walk, dif_neg hseen] at hx ⊢
    show ∃ s ∈ a :: rest, ∃ es, Path g.Edge s x es ∧
      ∀ y ∈ Path.places s es, y = x ∨ [x, y].Sublist (left ++ g.walk (left ++ seen) rest)
    rcases List.mem_append.mp hx with hleft | hright
    · refine ⟨a, List.mem_cons_self, ?_⟩
      rcases List.mem_append.mp hleft with hbelow | hlast
      · -- The walk came through `a`, which it leaves after all that is below.
        obtain ⟨s, hs, es, hpath, hlater⟩ := ihsucc hbelow
        refine ⟨_, .step ((g.mem_succ_iff a s).mp hs) hpath, ?_⟩
        intro y hy
        rcases Path.mem_places_cons.mp hy with rfl | hy'
        · have hpair : [x, y].Sublist left :=
            (List.singleton_sublist.mpr hbelow).append (List.Sublist.refl [y])
          exact .inr (hpair.trans (List.sublist_append_left _ _))
        · rcases hlater y hy' with heq | hpair
          · exact .inl heq
          · have hin : [x, y].Sublist left := hpair.trans (List.sublist_append_left _ _)
            exact .inr (hin.trans (List.sublist_append_left _ _))
      · obtain rfl : x = a := List.mem_singleton.mp hlast
        refine ⟨[], .stay x, ?_⟩
        intro y hy
        exact .inl (List.mem_singleton.mp hy)
    · obtain ⟨s, hs, es, hpath, hlater⟩ := ihrest hright
      refine ⟨s, List.mem_cons_of_mem a hs, es, hpath, ?_⟩
      intro y hy
      rcases hlater y hy with heq | hpair
      · exact .inl heq
      · exact .inr (hpair.trans (List.sublist_append_right _ _))

/-- **Edges and the order of leaving**: from a node that the walk leaves, an edge leads
    to a node that was seen before, to one that the walk has left by then, or to one
    from which there is a way back. -/
theorem Digraph.left_before_or_path {α : Type} [DecidableEq α] [Coded α] (g : Digraph α)
    (seen todo : List α) {u v : α} (hu : u ∈ g.walk seen todo) (hedge : g.Edge u v) :
    v ∈ seen ∨ [v, u].Sublist (g.walk seen todo) ∨ ∃ es, Path g.Edge v u es := by
  induction seen, todo using walk.induct g with
  | case1 seen =>
    rw [walk] at hu
    cases hu
  | case2 seen a rest hseen ih =>
    rw [walk, dif_pos hseen] at hu ⊢
    exact ih hu
  | case3 seen a rest hseen left ihsucc ihrest =>
    rw [walk, dif_neg hseen] at hu ⊢
    show v ∈ seen ∨ [v, u].Sublist (left ++ g.walk (left ++ seen) rest) ∨ _
    rcases List.mem_append.mp hu with hleft | hright
    · have hin : [v, u].Sublist left → [v, u].Sublist (left ++ g.walk (left ++ seen) rest) :=
        fun h => h.trans (List.sublist_append_left _ _)
      rcases List.mem_append.mp hleft with hbelow | hlast
      · rcases ihsucc hbelow with hmet | hpair | hback
        · rcases List.mem_cons.mp hmet with rfl | hmet'
          · -- The edge leads back to the node from which the walk came to `u`.
            obtain ⟨s, hs, es, hpath, _⟩ := (g.mem_walk_iff _ _ u).mp hbelow
            exact .inr (.inr ⟨_, .step ((g.mem_succ_iff v s).mp hs) hpath⟩)
          · exact .inl hmet'
        · exact .inr (.inl (hin (hpair.trans (List.sublist_append_left _ _))))
        · exact .inr (.inr hback)
      · -- All that `a` leads to is met before `a` is left.
        obtain rfl : u = a := List.mem_singleton.mp hlast
        by_cases hmet : v ∈ u :: seen
        · rcases List.mem_cons.mp hmet with rfl | hmet'
          · exact .inr (.inr ⟨[], .stay v⟩)
          · exact .inl hmet'
        · have hbelow : v ∈ g.walk (u :: seen) (g.succ u) :=
            (g.mem_walk_iff _ _ v).mpr ⟨v, (g.mem_succ_iff u v).mpr hedge, .refl hmet⟩
          exact .inr (.inl (hin ((List.singleton_sublist.mpr hbelow).append (List.Sublist.refl [u]))))
    · rcases ihrest hright with hmet | hpair | hback
      · rcases List.mem_append.mp hmet with hleft | hmet'
        · -- `v` is left with the first node of the list, `u` after it.
          exact .inr (.inl ((List.singleton_sublist.mpr hleft).append
            (List.singleton_sublist.mpr hright)))
        · exact .inl hmet'
      · exact .inr (.inl (hpair.trans (List.sublist_append_right _ _)))
      · exact .inr (.inr hback)

namespace Function

/-- Control gets to `b` only through `d`, which is another block. -/
def StrictlyDominates (f : Function) (d b : BlockId) : Prop :=
  d ≠ b ∧ ∀ es, f.ControlPath b es → d ∈ Path.places f.entry es

theorem mem_reversePostorder_iff (f : Function) (b : BlockId) :
    b ∈ (ControlFlow.of f).reversePostorder ↔ f.Reachable b := by
  rw [ControlFlow.mem_reversePostorder_iff, ControlFlow.reaches_of_iff]

/-- A block comes after the blocks that strictly dominate it. -/
theorem sublist_reversePostorder {f : Function} {d b : BlockId} (hb : f.Reachable b)
    (hd : f.StrictlyDominates d b) : [d, b].Sublist (ControlFlow.of f).reversePostorder := by
  have hmem := (f.mem_reversePostorder_iff b).mpr hb
  unfold ControlFlow.reversePostorder at hmem ⊢
  rw [Digraph.postorder_eq_walk] at hmem ⊢
  -- The walk starts at the entry, so it came to `b` through `d`.
  obtain ⟨s, hs, es, hpath, hlater⟩ :=
    (ControlFlow.of f).graph.exists_path_left_later [] [f.entry] (List.mem_reverse.mp hmem)
  obtain rfl := List.mem_singleton.mp hs
  rw [ControlFlow.edge_of] at hpath
  have hpair := (hlater d (hd.2 es hpath)).resolve_left hd.1
  exact List.reverse_sublist.mpr hpair

/-- An edge that does not lead forwards is on a cycle. -/
theorem exists_path_back {f : Function} {u v : BlockId} (hu : f.Reachable u)
    (hedge : f.ControlEdge u v)
    (hback : ¬ [u, v].Sublist (ControlFlow.of f).reversePostorder) :
    ∃ es, Path f.ControlEdge v u es := by
  have hmem := (f.mem_reversePostorder_iff u).mpr hu
  unfold ControlFlow.reversePostorder at hmem hback
  rw [Digraph.postorder_eq_walk] at hmem hback
  rw [← ControlFlow.edge_of] at hedge ⊢
  rcases (ControlFlow.of f).graph.left_before_or_path [] [f.entry] (List.mem_reverse.mp hmem)
    hedge with hnone | hpair | hpath
  · cases hnone
  · exact absurd (List.reverse_sublist.mpr hpair) hback
  · exact hpath

end Function

/-- **Reverse postorder**: the order starts with the entry and lists each block that
    control can get to once, and no other. A block comes after those that strictly
    dominate it. An edge that does not lead forwards is on a cycle, so without
    cycles all edges lead forwards. -/
theorem ControlFlow.reversePostorder_follows_control (f : Function) :
    let flow := ControlFlow.of f
    let order := flow.reversePostorder
    order.head? = some f.entry ∧ order.Nodup ∧
    (∀ b, b ∈ order ↔ f.Reachable b) ∧ (∀ b, b ∈ order ↔ b ∈ flow.reachable) ∧
    (∀ a b, f.Reachable b → f.StrictlyDominates a b → [a, b].Sublist order) ∧
    (∀ u v, f.Reachable u → f.ControlEdge u v → ¬ [u, v].Sublist order →
      ∃ es, Path f.ControlEdge v u es) ∧
    ((∀ b, f.Reachable b → ¬ Relation.TransGen f.ControlEdge b b) →
      ∀ u v, f.Reachable u → f.ControlEdge u v → [u, v].Sublist order) := by
  intro flow order
  refine ⟨flow.head?_reversePostorder, flow.nodup_reversePostorder, f.mem_reversePostorder_iff,
    ?_, ?_, ?_, ?_⟩
  · intro b
    have hreach : b ∈ flow.reachable ↔ f.Reachable b := by
      rw [← ControlFlow.isReachable_of_iff]
      exact (flow.reached.contains_iff b).symm
    rw [hreach]
    exact f.mem_reversePostorder_iff b
  · intro a b hb hab
    exact Function.sublist_reversePostorder hb hab
  · intro u v hu hedge hback
    exact Function.exists_path_back hu hedge hback
  · intro hacyclic u v hu hedge
    by_contra hback
    -- The edge and the way back make a cycle through `u`.
    have hpath := Path.exists_iff_reflTransGen.mp (Function.exists_path_back hu hedge hback)
    exact hacyclic u hu (.head' hedge hpath)

end SsaFlow
