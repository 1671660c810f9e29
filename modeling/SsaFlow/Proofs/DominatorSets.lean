import Mathlib
import SsaFlow.Analysis.Dominators
import SsaFlow.Proofs.Traversal

/-! # The rounds that find dominators

    Rounds of visits work out the candidates of the blocks anew until a round changes
    nothing. However the edges lie, this leaves for each block exactly the blocks on
    every path to it, and the climbs from parent to parent meet exactly these.

    * `ControlFlow.exists_rounds`: the rounds are finitely many, each but the last
      changes something, and the last leaves the table as it is.
    * `ControlFlow.afterRounds_keeps`: what the start has and every visit keeps holds
      after any number of rounds.
    * `Candidates.Sound`: one such thing. No dominator is taken away.
    * `ControlFlow.mem_dominators_iff`: what is left are the blocks on every
      path. This is where the last round matters: a path along which a candidate
      is not met carries it back to the entry.
    * `ControlFlow.parent?_dominatorTree_eq` and `mem_climb_iff`: the parents and the
      climbs.
-/

namespace SsaFlow

/-- Control can get to `b`. -/
abbrev ControlFlow.Reaches (c : ControlFlow) (b : BlockId) : Prop :=
  ∃ es, Path c.graph.Edge c.entry b es

/-- Control gets to `b` only through `a`. -/
abbrev ControlFlow.OnlyThrough (c : ControlFlow) (a b : BlockId) : Prop :=
  Passes c.graph.Edge c.entry a b

variable {c : ControlFlow} {t : Candidates} {blocks l new : List BlockId} {a b d p : BlockId}
  {s : Visited BlockId} {state : Candidates × Bool}

namespace ControlFlow

theorem mem_reversePostorder_iff (c : ControlFlow) (b : BlockId) :
    b ∈ c.reversePostorder ↔ c.Reaches b := by
  unfold reversePostorder
  rw [List.mem_reverse]
  exact c.graph.mem_postorder_iff c.entry b

theorem nodup_reversePostorder (c : ControlFlow) : c.reversePostorder.Nodup :=
  List.nodup_reverse.mpr (c.graph.nodup_postorder c.entry)

theorem head?_reversePostorder (c : ControlFlow) : c.reversePostorder.head? = some c.entry := by
  unfold reversePostorder
  rw [List.head?_reverse]
  exact c.graph.getLast?_postorder c.entry

/-- The rounds visit all blocks of the order but the first. -/
theorem reversePostorder_eq (c : ControlFlow) : c.reversePostorder = c.entry :: c.others := by
  obtain ⟨rest, hrest⟩ := List.head?_eq_some_iff.mp c.head?_reversePostorder
  have hfresh : c.entry ∉ rest := (List.nodup_cons.mp (hrest ▸ c.nodup_reversePostorder)).1
  have hothers : c.others = rest := by
    unfold others
    rw [hrest, List.filter_cons_of_neg (by simp), List.filter_eq_self]
    intro b hb
    exact decide_eq_true fun heq => hfresh (heq ▸ hb)
  rw [hothers]
  exact hrest

theorem mem_others_iff : b ∈ c.others ↔ c.Reaches b ∧ b ≠ c.entry := by
  unfold others
  rw [List.mem_filter, mem_reversePostorder_iff, decide_eq_true_eq]

end ControlFlow

/-! ### A round that changes nothing -/

/-- Without repeats, candidates agree with a list if they have the same members. -/
theorem Candidates.agrees_iff (hs : t.find? b = some s) (hdistinct : s.members.Nodup)
    (hnew : new.Nodup) : t.agrees b new = true ↔ ∀ a, a ∈ s.members ↔ a ∈ new := by
  have hagrees : t.agrees b new = true ↔
      s.members.length = new.length ∧ ∀ a ∈ new, a ∈ s.members := by
    simp [agrees, hs, Visited.contains_iff]
  rw [hagrees, ← List.perm_ext_iff_of_nodup hdistinct hnew]
  constructor
  · intro h
    obtain ⟨hlen, hsub⟩ := h
    exact ((List.subperm_of_subset hnew hsub).perm_of_length_le (Nat.le_of_eq hlen)).symm
  · intro h
    exact ⟨h.length_eq, fun a ha => h.mem_iff.mpr ha⟩

namespace ControlFlow

/-- A change that was noted stays noted. -/
theorem foldl_visit_changed (c : ControlFlow) (l : List BlockId) (hstate : state.2 = true) :
    (l.foldl c.visit state).2 = true := by
  refine List.foldlRecOn (motive := fun state => state.2 = true) l c.visit hstate ?_
  intro state hchanged b _
  rcases c.visit_cases state b with ⟨heq, -⟩ | ⟨new, -, -, heq⟩
  · rw [heq]
    exact hchanged
  · rw [heq]

/-- If a round changes nothing, all candidates agree with what is worked out anew. -/
theorem agrees_of_round_eq (h : c.round blocks t = (t, false)) (hb : b ∈ blocks)
    (hnew : c.renewed? t b = some new) : t.agrees b new = true := by
  unfold round at h
  induction blocks with
  | nil => cases hb
  | cons j rest ih =>
    rw [List.foldl_cons] at h
    rcases c.visit_cases (t, false) j with ⟨heq, hagrees⟩ | ⟨later, -, -, heq⟩
    · rcases List.mem_cons.mp hb with rfl | hb'
      · exact hagrees new hnew
      · rw [heq] at h
        exact ih h hb'
    · -- The visit to `j` would have noted a change.
      have hflag := c.foldl_visit_changed rest (congrArg Prod.snd heq)
      rw [h] at hflag
      cases hflag

/-! ### The rounds end -/

/-- **The rounds end**: as long as there is something to change they go on, and each
    change makes the table lighter. -/
theorem settle_eq_iterate (h : t.Descending c blocks) :
    ∃ n ≤ t.weight blocks,
      (∀ m < n, (c.round blocks ((fun t => (c.round blocks t).1)^[m] t)).2 = true) ∧
      (fun t => (c.round blocks t).1)^[n] t = c.settle blocks t h ∧
      c.round blocks (c.settle blocks t h) = (c.settle blocks t h, false) := by
  induction t, h using settle.induct c blocks with
  | case1 t h hchanged ih =>
    obtain ⟨n, hn, hbefore, hend, hlast⟩ := ih
    have hlt := h.round_lighter hchanged
    rw [settle, dif_pos hchanged]
    refine ⟨n + 1, by omega, ?_, hend, hlast⟩
    intro m hm
    cases m with
    | zero => exact hchanged
    | succ m => exact hbefore m (by omega)
  | case2 t h hsame =>
    have heq : c.round blocks t = (t, false) :=
      h.round_cases.resolve_right fun hcase => hsame hcase.1
    rw [settle, dif_neg hsame, heq]
    exact ⟨0, Nat.zero_le _, fun m hm => absurd hm (Nat.not_lt_zero m), rfl, heq⟩

/-- The candidates after `n` rounds, whether or not these change anything. -/
def afterRounds (c : ControlFlow) (n : Nat) : Candidates :=
  (fun t => (c.round c.others t).1)^[n] c.allCandidates

theorem afterRounds_succ (c : ControlFlow) (n : Nat) :
    c.afterRounds (n + 1) = (c.round c.others (c.afterRounds n)).1 :=
  Function.iterate_succ_apply' _ _ _

/-- At the start a block has no more candidates than there are blocks that control can
    get to. -/
theorem count_allCandidates_le (hb : b ∈ c.others) :
    c.allCandidates.count b ≤ c.reversePostorder.length := by
  obtain ⟨hreach, hne⟩ := mem_others_iff.mp hb
  unfold Candidates.count
  rw [find?_allCandidates, if_pos ((c.mem_reversePostorder_iff b).mpr hreach), if_neg hne,
    Option.getD_some, Visited.members_ofList]
  refine (Visited.nodup_distinct _).length_le_of_subset ?_
  intro a ha
  exact (Visited.mem_distinct_iff _ a).mp ha

/-- The dominators are what there is after finitely many rounds, each of which but for
    the last changes something. -/
theorem exists_rounds (c : ControlFlow) :
    ∃ n ≤ c.others.length * c.reversePostorder.length,
      (∀ m < n, (c.round c.others (c.afterRounds m)).2 = true) ∧
      c.afterRounds n = c.dominators ∧
      c.round c.others c.dominators = (c.dominators, false) := by
  obtain ⟨n, hn, hrounds⟩ := settle_eq_iterate c.descending_allCandidates
  have hweight : c.allCandidates.weight c.others ≤ c.others.length * c.reversePostorder.length :=
    Candidates.weight_le_mul fun b hb => count_allCandidates_le hb
  exact ⟨n, hn.trans hweight, hrounds⟩

/-- **What every visit keeps** holds after any number of rounds. -/
theorem afterRounds_keeps {P : Candidates → Prop} (hstart : P c.allCandidates)
    (hvisit : ∀ (state : Candidates × Bool), ∀ b ∈ c.others, P state.1 → P (c.visit state b).1)
    (n : Nat) : P (c.afterRounds n) := by
  induction n with
  | zero => exact hstart
  | succ n ih =>
    have hbegin : P (c.afterRounds n, false).1 := ih
    rw [afterRounds_succ]
    refine List.foldlRecOn (motive := fun state => P state.1) c.others c.visit hbegin ?_
    intro state hstate b hb
    exact hvisit state b hb hstate

/-- So it holds of the dominators. -/
theorem dominators_keeps {P : Candidates → Prop} (hstart : P c.allCandidates)
    (hvisit : ∀ (state : Candidates × Bool), ∀ b ∈ c.others, P state.1 → P (c.visit state b).1) :
    P c.dominators := by
  obtain ⟨n, -, -, hn, -⟩ := c.exists_rounds
  rw [← hn]
  exact afterRounds_keeps hstart hvisit n

/-- **The sets only get smaller**: after any number of rounds, no visit would find a
    candidate that a block has not got. -/
theorem descending_afterRounds (c : ControlFlow) (n : Nat) :
    (c.afterRounds n).Descending c c.others :=
  afterRounds_keeps c.descending_allCandidates (fun _ _ hb h => h.visit hb) n

theorem descending_dominators (c : ControlFlow) : c.dominators.Descending c c.others :=
  dominators_keeps c.descending_allCandidates fun _ _ hb h => h.visit hb

end ControlFlow

/-! ### What every visit keeps -/

/-- Nothing that matters has been taken away, and the entry has no candidate but
    itself. -/
structure Candidates.Sound (c : ControlFlow) (t : Candidates) : Prop where
  /-- There are candidates for the blocks that control can get to. -/
  reached : ∀ b, (t.find? b).isSome = true ↔ c.Reaches b
  /-- A block through which control must pass is a candidate. -/
  keeps : ∀ b s, t.find? b = some s → ∀ a, c.OnlyThrough a b → a ∈ s.members
  /-- Control starts at the entry. -/
  entry : ∀ s, t.find? c.entry = some s → ∀ a ∈ s.members, a = c.entry

namespace Candidates.Sound

theorem allCandidates (c : ControlFlow) : Sound c c.allCandidates := by
  refine ⟨?_, ?_, ?_⟩
  · intro b
    rw [c.find?_allCandidates, ← c.mem_reversePostorder_iff]
    split <;> simp_all
  · intro b s hs a ha
    obtain ⟨hb, hmembers⟩ := ControlFlow.of_find?_allCandidates hs
    rw [hmembers]
    split
    · next heq =>
      subst heq
      exact List.mem_singleton.mpr ha.eq_start
    · have hreach := ha.reachable ((c.mem_reversePostorder_iff b).mp hb)
      exact (Visited.mem_distinct_iff _ a).mpr ((c.mem_reversePostorder_iff a).mpr hreach)
  · intro s hs a ha
    rw [(ControlFlow.of_find?_allCandidates hs).2, if_pos rfl] at ha
    exact List.mem_singleton.mp ha

/-- **One visit** takes away no block through which control must pass: such a
    block is passed on the way to every predecessor as well. -/
theorem visit (h : Sound c state.1) (hb : b ∈ c.others) : Sound c (c.visit state b).1 := by
  obtain ⟨hreach, hne⟩ := ControlFlow.mem_others_iff.mp hb
  rcases c.visit_cases state b with ⟨heq, -⟩ | ⟨new, hnew, -, heq⟩
  · rw [heq]
    exact h
  · rw [heq]
    refine ⟨?_, ?_, ?_⟩
    · intro j
      rw [Table.find?_insert]
      split
      · next hj => exact ⟨fun _ => hj ▸ hreach, fun _ => rfl⟩
      · exact h.reached j
    · intro j v hv a ha
      rw [Table.find?_insert] at hv
      split at hv
      · next hj =>
        subst hj
        rw [← Option.some.inj hv, Visited.members_ofList, ControlFlow.mem_renewed?_iff hnew]
        by_cases haj : a = j
        · exact .inl haj
        · right
          intro p hp w hw
          exact h.keeps p w hw a (ha.pred haj ((c.graph.mem_pred_iff p j).mp hp))
      · exact h.keeps j v hv a ha
    · intro v hv a ha
      rw [Table.find?_insert, if_neg (Ne.symm hne)] at hv
      exact h.entry v hv a ha

end Candidates.Sound

/-! ### The greatest of a list -/

namespace Candidates

variable {number : BlockId → Nat}

theorem mem_of_greatest? (h : greatest? number l = some d) : d ∈ l := by
  induction l with
  | nil => cases h
  | cons a rest ih =>
    simp only [greatest?] at h
    split at h
    · cases h
      exact List.mem_cons_self
    · next hrest =>
      split at h
      · cases h
        exact List.mem_cons_of_mem a (ih hrest)
      · cases h
        exact List.mem_cons_self

theorem exists_greatest? (number : BlockId → Nat) (ha : a ∈ l) :
    ∃ d, greatest? number l = some d := by
  cases l with
  | nil => cases ha
  | cons x rest =>
    simp only [greatest?]
    split
    · exact ⟨x, rfl⟩
    · split
      · exact ⟨_, rfl⟩
      · exact ⟨x, rfl⟩

theorem le_greatest? (h : greatest? number l = some d) (ha : a ∈ l) : number a ≤ number d := by
  induction l generalizing d with
  | nil => cases ha
  | cons x rest ih =>
    simp only [greatest?] at h
    cases hrest : greatest? number rest with
    | none =>
      -- Only an empty list has no greatest member.
      rcases List.mem_cons.mp ha with rfl | ha'
      · rw [hrest] at h
        rw [Option.some.inj h]
      · obtain ⟨e, he⟩ := exists_greatest? number ha'
        rw [hrest] at he
        cases he
    | some e =>
      simp only [hrest] at h
      rcases List.mem_cons.mp ha with rfl | ha'
      · split at h
        · next hxe => rw [← Option.some.inj h]; exact hxe
        · rw [Option.some.inj h]
      · have hae := ih hrest ha'
        split at h
        · rw [← Option.some.inj h]; exact hae
        · rw [← Option.some.inj h]; omega

end Candidates

/-! ### The dominators -/

namespace ControlFlow

theorem sound_dominators (c : ControlFlow) : Candidates.Sound c c.dominators :=
  dominators_keeps (Candidates.Sound.allCandidates c) fun _ _ hb h => h.visit hb

theorem exists_dominators (hb : c.Reaches b) : ∃ s, c.dominators.find? b = some s :=
  Option.isSome_iff_exists.mp ((c.sound_dominators.reached b).mpr hb)

/-- In the end a candidate for `b` other than `b` is one for every predecessor. -/
theorem mem_dominators_pred (hs : c.dominators.find? b = some s) (ha : a ∈ s.members) (hne : a ≠ b)
    (hedge : c.graph.Edge p b) {v : Visited BlockId} (hp : c.dominators.find? p = some v) :
    a ∈ v.members := by
  by_cases hentry : b = c.entry
  · -- The entry has no other candidate.
    subst hentry
    exact absurd (c.sound_dominators.entry s hs a ha) hne
  · have hb : b ∈ c.others := by
      rw [mem_others_iff, ← c.sound_dominators.reached, hs]
      exact ⟨rfl, hentry⟩
    have hpred : p ∈ c.predecessors b := (c.graph.mem_pred_iff p b).mpr hedge
    obtain ⟨new, hnew⟩ := exists_renewed?_iff.mpr ⟨p, hpred, v, hp⟩
    obtain ⟨-, -, -, -, hlast⟩ := c.exists_rounds
    have hdistinct := c.descending_dominators.distinct
    have hsame := (Candidates.agrees_iff hs (hdistinct b s hs) (nodup_renewed? hdistinct hnew)).mp
      (agrees_of_round_eq hlast hb hnew)
    exact ((mem_renewed?_iff hnew).mp ((hsame a).mp ha)).resolve_left hne p hpred v hp

/-- Back along a path that does not meet `a`, every block has `a` as a candidate. -/
theorem mem_dominators_back {x : BlockId} {es : List (BlockId × BlockId)}
    (hpath : Path c.graph.Edge x b es) (hs : c.dominators.find? b = some s) (ha : a ∈ s.members)
    (hx : c.Reaches x) (hfar : a ∉ Path.places x es) {v : Visited BlockId}
    (hv : c.dominators.find? x = some v) : a ∈ v.members := by
  induction hpath generalizing v with
  | stay b =>
    rw [hs] at hv
    exact Option.some.inj hv ▸ ha
  | @step x y b es edge rest ih =>
    have hy : c.Reaches y := by
      obtain ⟨fs, hfs⟩ := hx
      exact ⟨_, hfs.append (.step edge (.stay y))⟩
    have hfary : a ∉ Path.places y es := fun hm => hfar (Path.mem_places_cons.mpr (Or.inr hm))
    obtain ⟨w, hw⟩ := exists_dominators hy
    have haw : a ∈ w.members := ih hs hy hfary hw
    have hne : a ≠ y := fun e => hfary (e ▸ Path.start_mem_places y es)
    exact mem_dominators_pred hw haw hne edge hv

/-- **What is left**: the candidates for a block that control can get to are, in the
    end, the blocks through which control must pass. -/
theorem mem_dominators_iff (hs : c.dominators.find? b = some s) :
    a ∈ s.members ↔ c.OnlyThrough a b := by
  refine ⟨?_, c.sound_dominators.keeps b s hs a⟩
  intro ha es hes
  by_contra hfar
  have hentry : c.Reaches c.entry := ⟨[], .stay c.entry⟩
  obtain ⟨v, hv⟩ := exists_dominators hentry
  -- The entry has no candidate but itself, and the path starts there.
  have hav : a ∈ v.members := mem_dominators_back hes hs ha hentry hfar hv
  have heq := c.sound_dominators.entry v hv a hav
  exact hfar (heq ▸ Path.start_mem_places c.entry es)

/-- A block through which control must pass has fewer dominators. -/
theorem count_lt (hb : c.Reaches b) (ha : c.OnlyThrough a b) (hne : a ≠ b) :
    c.dominators.count a < c.dominators.count b := by
  obtain ⟨sb, hsb⟩ := exists_dominators hb
  obtain ⟨sa, hsa⟩ := exists_dominators (ha.reachable hb)
  unfold Candidates.count
  rw [hsa, hsb, Option.getD_some, Option.getD_some]
  have hnot : b ∉ sa.members := fun hm =>
    hne (Passes.antisymm hb ha ((mem_dominators_iff hsa).mp hm))
  have hnodup : (b :: sa.members).Nodup :=
    List.nodup_cons.mpr ⟨hnot, c.descending_dominators.distinct a sa hsa⟩
  have hsub : b :: sa.members ⊆ sb.members := by
    intro d hd
    rcases List.mem_cons.mp hd with rfl | hd'
    · exact (mem_dominators_iff hsb).mpr (Passes.refl _ _ _)
    · exact (mem_dominators_iff hsb).mpr (((mem_dominators_iff hsa).mp hd').trans ha)
  exact (List.subperm_of_subset hnodup hsub).length_le

/-! ### The tree -/

/-- The tree of immediate dominators. -/
abbrev dominatorTree (c : ControlFlow) : ParentTree := c.dominators.tree c.reversePostorder

theorem rank_dominatorTree (hb : c.Reaches b) : c.dominatorTree.rank b = c.dominators.count b := by
  show ((Table.tabulate c.reversePostorder c.dominators.count).find? b).getD 0 = _
  rw [Table.find?_tabulate, if_pos ((c.mem_reversePostorder_iff b).mpr hb), Option.getD_some]

/-- What is compared for the parent of `b`: the other blocks through which control
    must pass. -/
theorem mem_nearer_iff (hb : c.Reaches b) :
    a ∈ ((c.dominators.find? b).getD .none).members.filter (fun a => a ≠ b) ↔
      a ≠ b ∧ c.OnlyThrough a b := by
  obtain ⟨s, hs⟩ := exists_dominators hb
  rw [hs, Option.getD_some, List.mem_filter, mem_dominators_iff hs, decide_eq_true_eq]
  exact And.comm

/-- **The parent** is the nearest of the other dominators, whichever that is: all of
    them are lower. -/
theorem parent?_dominatorTree_eq (c : ControlFlow) (b : BlockId) :
    c.dominatorTree.parent? b =
      if b ∈ c.reversePostorder then
        Candidates.greatest? c.dominatorTree.rank
          (((c.dominators.find? b).getD .none).members.filter fun a => a ≠ b)
      else none := by
  show ((Table.tabulate c.reversePostorder _).find? b).join = _
  rw [Table.find?_tabulate]
  split
  · next hin =>
    have hb := (c.mem_reversePostorder_iff b).mp hin
    show Option.filter (fun p => c.dominatorTree.rank p < c.dominatorTree.rank b)
      (Candidates.greatest? c.dominatorTree.rank _) = _
    ext p
    rw [Option.filter_eq_some_iff, and_iff_left_iff_imp]
    intro hp
    obtain ⟨hne, hthrough⟩ := (mem_nearer_iff hb).mp (Candidates.mem_of_greatest? hp)
    rw [rank_dominatorTree hb, rank_dominatorTree (hthrough.reachable hb)]
    exact decide_eq_true (count_lt hb hthrough hne)
  · rfl

/-- The parent of a block is passed on every way to it, and all others that are come
    before the parent. -/
theorem of_parent?_eq_some (h : c.dominatorTree.parent? b = some p) :
    c.Reaches b ∧ p ≠ b ∧ c.OnlyThrough p b ∧
      ∀ a, a ≠ b → c.OnlyThrough a b → c.OnlyThrough a p := by
  rw [parent?_dominatorTree_eq] at h
  split at h
  · next hin =>
    have hb := (c.mem_reversePostorder_iff b).mp hin
    obtain ⟨hne, hp⟩ := (mem_nearer_iff hb).mp (Candidates.mem_of_greatest? h)
    refine ⟨hb, hne, hp, ?_⟩
    intro a ha hab
    -- Of two blocks in the chain the one with more dominators comes later.
    have hle : c.dominatorTree.rank a ≤ c.dominatorTree.rank p :=
      Candidates.le_greatest? h ((mem_nearer_iff hb).mpr ⟨ha, hab⟩)
    rcases Passes.chain hb hab hp with hbefore | hafter
    · exact hbefore
    · by_cases heq : p = a
      · exact heq ▸ Passes.refl _ _ _
      · have hlt := count_lt (hab.reachable hb) hafter heq
        rw [rank_dominatorTree (hab.reachable hb), rank_dominatorTree (hp.reachable hb)] at hle
        omega
  · cases h

theorem exists_parent? (hb : c.Reaches b) (ha : c.OnlyThrough a b) (hne : a ≠ b) :
    ∃ p, c.dominatorTree.parent? b = some p := by
  rw [parent?_dominatorTree_eq, if_pos ((c.mem_reversePostorder_iff b).mpr hb)]
  exact Candidates.exists_greatest? _ ((mem_nearer_iff hb).mpr ⟨hne, ha⟩)

/-- **The climb** from a block meets the other blocks through which control must
    pass to get there. -/
theorem mem_climb_iff (c : ControlFlow) (a b : BlockId) :
    a ∈ c.dominatorTree.climb b ↔ c.Reaches b ∧ a ≠ b ∧ c.OnlyThrough a b := by
  induction b using ParentTree.climb.induct c.dominatorTree with
  | case1 b hnone =>
    have hclimb : c.dominatorTree.climb b = [] := by
      rw [ParentTree.climb]
      split <;> simp_all
    rw [hclimb]
    refine ⟨fun h => absurd h List.not_mem_nil, ?_⟩
    intro h
    obtain ⟨hb, hne, ha⟩ := h
    obtain ⟨p, hp⟩ := exists_parent? hb ha hne
    rw [hnone] at hp
    cases hp
  | case2 b p hsome ih =>
    have hclimb : c.dominatorTree.climb b = p :: c.dominatorTree.climb p := by
      rw [ParentTree.climb]
      split <;> simp_all
    obtain ⟨hb, hpb, hp, hlast⟩ := of_parent?_eq_some hsome
    rw [hclimb, List.mem_cons, ih]
    constructor
    · intro h
      rcases h with rfl | ⟨_, hap, ha⟩
      · exact ⟨hb, hpb, hp⟩
      · -- If `a` were `b`, the parent and `b` would each be passed before the other.
        refine ⟨hb, fun heq => hpb ?_, ha.trans hp⟩
        exact Passes.antisymm hb hp (heq ▸ ha)
    · intro h
      obtain ⟨_, hne, ha⟩ := h
      by_cases hap : a = p
      · exact Or.inl hap
      · exact Or.inr ⟨hp.reachable hb, hap, hlast a hne ha⟩

end ControlFlow

end SsaFlow
