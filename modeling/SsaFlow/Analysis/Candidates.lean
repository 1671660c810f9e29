import SsaFlow.Analysis.ControlFlow

/-! # Candidates for dominators

    A block dominates another if control cannot get to the other without passing
    through it. Dominators are found by sets of candidates, one for each block that
    control can get to.

    * **The start.** Any block may dominate any other, and the entry is dominated by
      itself alone.
    * **A visit** works out the candidates for a block anew: the block itself, and
      the blocks that are candidates for all its predecessors. Predecessors that
      control cannot get to have no candidates and do not count. If the new set
      is another than the old one, it takes its place.
    * **Rounds** of visits to all blocks but the entry, each visit seeing what those
      before it did, until a round changes nothing.

    A new set might have members that the old one had not, and then the rounds need
    not end. Along the run it never has: `Candidates.Descending` says so, it holds at
    the start and every visit keeps it. So a round that changes anything takes
    candidates away, and the rounds end.
-/

namespace SsaFlow

/-- The blocks that may dominate a block, for each block that control can get
    to. -/
abbrev Candidates := Table BlockId (Visited BlockId)

namespace Candidates

/-- The number of candidates for `b`. -/
def count (t : Candidates) (b : BlockId) : Nat := ((t.find? b).getD .none).members.length

/-- The number of candidates for all of `blocks` together. -/
def weight (t : Candidates) : List BlockId → Nat
  | [] => 0
  | b :: rest => t.count b + t.weight rest

/-- The blocks that are in all of some sets; none if there are no sets. -/
def common? : List (Visited BlockId) → Option (List BlockId)
  | [] => none
  | s :: rest => some (rest.foldl (fun l v => l.filter v.contains) s.members)

/-- Whether the candidates for `b` are the members of a list. Neither has repeats,
    so they are the same if they are as many and the list has no others. -/
def agrees (t : Candidates) (b : BlockId) (l : List BlockId) : Bool :=
  match t.find? b with
  | none => false
  | some s => s.members.length == l.length && l.all s.contains

end Candidates

namespace ControlFlow

/-- The blocks that control can get to, the entry apart, in reverse postorder. -/
def others (c : ControlFlow) : List BlockId := c.reversePostorder.filter fun b => b ≠ c.entry

/-- Where the rounds start. -/
def allCandidates (c : ControlFlow) : Candidates :=
  let blocks := c.reversePostorder
  let all := Visited.ofList (Visited.distinct blocks)
  .tabulate blocks fun b => if b = c.entry then .ofList [b] else all

/-- The candidates for `b`, worked out anew from those for its predecessors; none if
    no predecessor has any. -/
def renewed? (c : ControlFlow) (t : Candidates) (b : BlockId) : Option (List BlockId) :=
  (Candidates.common? ((c.predecessors b).filterMap t.find?)).map fun l => l.insert b

/-- Visit a block. The state is the table, and whether anything has changed. -/
def visit (c : ControlFlow) (state : Candidates × Bool) (b : BlockId) : Candidates × Bool :=
  match c.renewed? state.1 b with
  | none => state
  | some new =>
    if state.1.agrees b new then state else (state.1.insert b (.ofList new), true)

/-- One round over the blocks: the table after it, and whether it has changed. -/
def round (c : ControlFlow) (blocks : List BlockId) (t : Candidates) : Candidates × Bool :=
  blocks.foldl c.visit (t, false)

end ControlFlow

variable {c : ControlFlow} {t t' : Candidates} {blocks : List BlockId} {a b : BlockId}
  {l new : List BlockId} {s : Visited BlockId} {state : Candidates × Bool}

/-! ### What a visit works out -/

namespace Candidates

theorem mem_common?_iff {sets : List (Visited BlockId)} (h : common? sets = some l) :
    a ∈ l ↔ ∀ v ∈ sets, a ∈ v.members := by
  cases sets with
  | nil => cases h
  | cons s rest =>
    -- What has been met of the list so far, and the sets that are still to come.
    have hrun : ∀ (sets : List (Visited BlockId)) (start : List BlockId),
        a ∈ sets.foldl (fun l v => l.filter v.contains) start ↔
          a ∈ start ∧ ∀ v ∈ sets, a ∈ v.members := by
      intro sets
      induction sets with
      | nil => simp
      | cons v sets ih =>
        intro start
        rw [List.foldl_cons, ih, List.mem_filter, v.contains_iff, List.forall_mem_cons, and_assoc]
    obtain rfl := Option.some.inj h
    rw [hrun, List.forall_mem_cons]

theorem nodup_common? {sets : List (Visited BlockId)} (hsets : ∀ v ∈ sets, v.members.Nodup)
    (h : common? sets = some l) : l.Nodup := by
  cases sets with
  | nil => cases h
  | cons s rest =>
    obtain rfl := Option.some.inj h
    refine List.foldlRecOn rest _ (hsets s List.mem_cons_self) ?_
    intro l hl v _
    exact List.Pairwise.filter _ hl

theorem isSome_common?_iff {sets : List (Visited BlockId)} :
    (common? sets).isSome = true ↔ ∃ v, v ∈ sets := by
  cases sets with
  | nil => simp [common?]
  | cons s rest => simp [common?]

end Candidates

namespace ControlFlow

theorem mem_renewed?_iff (h : c.renewed? t b = some new) :
    a ∈ new ↔ a = b ∨ ∀ p ∈ c.predecessors b, ∀ v, t.find? p = some v → a ∈ v.members := by
  obtain ⟨l, hl, rfl⟩ := Option.map_eq_some_iff.mp h
  rw [List.mem_insert_iff, Candidates.mem_common?_iff hl]
  refine or_congr_right ?_
  constructor
  · intro hall p hp v hv
    exact hall v (List.mem_filterMap.mpr ⟨p, hp, hv⟩)
  · intro hall v hv
    obtain ⟨p, hp, hfind⟩ := List.mem_filterMap.mp hv
    exact hall p hp v hfind

theorem nodup_renewed? (ht : ∀ b s, t.find? b = some s → s.members.Nodup)
    (h : c.renewed? t b = some new) : new.Nodup := by
  obtain ⟨l, hl, rfl⟩ := Option.map_eq_some_iff.mp h
  have hnodup : l.Nodup := by
    refine Candidates.nodup_common? ?_ hl
    intro v hv
    obtain ⟨p, _, hfind⟩ := List.mem_filterMap.mp hv
    exact ht p v hfind
  by_cases hb : b ∈ l
  · rw [List.insert_of_mem hb]
    exact hnodup
  · rw [List.insert_of_not_mem hb]
    exact List.nodup_cons.mpr ⟨hb, hnodup⟩

/-- There is something to work out if a predecessor has candidates. -/
theorem exists_renewed?_iff :
    (∃ new, c.renewed? t b = some new) ↔ ∃ p ∈ c.predecessors b, ∃ v, t.find? p = some v := by
  rw [← Option.isSome_iff_exists, renewed?, Option.isSome_map, Candidates.isSome_common?_iff]
  constructor
  · intro h
    obtain ⟨v, hv⟩ := h
    obtain ⟨p, hp, hfind⟩ := List.mem_filterMap.mp hv
    exact ⟨p, hp, v, hfind⟩
  · intro h
    obtain ⟨p, hp, v, hfind⟩ := h
    exact ⟨v, List.mem_filterMap.mpr ⟨p, hp, hfind⟩⟩

/-- **What a visit does**: nothing, if the candidates agree with those worked out anew,
    or else it puts these in their place and notes the change. -/
theorem visit_cases (c : ControlFlow) (state : Candidates × Bool) (b : BlockId) :
    c.visit state b = state ∧ (∀ new, c.renewed? state.1 b = some new →
      state.1.agrees b new = true) ∨
    ∃ new, c.renewed? state.1 b = some new ∧ state.1.agrees b new = false ∧
      c.visit state b = (state.1.insert b (.ofList new), true) := by
  unfold visit
  cases hnew : c.renewed? state.1 b with
  | none => exact .inl ⟨rfl, fun new h => nomatch h⟩
  | some new =>
    cases hagrees : state.1.agrees b new with
    | true =>
      refine .inl ⟨if_pos hagrees, ?_⟩
      intro new' h
      rw [← Option.some.inj h]
      exact hagrees
    | false =>
      refine .inr ⟨new, rfl, hagrees, ?_⟩
      simp [hagrees]

end ControlFlow

/-! ### Sets only get smaller -/

namespace Candidates

/-- The same blocks have candidates in both tables, and none has more in the first. -/
structure Within (t' t : Candidates) : Prop where
  /-- What is a candidate in the first table is one in the second. -/
  members : ∀ b s', t'.find? b = some s' →
    ∃ s, t.find? b = some s ∧ ∀ a ∈ s'.members, a ∈ s.members
  /-- Every set of the second table has one in the first. -/
  blocks : ∀ b s, t.find? b = some s → ∃ s', t'.find? b = some s'

/-- What is worked out anew gets no larger when sets get smaller. -/
theorem Within.renewed? (h : Within t' t) (hnew : c.renewed? t' b = some l) :
    ∃ new, c.renewed? t b = some new ∧ ∀ a ∈ l, a ∈ new := by
  obtain ⟨p, hp, v', hv'⟩ := ControlFlow.exists_renewed?_iff.mp ⟨l, hnew⟩
  obtain ⟨v, hv, -⟩ := h.members p v' hv'
  obtain ⟨new, hold⟩ := ControlFlow.exists_renewed?_iff.mpr ⟨p, hp, v, hv⟩
  refine ⟨new, hold, ?_⟩
  intro a ha
  rw [ControlFlow.mem_renewed?_iff hold]
  rcases (ControlFlow.mem_renewed?_iff hnew).mp ha with heq | hall
  · exact .inl heq
  · right
    intro q hq w hw
    obtain ⟨w', hw'⟩ := h.blocks q w hw
    obtain ⟨w₀, hw₀, hsub⟩ := h.members q w' hw'
    rw [← Option.some.inj (hw₀.symm.trans hw)]
    exact hsub a (hall q hq w' hw')

theorem within_insert (hs : t.find? b = some s) (hsub : ∀ a ∈ new, a ∈ s.members) :
    Within (t.insert b (.ofList new)) t := by
  constructor
  · intro j s' hs'
    rw [Table.find?_insert] at hs'
    by_cases hj : j = b
    · rw [if_pos hj] at hs'
      refine ⟨s, hj ▸ hs, ?_⟩
      rw [← Option.some.inj hs', Visited.members_ofList]
      exact hsub
    · rw [if_neg hj] at hs'
      exact ⟨s', hs', fun _ ha => ha⟩
  · intro j v hv
    rw [Table.find?_insert]
    split
    · exact ⟨_, rfl⟩
    · exact ⟨v, hv⟩

/-- No set has repeats, and none of `blocks` would get a new candidate if it were
    visited. -/
structure Descending (c : ControlFlow) (blocks : List BlockId) (t : Candidates) : Prop where
  /-- No candidate counts twice. -/
  distinct : ∀ b s, t.find? b = some s → s.members.Nodup
  /-- What is worked out anew was there before. -/
  within : ∀ b ∈ blocks, ∀ new, c.renewed? t b = some new →
    ∃ s, t.find? b = some s ∧ ∀ a ∈ new, a ∈ s.members

namespace Descending

/-- **One visit** leaves it so: what the visit takes away can only be missed by what is
    worked out later. -/
theorem visit (h : Descending c blocks state.1) (hb : b ∈ blocks) :
    Descending c blocks (c.visit state b).1 := by
  rcases c.visit_cases state b with ⟨heq, -⟩ | ⟨new, hnew, -, heq⟩
  · rw [heq]
    exact h
  · obtain ⟨s, hs, hsub⟩ := h.within b hb new hnew
    rw [heq]
    constructor
    · intro j v hv
      rw [Table.find?_insert] at hv
      split at hv
      · rw [← Option.some.inj hv, Visited.members_ofList]
        exact ControlFlow.nodup_renewed? h.distinct hnew
      · exact h.distinct j v hv
    · intro j hj later hlater
      obtain ⟨old, hold, hle⟩ := (within_insert hs hsub).renewed? hlater
      rw [Table.find?_insert]
      by_cases hjb : j = b
      · -- The block itself was given just what had been worked out for it.
        subst hjb
        obtain rfl := Option.some.inj (hnew.symm.trans hold)
        refine ⟨.ofList new, if_pos rfl, ?_⟩
        rw [Visited.members_ofList]
        exact hle
      · obtain ⟨v, hv, hsub'⟩ := h.within j hj old hold
        refine ⟨v, ?_, fun a ha => hsub' a (hle a ha)⟩
        rw [if_neg hjb]
        exact hv

/-- Candidates that do not agree with what is worked out anew are more. -/
theorem length_lt (h : Descending c blocks t) (hb : b ∈ blocks) (hnew : c.renewed? t b = some new)
    (hdiffer : t.agrees b new = false) : new.length < t.count b := by
  obtain ⟨s, hs, hsub⟩ := h.within b hb new hnew
  have hle : new.length ≤ s.members.length :=
    (ControlFlow.nodup_renewed? h.distinct hnew).length_le_of_subset hsub
  have hall : new.all s.contains = true := by
    rw [List.all_eq_true]
    intro a ha
    exact (s.contains_iff a).mpr (hsub a ha)
  unfold agrees at hdiffer
  unfold count
  rw [hs] at hdiffer ⊢
  have hne : s.members.length ≠ new.length := by simpa [hall] using hdiffer
  rw [Option.getD_some]
  omega

end Descending

/-! ### The rounds end -/

theorem count_insert (t : Candidates) (b : BlockId) (new : List BlockId) (j : BlockId) :
    count (t.insert b (.ofList new)) j = if j = b then new.length else t.count j := by
  unfold count
  rw [Table.find?_insert]
  split
  · rw [Option.getD_some, Visited.members_ofList]
  · rfl

theorem weight_le (h : ∀ b, t'.count b ≤ t.count b) (l : List BlockId) :
    t'.weight l ≤ t.weight l := by
  induction l with
  | nil => exact Nat.le_refl 0
  | cons j rest ih =>
    have hj := h j
    simp only [weight]
    omega

/-- A table in which one of the blocks has fewer candidates, and none more, is
    lighter. -/
theorem weight_lt (h : ∀ b, t'.count b ≤ t.count b) (hb : b ∈ l) (hlt : t'.count b < t.count b) :
    t'.weight l < t.weight l := by
  induction l with
  | nil => cases hb
  | cons j rest ih =>
    have hj := h j
    have hrest := weight_le h rest
    simp only [weight]
    rcases List.mem_cons.mp hb with rfl | hb'
    · omega
    · have hih := ih hb'
      omega

theorem weight_le_mul {n : Nat} (h : ∀ b ∈ l, t.count b ≤ n) : t.weight l ≤ l.length * n := by
  induction l with
  | nil => exact Nat.zero_le _
  | cons b rest ih =>
    have hb := h b List.mem_cons_self
    have hrest := ih fun j hj => h j (List.mem_cons_of_mem b hj)
    rw [weight, List.length_cons, Nat.succ_mul]
    omega

namespace Descending

/-- A visit leaves the state as it is, or it notes a change and makes the table
    lighter. -/
theorem visit_lighter (h : Descending c blocks state.1) (hb : b ∈ blocks) :
    c.visit state b = state ∨
      (c.visit state b).2 = true ∧ (c.visit state b).1.weight blocks < state.1.weight blocks := by
  rcases c.visit_cases state b with ⟨heq, -⟩ | ⟨new, hnew, hdiffer, heq⟩
  · exact .inl heq
  · have hlt := h.length_lt hb hnew hdiffer
    rw [heq]
    refine .inr ⟨rfl, weight_lt ?_ hb ?_⟩
    · intro j
      rw [count_insert]
      split
      · next hj => rw [hj]; exact Nat.le_of_lt hlt
      · exact Nat.le_refl _
    · rw [count_insert, if_pos rfl]
      exact hlt

theorem foldl (state : Candidates × Bool) (h : Descending c blocks state.1)
    (hl : ∀ b ∈ l, b ∈ blocks) :
    Descending c blocks (l.foldl c.visit state).1 := by
  refine List.foldlRecOn (motive := fun state => Descending c blocks state.1) l c.visit h ?_
  intro state hstate b hb
  exact hstate.visit (hl b hb)

/-- The same for visits to several blocks. -/
theorem foldl_lighter (state : Candidates × Bool) (h : Descending c blocks state.1)
    (hl : ∀ b ∈ l, b ∈ blocks) :
    l.foldl c.visit state = state ∨ (l.foldl c.visit state).2 = true ∧
      (l.foldl c.visit state).1.weight blocks < state.1.weight blocks := by
  induction l generalizing state with
  | nil => exact .inl rfl
  | cons b rest ih =>
    have hb := hl b List.mem_cons_self
    have hfirst := h.visit_lighter hb
    have hrest := ih _ (h.visit hb) fun j hj => hl j (List.mem_cons_of_mem b hj)
    rw [List.foldl_cons]
    rcases hrest with heq | ⟨hflag, hlt⟩
    · rw [heq]
      exact hfirst
    · right
      refine ⟨hflag, ?_⟩
      rcases hfirst with heq | ⟨-, hlt'⟩
      · rw [heq] at hlt ⊢
        exact hlt
      · exact Nat.lt_trans hlt hlt'

/-- **One round** leaves it so. -/
theorem round (h : Descending c blocks t) : Descending c blocks (c.round blocks t).1 :=
  foldl (t, false) h fun _ hb => hb

/-- A round leaves the table as it is, or it notes a change and makes the table
    lighter. -/
theorem round_cases (h : Descending c blocks t) :
    c.round blocks t = (t, false) ∨ (c.round blocks t).2 = true ∧
      (c.round blocks t).1.weight blocks < t.weight blocks :=
  foldl_lighter (t, false) h fun _ hb => hb

theorem round_lighter (h : Descending c blocks t) (hchanged : (c.round blocks t).2 = true) :
    (c.round blocks t).1.weight blocks < t.weight blocks := by
  rcases h.round_cases with heq | ⟨-, hlt⟩
  · rw [heq] at hchanged
    cases hchanged
  · exact hlt

end Descending

end Candidates

namespace ControlFlow

theorem find?_allCandidates (c : ControlFlow) (b : BlockId) :
    c.allCandidates.find? b = if b ∈ c.reversePostorder then
      some (if b = c.entry then .ofList [b] else .ofList (Visited.distinct c.reversePostorder))
      else none :=
  Table.find?_tabulate _ _ b

theorem of_find?_allCandidates (h : c.allCandidates.find? b = some s) :
    b ∈ c.reversePostorder ∧
      s.members = if b = c.entry then [b] else Visited.distinct c.reversePostorder := by
  rw [find?_allCandidates] at h
  split at h
  · next hb =>
    refine ⟨hb, ?_⟩
    rw [← Option.some.inj h]
    split <;> exact Visited.members_ofList _
  · cases h

/-- No set has a member that control cannot get to, so nothing is new to a block that
    has them all. -/
theorem descending_allCandidates (c : ControlFlow) :
    Candidates.Descending c c.others c.allCandidates := by
  constructor
  · intro b s hs
    rw [(of_find?_allCandidates hs).2]
    split
    · exact List.nodup_cons.mpr ⟨List.not_mem_nil, List.nodup_nil⟩
    · exact Visited.nodup_distinct _
  · intro b hb new hnew
    obtain ⟨hin, hne⟩ := List.mem_filter.mp hb
    rw [decide_eq_true_eq] at hne
    refine ⟨.ofList (Visited.distinct c.reversePostorder), ?_, ?_⟩
    · rw [find?_allCandidates, if_pos hin, if_neg hne]
    · intro a ha
      rw [Visited.members_ofList, Visited.mem_distinct_iff]
      rcases (mem_renewed?_iff hnew).mp ha with rfl | hall
      · exact hin
      · obtain ⟨p, hp, v, hv⟩ := exists_renewed?_iff.mp ⟨new, hnew⟩
        have hav := hall p hp v hv
        obtain ⟨hpin, hmembers⟩ := of_find?_allCandidates hv
        rw [hmembers] at hav
        split at hav
        · rw [List.mem_singleton.mp hav]
          exact hpin
        · exact (Visited.mem_distinct_iff _ _).mp hav

/-- Rounds over the blocks, for as long as they change anything. -/
def settle (c : ControlFlow) (blocks : List BlockId) (t : Candidates)
    (h : t.Descending c blocks) : Candidates :=
  if _changed : (c.round blocks t).2 = true then
    c.settle blocks (c.round blocks t).1 h.round
  else (c.round blocks t).1
termination_by t.weight blocks
decreasing_by exact h.round_lighter _changed

/-- The dominators of each block that control can get to. -/
def dominators (c : ControlFlow) : Candidates :=
  c.settle c.others c.allCandidates c.descending_allCandidates

end ControlFlow

end SsaFlow
