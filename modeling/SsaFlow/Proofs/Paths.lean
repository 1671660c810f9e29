import Mathlib.Logic.Relation

/-! # Paths

    Paths along a relation, each with the list of the edges that it takes.

    * `Path`: a path, and `Path.places`: where it passes, its start included.
    * `Path.first_arrival` and `Path.last_departure`: a path that passes through
      a place can be cut where it gets there first and where it leaves last.
    * `Avoiding`: there is a path that keeps away from some places. What can be
      reached that way is told by the first edge (`avoiding_iff_enter`).
    * `Passes`: every path from a start to a place passes through another. This
      is an order on the places that can be reached, and what lies above one
      place forms a chain (`Passes.antisymm`, `Passes.chain`).
-/

namespace SsaFlow

variable {α : Type} {r : α → α → Prop} {a b c x : α} {es fs : List (α × α)}

/-- A path along `r` from one place to another, with the edges that it takes. -/
inductive Path (r : α → α → Prop) : α → α → List (α × α) → Prop where
  /-- Staying takes no edge. -/
  | stay (a : α) : Path r a a []
  /-- One edge, and a path from where it ends. -/
  | step {a b c : α} {es : List (α × α)} (edge : r a b) (rest : Path r b c es) :
      Path r a c ((a, b) :: es)

namespace Path

/-- Where a path that starts at `a` passes: `a`, and the end of every edge. -/
def places (a : α) (es : List (α × α)) : List α := a :: es.map Prod.snd

theorem start_mem_places (a : α) (es : List (α × α)) : a ∈ places a es := List.mem_cons_self

theorem mem_places_cons {e : α × α} : x ∈ places a (e :: es) ↔ x = a ∨ x ∈ places e.2 es := by
  simp [places]

/-! ### Putting paths together -/

theorem append (first : Path r a b es) (second : Path r b c fs) : Path r a c (es ++ fs) := by
  induction first with
  | stay => exact second
  | step edge _ ih => exact .step edge (ih second)

theorem mono {r' : α → α → Prop} (hsub : ∀ a b, r a b → r' a b) (h : Path r a b es) :
    Path r' a b es := by
  induction h with
  | stay a => exact .stay a
  | step edge _ ih => exact .step (hsub _ _ edge) ih

theorem end_mem_places (h : Path r a b es) : b ∈ places a es := by
  induction h with
  | stay => exact start_mem_places _ _
  | step _ _ ih => exact mem_places_cons.mpr (Or.inr ih)

theorem places_append_subset (h : Path r a b es) (hx : x ∈ places a (es ++ fs)) :
    x ∈ places a es ∨ x ∈ places b fs := by
  induction h with
  | stay => exact Or.inr hx
  | step _ _ ih =>
    rcases mem_places_cons.mp hx with rfl | hx'
    · exact Or.inl (start_mem_places _ _)
    · rcases ih hx' with hl | hr
      · exact Or.inl (mem_places_cons.mpr (Or.inr hl))
      · exact Or.inr hr

/-- There is a path exactly between what the reflexive and transitive closure of
    the edges relates. -/
theorem exists_iff_reflTransGen : (∃ es, Path r a b es) ↔ Relation.ReflTransGen r a b := by
  constructor
  · intro h
    obtain ⟨es, h⟩ := h
    induction h with
    | stay => exact .refl
    | step edge _ ih => exact .head edge ih
  · intro h
    induction h using Relation.ReflTransGen.head_induction_on with
    | refl => exact ⟨[], .stay b⟩
    | head edge _ ih =>
      obtain ⟨es, hes⟩ := ih
      exact ⟨_, .step edge hes⟩

/-! ### Cutting paths -/

/-- **First arrival**: a path that passes through `x` and starts elsewhere takes
    an edge into `x`, and keeps away from `x` before that. -/
theorem first_arrival (h : Path r a c es) (hx : x ∈ places a es) (hne : x ≠ a) :
    ∃ before p after, es = before ++ (p, x) :: after ∧ Path r a p before ∧
      x ∉ places a before ∧ r p x ∧ Path r x c after := by
  induction h with
  | stay a =>
    exact absurd (by simpa [places] using hx) hne
  | @step a b c es edge rest ih =>
    by_cases hxb : x = b
    · -- The very first edge leads to `x`.
      subst hxb
      exact ⟨[], a, es, rfl, .stay a, by simpa [places] using hne, edge, rest⟩
    · have hrest : x ∈ places b es := (mem_places_cons.mp hx).resolve_left hne
      obtain ⟨before, p, after, rfl, hp, hfar, hedge, hafter⟩ := ih hrest hxb
      refine ⟨(a, b) :: before, p, after, rfl, .step edge hp, ?_, hedge, hafter⟩
      intro hmem
      rcases mem_places_cons.mp hmem with heq | hlater
      · exact hne heq
      · exact hfar hlater

/-- **Last departure**: a path that passes through `x` ends in a path from `x`
    that takes no edge into `x`. -/
theorem last_departure (h : Path r a c es) (hx : x ∈ places a es) :
    ∃ before after, es = before ++ after ∧ Path r a x before ∧ Path r x c after ∧
      x ∉ after.map Prod.snd := by
  induction h with
  | stay a =>
    have hxa : x = a := by simpa [places] using hx
    subst hxa
    exact ⟨[], [], rfl, .stay x, .stay x, by simp⟩
  | @step a b c es edge rest ih =>
    by_cases hlater : x ∈ places b es
    · obtain ⟨before, after, rfl, hbefore, hafter, hfar⟩ := ih hlater
      exact ⟨(a, b) :: before, after, rfl, .step edge hbefore, hafter, hfar⟩
    · -- The start is the only visit, so the whole path leaves it for good.
      have hxa : x = a := (mem_places_cons.mp hx).resolve_right hlater
      subst hxa
      exact ⟨[], (x, b) :: es, rfl, .stay x, .step edge rest, hlater⟩

/-- What the path passes through can be got to. -/
theorem exists_to_place (h : Path r a c es) (hx : x ∈ places a es) : ∃ fs, Path r a x fs := by
  obtain ⟨before, _, _, hbefore, _, _⟩ := h.last_departure hx
  exact ⟨before, hbefore⟩

/-- The last part of a path passes nowhere else than the path. -/
theorem mem_places_of_suffix {y : α} (hx : x ∈ places a (es ++ fs)) (hy : y ∈ places x fs) :
    y ∈ places a (es ++ fs) := by
  rcases List.mem_cons.mp hy with rfl | hy'
  · exact hx
  · refine List.mem_cons_of_mem a ?_
    rw [List.map_append]
    exact List.mem_append_right _ hy'

/-- The first part of a path passes nowhere else than the path. -/
theorem mem_places_of_prefix (hx : x ∈ places a es) : x ∈ places a (es ++ fs) := by
  rcases List.mem_cons.mp hx with rfl | hx'
  · exact start_mem_places _ _
  · refine List.mem_cons_of_mem a ?_
    rw [List.map_append]
    exact List.mem_append_left _ hx'

end Path

/-! ### Keeping away from some places -/

/-- There is a path from `a` to `b` that keeps away from the places in `seen`. -/
def Avoiding (r : α → α → Prop) (seen : List α) (a b : α) : Prop :=
  ∃ es, Path r a b es ∧ ∀ x ∈ Path.places a es, x ∉ seen

namespace Avoiding

variable {seen seen' : List α}

theorem start_not_mem (h : Avoiding r seen a b) : a ∉ seen := by
  obtain ⟨es, _, hfar⟩ := h
  exact hfar a (Path.start_mem_places a es)

theorem end_not_mem (h : Avoiding r seen a b) : b ∉ seen := by
  obtain ⟨es, hes, hfar⟩ := h
  exact hfar b hes.end_mem_places

theorem refl (h : a ∉ seen) : Avoiding r seen a a :=
  ⟨[], .stay a, by simpa [Path.places] using h⟩

theorem head (ha : a ∉ seen) (edge : r a b) (h : Avoiding r seen b c) : Avoiding r seen a c := by
  obtain ⟨es, hes, hfar⟩ := h
  refine ⟨_, .step edge hes, ?_⟩
  intro x hx
  rcases Path.mem_places_cons.mp hx with rfl | hx'
  · exact ha
  · exact hfar x hx'

theorem trans (h : Avoiding r seen a b) (h' : Avoiding r seen b c) : Avoiding r seen a c := by
  obtain ⟨es, hes, hfar⟩ := h
  obtain ⟨fs, hfs, hfar'⟩ := h'
  refine ⟨es ++ fs, hes.append hfs, ?_⟩
  intro x hx
  rcases hes.places_append_subset hx with hl | hr
  · exact hfar x hl
  · exact hfar' x hr

/-- Keeping away from more places keeps away from fewer. -/
theorem anti (hsub : ∀ x ∈ seen, x ∈ seen') (h : Avoiding r seen' a b) : Avoiding r seen a b := by
  obtain ⟨es, hes, hfar⟩ := h
  exact ⟨es, hes, fun x hx hm => hfar x hx (hsub x hm)⟩

/-- A path that keeps away goes on keeping away from wherever it passes. -/
theorem of_mem_places (hes : Path r b c es) (hfar : ∀ x ∈ Path.places b es, x ∉ seen)
    (ha : a ∈ Path.places b es) : Avoiding r seen a c := by
  obtain ⟨before, after, rfl, _, hafter, _⟩ := hes.last_departure ha
  exact ⟨after, hafter, fun x hx => hfar x (Path.mem_places_of_suffix ha hx)⟩

/-- A path either keeps away from one more place `a` as well, or leads on from
    there. -/
theorem cons_or_from [DecidableEq α] (a : α) (h : Avoiding r seen b c) :
    Avoiding r (a :: seen) b c ∨ Avoiding r seen a c := by
  obtain ⟨es, hes, hfar⟩ := h
  by_cases ha : a ∈ Path.places b es
  · right
    exact of_mem_places hes hfar ha
  · left
    refine ⟨es, hes, ?_⟩
    intro x hx hm
    rcases List.mem_cons.mp hm with rfl | hm'
    · exact ha hx
    · exact hfar x hx hm'

end Avoiding

/-- What can be reached from `a` is `a`, and what can be reached from the ends of
    its edges without coming back. -/
theorem avoiding_iff_enter {seen : List α} (ha : a ∉ seen) :
    Avoiding r seen a x ↔ x = a ∨ ∃ b, r a b ∧ Avoiding r (a :: seen) b x := by
  constructor
  · intro h
    obtain ⟨es, hes, hfar⟩ := h
    -- Only what comes after the last visit of `a` matters.
    have hstart := Path.start_mem_places a es
    obtain ⟨before, after, rfl, _, hafter, hlast⟩ := hes.last_departure hstart
    cases hafter with
    | stay => exact Or.inl rfl
    | @step _ b _ rest edge hrest =>
      refine Or.inr ⟨b, edge, rest, hrest, ?_⟩
      intro y hy hm
      rcases List.mem_cons.mp hm with rfl | hm'
      · exact hlast hy
      · have hlater : y ∈ Path.places a ((a, b) :: rest) := Path.mem_places_cons.mpr (Or.inr hy)
        exact hfar y (Path.mem_places_of_suffix hstart hlater) hm'
  · intro h
    rcases h with rfl | ⟨b, edge, hb⟩
    · exact Avoiding.refl ha
    · exact .head ha edge (hb.anti fun y hy => List.mem_cons_of_mem a hy)

/-- With nothing to keep away from, any path will do. -/
theorem avoiding_nil_iff : Avoiding r [] a b ↔ ∃ es, Path r a b es := by
  constructor
  · intro h
    obtain ⟨es, hes, _⟩ := h
    exact ⟨es, hes⟩
  · intro h
    obtain ⟨es, hes⟩ := h
    exact ⟨es, hes, by simp⟩

/-! ### Places on every path -/

/-- Every path from `s` to `b` passes through `a`. -/
def Passes (r : α → α → Prop) (s a b : α) : Prop := ∀ es, Path r s b es → a ∈ Path.places s es

namespace Passes

variable {s d p : α}

theorem refl (r : α → α → Prop) (s b : α) : Passes r s b b := fun _ h => h.end_mem_places

theorem start (r : α → α → Prop) (s b : α) : Passes r s s b :=
  fun es _ => Path.start_mem_places s es

/-- Nothing but the start is passed on the way to the start. -/
theorem eq_start (h : Passes r s a s) : a = s := by
  have hmem := h [] (.stay s)
  simpa [Path.places] using hmem

theorem reachable (h : Passes r s a b) (hb : ∃ es, Path r s b es) : ∃ es, Path r s a es := by
  obtain ⟨es, hes⟩ := hb
  exact hes.exists_to_place (h es hes)

theorem trans (h : Passes r s a d) (h' : Passes r s d b) : Passes r s a b := by
  intro es hes
  obtain ⟨before, after, rfl, hbefore, _, _⟩ := hes.last_departure (h' es hes)
  exact Path.mem_places_of_prefix (h before hbefore)

/-- What is passed on every way to `b` is passed on every way to a place before
    `b`, unless it is `b` itself. -/
theorem pred (h : Passes r s a b) (hne : a ≠ b) (edge : r p b) : Passes r s a p := by
  intro es hes
  have hlonger : Path r s b (es ++ [(p, b)]) := hes.append (.step edge (.stay b))
  rcases hes.places_append_subset (h _ hlonger) with hl | hr
  · exact hl
  · have hp : a = p := by simpa [Path.places, hne] using hr
    rw [hp]
    exact hes.end_mem_places

/-- A place that is not passed on every way can be avoided. -/
theorem exists_avoiding (h : ¬ Passes r s a b) : ∃ es, Path r s b es ∧ a ∉ Path.places s es := by
  unfold Passes at h
  simpa using h

/-- Two places that can be reached are not each on every way to the other. -/
theorem antisymm (hb : ∃ es, Path r s b es) (hab : Passes r s a b) (hba : Passes r s b a) :
    a = b := by
  refine Classical.byContradiction fun hne => ?_
  obtain ⟨es, hes⟩ := hb
  by_cases hs : a = s
  · subst hs
    exact hne hba.eq_start.symm
  · -- Up to its first arrival at `a` the path has met `b`, without having met `a`.
    obtain ⟨before, p, after, rfl, hbefore, hfar, hedge, _⟩ :=
      hes.first_arrival (hab es hes) hs
    have hmeet : b ∈ Path.places s before := hba.pred (Ne.symm hne) hedge before hbefore
    obtain ⟨first, rest, rfl, hfirst, _, _⟩ := hbefore.last_departure hmeet
    exact hfar (Path.mem_places_of_prefix (hab first hfirst))

/-- **Chain**: of two places that are on every way to a third, one is on every way
    to the other. -/
theorem chain (hb : ∃ es, Path r s b es) (ha : Passes r s a b) (hd : Passes r s d b) :
    Passes r s a d ∨ Passes r s d a := by
  refine Classical.byContradiction fun hno => ?_
  rw [not_or] at hno
  obtain ⟨toD, htoD, hfarA⟩ := exists_avoiding hno.1
  obtain ⟨toA, htoA, hfarD⟩ := exists_avoiding hno.2
  obtain ⟨es, hes⟩ := hb
  obtain ⟨_, after, _, _, hafter, hlast⟩ := hes.last_departure (ha es hes)
  by_cases hmeet : d ∈ Path.places a after
  · -- From `d` on the path does not come back to `a`, and `d` is reached without `a`.
    obtain ⟨_, rest, rfl, _, hrest, _⟩ := hafter.last_departure hmeet
    have hda : a ≠ d := fun e => hno.1 (e ▸ refl r s a)
    rcases htoD.places_append_subset (ha _ (htoD.append hrest)) with hl | hr
    · exact hfarA hl
    · rcases List.mem_cons.mp hr with heq | hlater
      · exact hda heq
      · exact hlast (by rw [List.map_append]; exact List.mem_append_right _ hlater)
  · -- From `a` on the path does not meet `d`, and `a` is reached without `d`.
    rcases htoA.places_append_subset (hd _ (htoA.append hafter)) with hl | hr
    · exact hfarD hl
    · exact hmeet hr

end Passes

end SsaFlow
