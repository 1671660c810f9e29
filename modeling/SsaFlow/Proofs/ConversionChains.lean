import Mathlib
import SsaFlow.Flow.Projection
import SsaFlow.Proofs.ExprOwners
import SsaFlow.Proofs.SessionHistory

/-! # Chains of conversions

    To see what an instruction computes, conversions are followed to the expression
    that they wrap. Nothing keeps their operands from leading round in a circle, so the
    search remembers what it has met.

    * `Program.Converts`: one link of a chain. A conversion has one operand, so there is
      one chain from an expression.
    * `Program.BareFrom` and `Program.Broken`: a chain ends in an expression that is no
      conversion, or it does not.
    * `Program.Round`: one round of the search, and `Program.wellFounded_round`: there
      is no endless search.
    * `Program.stripFrom_eq_some_iff`, `Program.stripFrom_eq_none_iff`: the search finds
      the end of the chain. What it has met lies before it on the chain, so coming to
      one of these again means a cycle.
    * `FlowGraph.stripping_iff_chain`: what a node computes.
-/

namespace SsaFlow

open Relation (ReflTransGen TransGen)

namespace Program

variable {p : Program} {x y z : ExprId} {e : Expr} {met : Visited ExprId}

/-! ### Chains -/

/-- The expression of `x` is a conversion of that of `y`. -/
def Converts (p : Program) (x y : ExprId) : Prop :=
  ∃ e, p.expr? x = some e ∧ e.kind = .conversion (some y)

/-- A conversion has one operand. -/
theorem converts_rightUnique (p : Program) : Relator.RightUnique p.Converts := by
  rintro x y z ⟨e, he, hy⟩ ⟨e', he', hz⟩
  obtain rfl := Option.some.inj (he.symm.trans he')
  exact Option.some.inj (ExprKind.conversion.inj (hy.symm.trans hz))

/-- The chain from `x` ends in `e`, which is no conversion. -/
def BareFrom (p : Program) (x : ExprId) (e : Expr) : Prop :=
  ∃ y, ReflTransGen p.Converts x y ∧ p.expr? y = some e ∧ e.kind = .other

/-- The chain from `x` does not end in an expression that is no conversion. -/
inductive Broken (p : Program) (x : ExprId) : Prop where
  /-- An expression is missing. -/
  | missing (y : ExprId) (chain : ReflTransGen p.Converts x y) (hy : p.expr? y = none)
  /-- It ends in a conversion without an operand. -/
  | loose (y : ExprId) (e : Expr) (chain : ReflTransGen p.Converts x y) (hy : p.expr? y = some e)
      (hkind : e.kind = .conversion none)
  /-- It leads round in a circle. -/
  | cyclic (y : ExprId) (chain : ReflTransGen p.Converts x y) (circle : TransGen p.Converts y y)

theorem BareFrom.of_converts (hxy : p.Converts x y) (h : p.BareFrom y e) : p.BareFrom x e := by
  obtain ⟨z, chain, hz⟩ := h
  exact ⟨z, .head hxy chain, hz⟩

theorem Broken.of_converts (hxy : p.Converts x y) (h : p.Broken y) : p.Broken x := by
  cases h with
  | missing z chain hz => exact .missing z (.head hxy chain) hz
  | loose z e chain hz hkind => exact .loose z e (.head hxy chain) hz hkind
  | cyclic z chain circle => exact .cyclic z (.head hxy chain) circle

/-- The chain goes no further than `y`. -/
def Ends (p : Program) (y : ExprId) : Prop := ∀ z, ¬ p.Converts y z

theorem ends_of_missing (hy : p.expr? y = none) : p.Ends y := by
  rintro z ⟨e, he, -⟩
  rw [hy] at he
  cases he

theorem ends_of_kind (hy : p.expr? y = some e) (hkind : ∀ z, e.kind ≠ .conversion (some z)) :
    p.Ends y := by
  rintro z ⟨d, hd, hconversion⟩
  obtain rfl := Option.some.inj (hy.symm.trans hd)
  exact hkind z hconversion

/-- From an end only the end itself can be reached. -/
theorem Ends.eq_of_chain (hy : p.Ends y) (chain : ReflTransGen p.Converts y z) : z = y := by
  rcases chain.cases_head with heq | ⟨w, hstep, -⟩
  · exact heq.symm
  · exact absurd hstep (hy w)

/-- A chain has one end. -/
theorem Ends.unique (hy : p.Ends y) (hz : p.Ends z) (chain : ReflTransGen p.Converts x y)
    (chain' : ReflTransGen p.Converts x z) : y = z := by
  rcases ReflTransGen.total_of_right_unique p.converts_rightUnique chain chain' with hyz | hzy
  · exact (hy.eq_of_chain hyz).symm
  · exact hz.eq_of_chain hzy

/-- A chain that ends does not start on a circle. -/
theorem Ends.not_circle (hy : p.Ends y) (chain : ReflTransGen p.Converts x y) :
    ¬ TransGen p.Converts x x := by
  -- The first link of the circle is the first link of the chain, so the circle can be
  -- moved along the chain to its end.
  induction chain using ReflTransGen.head_induction_on with
  | refl =>
    intro circle
    obtain ⟨w, hstep, -⟩ := TransGen.head'_iff.mp circle
    exact hy w hstep
  | @head x w hstep _ ih =>
    intro circle
    obtain ⟨w', hstep', back⟩ := TransGen.head'_iff.mp circle
    obtain rfl := p.converts_rightUnique hstep hstep'
    exact ih (.tail' back hstep)

theorem BareFrom.unique {d : Expr} (h : p.BareFrom x e) (h' : p.BareFrom x d) : e = d := by
  obtain ⟨y, chain, hy, hkind⟩ := h
  obtain ⟨z, chain', hz, hkind'⟩ := h'
  have hend : p.Ends y := ends_of_kind hy (by simp [hkind])
  have hend' : p.Ends z := ends_of_kind hz (by simp [hkind'])
  obtain rfl := hend.unique hend' chain chain'
  exact Option.some.inj (hy.symm.trans hz)

/-- A chain that ends in an expression that is no conversion is not broken. -/
theorem BareFrom.not_broken (h : p.BareFrom x e) : ¬ p.Broken x := by
  obtain ⟨y, chain, hy, hkind⟩ := h
  have hend : p.Ends y := ends_of_kind hy (by simp [hkind])
  intro hbroken
  cases hbroken with
  | missing z chain' hz =>
    obtain rfl := hend.unique (ends_of_missing hz) chain chain'
    rw [hy] at hz
    cases hz
  | loose z d chain' hz hloose =>
    obtain rfl := hend.unique (ends_of_kind hz (by simp [hloose])) chain chain'
    obtain rfl := Option.some.inj (hy.symm.trans hz)
    rw [hkind] at hloose
    cases hloose
  | cyclic z chain' circle =>
    rcases ReflTransGen.total_of_right_unique p.converts_rightUnique chain chain' with hyz | hzy
    · obtain rfl := hend.eq_of_chain hyz
      exact hend.not_circle .refl circle
    · exact hend.not_circle hzy circle

/-! ### The search -/

/-- One round of the search: what has been met, and where it stands, before and after. -/
def Round (p : Program) (s t : Visited ExprId × ExprId) : Prop :=
  ∃ e, p.expr? s.2 = some e ∧ e.id ∉ s.1.members ∧ e.kind = .conversion (some t.2) ∧
    t.1 = s.1.add e.id

/-- After a round the search goes on from where it stands then. -/
theorem stripFrom_of_round {s t : Visited ExprId × ExprId} (h : p.Round s t) :
    p.stripFrom s.1 s.2 = p.stripFrom t.1 t.2 := by
  obtain ⟨e, he, hmet, hkind, hadd⟩ := h
  have hnew : ¬ s.1.contains e.id = true := fun hm => hmet ((s.1.contains_iff e.id).mp hm)
  rw [hadd, stripFrom]
  split
  · next hnone =>
    rw [he] at hnone
    cases hnone
  · next d hd =>
    obtain rfl := Option.some.inj (he.symm.trans hd)
    rw [dif_neg hnew, hkind]

/-- **No search is endless**: the expressions that have not been met become fewer. -/
theorem wellFounded_round (p : Program) : WellFounded fun t s => p.Round s t := by
  refine Subrelation.wf ?_ (measure fun s : Visited ExprId × ExprId => p.unmet s.1.members).wf
  rintro t s ⟨e, he, hmet, -, heq⟩
  show p.unmet t.1.members < p.unmet s.1.members
  rw [heq, Visited.members_add]
  exact unmet_lt he hmet

/-- What the search finds ends the chain. -/
theorem bareFrom_of_stripFrom (h : p.stripFrom met x = some e) : p.BareFrom x e := by
  fun_induction p.stripFrom met x with
  | case1 met x hx => cases h
  | case2 met x d hx hmet => cases h
  | case3 met x d hx hmet hkind =>
    obtain rfl := Option.some.inj h
    exact ⟨x, .refl, hx, hkind⟩
  | case4 met x d hx hmet hkind => cases h
  | case5 met x d hx hmet operand hkind ih => exact (ih h).of_converts ⟨d, hx, hkind⟩

/-- If the search finds nothing, the chain is broken. -/
theorem broken_of_stripFrom (hfiled : ∀ x e, p.expr? x = some e → e.id = x)
    (hmet : ∀ y ∈ met.members, TransGen p.Converts y x) (h : p.stripFrom met x = none) :
    p.Broken x := by
  fun_induction p.stripFrom met x with
  | case1 met x hx => exact .missing x .refl hx
  | case2 met x d hx hseen =>
    -- The expression lies before itself on the chain.
    have hmem := (met.contains_iff d.id).mp hseen
    rw [hfiled x d hx] at hmem
    exact .cyclic x .refl (hmet x hmem)
  | case3 met x d hx hseen hkind => cases h
  | case4 met x d hx hseen hkind => exact .loose x d .refl hx hkind
  | case5 met x d hx hseen operand hkind ih =>
    have hstep : p.Converts x operand := ⟨d, hx, hkind⟩
    refine (ih ?_ h).of_converts hstep
    intro y hy
    rw [Visited.members_add, hfiled x d hx] at hy
    rcases List.mem_cons.mp hy with rfl | hbefore
    · exact .single hstep
    · exact (hmet y hbefore).tail hstep

/-- **The search finds the end of the chain.** -/
theorem stripFrom_eq_some_iff (hfiled : ∀ x e, p.expr? x = some e → e.id = x) :
    p.stripFrom .none x = some e ↔ p.BareFrom x e := by
  refine ⟨bareFrom_of_stripFrom, fun hbare => ?_⟩
  cases hstrip : p.stripFrom .none x with
  | none => exact absurd (broken_of_stripFrom hfiled (by simp) hstrip) hbare.not_broken
  | some d => rw [(bareFrom_of_stripFrom hstrip).unique hbare]

/-- It finds nothing exactly if the chain is broken. -/
theorem stripFrom_eq_none_iff (hfiled : ∀ x e, p.expr? x = some e → e.id = x) :
    p.stripFrom .none x = none ↔ p.Broken x := by
  refine ⟨broken_of_stripFrom hfiled (by simp), fun hbroken => ?_⟩
  cases hstrip : p.stripFrom .none x with
  | none => rfl
  | some e => exact absurd hbroken (bareFrom_of_stripFrom hstrip).not_broken

/-! ### Expressions in their places -/

/-- Every expression is stored under its own id, and in one function only. -/
structure ExprsInPlace (p : Program) : Prop where
  /-- The key of an expression is its id. -/
  filed : ∀ k f x e, p.function? k = some f → f.expr? x = some e → e.id = x
  /-- No two functions have an id in common. -/
  apart : p.ExprsApart

/-- What the program finds, a function stores. -/
theorem exists_function_of_expr? (h : p.expr? x = some e) :
    ∃ k f, p.function? k = some f ∧ f.expr? x = some e := by
  unfold expr? at h
  obtain ⟨k, -, hk⟩ := Option.bind_eq_some_iff.mp h
  obtain ⟨f, hf, hx⟩ := Option.bind_eq_some_iff.mp hk
  exact ⟨k, f, hf, hx⟩

theorem ExprsInPlace.id_of_expr? (hp : p.ExprsInPlace) (x : ExprId) (e : Expr)
    (h : p.expr? x = some e) : e.id = x := by
  obtain ⟨k, f, hf, hx⟩ := exists_function_of_expr? h
  exact hp.filed k f x e hf hx

/-- In a program that was obtained without edits, it finds all that is stored. -/
theorem ExprsInPlace.expr?_eq_some_iff (hp : p.ExprsInPlace) (hobtained : p.Obtained) :
    p.expr? x = some e ↔ ∃ k f, p.function? k = some f ∧ f.expr? x = some e := by
  refine ⟨exists_function_of_expr?, ?_⟩
  rintro ⟨k, f, hf, hx⟩
  have hkey : x ∈ f.exprs.keys := (f.exprs.mem_keys_iff x).mpr ⟨e, hx⟩
  rw [hobtained.expr?_eq_own hf hkey fun l g hg hkey' => hp.apart x l g k f hg hf hkey' hkey]
  exact hx

end Program

/-- Whatever the steps of a session, the program that it built has its expressions in
    their places, if the counters fit into ids. -/
theorem Session.exprsInPlace_run (steps : List Step)
    (hroom : (empty.run steps).1.context.InRange) :
    (empty.run steps).1.program.ExprsInPlace := by
  obtain ⟨horder, -⟩ := inOrder_run (s := empty) (h := ⟨[], [], []⟩) steps
    (fun _ => ⟨inOrder_empty, rfl, rfl, rfl⟩) hroom
  have haccounts := horder.accounts_built
  constructor
  · intro k f x e hf hx
    exact (haccounts.tidy f ((OrderedMap.mem_values_iff _ f).mpr ⟨k, hf⟩)).exprs x e hx
  · exact (Program.nodup_exprIds_iff _).mp haccounts.exprs.once

/-! ### Nodes -/

namespace FlowGraph

/-- The expression to which the instruction of a node is bound. -/
def link? (g : FlowGraph) (n : Node) : Option ExprId := (g.instr? n).bind Instr.expr

theorem bareExpr?_eq (g : FlowGraph) (n : Node) :
    g.bareExpr? n = (g.link? n).bind (g.program.stripFrom .none) := by
  unfold bareExpr? link?
  rw [Option.bind_assoc]
  rfl

/-- **What a node computes, without conversions.** In every program whose expressions
    are stored under their ids and in one function each, as those of a session are, the
    search ends, on circles too: there is no endless row of rounds. It finds the
    expression that is no conversion and to which conversions lead from what the node
    is bound to. It finds nothing exactly if the node is bound to nothing, or on the
    way an expression is missing, or the way ends in a conversion without an operand,
    or leads round in a circle. Where nothing was edited, what is looked up on the way
    is what the functions store. -/
theorem stripping_iff_chain :
    (∀ steps : List SsaFlow.Step, (Session.empty.run steps).1.context.InRange →
      (Session.empty.run steps).1.program.ExprsInPlace) ∧
    ∀ g : FlowGraph, g.program.ExprsInPlace → ∀ n : Node,
      ((WellFounded fun t s => g.program.Round s t) ∧ ∀ s t, g.program.Round s t →
        g.program.stripFrom s.1 s.2 = g.program.stripFrom t.1 t.2) ∧
      (∀ e, g.bareExpr? n = some e ↔
        ∃ x y, g.link? n = some x ∧ ReflTransGen g.program.Converts x y ∧
          g.program.expr? y = some e ∧ e.kind = .other) ∧
      (g.bareExpr? n = none ↔ g.link? n = none ∨
        ∃ x y, g.link? n = some x ∧ ReflTransGen g.program.Converts x y ∧
          (g.program.expr? y = none ∨
            (∃ e, g.program.expr? y = some e ∧ e.kind = .conversion none) ∨
            TransGen g.program.Converts y y)) ∧
      (g.program.Obtained → ∀ x e, g.program.expr? x = some e ↔
        ∃ k f, g.program.function? k = some f ∧ f.expr? x = some e) := by
  refine ⟨Session.exprsInPlace_run, fun g hplace n => ?_⟩
  have hfiled := hplace.id_of_expr?
  refine ⟨⟨g.program.wellFounded_round, fun _ _ => Program.stripFrom_of_round⟩, ?_, ?_,
    fun hobtained x e => hplace.expr?_eq_some_iff hobtained⟩
  · intro e
    rw [bareExpr?_eq, Option.bind_eq_some_iff]
    simp only [Program.stripFrom_eq_some_iff hfiled, Program.BareFrom, ← exists_and_left]
  · rw [bareExpr?_eq]
    cases hlink : g.link? n with
    | none => simp
    | some x =>
      rw [Option.bind_some, Program.stripFrom_eq_none_iff hfiled]
      constructor
      · rintro (⟨y, chain, hy⟩ | ⟨y, e, chain, hy, hkind⟩ | ⟨y, chain, circle⟩)
        · exact .inr ⟨x, y, rfl, chain, .inl hy⟩
        · exact .inr ⟨x, y, rfl, chain, .inr (.inl ⟨e, hy, hkind⟩)⟩
        · exact .inr ⟨x, y, rfl, chain, .inr (.inr circle)⟩
      · rintro (hnone | ⟨x', y, hx', chain, hy | ⟨e, hy, hkind⟩ | circle⟩)
        · cases hnone
        · obtain rfl := Option.some.inj hx'
          exact .missing y chain hy
        · obtain rfl := Option.some.inj hx'
          exact .loose y e chain hy hkind
        · obtain rfl := Option.some.inj hx'
          exact .cyclic y chain circle

/-- The steps that build a function with three constants. The first is bound to a
    variable that is converted twice, the second to one of two conversions of each
    other, the third to a conversion without an operand. -/
def wrapSteps : List SsaFlow.Step :=
  [.program (.function "wrap"), .function .enterEntry, .block (.constant (.bool true) .bool),
    .block (.constant (.bool true) .bool), .block (.constant (.bool true) .bool),
    .block (.expr .other "x"), .block (.expr (.conversion (some ⟨0⟩)) "(int) x"),
    .block (.expr (.conversion (some ⟨1⟩)) "(bool) (int) x"), .block (.bind ⟨0⟩ ⟨2⟩),
    .block (.expr (.conversion (some ⟨4⟩)) "y"), .block (.expr (.conversion (some ⟨3⟩)) "z"),
    .block (.bind ⟨1⟩ ⟨3⟩), .block (.expr (.conversion none) "w"), .block (.bind ⟨2⟩ ⟨5⟩),
    .block (.terminate .ret), .function .build]

/-- The function as a flow graph. -/
def wraps : FlowGraph := ⟨(Session.empty.run wrapSteps).1.program, .standard, none⟩

/-- The first node computes the variable. The circle and the conversion without an
    operand leave the others with nothing, though the program passes the check. -/
theorem wraps_stripped :
    wraps.program.validate = .ok () ∧ wraps.program.ExprsInPlace ∧
      wraps.bareExpr? ⟨⟨0⟩⟩ = some ⟨⟨0⟩, .other, "x", .unknown⟩ ∧
      TransGen wraps.program.Converts ⟨3⟩ ⟨3⟩ ∧ wraps.bareExpr? ⟨⟨1⟩⟩ = none ∧
      wraps.bareExpr? ⟨⟨2⟩⟩ = none := by
  have hplace : wraps.program.ExprsInPlace :=
    stripping_iff_chain.1 wrapSteps ⟨by decide, by decide, by decide⟩
  have hchain := stripping_iff_chain.2 wraps hplace
  have circle : TransGen wraps.program.Converts ⟨3⟩ ⟨3⟩ :=
    .head (b := ⟨4⟩) ⟨_, rfl, rfl⟩ (.single ⟨_, rfl, rfl⟩)
  refine ⟨rfl, hplace, ?_, circle, ?_, ?_⟩
  · have chain : ReflTransGen wraps.program.Converts ⟨2⟩ ⟨0⟩ :=
      .head (b := ⟨1⟩) ⟨_, rfl, rfl⟩ (.single ⟨_, rfl, rfl⟩)
    exact ((hchain ⟨⟨0⟩⟩).2.1 _).mpr ⟨⟨2⟩, ⟨0⟩, rfl, chain, rfl, rfl⟩
  · exact (hchain ⟨⟨1⟩⟩).2.2.1.mpr (.inr ⟨⟨3⟩, ⟨3⟩, rfl, .refl, .inr (.inr circle)⟩)
  · exact (hchain ⟨⟨2⟩⟩).2.2.1.mpr (.inr ⟨⟨5⟩, ⟨5⟩, rfl, .refl, .inr (.inl ⟨_, rfl, rfl⟩)⟩)

end FlowGraph

end SsaFlow
