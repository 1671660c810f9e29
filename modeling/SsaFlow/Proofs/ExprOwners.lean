import Mathlib
import SsaFlow.Proofs.SaveLoad

/-! # Expressions and their owners

    Ids of expressions are shared by the whole program, but nothing checks it:
    functions with an id in common can be added and pass the check. The last of
    them then answers for all.

    * `Program.Obtained.expr?_eq_last`: which function a look-up asks.
    * `Program.Obtained.stats_exprs`: the count tells whether functions have ids in
      common.
    * `Program.ExprsTold` and `Program.exprsTold_iff`: what ids are expected to tell,
      and what it takes.
-/

namespace SsaFlow

namespace Program

variable {p q : Program} {f : Function} {k : FuncId}

/-! ### Which function answers -/

/-- The last function that has an expression under `e`. -/
def lastWith? (p : Program) (e : ExprId) : Option Function :=
  p.functions.values.reverse.find? fun f => f.exprs.contains e

theorem mem_of_lastWith? {e : ExprId} (h : p.lastWith? e = some f) :
    (∃ k, p.function? k = some f) ∧ e ∈ f.exprs.keys := by
  have hmem : f ∈ p.functions.values := List.mem_reverse.mp (List.mem_of_find?_eq_some h)
  have hhas := List.find?_some (p := fun f : Function => f.exprs.contains e) h
  exact ⟨(p.functions.mem_values_iff f).mp hmem, (f.exprs.contains_iff e).mp hhas⟩

theorem exists_lastWith? {e : ExprId} (hf : p.function? k = some f) (he : e ∈ f.exprs.keys) :
    ∃ g, p.lastWith? e = some g := by
  have hmem : f ∈ p.functions.values.reverse :=
    List.mem_reverse.mpr ((p.functions.mem_values_iff f).mpr ⟨k, hf⟩)
  have hsome := (List.find?_isSome (p := fun f : Function => f.exprs.contains e)).mpr
    ⟨f, hmem, (f.exprs.contains_iff e).mpr he⟩
  exact Option.isSome_iff_exists.mp hsome

/-- The index of expressions leads to the last function that has an id. -/
theorem Obtained.exprOwner_eq (hp : p.Obtained) (e : ExprId) :
    p.exprOwner.find? e = (p.lastWith? e).map Function.id := by
  refine hp.invariant (P := fun p => p.exprOwner.find? e = (p.lastWith? e).map Function.id) rfl ?_
  intro p f q ih hadd
  have hvalues : q.functions.values = p.functions.values ++ [f] := by
    unfold OrderedMap.values
    rw [entries_of_add? hadd, List.map_append]
    rfl
  obtain ⟨rfl, -⟩ := add?_cases hadd
  -- The new function is last, and takes over all the ids that it has.
  have hclaim : (p.insert f).exprOwner.find? e =
      if e ∈ f.exprs.keys then some f.id else p.exprOwner.find? e :=
    find?_claim p.exprOwner f.exprs.keys f.id e
  rw [hclaim]
  unfold lastWith?
  rw [hvalues, List.reverse_append, List.reverse_singleton, List.singleton_append, List.find?_cons]
  by_cases he : e ∈ f.exprs.keys
  · rw [if_pos he, (f.exprs.contains_iff e).mpr he]
    rfl
  · have hnot : f.exprs.contains e = false :=
      Bool.eq_false_iff.mpr fun h => he ((f.exprs.contains_iff e).mp h)
    rw [if_neg he, hnot]
    exact ih

/-- **Which function answers**: the last one that has the id. -/
theorem Obtained.expr?_eq_last (hp : p.Obtained) (e : ExprId) :
    p.expr? e = (p.lastWith? e).bind fun f => f.expr? e := by
  show ((p.exprOwner.find? e).bind fun owner => (p.function? owner).bind fun f => f.expr? e) = _
  rw [hp.exprOwner_eq]
  cases hlast : p.lastWith? e with
  | none => rfl
  | some f =>
    obtain ⟨⟨k, hf⟩, -⟩ := mem_of_lastWith? hlast
    have hid : p.function? f.id = some f := (hp.indexed.filed k f hf).symm ▸ hf
    simp [hid]

/-! ### Counting -/

/-- No two functions have an id of an expression in common. -/
def ExprsApart (p : Program) : Prop :=
  ∀ e k f l g, p.function? k = some f → p.function? l = some g →
    e ∈ f.exprs.keys → e ∈ g.exprs.keys → k = l

/-- The ids of the expressions of all functions, function by function. -/
def exprIds (p : Program) : List ExprId := p.functions.values.flatMap fun f => f.exprs.keys

theorem nodup_exprIds_iff (p : Program) : p.exprIds.Nodup ↔ p.ExprsApart := by
  unfold exprIds
  rw [OrderedMap.nodup_flatMap_iff]
  constructor
  · rintro ⟨-, hone⟩ e k f l g hf hg he he'
    exact hone k f l g e hf hg he he'
  · intro hone
    exact ⟨fun _ f _ => f.exprs.keys_nodup,
      fun k f l g e hf hg he he' => hone e k f l g hf hg he he'⟩

theorem length_exprIds (p : Program) :
    p.exprIds.length = (p.functions.values.map fun f => f.exprs.size).sum := by
  unfold exprIds
  rw [List.length_flatMap]
  simp [OrderedMap.keys, OrderedMap.size]

/-- The index has every id once. -/
theorem Obtained.mem_exprOwner_iff (hp : p.Obtained) (e : ExprId) :
    e ∈ p.exprOwner.keys ↔ e ∈ p.exprIds := by
  rw [OrderedMap.mem_keys_iff, hp.exprOwner_eq]
  unfold exprIds
  rw [List.mem_flatMap]
  constructor
  · rintro ⟨k, hk⟩
    obtain ⟨f, hlast, -⟩ := Option.map_eq_some_iff.mp hk
    obtain ⟨⟨l, hf⟩, he⟩ := mem_of_lastWith? hlast
    exact ⟨f, (p.functions.mem_values_iff f).mpr ⟨l, hf⟩, he⟩
  · rintro ⟨f, hf, he⟩
    obtain ⟨l, hl⟩ := (p.functions.mem_values_iff f).mp hf
    obtain ⟨g, hg⟩ := exists_lastWith? hl he
    exact ⟨g.id, by rw [hg]; rfl⟩

/-- The count of expressions is at most the sum over the functions, and is the sum
    exactly if no two functions have an id in common. -/
theorem Obtained.stats_exprs (hp : p.Obtained) :
    p.stats.exprs ≤ (p.functions.values.map fun f => f.exprs.size).sum ∧
      (p.stats.exprs = (p.functions.values.map fun f => f.exprs.size).sum ↔ p.ExprsApart) := by
  have hsize : p.stats.exprs = p.exprOwner.keys.length := (List.length_map _).symm
  have hsub : p.exprOwner.keys.Subperm p.exprIds :=
    List.subperm_of_subset p.exprOwner.keys_nodup fun e he => (hp.mem_exprOwner_iff e).mp he
  rw [hsize, ← length_exprIds, ← nodup_exprIds_iff]
  refine ⟨hsub.length_le, ?_, ?_⟩
  · intro hlength
    have hperm := hsub.perm_of_length_le hlength.ge
    exact hperm.nodup_iff.mp p.exprOwner.keys_nodup
  · intro hnodup
    have hperm := (List.perm_ext_iff_of_nodup p.exprOwner.keys_nodup hnodup).mpr
      hp.mem_exprOwner_iff
    exact hperm.length_eq

/-! ### What ids tell -/

/-- What ids of expressions are expected to tell. -/
structure ExprsTold (p : Program) : Prop where
  /-- An id is one of a single function. -/
  apart : p.ExprsApart
  /-- An expression is stored under its id. -/
  filed : ∀ k f e x, p.function? k = some f → f.expr? e = some x → x.id = e
  /-- What an instruction is bound to is found, and is the expression of its own
      function. -/
  bound : ∀ k f i inst e, p.function? k = some f → f.instr? i = some inst →
    inst.expr = some e → ∃ x, f.expr? e = some x ∧ p.expr? e = some x
  /-- Every function's expressions are counted. -/
  counted : p.stats.exprs = (p.functions.values.map fun f => f.exprs.size).sum

/-- A function that alone has an id answers for it. -/
theorem Obtained.expr?_eq_own (hp : p.Obtained) (hf : p.function? k = some f) {e : ExprId}
    (he : e ∈ f.exprs.keys)
    (halone : ∀ l g, p.function? l = some g → e ∈ g.exprs.keys → l = k) :
    p.expr? e = f.expr? e := by
  obtain ⟨g, hlast⟩ := exists_lastWith? hf he
  obtain ⟨⟨l, hg⟩, he'⟩ := mem_of_lastWith? hlast
  obtain rfl := halone l g hg he'
  obtain rfl := Option.some.inj (hf.symm.trans hg)
  rw [hp.expr?_eq_last, hlast]
  rfl

/-- **What the check leaves open.** In a program that was obtained without edits and
    passes, what an instruction is bound to is found both in its function and in
    the program. In the program the last function that has the id answers, so it is
    the same expression if no other function has the id. The count of expressions
    is at most the sum over the functions, and is the sum exactly if functions have
    no id in common. All that is expected of ids takes this, and that expressions
    are stored under their ids. -/
theorem exprsTold_iff (p : Program) (hp : p.Obtained) (hv : p.validate = .ok ()) :
    (∀ e, p.expr? e = (p.lastWith? e).bind fun f => f.expr? e) ∧
    (∀ k f i inst e, p.function? k = some f → f.instr? i = some inst → inst.expr = some e →
      (∃ x, f.expr? e = some x) ∧ (∃ y, p.expr? e = some y) ∧
        ((∀ l g, p.function? l = some g → e ∈ g.exprs.keys → l = k) → p.expr? e = f.expr? e)) ∧
    p.stats.exprs ≤ (p.functions.values.map fun f => f.exprs.size).sum ∧
    (p.stats.exprs = (p.functions.values.map fun f => f.exprs.size).sum ↔ p.ExprsApart) ∧
    (p.ExprsTold ↔ p.ExprsApart ∧
      ∀ k f e x, p.function? k = some f → f.expr? e = some x → x.id = e) := by
  have hkey : ∀ k f i inst e, p.function? k = some f → f.instr? i = some inst →
      inst.expr = some e → e ∈ f.exprs.keys := by
    intro k f i inst e hf hi he
    have hsound : f.Sound p := (hp.wellFormed hv).sound k f hf
    exact (f.exprs.contains_iff e).mp (hsound.bound i inst hi e he)
  obtain ⟨hle, hcount⟩ := hp.stats_exprs
  refine ⟨hp.expr?_eq_last, ?_, hle, hcount, ?_, ?_⟩
  · intro k f i inst e hf hi he
    have hmem := hkey k f i inst e hf hi he
    refine ⟨(f.exprs.mem_keys_iff e).mp hmem, ?_, hp.expr?_eq_own hf hmem⟩
    -- Some function has the id, so there is a last one that has it.
    obtain ⟨g, hlast⟩ := exists_lastWith? hf hmem
    obtain ⟨-, he'⟩ := mem_of_lastWith? hlast
    rw [hp.expr?_eq_last, hlast]
    exact (g.exprs.mem_keys_iff e).mp he'
  · intro h
    exact ⟨h.apart, h.filed⟩
  · rintro ⟨hapart, hfiled⟩
    refine ⟨hapart, hfiled, ?_, hcount.mpr hapart⟩
    intro k f i inst e hf hi he
    have hmem := hkey k f i inst e hf hi he
    obtain ⟨x, hx⟩ := (f.exprs.mem_keys_iff e).mp hmem
    have hown := hp.expr?_eq_own hf hmem fun l g hg he' => hapart e l g k f hg hf he' hmem
    exact ⟨x, hx, hown.trans hx⟩

/-- A function that returns at once, bound to an expression that is stored under
    `key`. -/
def quoting (n : UInt32) (name : String) (key : ExprId) (expr : Expr) : Function where
  id := ⟨n⟩
  signature := ⟨name, [], .void, none⟩
  entry := ⟨0⟩
  blocks := .ofList [(⟨0⟩, ⟨⟨0⟩, [⟨n⟩], .ret⟩)]
  instrs := .ofList [(⟨n⟩, ⟨⟨n⟩, ⟨n⟩, ⟨0⟩, .ret none, .void, some key, .unknown⟩)]
  exprs := .ofList [(key, expr)]
  nextBlock := 1

/-- Two such functions. The first has its expression under `e0`. -/
def quotes (key : ExprId) (expr : Expr) : Program :=
  (empty.insert (quoting 0 "a" ⟨0⟩ ⟨⟨0⟩, .other, "x", .unknown⟩)).insert (quoting 1 "b" key expr)

theorem obtained_quotes (key : ExprId) (expr : Expr) : (quotes key expr).Obtained := by
  have hfirst : empty.add? (quoting 0 "a" ⟨0⟩ ⟨⟨0⟩, .other, "x", .unknown⟩) =
      .ok (empty.insert (quoting 0 "a" ⟨0⟩ ⟨⟨0⟩, .other, "x", .unknown⟩)) := rfl
  have hsecond : (empty.insert (quoting 0 "a" ⟨0⟩ ⟨⟨0⟩, .other, "x", .unknown⟩)).add?
      (quoting 1 "b" key expr) = .ok (quotes key expr) := rfl
  exact .extended (.extended (.built []) hfirst) hsecond

/-- With ids of their own, all is as expected. -/
theorem quotes_told : (quotes ⟨1⟩ ⟨⟨1⟩, .other, "y", .unknown⟩).ExprsTold := by
  obtain ⟨-, -, -, hcount, htold⟩ :=
    exprsTold_iff _ (obtained_quotes ⟨1⟩ ⟨⟨1⟩, .other, "y", .unknown⟩) rfl
  refine htold.mpr ⟨hcount.mp rfl, ?_⟩
  have hfiled : ∀ f ∈ (quotes ⟨1⟩ ⟨⟨1⟩, .other, "y", .unknown⟩).functions.values,
      ∀ entry ∈ f.exprs.entries, entry.2.id = entry.1 := by
    decide
  intro k f e x hf hx
  exact hfiled f ((OrderedMap.mem_values_iff _ f).mpr ⟨k, hf⟩) (e, x)
    ((f.exprs.find?_eq_some_iff e x).mp hx)

/-- The second function may have the same id as the first, and for an expression of
    another id: the program can be loaded and passes, finds the second expression
    for both, and counts one. -/
theorem quotes_shared_passes :
    ∃ p text, load text = .ok p ∧ p.validate = .ok () ∧
      p.function? ⟨0⟩ = some (quoting 0 "a" ⟨0⟩ ⟨⟨0⟩, .other, "x", .unknown⟩) ∧
      p.function? ⟨1⟩ = some (quoting 1 "b" ⟨0⟩ ⟨⟨3⟩, .other, "y", .unknown⟩) ∧
      p.expr? ⟨0⟩ = some ⟨⟨3⟩, .other, "y", .unknown⟩ ∧
      p.stats.exprs = 1 ∧ ¬ p.ExprsTold := by
  have hobtained := obtained_quotes ⟨0⟩ ⟨⟨3⟩, .other, "y", .unknown⟩
  have hnests : Json.nesting (quotes ⟨0⟩ ⟨⟨3⟩, .other, "y", .unknown⟩).save ≤ Json.maxNesting := by
    rw [nesting_save]
    decide +kernel
  refine ⟨_, _, hobtained.rebuilt.load_save hnests, rfl, rfl, rfl, rfl, rfl, ?_⟩
  intro htold
  have hone := htold.counted
  revert hone
  decide

end Program

end SsaFlow
