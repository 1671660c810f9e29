import Mathlib
import SsaFlow.Proofs.LocalFlow

/-! # Wider configurations

    A configuration that lets more through finds all the flow that a stricter one
    finds. Configurations differ in two places only, so the argument starts there.

    * `PartialPolicy.rank` orders the policies, and `PartialPolicy.rank_le_iff` says
      that this is how much they let through.
    * `FlowConfig.Admits`: the steps about which the configuration decides, and
      `FlowConfig.mem_sources_iff`: all others are steps in every configuration.
    * `FlowGraph.closure_mono`: more steps lead at least as far.
    * `FlowGraph.flow_mono`: steps, flow and closures, and where steps differ.
-/

namespace SsaFlow

/-! ### The order of configurations -/

namespace PartialPolicy

/-- How far a policy goes: never, then unless the type is unknown, then always. -/
def rank : PartialPolicy → Nat
  | never => 0
  | unlessUnknown => 1
  | always => 2

/-- A policy goes at most as far as another exactly if it allows no more. -/
theorem rank_le_iff (a b : PartialPolicy) :
    a.rank ≤ b.rank ↔ ∀ unknown, a.allows unknown = true → b.allows unknown = true := by
  cases a <;> cases b <;> decide

end PartialPolicy

namespace FlowConfig

variable {c d : FlowConfig} {i : Instr} {x : InstrId}

/-- The first configuration lets no more through than the second. -/
structure Within (c d : FlowConfig) : Prop where
  /-- Its policy goes at most as far. -/
  partialChi : c.partialChi.rank ≤ d.partialChi.rank
  /-- It tracks conversions only if the second does. -/
  conversions : c.trackConversions = true → d.trackConversions = true

/-- The strictest configuration. -/
def strict : FlowConfig := ⟨.never, false⟩

/-! ### Where configurations decide -/

/-- The configuration lets `x` flow into an instruction in one of the two places
    that are left to it. -/
inductive Admits (c : FlowConfig) (i : Instr) (x : InstrId) : Prop where
  /-- As the possible write of a chi. -/
  | part (total : InstrId) (hop : i.op = .chi total x)
      (hallows : c.partialChi.allows i.ty.isUnknown = true)
  /-- As the operand of a conversion, unless that is one to a derived class. -/
  | converted (how : Conversion) (hop : i.op = .convert how x) (hhow : how ≠ .toDerived)
      (htracks : c.trackConversions = true)

theorem mem_strict_of_chi {total part : InstrId} (hop : i.op = .chi total part) :
    x ∈ strict.sources i ↔ x = total := by
  simp [sources, hop, strict, PartialPolicy.allows]

theorem not_mem_strict_of_convert {how : Conversion} {operand : InstrId}
    (hop : i.op = .convert how operand) : x ∉ strict.sources i := by
  cases how <;> simp [sources, hop, strict]

/-- **Sources**: what flows into an instruction does so in every configuration, or
    because this one admits it. -/
theorem mem_sources_iff : x ∈ c.sources i ↔ x ∈ strict.sources i ∨ c.Admits i x := by
  cases hop : i.op with
  | chi total part =>
    have hadmits : c.Admits i x ↔ x = part ∧ c.partialChi.allows i.ty.isUnknown = true := by
      constructor
      · rintro (⟨total', hop', hallows⟩ | ⟨how, hop', -, -⟩)
        · obtain ⟨-, rfl⟩ := Operation.chi.inj (hop.symm.trans hop')
          exact ⟨rfl, hallows⟩
        · exact absurd (hop.symm.trans hop') (by simp)
      · rintro ⟨rfl, hallows⟩
        exact .part total hop hallows
    rw [mem_strict_of_chi hop, hadmits]
    by_cases hallows : c.partialChi.allows i.ty.isUnknown = true
    · simp [sources, hop, hallows]
    · simp [sources, hop, hallows]
  | convert how operand =>
    have hadmits : c.Admits i x ↔
        x = operand ∧ how ≠ .toDerived ∧ c.trackConversions = true := by
      constructor
      · rintro (⟨total, hop', -⟩ | ⟨how', hop', hhow, htracks⟩)
        · exact absurd (hop.symm.trans hop') (by simp)
        · obtain ⟨rfl, rfl⟩ := Operation.convert.inj (hop.symm.trans hop')
          exact ⟨rfl, hhow, htracks⟩
      · rintro ⟨rfl, hhow, htracks⟩
        exact .converted how hop hhow htracks
    rw [hadmits, or_iff_right (not_mem_strict_of_convert hop)]
    cases how <;> simp [sources, hop, and_comm]
  | _ =>
    -- The other operations do not ask the configuration.
    have hsame : c.sources i = strict.sources i := by simp only [sources, hop]
    have hno : ¬ c.Admits i x := by
      rintro (⟨total, hop', -⟩ | ⟨how, hop', -, -⟩)
      · exact absurd (hop.symm.trans hop') (by simp)
      · exact absurd (hop.symm.trans hop') (by simp)
    rw [hsame]
    exact ⟨Or.inl, fun h => h.resolve_right hno⟩

theorem Within.admits (h : c.Within d) (hadmits : c.Admits i x) : d.Admits i x := by
  cases hadmits with
  | part total hop hallows =>
    exact .part total hop ((PartialPolicy.rank_le_iff _ _).mp h.partialChi _ hallows)
  | converted how hop hhow htracks => exact .converted how hop hhow (h.conversions htracks)

theorem Within.mem_sources (h : c.Within d) (hx : x ∈ c.sources i) : x ∈ d.sources i := by
  rcases mem_sources_iff.mp hx with hstrict | hadmits
  · exact mem_sources_iff.mpr (.inl hstrict)
  · exact mem_sources_iff.mpr (.inr (h.admits hadmits))

/-- **Where two configurations differ**: one lets `x` flow into an instruction and
    the other does not if `x` is a possible write, and not the memory behind it as
    well, and their policies differ on the chi, or if `x` is converted and only one
    tracks conversions. -/
theorem mem_sources_diff_iff :
    x ∈ d.sources i ∧ x ∉ c.sources i ↔
      (∃ total, i.op = .chi total x ∧ total ≠ x ∧ d.partialChi.allows i.ty.isUnknown = true ∧
        c.partialChi.allows i.ty.isUnknown = false) ∨
      ∃ how, i.op = .convert how x ∧ how ≠ .toDerived ∧ d.trackConversions = true ∧
        c.trackConversions = false := by
  rw [mem_sources_iff, mem_sources_iff (c := c), not_or]
  constructor
  · rintro ⟨hd, hstrict, hc⟩
    cases hd.resolve_left hstrict with
    | part total hop hallows =>
      have hne : total ≠ x := fun heq => hstrict ((mem_strict_of_chi hop).mpr heq.symm)
      refine .inl ⟨total, hop, hne, hallows, ?_⟩
      exact Bool.eq_false_iff.mpr fun hallows' => hc (.part total hop hallows')
    | converted how hop hhow htracks =>
      refine .inr ⟨how, hop, hhow, htracks, ?_⟩
      exact Bool.eq_false_iff.mpr fun htracks' => hc (.converted how hop hhow htracks')
  · rintro (⟨total, hop, hne, hallows, hnot⟩ | ⟨how, hop, hhow, htracks, hnot⟩)
    · refine ⟨.inr (.part total hop hallows), fun h => hne ((mem_strict_of_chi hop).mp h).symm, ?_⟩
      rintro (⟨_, _, hallows'⟩ | ⟨_, hop', _, _⟩)
      · rw [hnot] at hallows'
        cases hallows'
      · exact absurd (hop.symm.trans hop') (by simp)
    · refine ⟨.inr (.converted how hop hhow htracks), not_mem_strict_of_convert hop, ?_⟩
      rintro (⟨_, hop', _⟩ | ⟨_, _, _, htracks'⟩)
      · exact absurd (hop.symm.trans hop') (by simp)
      · rw [hnot] at htracks'
        cases htracks'

end FlowConfig

/-! ### Flow under two configurations -/

namespace FlowGraph

variable {p : Program} {c d : FlowConfig} {bound bound' : Option TypeBound} {a b : Node}

theorem step_mono (h : c.Within d) (hstep : Step ⟨p, c, bound⟩ a b) : Step ⟨p, d, bound'⟩ a b := by
  obtain ⟨i, hi, hsource⟩ := step_iff.mp hstep
  exact step_iff.mpr ⟨i, hi, h.mem_sources hsource⟩

/-- The graph of a function has all the steps of the stricter one. -/
theorem edge_steps_mono (h : c.Within d) {k : FuncId}
    (hedge : (steps ⟨p, c, bound⟩ k).Edge a b) : (steps ⟨p, d, bound'⟩ k).Edge a b := by
  unfold steps Digraph.Edge at hedge ⊢
  cases hf : p.function? k with
  | none =>
    simp only [hf] at hedge
    cases hedge
  | some f =>
    simp only [hf, Digraph.edges_ofEdges] at hedge ⊢
    obtain ⟨i, hi, hpair⟩ := List.mem_flatMap.mp hedge
    obtain ⟨hsource, hid⟩ := (mem_stepsInto_iff c i).mp hpair
    exact List.mem_flatMap.mpr ⟨i, hi, (mem_stepsInto_iff d i).mpr ⟨h.mem_sources hsource, hid⟩⟩

/-- More steps lead at least as far. -/
theorem closure_mono (h : c.Within d) (hb : b ∈ closure ⟨p, c, bound⟩ a) :
    b ∈ closure ⟨p, d, bound'⟩ a := by
  -- Both start from the function that the instruction names.
  have hsame : enclosing? ⟨p, c, bound⟩ a = enclosing? ⟨p, d, bound'⟩ a := rfl
  unfold closure at hb ⊢
  rw [hsame] at hb
  cases hk : enclosing? ⟨p, d, bound'⟩ a with
  | none =>
    rw [hk] at hb
    exact hb
  | some k =>
    rw [hk] at hb
    obtain ⟨es, hpath⟩ := (Digraph.mem_reach_iff _ a b).mp hb
    exact (Digraph.mem_reach_iff _ a b).mpr ⟨es, hpath.mono fun x y => edge_steps_mono h⟩

theorem reaches_mono (h : c.Within d) (hab : reaches ⟨p, c, bound⟩ a b = true) :
    reaches ⟨p, d, bound'⟩ a b = true := by
  have hsame : ∀ n, enclosing? ⟨p, c, bound⟩ n = enclosing? ⟨p, d, bound'⟩ n := fun _ => rfl
  unfold reaches at hab ⊢
  by_cases heq : a = b
  · rw [if_pos heq]
  · rw [if_neg heq] at hab ⊢
    rw [hsame a, hsame b] at hab
    cases hk : enclosing? ⟨p, d, bound'⟩ a with
    | none => simp [hk] at hab
    | some k =>
      cases hk' : enclosing? ⟨p, d, bound'⟩ b with
      | none => simp [hk, hk'] at hab
      | some k' =>
        simp only [hk, hk', List.contains_iff_mem, Bool.if_false_right, Bool.and_eq_true,
          decide_eq_true_eq] at hab ⊢
        exact ⟨hab.1, closure_mono h hab.2⟩

/-- Two configurations differ on a step exactly where one of them lets the value flow
    into the instruction and the other does not. -/
theorem isStep_ne_iff (h : c.Within d) :
    isStep ⟨p, c, bound⟩ a b ≠ isStep ⟨p, d, bound'⟩ a b ↔
      ∃ i, p.instr? b.instr = some i ∧ a.instr ∈ d.sources i ∧ a.instr ∉ c.sources i := by
  have hmono : Step ⟨p, c, bound⟩ a b → Step ⟨p, d, bound'⟩ a b := step_mono h
  have hne : isStep ⟨p, c, bound⟩ a b ≠ isStep ⟨p, d, bound'⟩ a b ↔
      Step ⟨p, d, bound'⟩ a b ∧ ¬ Step ⟨p, c, bound⟩ a b := by
    rw [Ne, Bool.eq_iff_iff]
    change ¬ (Step ⟨p, c, bound⟩ a b ↔ Step ⟨p, d, bound'⟩ a b) ↔ _
    tauto
  rw [hne, step_iff, step_iff]
  constructor
  · rintro ⟨⟨i, hi, hsource⟩, hno⟩
    exact ⟨i, hi, hsource, fun hsource' => hno ⟨i, hi, hsource'⟩⟩
  · rintro ⟨i, hi, hsource, hno⟩
    refine ⟨⟨i, hi, hsource⟩, ?_⟩
    rintro ⟨i', hi', hsource'⟩
    obtain rfl := Option.some.inj (hi.symm.trans hi')
    exact hno hsource'

/-- **Wider configurations find more**: in any program, and whatever was asked before,
    a configuration finds all the steps, all the flow and all the nodes from a node
    that a stricter one finds. They differ on a step only where a possible write
    flows into a chi, or where a conversion other than one to a derived class passes
    its operand on. -/
theorem flow_mono (p : Program) (c d : FlowConfig) (h : c.Within d)
    (bound bound' : Option TypeBound) (asked asked' : List Question) (a b : Node) :
    let g : FlowGraph := ⟨p, c, bound⟩
    let g' : FlowGraph := ⟨p, d, bound'⟩
    (g.isStep a b = true → g'.isStep a b = true) ∧
    (g.answerAfter asked (g.flows a b) = true → g'.answerAfter asked' (g'.flows a b) = true) ∧
    (b ∈ g.answerAfter asked (g.reachFrom a) → b ∈ g'.answerAfter asked' (g'.reachFrom a)) ∧
    (g.isStep a b ≠ g'.isStep a b ↔
      ∃ i, p.instr? b.instr = some i ∧
        ((∃ total, i.op = .chi total a.instr ∧ total ≠ a.instr ∧
            d.partialChi.allows i.ty.isUnknown = true ∧
            c.partialChi.allows i.ty.isUnknown = false) ∨
          ∃ how, i.op = .convert how a.instr ∧ how ≠ .toDerived ∧ d.trackConversions = true ∧
            c.trackConversions = false)) := by
  intro g g'
  rw [(g.yields_flows a b).answerAfter, (g'.yields_flows a b).answerAfter,
    (g.yields_reachFrom a).answerAfter, (g'.yields_reachFrom a).answerAfter]
  refine ⟨step_mono h, reaches_mono h, closure_mono h, ?_⟩
  rw [isStep_ne_iff h]
  simp only [FlowConfig.mem_sources_diff_iff]

/-- The steps that build a function in which a flag may be written over another, as
    memory of unknown shape, and the outcome is converted. -/
def overwriteSteps : List SsaFlow.Step :=
  [.program (.function "overwrite"), .function .enterEntry, .block (.constant (.bool true) .bool),
    .block (.constant (.bool false) .bool), .block (.chi ⟨0⟩ ⟨1⟩ .unknown),
    .block (.convert .checked ⟨2⟩ .bool), .block (.terminate .ret), .function .build]

/-- The program with the overwritten flag. -/
def overwrite : Program := (Session.empty.run overwriteSteps).1.program

/-- The flag that may be overwritten flows into the outcome in both configurations. The
    other flag and the conversion make steps in the wider one alone. -/
theorem overwrite_wider :
    let c : FlowConfig := ⟨.unlessUnknown, false⟩
    let d : FlowConfig := ⟨.always, true⟩
    let g : FlowGraph := ⟨overwrite, c, none⟩
    let g' : FlowGraph := ⟨overwrite, d, none⟩
    c.Within d ∧ g'.answerAfter [.successors ⟨⟨1⟩⟩] (g'.flows ⟨⟨0⟩⟩ ⟨⟨2⟩⟩) = true ∧
      (⟨⟨2⟩⟩ : Node) ∈ g'.answerAfter [] (g'.reachFrom ⟨⟨0⟩⟩) ∧
      g.isStep ⟨⟨1⟩⟩ ⟨⟨2⟩⟩ ≠ g'.isStep ⟨⟨1⟩⟩ ⟨⟨2⟩⟩ ∧
      g.isStep ⟨⟨2⟩⟩ ⟨⟨3⟩⟩ ≠ g'.isStep ⟨⟨2⟩⟩ ⟨⟨3⟩⟩ := by
  intro c d g g'
  have hwithin : c.Within d := ⟨by decide, by decide⟩
  have hflows : g.answerAfter [] (g.flows ⟨⟨0⟩⟩ ⟨⟨2⟩⟩) = true := by cbv
  have hreach : (⟨⟨2⟩⟩ : Node) ∈ g.answerAfter [] (g.reachFrom ⟨⟨0⟩⟩) := by
    rw [← List.contains_iff_mem]
    cbv
  have hall := flow_mono overwrite c d hwithin none none []
  refine ⟨hwithin, (hall [.successors ⟨⟨1⟩⟩] ⟨⟨0⟩⟩ ⟨⟨2⟩⟩).2.1 hflows,
    (hall [] ⟨⟨0⟩⟩ ⟨⟨2⟩⟩).2.2.1 hreach, ?_, ?_⟩
  · exact (hall [] ⟨⟨1⟩⟩ ⟨⟨2⟩⟩).2.2.2.mpr
      ⟨_, rfl, .inl ⟨⟨0⟩, rfl, by decide, rfl, rfl⟩⟩
  · exact (hall [] ⟨⟨2⟩⟩ ⟨⟨3⟩⟩).2.2.2.mpr
      ⟨_, rfl, .inr ⟨.checked, rfl, by decide, rfl, rfl⟩⟩

end FlowGraph

end SsaFlow
