import SsaFlow.Proofs.TidyFunctions
import SsaFlow.Proofs.Validation

/-! # Programs that a session finishes

    What a session hands over has passed the check. The check does not look at
    signatures: that an instruction reads a parameter which is there is up to the
    steps of the session, which look before they emit, and never take a parameter or
    the receiver back.

    * `Function.Supplied`: the signature has what the instructions read, and
      `Function.Supplied.move`: every move of construction keeps it so.
    * `Program.Finished` and `Session.finished_of_finish`: what is known of a
      finished program.

    Nothing here depends on how many ids were given out.
-/

namespace SsaFlow

/-! ### Parameters that are read -/

/-- The signature of a function has every parameter, and the receiver, that its
    instructions read. -/
def Function.Supplied (f : Function) : Prop :=
  ∀ i inst, f.instr? i = some inst → f.signature.Covers inst.op

namespace Function.Supplied

variable {f g : Function}

theorem fresh (id : FuncId) (name : String) : (Function.fresh id name).Supplied := by
  intro i inst hi
  cases hi

/-- A change that leaves the instructions alone, to a signature that covers no less. -/
theorem of_same (h : f.Supplied) (hinstrs : g.instrs = f.instrs)
    (hcovers : ∀ op, f.signature.Covers op → g.signature.Covers op) : g.Supplied := by
  intro i inst hi
  unfold instr? at hi
  rw [hinstrs] at hi
  apply hcovers
  exact h i inst hi

/-- A change to one instruction after which it reads nothing more. -/
theorem adjustInstr {d : Draft} {i : InstrId} {change : Instr → Instr} (h : d.function.Supplied)
    (hcovers : ∀ old, d.function.signature.Covers old.op →
      d.function.signature.Covers (change old).op) :
    (d.adjustInstr i change).function.Supplied := by
  intro j inst hj
  have hfind : (d.function.instrs.adjust i change).find? j = some inst := hj
  rw [OrderedMap.find?_adjust] at hfind
  show d.function.signature.Covers inst.op
  split at hfind
  · obtain ⟨old, hold, rfl⟩ := Option.map_eq_some_iff.mp hfind
    apply hcovers
    exact h j old hold
  · exact h j inst hfind

/-- **One move** keeps all parameters that are read. -/
theorem move {t : Step} {cursor : Option Cursor} {w w' : Workbench}
    (hmove : Workbench.Move t cursor w w') (h : w.draft.function.Supplied) :
    w'.draft.function.Supplied := by
  cases hmove with
  | addParam name ty => exact h.of_same rfl fun op => Function.covers_addParam _ _
  | sign change hname hcovers => exact h.of_same rfl (hcovers _)
  | addExpr kind text location => exact h.of_same rfl fun _ hop => hop
  | bind hbind =>
    obtain rfl := Draft.bind_cases hbind
    exact h.adjustInstr fun _ hop => hop
  | addIncoming hadd =>
    -- A phi reads neither parameters nor the receiver.
    obtain ⟨incoming, rfl⟩ := Draft.addIncoming_cases hadd
    exact h.adjustInstr fun _ _ => trivial
  | newBlock _ hnew =>
    obtain ⟨-, -, rfl⟩ := Draft.newBlock?_cases hnew
    exact h.of_same rfl fun _ hop => hop
  | @enter b hb =>
    rcases w.draft.function_enter b with heq | heq
    · rw [heq]
      exact h
    · rw [heq]
      exact h.of_same rfl fun _ hop => hop
  | @emit c hc op ty hop =>
    intro i inst hi
    show w.draft.function.signature.Covers inst.op
    rw [Workbench.instr?_emit] at hi
    split at hi
    · obtain rfl := Option.some.inj hi
      exact hop
    · exact h i inst hi
  | terminate hc hend =>
    obtain ⟨-, rfl⟩ := Draft.terminate_cases hend
    exact h.of_same rfl fun _ hop => hop

end Function.Supplied

/-! ### Finished programs -/

/-- What is known of a program that a session finished. -/
structure Program.Finished (p : Program) : Prop extends p.WellFormed where
  /-- It was obtained without edits. -/
  obtained : p.Obtained
  /-- The parameters that are read are there. -/
  supplied : ∀ k f, p.function? k = some f → f.Supplied
  /-- Expressions are stored under their ids. -/
  exprs : ∀ k f e x, p.function? k = some f → f.expr? e = some x → x.id = e

namespace Session

variable {s : Session} {p : Program}

/-- What is handed over is the program as it was built, and passes the check. -/
theorem finish_cases (h : s.finish = .ok p) : p = s.program ∧ p.validate = .ok () := by
  unfold finish at h
  split at h
  · next hv =>
    obtain rfl := Except.ok.inj h
    unfold validate at hv
    -- Notes of mistakes and names without a function come before the program's own check.
    split at hv
    · cases hv
    · split at hv
      · cases hv
      · exact ⟨rfl, hv⟩
  · cases h

/-- **Whatever the steps of a session**, this is known of the program that it finishes. -/
theorem finished_of_finish {steps : List Step} (h : (empty.run steps).1.finish = .ok p) :
    p.Finished := by
  obtain ⟨rfl, hv⟩ := finish_cases h
  have hobtained : (empty.run steps).1.program.Obtained := .built steps
  have hsupplied := functions_run (P := Function.Supplied) .fresh
    (fun _ _ _ _ hmove hf => hf.move hmove) steps
  have hexprs := functions_run (P := fun f => ∀ e x, f.expr? e = some x → x.id = e)
    (fun _ _ _ _ hx => nomatch hx) (fun _ _ _ _ hmove hf => hmove.exprs_filed hf) steps
  exact
    { toWellFormed := hobtained.wellFormed hv
      obtained := hobtained
      supplied := hsupplied.built
      exprs := fun k f e x hf => hexprs.built k f hf e x }

end Session

end SsaFlow
