import Mathlib.Logic.Relation
import SsaFlow.Proofs.Indexes

/-! # What a step of construction does

    A step of a session changes the function under construction by a few moves,
    or it opens, closes or builds a function. Said once here, every invariant of
    construction follows from what a single move keeps.

    * `Workbench.Move`: the moves, each with the condition under which a step
      makes it.
    * `Function.Filed`: blocks are stored under their own ids, and moves keep it so.
    * `Session.Turn` and `Session.turn_step`: what one step does to a session.
    * `Session.functions_run`: what holds of fresh functions and is kept by every
      move holds of all functions that are built.
-/

namespace SsaFlow

namespace OrderedMap

variable {κ α : Type} [DecidableEq κ] [Coded κ]

theorem mem_keys_insert (m : OrderedMap κ α) (k : κ) (v : α) (j : κ) :
    j ∈ (m.insert k v).keys ↔ j = k ∨ j ∈ m.keys := by
  rw [mem_keys_iff, mem_keys_iff]
  simp only [find?_insert]
  by_cases h : j = k <;> simp [h]

@[simp] theorem keys_adjust (m : OrderedMap κ α) (k : κ) (change : α → α) :
    (m.adjust k change).keys = m.keys :=
  Entries.keys_adjust k change m.entries

end OrderedMap

/-! ### Moves -/

/-- The step makes a block under the function's next number. -/
def Step.makesBlock : Step → Bool
  | .function .newBlock => true
  | .function .enterNew => true
  | _ => false

theorem Step.makesBlock_iff {t : Step} :
    t.makesBlock = true ↔ t = .function .newBlock ∨ t = .function .enterNew := by
  constructor
  · intro h
    unfold makesBlock at h
    split at h
    · exact .inl rfl
    · exact .inr rfl
    · cases h
  · rintro (rfl | rfl) <;> rfl

/-- The signature has the parameter or the receiver that an operation reads. -/
def Signature.Covers (g : Signature) : Operation → Prop
  | .parameter index => index.toNat < g.params.length
  | .receiver => g.thisType.isSome = true
  | _ => True

/-- A move by which step `t` changes the function under construction, with the
    cursor where it stands before the step. -/
inductive Workbench.Move (t : Step) (cursor : Option Cursor) : Workbench → Workbench → Prop where
  /-- One more parameter. -/
  | addParam (w : Workbench) (name : String) (ty : Ty) : Move t cursor w (w.addParam name ty)
  /-- Another signature, of the same name, that covers no less. -/
  | sign (w : Workbench) (change : Signature → Signature) (hname : ∀ g, (change g).name = g.name)
      (hcovers : ∀ g op, g.Covers op → (change g).Covers op) :
      Move t cursor w { w with draft := w.draft.sign change }
  /-- A new block, by the steps that make one. -/
  | newBlock {w : Workbench} {b : BlockId} {d : Draft} (ht : t.makesBlock = true)
      (h : w.draft.newBlock? = some (b, d)) : Move t cursor w { w with draft := d }
  /-- Entering a block that may be entered, or the entry, or the block that the
      step names. -/
  | enter {w : Workbench} {b : BlockId}
      (hb : b ∈ w.draft.known ∨ b = w.draft.function.entry ∨ t = .function (.enter b)) :
      Move t cursor w { w with draft := w.draft.enter b }
  /-- A new instruction in the open block, which reads only what is there. -/
  | emit (w : Workbench) {c : Cursor} (hc : cursor = some c) (op : Operation) (ty : Ty)
      (hop : w.draft.function.signature.Covers op) : Move t cursor w (w.emit c op ty).2
  /-- A new expression. -/
  | addExpr (w : Workbench) (kind : ExprKind) (text : String) (location : Location) :
      Move t cursor w (w.addExpr kind text location).2
  /-- An instruction is bound to an expression. -/
  | bind {w : Workbench} {i : InstrId} {e : ExprId} {d : Draft} (h : w.draft.bind i e = .ok d) :
      Move t cursor w { w with draft := d }
  /-- A phi gets one more incoming value. -/
  | addIncoming {w : Workbench} {phi : InstrId} {pred : BlockId} {value : InstrId} {d : Draft}
      (h : w.draft.addIncoming phi pred value = .ok d) : Move t cursor w { w with draft := d }
  /-- The open block gets its terminator. -/
  | terminate {w : Workbench} {c : Cursor} {terminator : Terminator} {d : Draft}
      (hc : cursor = some c) (h : w.draft.terminate c.block terminator = .ok d) :
      Move t cursor w { w with draft := d }

/-- The moves of one step, one after the other. -/
abbrev Workbench.Moves (t : Step) (cursor : Option Cursor) : Workbench → Workbench → Prop :=
  Relation.ReflTransGen (Move t cursor)

/-- What every move keeps, the moves of a step keep. -/
theorem Workbench.Moves.keep {t : Step} {cursor : Option Cursor} {P : Workbench → Prop}
    (hmove : ∀ w w', Move t cursor w w' → P w → P w') {w w' : Workbench}
    (h : Moves t cursor w w') (hw : P w) : P w' := by
  induction h with
  | refl => exact hw
  | tail _ hlast ih => exact hmove _ _ hlast ih

namespace Draft

variable {d d' : Draft} {i : InstrId}

/-- Binding an instruction changes that instruction only, and not its block. -/
theorem bind_cases {e : ExprId} (h : d.bind i e = .ok d') :
    d' = d.adjustInstr i fun inst => { inst with expr := some e } := by
  unfold bind at h
  split at h
  · cases h
  · split at h
    · cases h
    · exact (Except.ok.inj h).symm

/-- A new incoming value changes the operation of one instruction. -/
theorem addIncoming_cases {pred : BlockId} {value : InstrId}
    (h : d.addIncoming i pred value = .ok d') :
    ∃ incoming, d' = d.adjustInstr i fun inst => { inst with op := .phi incoming } := by
  unfold addIncoming at h
  split at h
  · cases h
  · split at h
    · exact ⟨_, (Except.ok.inj h).symm⟩
    · cases h

/-- Only a block without a terminator is given one. -/
theorem terminate_cases {b : BlockId} {t : Terminator} (h : d.terminate b t = .ok d') :
    d.hasEnded b = false ∧ d' = d.adjustBlock b fun block => { block with terminator := t } := by
  unfold terminate at h
  split at h
  · cases h
  · next hopen =>
    split at h
    · cases h
    · exact ⟨by simpa using hopen, (Except.ok.inj h).symm⟩

/-- A new block is stored under the next number and may be entered. -/
theorem newBlock?_cases {b : BlockId} (h : d.newBlock? = some (b, d')) :
    b = ⟨d.function.nextBlock⟩ ∧ d.function.nextBlock.toNat + 1 < UInt32.size ∧
      d' = { d with
        function := { d.function with
          blocks := d.function.blocks.insert b (Block.fresh b)
          nextBlock := d.function.nextBlock + 1 }
        known := b :: d.known } := by
  unfold newBlock? Function.newBlock? at h
  split at h
  · next hroom =>
    obtain ⟨rfl, rfl⟩ := Prod.mk.inj (Option.some.inj h)
    exact ⟨rfl, hroom, rfl⟩
  · cases h

/-- After a block was entered it is there. -/
theorem mem_keys_enter (d : Draft) (b k : BlockId) :
    k ∈ (d.enter b).function.blocks.keys ↔ k = b ∨ k ∈ d.function.blocks.keys := by
  simp only [enter]
  split
  · next hstored =>
    refine ⟨.inr, ?_⟩
    rintro (rfl | hk)
    · exact (d.function.blocks.contains_iff k).mp hstored
    · exact hk
  · exact d.function.blocks.mem_keys_insert b _ k

theorem nextBlock_enter (d : Draft) (b : BlockId) :
    (d.enter b).function.nextBlock = d.function.nextBlock := by
  simp only [enter]
  split <;> rfl

end Draft

/-! ### Blocks under their own ids -/

/-- The function starts at one of its blocks, and its blocks are stored under
    their own ids. -/
structure Function.Filed (f : Function) : Prop where
  /-- The entry is a block. -/
  entry : f.entry ∈ f.blocks.keys
  /-- A block is stored under its id. -/
  blocks : ∀ k b, f.block? k = some b → b.id = k

/-- The block stored under `k` lists instruction `i`. -/
def Function.Lists (f : Function) (k : BlockId) (i : InstrId) : Prop :=
  ∃ b, f.block? k = some b ∧ i ∈ b.instrs

namespace Function.Filed

variable {f g : Function}

theorem fresh (id : FuncId) (name : String) : (Function.fresh id name).Filed where
  entry := List.mem_singleton.mpr rfl
  blocks k b hb := by
    obtain ⟨rfl, rfl⟩ := Prod.mk.inj
      (List.mem_singleton.mp (((Function.fresh id name).blocks.find?_eq_some_iff k b).mp hb))
    rfl

theorem of_same (h : f.Filed) (hentry : g.entry = f.entry) (hblocks : g.blocks = f.blocks) :
    g.Filed := by
  refine ⟨?_, ?_⟩
  · rw [hentry, hblocks]
    exact h.entry
  · intro k b hb
    unfold block? at hb
    rw [hblocks] at hb
    exact h.blocks k b hb

theorem insert (h : f.Filed) (hentry : g.entry = f.entry) {b : BlockId}
    (hblocks : g.blocks = f.blocks.insert b (Block.fresh b)) : g.Filed := by
  refine ⟨?_, ?_⟩
  · rw [hentry, hblocks]
    exact (f.blocks.mem_keys_insert b _ _).mpr (.inr h.entry)
  · intro k block hb
    unfold block? at hb
    rw [hblocks, OrderedMap.find?_insert] at hb
    split at hb
    · next hk =>
      rw [← Option.some.inj hb, hk]
      rfl
    · exact h.blocks k block hb

theorem adjust (h : f.Filed) (hentry : g.entry = f.entry) {b : BlockId} {change : Block → Block}
    (hblocks : g.blocks = f.blocks.adjust b change) (hid : ∀ block, (change block).id = block.id) :
    g.Filed := by
  refine ⟨?_, ?_⟩
  · rw [hentry, hblocks, OrderedMap.keys_adjust]
    exact h.entry
  · intro k block hb
    unfold block? at hb
    rw [hblocks, OrderedMap.find?_adjust] at hb
    split at hb
    · obtain ⟨old, hold, rfl⟩ := Option.map_eq_some_iff.mp hb
      rw [hid]
      exact h.blocks k old hold
    · exact h.blocks k block hb

/-- Every move keeps the blocks under their own ids. -/
theorem move {t : Step} {cursor : Option Cursor} {w w' : Workbench}
    (hmove : Workbench.Move t cursor w w') (h : w.draft.function.Filed) :
    w'.draft.function.Filed := by
  cases hmove with
  | addParam name ty => exact h.of_same rfl rfl
  | sign change => exact h.of_same rfl rfl
  | addExpr kind text location => exact h.of_same rfl rfl
  | bind hbind =>
    obtain rfl := Draft.bind_cases hbind
    exact h.of_same rfl rfl
  | addIncoming hadd =>
    obtain ⟨incoming, rfl⟩ := Draft.addIncoming_cases hadd
    exact h.of_same rfl rfl
  | newBlock _ hnew =>
    obtain ⟨-, -, rfl⟩ := Draft.newBlock?_cases hnew
    exact h.insert rfl rfl
  | enter hb =>
    simp only [Draft.enter]
    split
    · exact h
    · exact h.insert rfl rfl
  | emit hc op ty => exact h.adjust rfl rfl fun _ => rfl
  | terminate hc hend =>
    obtain ⟨-, rfl⟩ := Draft.terminate_cases hend
    exact h.adjust rfl rfl fun _ => rfl

end Function.Filed

/-! ### Turns -/

namespace Session

open Workbench (Move Moves)

/-- What a step `t` does to a session `s`. -/
inductive Turn (s : Session) (t : Step) (s' : Session) : Prop where
  /-- The open function is changed by moves and stays open. The open block stays
      the same, is closed, or is one that may be entered. -/
  | worked {o o' : Opened} (before : s.opened = some o) (after : s'.opened = some o')
      (program : s'.program = s.program)
      (moves : Moves t o.cursor ⟨s.context, o.draft⟩ ⟨s'.context, o'.draft⟩)
      (cursor : ∀ c', o'.cursor = some c' →
        (∃ c, o.cursor = some c ∧ c.block = c'.block) ∨ c'.block ∈ o'.draft.known)
  /-- The open function becomes a function of the program. -/
  | built {o : Opened} (before : s.opened = some o) (after : s'.opened = none)
      (program : s.program.add? o.draft.function = .ok s'.program)
      (context : s'.context = s.context)
  /-- Everything is closed. At most a name gets its number. -/
  | closed (after : s'.opened = none) (program : s'.program = s.program)
      (context : s'.context = s.context ∨ ∃ name, s'.context = (s.context.funcId name).2)
  /-- A function is opened, under the number of its name. -/
  | opened {f : FuncId} {name : String} (step : t = .program (.function name))
      (after : s'.opened = some ⟨.start f name, none⟩) (program : s'.program = s.program)
      (context : (s.context.setCurrent name).funcId name = (f, s'.context))
  /-- The session starts over. -/
  | cleared (after : s' = .empty) (step : t = .program .clear)

variable (s : Session) (w : Workbench)

/-- A step on the open block makes moves there and leaves that block open. -/
theorem moves_blockStep (c : Cursor) (t : BlockStep) :
    ∃ w' c', (s.blockStep w c t).1 = s.resume w' (some c') ∧ c'.block = c.block ∧
      Moves (.block t) (some c) w w' := by
  have hemit : ∀ op ty, w.draft.function.signature.Covers op →
      ∃ w' c', (s.emit w c op ty).1 = s.resume w' (some c') ∧
        c'.block = c.block ∧ Moves (.block t) (some c) w w' :=
    fun op ty hop => ⟨_, c, rfl, rfl, .single (.emit w rfl op ty hop)⟩
  cases t with
  | blockId => exact ⟨w, c, rfl, rfl, .refl⟩
  | hasEnded => exact ⟨w, c, rfl, rfl, .refl⟩
  | locate location => exact ⟨w, { c with location := some location }, rfl, rfl, .refl⟩
  | parameter index =>
    simp only [blockStep]
    split
    · next p hp =>
      -- The parameter was looked up before the instruction is emitted.
      exact hemit _ _ (List.getElem?_eq_some_iff.mp hp).1
    · exact ⟨w, c, rfl, rfl, .refl⟩
  | receiver =>
    simp only [blockStep]
    split
    · next ty hty => exact hemit _ _ (Option.isSome_iff_exists.mpr ⟨ty, hty⟩)
    · exact ⟨w, c, rfl, rfl, .refl⟩
  | expr kind text => exact ⟨_, c, rfl, rfl, .single (.addExpr w kind text _)⟩
  | bind instr expr =>
    simp only [blockStep, settle]
    split
    · next d h => exact ⟨_, c, rfl, rfl, .single (.bind h)⟩
    · exact ⟨w, c, rfl, rfl, .refl⟩
  | terminate terminator =>
    simp only [blockStep, settle]
    split
    · next d h => exact ⟨_, c, rfl, rfl, .single (.terminate rfl h)⟩
    · exact ⟨w, c, rfl, rfl, .refl⟩
  | ret value =>
    -- Two moves, of which the second may not come about.
    have hfirst : Moves (.block (.ret value)) (some c) w
        (w.emit c (.ret (some value)) (w.draft.typeOf value)).2 := .single (.emit w rfl _ _ trivial)
    simp only [blockStep, settle]
    split
    · next d h => exact ⟨_, c, rfl, rfl, hfirst.tail (.terminate rfl h)⟩
    · exact ⟨_, c, rfl, rfl, hfirst⟩
  | _ => exact hemit _ _ trivial

/-- A step on the open function makes moves and opens at most a block that may be
    entered, unless it builds the function. -/
theorem moves_functionStep (cursor : Option Cursor) {t : FunctionStep} (ht : t ≠ .build) :
    ∃ w' cursor', (s.functionStep w t).1 = s.resume w' cursor' ∧
      Moves (.function t) cursor w w' ∧
        ∀ c, cursor' = some c → c.block ∈ w'.draft.known := by
  have hclosed : ∀ w', Moves (.function t) cursor w w' →
      ∃ w'' cursor', s.resume w' none = s.resume w'' cursor' ∧
        Moves (.function t) cursor w w'' ∧ ∀ c, cursor' = some c → c.block ∈ w''.draft.known :=
    fun w' h => ⟨w', none, rfl, h, fun c hc => nomatch hc⟩
  -- Whoever enters a block may enter it again.
  have hentered : ∀ w' b, Moves (.function t) cursor w { w' with draft := w'.draft.enter b } →
      ∃ w'' cursor', (s.enter w' b).1 = s.resume w'' cursor' ∧
        Moves (.function t) cursor w w'' ∧ ∀ c, cursor' = some c → c.block ∈ w''.draft.known := by
    intro w' b h
    refine ⟨_, some ⟨b, none⟩, rfl, h, ?_⟩
    intro c hc
    rw [← Option.some.inj hc]
    exact List.mem_cons_self
  cases t with
  | build => exact absurd rfl ht
  | param name ty => exact hclosed _ (.single (.addParam w name ty))
  | returns ty =>
    refine hclosed _ (.single (.sign w _ (fun _ => rfl) ?_))
    intro g op hop
    cases op <;> exact hop
  | thisType ty =>
    refine hclosed _ (.single (.sign w _ (fun _ => rfl) ?_))
    intro g op hop
    cases op with
    | receiver => exact rfl
    | _ => exact hop
  | currentBlock => exact hclosed _ .refl
  | listing => exact hclosed _ .refl
  | expr kind text location => exact hclosed _ (.single (.addExpr w kind text location))
  | newBlock =>
    simp only [functionStep]
    split
    · next b d h => exact hclosed _ (.single (.newBlock rfl h))
    · exact hclosed _ .refl
  | addIncoming phi pred value =>
    simp only [functionStep, settle]
    split
    · next d h => exact hclosed _ (.single (.addIncoming h))
    · exact hclosed _ .refl
  | bind instr expr =>
    simp only [functionStep, settle]
    split
    · next d h => exact hclosed _ (.single (.bind h))
    · exact hclosed _ .refl
  | switchTo b =>
    simp only [functionStep]
    split
    · next hknown =>
      exact hentered w b (.single (.enter (.inl (List.contains_iff_mem.mp hknown))))
    · exact hclosed _ .refl
  | enterEntry => exact hentered w _ (.single (.enter (.inr (.inl rfl))))
  | enterNew =>
    simp only [functionStep]
    split
    · next b d h =>
      -- The new block may be entered as soon as it is there.
      have hknown : b ∈ d.known := by
        obtain ⟨-, -, rfl⟩ := Draft.newBlock?_cases h
        exact List.mem_cons_self
      have hnew : Moves (.function .enterNew) cursor w { w with draft := d } :=
        .single (.newBlock rfl h)
      exact hentered { w with draft := d } b (hnew.tail (.enter (.inl hknown)))
    · exact hclosed _ .refl
  | enter b => exact hentered w b (.single (.enter (.inr (.inr rfl))))

/-- A step on the program opens a function, starts over, or leaves all closed. -/
theorem turn_programStep (t : ProgramStep) :
    s.Turn (.program t) (s.closeAll.programStep t).1 := by
  cases t with
  | declare name => exact .closed rfl rfl (.inr ⟨name, rfl⟩)
  | function name => exact .opened rfl rfl rfl rfl
  | validate =>
    simp only [programStep]
    split <;> exact .closed rfl rfl (.inl rfl)
  | stats => exact .closed rfl rfl (.inl rfl)
  | clear => exact .cleared rfl rfl
  | context => exact .closed rfl rfl (.inl rfl)

/-- **What a step does**: one of the five turns. -/
theorem turn_step (t : Step) : s.Turn t (s.step t).1 := by
  cases t with
  | block t =>
    simp only [step]
    split
    · next d c hopened =>
      obtain ⟨w', c', heq, hblock, hmoves⟩ := s.moves_blockStep ⟨s.context, d⟩ c t
      rw [heq]
      refine .worked hopened rfl rfl hmoves ?_
      intro c'' hc''
      rw [← Option.some.inj hc'']
      exact .inl ⟨c, rfl, hblock.symm⟩
    · exact .closed rfl rfl (.inl rfl)
  | function t =>
    simp only [step]
    split
    · next o hopened =>
      by_cases hbuild : t = .build
      · subst hbuild
        simp only [functionStep]
        split
        · next p hadd => exact .built hopened rfl hadd rfl
        · exact .closed rfl rfl (.inl rfl)
      · obtain ⟨w', cursor', heq, hmoves, hknown⟩ :=
          s.moves_functionStep ⟨s.context, o.draft⟩ o.cursor hbuild
        rw [heq]
        exact .worked hopened rfl rfl hmoves fun c hc => .inr (hknown c hc)
    · exact .closed rfl rfl (.inl rfl)
  | program t => exact s.turn_programStep t
  | unknown => exact .closed rfl rfl (.inl rfl)

/-! ### Runs -/

/-- What every step keeps, a run keeps. -/
theorem run_invariant {P : Session → Prop} (hstep : ∀ s t, P s → P (s.step t).1)
    (steps : List Step) (h : P s) : P (s.run steps).1 := by
  induction steps generalizing s with
  | nil => exact h
  | cons t rest ih => exact ih (s.step t).1 (hstep s t h)

/-- The functions of a session, built or open, all have a property. -/
structure ForFunctions (P : Function → Prop) (s : Session) : Prop where
  /-- The functions that are built have it. -/
  built : ∀ k f, s.program.function? k = some f → P f
  /-- So has the open function. -/
  opened : ∀ o, s.opened = some o → P o.draft.function

theorem forFunctions_empty (P : Function → Prop) : empty.ForFunctions P where
  built _ _ hf := nomatch hf
  opened _ ho := nomatch ho

variable {s} {P : Function → Prop}

theorem ForFunctions.step (hfresh : ∀ id name, P (.fresh id name))
    (hmove : ∀ t cursor w w', Move t cursor w w' → P w.draft.function → P w'.draft.function)
    (h : s.ForFunctions P) (t : Step) : (s.step t).1.ForFunctions P := by
  cases s.turn_step t with
  | worked before after program moves cursor =>
    constructor
    · rw [program]
      exact h.built
    · intro o' ho'
      obtain rfl := Option.some.inj (after.symm.trans ho')
      exact Workbench.Moves.keep (P := fun w => P w.draft.function) (hmove t _) moves
        (h.opened _ before)
  | built before after program =>
    obtain ⟨heq, -, -, -⟩ := Program.add?_cases program
    constructor
    · intro k f hf
      rw [heq, Program.function?_insert] at hf
      split at hf
      · rw [← Option.some.inj hf]
        exact h.opened _ before
      · exact h.built k f hf
    · intro o' ho'
      rw [after] at ho'
      cases ho'
  | closed after program =>
    constructor
    · rw [program]
      exact h.built
    · intro o' ho'
      rw [after] at ho'
      cases ho'
  | opened step after program =>
    constructor
    · rw [program]
      exact h.built
    · intro o' ho'
      obtain rfl := Option.some.inj (after.symm.trans ho')
      exact hfresh _ _
  | cleared after =>
    rw [after]
    exact forFunctions_empty P

/-- **What construction keeps**: a property of fresh functions that every move
    keeps is one of all functions that a session builds. -/
theorem functions_run (hfresh : ∀ id name, P (.fresh id name))
    (hmove : ∀ t cursor w w', Move t cursor w w' → P w.draft.function → P w'.draft.function)
    (steps : List Step) : (empty.run steps).1.ForFunctions P :=
  run_invariant (P := ForFunctions P) empty (fun _ t h => h.step hfresh hmove t) steps
    (forFunctions_empty P)

end Session

end SsaFlow
