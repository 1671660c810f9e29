import SsaFlow.Proofs.Construction

/-! # Emitted code stays

    Work on a function adds to its blocks. A step lists what it emits in the open
    block, and no step takes an instruction out of a block or gives a block
    another end, with one exception: a new block gets the function's next number
    and replaces a block that was entered under that number before.

    * `Function.CodeKept`: every block goes on with what it holds.
    * `Opened.Follows`: the blocks of the open function are those below the next
      number and those that were entered by their ids.
    * `Session.work_keeps_code_iff`: when a step keeps the code, and what it loses
      otherwise.
-/

namespace SsaFlow

/-! ### Blocks that go on -/

/-- What the one block holds, the other holds: it lists the same instructions
    first, and has the same end if there is one. -/
structure Block.Continues (b b' : Block) : Prop where
  /-- The instructions stay, in their order. -/
  instrs : b.instrs <+: b'.instrs
  /-- The end stays. -/
  terminator : b.isTerminated = true → b'.terminator = b.terminator

namespace Block.Continues

theorem refl (b : Block) : b.Continues b := ⟨List.prefix_rfl, fun _ => rfl⟩

theorem trans {a b c : Block} (h : a.Continues b) (h' : b.Continues c) : a.Continues c where
  instrs := h.instrs.trans h'.instrs
  terminator ha := by
    have hb : b.isTerminated = true := by
      unfold isTerminated at ha ⊢
      rw [h.terminator ha]
      exact ha
    rw [h'.terminator hb, h.terminator ha]

theorem append (b : Block) (i : InstrId) : b.Continues (b.append i) :=
  ⟨List.prefix_append _ _, fun _ => rfl⟩

/-- Only a block that holds nothing goes on in a fresh one. -/
theorem eq_fresh {b : Block} {k : BlockId} (h : b.Continues (fresh k)) (hid : b.id = k) :
    b = fresh k := by
  have hinstrs : b.instrs = [] := List.prefix_nil.mp h.instrs
  have hend : b.terminator = .unset := by
    cases hb : b.isTerminated with
    | true => exact (h.terminator hb).symm
    | false =>
      unfold isTerminated at hb
      split at hb
      · assumption
      · cases hb
  cases b
  simp_all [fresh]

end Block.Continues

namespace Function

variable {f g h : Function}

/-- Every block of `f` goes on in `g`. -/
def CodeKept (f g : Function) : Prop :=
  ∀ k b, f.block? k = some b → ∃ b', g.block? k = some b' ∧ b.Continues b'

namespace CodeKept

theorem of_same (hblocks : g.blocks = f.blocks) : f.CodeKept g := by
  intro k b hb
  refine ⟨b, ?_, .refl b⟩
  unfold block?
  rw [hblocks]
  exact hb

theorem trans (hfg : f.CodeKept g) (hgh : g.CodeKept h) : f.CodeKept h := by
  intro k b hb
  obtain ⟨b', hb', hcont⟩ := hfg k b hb
  obtain ⟨b'', hb'', hcont'⟩ := hgh k b' hb'
  exact ⟨b'', hb'', hcont.trans hcont'⟩

/-- A block under a key that was free takes nothing away. -/
theorem insert {k : BlockId} {block : Block} (hfree : f.block? k = none)
    (hblocks : g.blocks = f.blocks.insert k block) : f.CodeKept g := by
  intro j b hb
  refine ⟨b, ?_, .refl b⟩
  have hne : j ≠ k := by
    rintro rfl
    rw [hfree] at hb
    cases hb
  unfold block?
  rw [hblocks, OrderedMap.find?_insert, if_neg hne]
  exact hb

theorem adjust {k : BlockId} {change : Block → Block}
    (hblocks : g.blocks = f.blocks.adjust k change)
    (hchange : ∀ b, f.block? k = some b → b.Continues (change b)) : f.CodeKept g := by
  intro j b hb
  unfold block?
  rw [hblocks, OrderedMap.find?_adjust]
  by_cases hj : j = k
  · subst hj
    have hfind : f.blocks.find? j = some b := hb
    rw [if_pos rfl, hfind]
    exact ⟨change b, rfl, hchange b hb⟩
  · rw [if_neg hj]
    exact ⟨b, hb, .refl b⟩

theorem lists (hfg : f.CodeKept g) {k : BlockId} {i : InstrId} (hi : f.Lists k i) :
    g.Lists k i := by
  obtain ⟨b, hb, hmem⟩ := hi
  obtain ⟨b', hb', hcont⟩ := hfg k b hb
  exact ⟨b', hb', hcont.instrs.subset hmem⟩

theorem keys (hfg : f.CodeKept g) {k : BlockId} (hk : k ∈ f.blocks.keys) : k ∈ g.blocks.keys := by
  obtain ⟨b, hb⟩ := (f.blocks.mem_keys_iff k).mp hk
  obtain ⟨b', hb', -⟩ := hfg k b hb
  exact (g.blocks.mem_keys_iff k).mpr ⟨b', hb'⟩

end CodeKept

end Function

/-! ### What moves keep -/

/-- An instruction that was changed, but not its block, was in that block before. -/
theorem Draft.exists_of_adjustInstr {d : Draft} {i j : InstrId} {inst : Instr}
    {change : Instr → Instr} (hi : (d.adjustInstr j change).function.instr? i = some inst)
    (hblock : ∀ old, (change old).block = old.block) :
    ∃ old, d.function.instr? i = some old ∧ old.block = inst.block := by
  have hfind : (d.function.instrs.adjust j change).find? i = some inst := hi
  rw [OrderedMap.find?_adjust] at hfind
  split at hfind
  · obtain ⟨old, hold, rfl⟩ := Option.map_eq_some_iff.mp hfind
    exact ⟨old, hold, (hblock old).symm⟩
  · exact ⟨inst, hfind, rfl⟩

namespace Workbench

/-- An instruction is emitted at the end of the open block. -/
theorem lists_emit (w : Workbench) {c : Cursor}
    (hc : c.block ∈ w.draft.function.blocks.keys) (op : Operation) (ty : Ty) :
    (w.emit c op ty).2.draft.function.Lists c.block (w.emit c op ty).1 := by
  obtain ⟨b, hb⟩ := (w.draft.function.blocks.mem_keys_iff c.block).mp hc
  refine ⟨b.append (w.emit c op ty).1, ?_, ?_⟩
  · show (w.draft.function.blocks.adjust c.block _).find? c.block = _
    rw [OrderedMap.find?_adjust, if_pos rfl, hb]
    rfl
  · exact List.mem_append_right _ (List.mem_singleton.mpr rfl)

variable {t : Step} {cursor : Option Cursor} {w w' : Workbench}

/-- A move keeps the code, or it makes a block. -/
theorem Move.codeKept_or (hmove : Move t cursor w w') :
    w.draft.function.CodeKept w'.draft.function ∨
      t.makesBlock = true ∧ ∃ b, w.draft.newBlock? = some (b, w'.draft) := by
  cases hmove with
  | newBlock ht hnew => exact .inr ⟨ht, _, hnew⟩
  | addParam name ty => exact .inl (.of_same rfl)
  | sign change => exact .inl (.of_same rfl)
  | addExpr kind text location => exact .inl (.of_same rfl)
  | bind hbind =>
    obtain rfl := Draft.bind_cases hbind
    exact .inl (.of_same rfl)
  | addIncoming hadd =>
    obtain ⟨incoming, rfl⟩ := Draft.addIncoming_cases hadd
    exact .inl (.of_same rfl)
  | enter hb =>
    -- A block is stored only if there is none.
    left
    simp only [Draft.enter]
    split
    · exact .of_same rfl
    · next hfree => exact .insert (OrderedMap.find?_eq_none_of_contains hfree) rfl
  | emit hc op ty => exact .inl (.adjust rfl fun b _ => .append b _)
  | terminate hc hend =>
    obtain ⟨hopen, rfl⟩ := Draft.terminate_cases hend
    refine .inl (.adjust rfl fun b hb => ⟨List.prefix_rfl, fun hended => ?_⟩)
    -- A block that has ended is not ended again.
    unfold Draft.hasEnded at hopen
    rw [hb] at hopen
    exact absurd (hopen.symm.trans hended) (by decide)

theorem Move.codeKept (ht : t.makesBlock = false) (hmove : Move t cursor w w') :
    w.draft.function.CodeKept w'.draft.function := by
  rcases hmove.codeKept_or with hkept | ⟨hmakes, -⟩
  · exact hkept
  · rw [ht] at hmakes
    cases hmakes

theorem Moves.codeKept (ht : t.makesBlock = false) (h : Moves t cursor w w') :
    w.draft.function.CodeKept w'.draft.function := by
  induction h with
  | refl => exact .of_same rfl
  | tail _ hlast ih => exact ih.trans (hlast.codeKept ht)

/-- After a move, an instruction is listed in the block that it names, or it was
    there before and named the same block. -/
theorem Move.listed (hcursor : ∀ c, cursor = some c → c.block ∈ w.draft.function.blocks.keys)
    (hmove : Move t cursor w w') {i : InstrId} {inst : Instr}
    (hi : w'.draft.function.instr? i = some inst) :
    w'.draft.function.Lists inst.block i ∨
      ∃ old, w.draft.function.instr? i = some old ∧ old.block = inst.block := by
  cases hmove with
  | addParam name ty => exact .inr ⟨inst, hi, rfl⟩
  | sign change => exact .inr ⟨inst, hi, rfl⟩
  | addExpr kind text location => exact .inr ⟨inst, hi, rfl⟩
  | newBlock _ hnew =>
    obtain ⟨-, -, rfl⟩ := Draft.newBlock?_cases hnew
    exact .inr ⟨inst, hi, rfl⟩
  | enter hb =>
    right
    simp only [Draft.enter] at hi
    split at hi <;> exact ⟨inst, hi, rfl⟩
  | terminate hc hend =>
    obtain ⟨-, rfl⟩ := Draft.terminate_cases hend
    exact .inr ⟨inst, hi, rfl⟩
  | bind hbind =>
    obtain rfl := Draft.bind_cases hbind
    exact .inr (Draft.exists_of_adjustInstr hi fun _ => rfl)
  | addIncoming hadd =>
    obtain ⟨incoming, rfl⟩ := Draft.addIncoming_cases hadd
    exact .inr (Draft.exists_of_adjustInstr hi fun _ => rfl)
  | @emit c hc op ty =>
    have hfind : (w.draft.function.instrs.insert (w.emit c op ty).1 _).find? i = some inst := hi
    rw [OrderedMap.find?_insert] at hfind
    split at hfind
    · next hnew =>
      -- The new instruction names the open block.
      obtain rfl := Option.some.inj hfind
      rw [hnew]
      exact .inl (w.lists_emit (hcursor c hc) op ty)
    · exact .inr ⟨inst, hfind, rfl⟩

/-- After the moves of a step that makes no block, an instruction is listed in the
    block that it names, or it was there before the step. -/
theorem Moves.listed (ht : t.makesBlock = false)
    (hcursor : ∀ c, cursor = some c → c.block ∈ w.draft.function.blocks.keys)
    (h : Moves t cursor w w') {i : InstrId} {inst : Instr}
    (hi : w'.draft.function.instr? i = some inst) :
    w'.draft.function.Lists inst.block i ∨
      ∃ old, w.draft.function.instr? i = some old ∧ old.block = inst.block := by
  induction h generalizing inst with
  | refl => exact .inr ⟨inst, hi, rfl⟩
  | tail hfirst hlast ih =>
    have hkept := Moves.codeKept ht hfirst
    rcases hlast.listed (fun c hc => hkept.keys (hcursor c hc)) hi with hlists | ⟨old, hold, hblock⟩
    · exact .inl hlists
    · -- What was listed before the last move is listed after it.
      rcases ih hold with hlists | ⟨older, holder, hblock'⟩
      · exact .inl (hblock ▸ (hlast.codeKept ht).lists hlists)
      · exact .inr ⟨older, holder, hblock'.trans hblock⟩

/-- No move takes a block away. -/
theorem Move.keys (hmove : Move t cursor w w') {k : BlockId}
    (hk : k ∈ w.draft.function.blocks.keys) : k ∈ w'.draft.function.blocks.keys := by
  rcases hmove.codeKept_or with hkept | ⟨-, b, hnew⟩
  · exact hkept.keys hk
  · obtain ⟨-, -, heq⟩ := Draft.newBlock?_cases hnew
    rw [heq]
    exact (w.draft.function.blocks.mem_keys_insert b _ k).mpr (.inr hk)

end Workbench

/-! ### Which blocks there are -/

/-- The blocks of the draft are those below the next number, and others that were
    entered by their ids in `steps`. -/
structure Draft.Charted (steps : List Step) (d : Draft) : Prop where
  /-- Blocks are stored under their own ids. -/
  filed : d.function.Filed
  /-- Every number below the next is that of a block. -/
  below : ∀ b : BlockId, b.val.toNat < d.function.nextBlock.toNat → b ∈ d.function.blocks.keys
  /-- A block with another number was entered by its id. -/
  above : ∀ b ∈ d.function.blocks.keys,
    b.val.toNat < d.function.nextBlock.toNat ∨ Step.function (.enter b) ∈ steps
  /-- What may be entered is a block. -/
  known : ∀ b ∈ d.known, b ∈ d.function.blocks.keys

namespace Draft.Charted

variable {steps steps' : List Step} {d d' : Draft}

theorem start (f : FuncId) (name : String) : (Draft.start f name).Charted [] where
  filed := .fresh f name
  below b hb := by
    have hzero : b.val = 0 := UInt32.toNat_inj.mp (Nat.lt_one_iff.mp hb)
    exact List.mem_singleton.mpr (congrArg BlockId.mk hzero)
  above b hb := by
    rw [List.mem_singleton.mp hb]
    exact .inl Nat.zero_lt_one
  known b hb := hb

theorem mono (h : d.Charted steps) (hsub : steps ⊆ steps') : d.Charted steps' :=
  { h with above := fun b hb => (h.above b hb).imp_right fun hm => hsub hm }

/-- A change that leaves the numbers of the blocks alone. -/
theorem of_same (h : d.Charted steps) (hfiled : d'.function.Filed)
    (hkeys : d'.function.blocks.keys = d.function.blocks.keys)
    (hnext : d'.function.nextBlock = d.function.nextBlock) (hknown : d'.known = d.known) :
    d'.Charted steps := by
  refine ⟨hfiled, ?_, ?_, ?_⟩
  · rw [hkeys, hnext]
    exact h.below
  · rw [hkeys, hnext]
    exact h.above
  · rw [hkeys, hknown]
    exact h.known

/-- Block `b` may be entered now, whether or not it was there before. -/
theorem grow {b : BlockId} (h : d.Charted steps) (hfiled : d'.function.Filed)
    (hkeys : ∀ k, k ∈ d'.function.blocks.keys ↔ k = b ∨ k ∈ d.function.blocks.keys)
    (hknown : d'.known = b :: d.known)
    (hnext : ∀ k : BlockId, k.val.toNat < d'.function.nextBlock.toNat →
      k = b ∨ k.val.toNat < d.function.nextBlock.toNat)
    (hle : d.function.nextBlock.toNat ≤ d'.function.nextBlock.toNat)
    (hb : b.val.toNat < d'.function.nextBlock.toNat ∨ Step.function (.enter b) ∈ steps) :
    d'.Charted steps := by
  refine ⟨hfiled, ?_, ?_, ?_⟩
  · intro k hk
    exact (hkeys k).mpr ((hnext k hk).imp_right (h.below k))
  · intro k hk
    rcases (hkeys k).mp hk with rfl | hk
    · exact hb
    · exact (h.above k hk).imp_left fun hlt => Nat.lt_of_lt_of_le hlt hle
  · intro k hk
    rw [hknown] at hk
    exact (hkeys k).mpr ((List.mem_cons.mp hk).imp_right (h.known k))

/-- A new block has the next number, and there is a next number after it. -/
theorem newBlock {b : BlockId} (h : d.Charted steps) (hfiled : d'.function.Filed)
    (hnew : d.newBlock? = some (b, d')) : d'.Charted steps := by
  obtain ⟨rfl, hroom, rfl⟩ := Draft.newBlock?_cases hnew
  have hnext : (d.function.nextBlock + 1).toNat = d.function.nextBlock.toNat + 1 := by
    rw [UInt32.toNat_add]
    exact Nat.mod_eq_of_lt hroom
  refine h.grow hfiled (d.function.blocks.mem_keys_insert _ _) rfl ?_ ?_ (.inl ?_)
  · rintro ⟨n⟩ hn
    have hn' : n.toNat < d.function.nextBlock.toNat + 1 := hnext ▸ hn
    rcases Nat.lt_succ_iff_lt_or_eq.mp hn' with hlt | heq
    · exact .inr hlt
    · exact .inl (congrArg BlockId.mk (UInt32.toNat_inj.mp heq))
  · show d.function.nextBlock.toNat ≤ (d.function.nextBlock + 1).toNat
    omega
  · show d.function.nextBlock.toNat < (d.function.nextBlock + 1).toNat
    omega

/-- Entering makes a block only if the id was not that of one. -/
theorem enter {b : BlockId} (h : d.Charted steps) (hfiled : (d.enter b).function.Filed)
    (hb : b ∈ d.function.blocks.keys ∨ Step.function (.enter b) ∈ steps) :
    (d.enter b).Charted steps := by
  have hnext : (d.enter b).function.nextBlock = d.function.nextBlock := d.nextBlock_enter b
  refine h.grow hfiled (d.mem_keys_enter b) rfl ?_ ?_ ?_
  · intro k hk
    exact .inr (hnext ▸ hk)
  · exact hnext ▸ Nat.le_refl _
  · rw [hnext]
    exact hb.elim (h.above b) .inr

theorem move {t : Step} {cursor : Option Cursor} {w w' : Workbench} (ht : t ∈ steps)
    (hmove : Workbench.Move t cursor w w') (h : w.draft.Charted steps) : w'.draft.Charted steps := by
  have hfiled := h.filed.move hmove
  cases hmove with
  | addParam name ty => exact h.of_same hfiled rfl rfl rfl
  | sign change => exact h.of_same hfiled rfl rfl rfl
  | addExpr kind text location => exact h.of_same hfiled rfl rfl rfl
  | bind hbind =>
    obtain rfl := Draft.bind_cases hbind
    exact h.of_same hfiled rfl rfl rfl
  | addIncoming hadd =>
    obtain ⟨incoming, rfl⟩ := Draft.addIncoming_cases hadd
    exact h.of_same hfiled rfl rfl rfl
  | newBlock _ hnew => exact h.newBlock hfiled hnew
  | enter hb =>
    refine h.enter hfiled ?_
    rcases hb with hknown | rfl | rfl
    · exact .inl (h.known _ hknown)
    · exact .inl h.filed.entry
    · exact .inr ht
  | emit hc op ty => exact h.of_same hfiled (OrderedMap.keys_adjust _ _ _) rfl rfl
  | terminate hc hend =>
    obtain ⟨-, rfl⟩ := Draft.terminate_cases hend
    exact h.of_same hfiled (OrderedMap.keys_adjust _ _ _) rfl rfl

end Draft.Charted

/-! ### Work on the open function -/

/-- The step works on the open function or its open block, short of building the
    function. -/
def Step.isWork : Step → Bool
  | .block _ => true
  | .function .build => false
  | .function _ => true
  | _ => false

namespace Session

open Workbench (Moves)

variable {s : Session} {t : Step} {o o' : Opened}

/-- Work that leaves the function open makes moves. -/
theorem moves_of_isWork (ht : t.isWork = true) (before : s.opened = some o)
    (after : (s.step t).1.opened = some o') :
    Moves t o.cursor ⟨s.context, o.draft⟩ ⟨(s.step t).1.context, o'.draft⟩ ∧
      ∀ c', o'.cursor = some c' →
        (∃ c, o.cursor = some c ∧ c.block = c'.block) ∨ c'.block ∈ o'.draft.known := by
  cases s.turn_step t with
  | worked before' after' program moves cursor =>
    obtain rfl := Option.some.inj (before'.symm.trans before)
    obtain rfl := Option.some.inj (after'.symm.trans after)
    exact ⟨moves, cursor⟩
  | built before' after' program => exact nomatch after'.symm.trans after
  | closed after' program => exact nomatch after'.symm.trans after
  | opened step after' program =>
    rw [step] at ht
    cases ht
  | cleared after' =>
    rw [after'] at after
    cases after

/-- Work opens no function. -/
theorem opened_run_of_isWork {steps : List Step} (hwork : ∀ u ∈ steps, u.isWork = true)
    (hs : s.opened = none) : (s.run steps).1.opened = none := by
  induction steps generalizing s with
  | nil => exact hs
  | cons t rest ih =>
    have hstep : (s.step t).1.opened = none := by
      have ht := hwork t List.mem_cons_self
      cases t with
      | block t => simp only [step, hs, closeAll]
      | function t => simp only [step, hs, closeAll]
      | program t => cases ht
      | unknown => cases ht
    exact ih (fun u hu => hwork u (List.mem_cons_of_mem t hu)) hstep

/-- A step that makes a block does nothing else to the function. -/
theorem function_of_makesBlock (ht : t.makesBlock = true) (before : s.opened = some o)
    (after : (s.step t).1.opened = some o') :
    (s.step t).2 = .exhausted ∧ o'.draft.function = o.draft.function ∨
      ∃ b d, (s.step t).2 = .ok (.block (some b)) ∧ o.draft.newBlock? = some (b, d) ∧
        o'.draft.function = d.function := by
  have hkind := Step.makesBlock_iff.mp ht
  cases hnew : o.draft.newBlock? with
  | none =>
    have hstep : s.step t = (s.resume ⟨s.context, o.draft⟩ none, .exhausted) := by
      rcases hkind with rfl | rfl <;> simp only [step, before, functionStep, hnew]
    rw [hstep] at after ⊢
    rw [← Option.some.inj after]
    exact .inl ⟨rfl, rfl⟩
  | some made =>
    obtain ⟨b, d⟩ := made
    right
    rcases hkind with rfl | rfl
    · have hstep : s.step (.function .newBlock) =
          (s.resume ⟨s.context, d⟩ none, .ok (.block (some b))) := by
        simp only [step, before, functionStep, hnew]
      rw [hstep] at after ⊢
      rw [← Option.some.inj after]
      exact ⟨b, d, rfl, rfl, rfl⟩
    · have hstep : s.step (.function .enterNew) = s.enter ⟨s.context, d⟩ b := by
        simp only [step, before, functionStep, hnew]
      rw [hstep] at after ⊢
      rw [← Option.some.inj after]
      refine ⟨b, d, rfl, rfl, ?_⟩
      -- The block is there when it is entered, so entering stores no other.
      have hthere : b ∈ d.function.blocks.keys := by
        obtain ⟨-, -, rfl⟩ := Draft.newBlock?_cases hnew
        exact (o.draft.function.blocks.mem_keys_insert b _ b).mpr (.inl rfl)
      exact if_pos ((d.function.blocks.contains_iff b).mpr hthere)

end Session

/-- The open function as `steps` of work have left it. -/
structure Opened.Follows (steps : List Step) (o : Opened) : Prop where
  /-- The blocks are those below the next number or entered by their ids. -/
  charted : o.draft.Charted steps
  /-- What was entered is a block. -/
  entered : ∀ b, Step.function (.enter b) ∈ steps → b ∈ o.draft.function.blocks.keys
  /-- The open block is a block. -/
  cursor : ∀ c, o.cursor = some c → c.block ∈ o.draft.function.blocks.keys

namespace Opened.Follows

variable {s : Session} {steps : List Step} {t : Step} {o o' : Opened}

theorem start (f : FuncId) (name : String) : Opened.Follows [] ⟨.start f name, none⟩ where
  charted := .start f name
  entered _ hb := nomatch hb
  cursor _ hc := nomatch hc

theorem step (h : o.Follows steps) (ht : t.isWork = true) (before : s.opened = some o)
    (after : (s.step t).1.opened = some o') : o'.Follows (steps ++ [t]) := by
  obtain ⟨hmoves, hcursor⟩ := Session.moves_of_isWork ht before after
  have hlast : t ∈ steps ++ [t] := List.mem_append_right _ (List.mem_singleton.mpr rfl)
  have hcharted : o'.draft.Charted (steps ++ [t]) :=
    hmoves.keep (P := fun w => w.draft.Charted (steps ++ [t])) (fun _ _ => .move hlast)
      (h.charted.mono (List.subset_append_left _ _))
  have hkeys : ∀ k ∈ o.draft.function.blocks.keys, k ∈ o'.draft.function.blocks.keys := fun k hk =>
    hmoves.keep (P := fun w => k ∈ w.draft.function.blocks.keys) (fun _ _ hmove => hmove.keys) hk
  refine ⟨hcharted, ?_, ?_⟩
  · intro b hb
    rcases List.mem_append.mp hb with hb | hb
    · exact hkeys b (h.entered b hb)
    · -- The step itself enters the block, which may be entered from then on.
      obtain rfl := List.mem_singleton.mp hb
      refine hcharted.known b ?_
      simp only [Session.step, before] at after
      rw [← Option.some.inj after]
      exact List.mem_cons_self
  · intro c hc
    rcases hcursor c hc with ⟨c', hc', hblock⟩ | hknown
    · exact hblock ▸ hkeys _ (h.cursor c' hc')
    · exact hcharted.known _ hknown

/-- However much work is done, as long as the function stays open. -/
theorem run {rest : List Step} (h : o.Follows steps) (hwork : ∀ u ∈ rest, u.isWork = true)
    (before : s.opened = some o) (after : (s.run rest).1.opened = some o') :
    o'.Follows (steps ++ rest) := by
  induction rest generalizing s o steps with
  | nil =>
    obtain rfl := Option.some.inj (before.symm.trans after)
    rw [List.append_nil]
    exact h
  | cons t rest ih =>
    have hrest : ∀ u ∈ rest, u.isWork = true := fun u hu => hwork u (List.mem_cons_of_mem t hu)
    cases hnext : (s.step t).1.opened with
    | none => exact nomatch (Session.opened_run_of_isWork hrest hnext).symm.trans after
    | some o₁ =>
      have hstep := h.step (hwork t List.mem_cons_self) before hnext
      have hrun := ih hstep hrest hnext after
      rwa [List.append_assoc] at hrun

/-- The next number is free unless its block was entered by its id. -/
theorem not_mem_keys_iff {b : BlockId} {d : Draft} (h : o.Follows steps)
    (hnew : o.draft.newBlock? = some (b, d)) :
    b ∉ o.draft.function.blocks.keys ↔ Step.function (.enter b) ∉ steps := by
  obtain ⟨hb, -, -⟩ := Draft.newBlock?_cases hnew
  have hnext : ¬ b.val.toNat < o.draft.function.nextBlock.toNat := by
    rw [hb]
    exact Nat.lt_irrefl _
  constructor
  · intro hfree hentered
    exact hfree (h.entered b hentered)
  · intro hnot hkey
    rcases h.charted.above b hkey with hlt | hentered
    · exact hnext hlt
    · exact hnot hentered

end Opened.Follows

/-! ### When code is kept -/

/-- A new block takes the place of the one stored under its id, and no other. -/
theorem Draft.block?_newBlock? {d d' : Draft} {b : BlockId} (hnew : d.newBlock? = some (b, d'))
    (k : BlockId) :
    d'.function.block? k = if k = b then some (Block.fresh b) else d.function.block? k := by
  obtain ⟨-, -, rfl⟩ := Draft.newBlock?_cases hnew
  exact OrderedMap.find?_insert d.function.blocks b _ k

/-- Putting a fresh block somewhere keeps the code if it replaces nothing but a
    fresh block. -/
theorem Function.codeKept_iff_of_fresh {f g : Function} {b : BlockId} (hf : f.Filed)
    (hg : ∀ k, g.block? k = if k = b then some (Block.fresh b) else f.block? k) :
    f.CodeKept g ↔ ∀ block, f.block? b = some block → block = .fresh b := by
  constructor
  · intro hkept block hblock
    obtain ⟨block', hblock', hcont⟩ := hkept b block hblock
    rw [hg, if_pos rfl] at hblock'
    rw [← Option.some.inj hblock'] at hcont
    exact hcont.eq_fresh (hf.blocks b block hblock)
  · intro hfresh k block hblock
    refine ⟨block, ?_, .refl block⟩
    rw [hg]
    by_cases hk : k = b
    · subst hk
      rw [if_pos rfl, hfresh block hblock]
    · rw [if_neg hk]
      exact hblock

namespace Session

/-- The step makes block `b`. -/
def Makes (s : Session) (t : Step) (b : BlockId) : Prop :=
  t.makesBlock = true ∧ (s.step t).2 = .ok (.block (some b))

variable {s : Session} {t : Step} {o o' : Opened} {b : BlockId}

/-- Making a block is all that the step does to the function. -/
theorem Makes.newBlock? (h : s.Makes t b) (before : s.opened = some o)
    (after : (s.step t).1.opened = some o') :
    ∃ d, o.draft.newBlock? = some (b, d) ∧ o'.draft.function = d.function := by
  rcases function_of_makesBlock h.1 before after with ⟨hout, -⟩ | ⟨b', d, hout, hnew, hfunction⟩
  · exact nomatch hout.symm.trans h.2
  · cases hout.symm.trans h.2
    exact ⟨d, hnew, hfunction⟩

theorem Makes.block? (h : s.Makes t b) (before : s.opened = some o)
    (after : (s.step t).1.opened = some o') (k : BlockId) :
    o'.draft.function.block? k = if k = b then some (.fresh b) else o.draft.function.block? k := by
  obtain ⟨d, hnew, hfunction⟩ := h.newBlock? before after
  rw [hfunction]
  exact Draft.block?_newBlock? hnew k

/-- Work that makes no block keeps the code. -/
theorem codeKept_of_not_makes (ht : t.isWork = true) (before : s.opened = some o)
    (after : (s.step t).1.opened = some o') (hnone : ∀ b, ¬ s.Makes t b) :
    o.draft.function.CodeKept o'.draft.function := by
  by_cases hmakes : t.makesBlock = true
  · rcases function_of_makesBlock hmakes before after with ⟨-, hsame⟩ | ⟨b, d, hout, -, -⟩
    · -- The numbers are used up.
      rw [hsame]
      exact .of_same rfl
    · exact absurd ⟨hmakes, hout⟩ (hnone b)
  · obtain ⟨hmoves, -⟩ := moves_of_isWork ht before after
    exact Workbench.Moves.codeKept (Bool.eq_false_iff.mpr hmakes) hmoves

/-- Code is kept if what a new block replaces holds nothing. -/
theorem codeKept_iff (ht : t.isWork = true) (before : s.opened = some o)
    (after : (s.step t).1.opened = some o') (hfiled : o.draft.function.Filed) :
    o.draft.function.CodeKept o'.draft.function ↔
      ∀ b, s.Makes t b → ∀ block, o.draft.function.block? b = some block → block = .fresh b := by
  constructor
  · intro hkept b hb
    exact (Function.codeKept_iff_of_fresh hfiled (hb.block? before after)).mp hkept
  · intro hfresh
    by_cases hmakes : ∃ b, s.Makes t b
    · obtain ⟨b, hb⟩ := hmakes
      exact (Function.codeKept_iff_of_fresh hfiled (hb.block? before after)).mpr (hfresh b hb)
    · exact codeKept_of_not_makes ht before after (not_exists.mp hmakes)

/-- An instruction that work adds is listed in the block that it names. -/
theorem lists_of_isWork (ht : t.isWork = true) (before : s.opened = some o)
    (after : (s.step t).1.opened = some o')
    (hcursor : ∀ c, o.cursor = some c → c.block ∈ o.draft.function.blocks.keys)
    {i : InstrId} {inst : Instr} (hi : o'.draft.function.instr? i = some inst)
    (hnew : o.draft.function.instr? i = none) : o'.draft.function.Lists inst.block i := by
  by_cases hmakes : t.makesBlock = true
  · -- A step that makes a block adds no instruction.
    have hsame : o'.draft.function.instrs = o.draft.function.instrs := by
      rcases function_of_makesBlock hmakes before after with ⟨-, hsame⟩ | ⟨b, d, -, hd, hsame⟩
      · rw [hsame]
      · obtain ⟨-, -, rfl⟩ := Draft.newBlock?_cases hd
        rw [hsame]
    unfold Function.instr? at hi hnew
    rw [hsame, hnew] at hi
    cases hi
  · obtain ⟨hmoves, -⟩ := moves_of_isWork ht before after
    have hlisted := Workbench.Moves.listed (Bool.eq_false_iff.mpr hmakes) hcursor hmoves hi
    rcases hlisted with hlists | ⟨old, hold, -⟩
    · exact hlists
    · exact nomatch hnew.symm.trans hold

/-- **Work keeps the code.** Take any work on a function that was just opened, and
    one step more that leaves it open. An instruction that the step adds is
    listed in the block that it names. A block that the step makes is new unless
    its id was entered before. All blocks go on with what they hold, unless the
    step makes a block where one was stored that is not empty; that block, and no
    other, starts over. -/
theorem work_keeps_code_iff (s : Session) (name : String) (steps : List Step) (t : Step)
    (hwork : ∀ u ∈ steps ++ [t], u.isWork = true) {now : Session} {o o' : Opened}
    (hnow : now = (s.run (.program (.function name) :: steps)).1)
    (before : now.opened = some o) (after : (now.step t).1.opened = some o') :
    (∀ i inst, o'.draft.function.instr? i = some inst → o.draft.function.instr? i = none →
      o'.draft.function.Lists inst.block i) ∧
    (∀ b, now.Makes t b →
      (b ∉ o.draft.function.blocks.keys ↔ Step.function (.enter b) ∉ steps)) ∧
    (o.draft.function.CodeKept o'.draft.function ↔
      ∀ b, now.Makes t b → ∀ block, o.draft.function.block? b = some block → block = .fresh b) ∧
    ∀ b, now.Makes t b → o'.draft.function.block? b = some (.fresh b) ∧
      ∀ k, k ≠ b → o'.draft.function.block? k = o.draft.function.block? k := by
  have ht : t.isWork = true := hwork t (List.mem_append_right _ (List.mem_singleton.mpr rfl))
  have hfollows : o.Follows steps := by
    rw [hnow] at before
    have hstart := Opened.Follows.start ((s.closeAll.context.setCurrent name).funcId name).1 name
    have hrest : ∀ u ∈ steps, u.isWork = true := fun u hu => hwork u (List.mem_append_left _ hu)
    exact hstart.run (s := (s.step (.program (.function name))).1) hrest rfl before
  refine ⟨?_, ?_, codeKept_iff ht before after hfollows.charted.filed, ?_⟩
  · intro i inst hi hi'
    exact lists_of_isWork ht before after hfollows.cursor hi hi'
  · intro b hb
    obtain ⟨d, hnew, -⟩ := hb.newBlock? before after
    exact hfollows.not_mem_keys_iff hnew
  · intro b hb
    have hblock := hb.block? before after
    refine ⟨?_, ?_⟩
    · rw [hblock, if_pos rfl]
    · intro k hk
      rw [hblock, if_neg hk]

/-- Enter a block by its id, fill it and end it. -/
def fillBlock (b : BlockId) : List Step :=
  [.function (.enter b), .block (.constant (.bool true) .bool), .block (.terminate .ret)]

/-- A function in which block `b` was filled. -/
def filled (b : BlockId) : Session := (empty.run (.program (.function "f") :: fillBlock b)).1

/-- A block with a higher number than the next is kept when the next is made. -/
theorem filled_three_kept :
    ∃ o o', (filled ⟨3⟩).opened = some o ∧
      ((filled ⟨3⟩).step (.function .newBlock)).1.opened = some o' ∧
      (filled ⟨3⟩).Makes (.function .newBlock) ⟨1⟩ ∧
      ⟨1⟩ ∉ o.draft.function.blocks.keys ∧ o.draft.function.CodeKept o'.draft.function := by
  have hmakes : (filled ⟨3⟩).Makes (.function .newBlock) ⟨1⟩ := ⟨rfl, rfl⟩
  obtain ⟨-, hfree, hkept, -⟩ := work_keeps_code_iff empty "f" (fillBlock ⟨3⟩) (.function .newBlock)
    (by simp [fillBlock, Step.isWork]) rfl rfl rfl
  have hnot := (hfree ⟨1⟩ hmakes).mpr (by simp [fillBlock])
  refine ⟨_, _, rfl, rfl, hmakes, hnot, hkept.mpr ?_⟩
  intro b hb block hblock
  obtain rfl : b = ⟨1⟩ := by
    cases hb.2.symm.trans hmakes.2
    rfl
  exact absurd ((OrderedMap.mem_keys_iff _ _).mpr ⟨block, hblock⟩) hnot

/-- A block that was filled under the next number is lost when that number is
    given out. -/
theorem filled_one_lost :
    ∃ o o', (filled ⟨1⟩).opened = some o ∧
      ((filled ⟨1⟩).step (.function .newBlock)).1.opened = some o' ∧
      (filled ⟨1⟩).Makes (.function .newBlock) ⟨1⟩ ∧
      o.draft.function.block? ⟨1⟩ = some ⟨⟨1⟩, [⟨0⟩], .ret⟩ ∧
      o'.draft.function.block? ⟨1⟩ = some (.fresh ⟨1⟩) ∧
      ¬ o.draft.function.CodeKept o'.draft.function := by
  refine ⟨_, _, rfl, rfl, ⟨rfl, rfl⟩, rfl, rfl, ?_⟩
  intro hkept
  obtain ⟨b, hb, hcont⟩ := hkept ⟨1⟩ ⟨⟨1⟩, [⟨0⟩], .ret⟩ rfl
  obtain rfl : Block.fresh ⟨1⟩ = b := Option.some.inj hb
  exact nomatch hcont.terminator rfl

end Session

end SsaFlow
