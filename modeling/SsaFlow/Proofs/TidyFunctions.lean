import SsaFlow.Proofs.KeptCode

/-! # Functions in good order

    A function under construction stores blocks, instructions and expressions
    under their own ids, and lists an instruction only in the block that it
    names, once.

    * `Function.Tidy`: a function in good order.
    * `Function.Tidy.move`: every move of construction keeps it so, provided that a
      new instruction has a new id.
-/

namespace SsaFlow

/-- Entering a block leaves the function alone or stores an empty block. -/
theorem Draft.function_enter (d : Draft) (b : BlockId) :
    (d.enter b).function = d.function ∨
      (d.enter b).function =
        { d.function with blocks := d.function.blocks.insert b (Block.fresh b) } := by
  unfold enter
  by_cases hthere : d.function.blocks.contains b = true
  · exact .inl (if_pos hthere)
  · exact .inr (if_neg hthere)

/-! ### One function -/

/-- What a function says of an instruction that it stores under `i`. -/
structure Function.Holds (f : Function) (i : InstrId) (inst : Instr) : Prop where
  /-- It is stored under its id, -/
  id : inst.id = i
  /-- names the function, -/
  function : inst.function = f.id
  /-- names a block of the function, -/
  block : inst.block ∈ f.blocks.keys
  /-- and reads a parameter or the receiver only if there is one. -/
  signature : f.signature.Covers inst.op

/-- A function in good order. -/
structure Function.Tidy (f : Function) : Prop extends f.Filed where
  /-- Its instructions are. -/
  instrs : ∀ i inst, f.instr? i = some inst → f.Holds i inst
  /-- No instruction is listed twice, -/
  listedOnce : f.listed.Nodup
  /-- and only instructions are listed, in the block that they name. -/
  placed : ∀ k i, f.Lists k i → ∃ inst, f.instr? i = some inst ∧ inst.block = k
  /-- Expressions are stored under their ids. -/
  exprs : ∀ e x, f.expr? e = some x → x.id = e

/-- Every move leaves expressions under their ids. -/
theorem Workbench.Move.exprs_filed {t : Step} {cursor : Option Cursor} {w w' : Workbench}
    (hmove : Move t cursor w w') (h : ∀ e x, w.draft.function.expr? e = some x → x.id = e) :
    ∀ e x, w'.draft.function.expr? e = some x → x.id = e := by
  cases hmove with
  | addParam name ty => exact h
  | sign change => exact h
  | addExpr kind text location =>
    intro e x hx
    have hfind : (w.draft.function.exprs.insert w.context.freshExpr.1 _).find? e = some x := hx
    rw [OrderedMap.find?_insert] at hfind
    split at hfind
    · next he =>
      obtain rfl := Option.some.inj hfind
      exact he.symm
    · exact h e x hfind
  | bind hbind =>
    obtain rfl := Draft.bind_cases hbind
    exact h
  | addIncoming hadd =>
    obtain ⟨incoming, rfl⟩ := Draft.addIncoming_cases hadd
    exact h
  | newBlock _ hdraft =>
    obtain ⟨-, -, rfl⟩ := Draft.newBlock?_cases hdraft
    exact h
  | @enter b hb =>
    rcases w.draft.function_enter b with heq | heq
    · rw [heq]
      exact h
    · rw [heq]
      exact h
  | emit hc op ty => exact h
  | terminate hc hend =>
    obtain ⟨-, rfl⟩ := Draft.terminate_cases hend
    exact h

/-- The blocks after a new instruction went to the end of the open one. -/
theorem Workbench.block?_emit (w : Workbench) (c : Cursor) (op : Operation) (ty : Ty) (k : BlockId) :
    (w.emit c op ty).2.draft.function.block? k =
      if k = c.block then (w.draft.function.block? k).map fun b => b.append w.context.freshInstr.1
      else w.draft.function.block? k :=
  w.draft.function.blocks.find?_adjust c.block _ k

/-- The instructions after it. -/
theorem Workbench.instr?_emit (w : Workbench) (c : Cursor) (op : Operation) (ty : Ty) (i : InstrId) :
    (w.emit c op ty).2.draft.function.instr? i =
      if i = w.context.freshInstr.1 then
        some ⟨w.context.freshInstr.1, w.draft.function.id, c.block, op, ty, none,
          c.location.getD .unknown⟩
      else w.draft.function.instr? i :=
  w.draft.function.instrs.find?_insert w.context.freshInstr.1 _ i

namespace Function

variable {f g : Function}

/-- Where listed instructions name the block that lists them, it is enough that no
    block lists one twice. -/
theorem nodup_listed_iff
    (hplaced : ∀ k i, f.Lists k i → ∃ inst, f.instr? i = some inst ∧ inst.block = k) :
    f.listed.Nodup ↔ ∀ k b, f.block? k = some b → b.instrs.Nodup := by
  unfold listed
  rw [OrderedMap.nodup_flatMap_iff]
  refine ⟨And.left, fun h => ⟨h, ?_⟩⟩
  intro k b l b' i hb hb' hi hi'
  obtain ⟨inst, hinst, rfl⟩ := hplaced k i ⟨b, hb, hi⟩
  obtain ⟨inst', hinst', rfl⟩ := hplaced l i ⟨b', hb', hi'⟩
  rw [Option.some.inj (hinst.symm.trans hinst')]

theorem Holds.mono {i : InstrId} {inst : Instr} (h : f.Holds i inst) (hid : g.id = f.id)
    (hkeys : ∀ k ∈ f.blocks.keys, k ∈ g.blocks.keys)
    (hcovers : ∀ op, f.signature.Covers op → g.signature.Covers op) : g.Holds i inst :=
  ⟨h.id, h.function.trans hid.symm, hkeys _ h.block, hcovers _ h.signature⟩

/-- A longer list of parameters covers no less. -/
theorem covers_addParam (s : Signature) (p : Param) {op : Operation} (h : s.Covers op) :
    ({ s with params := s.params ++ [p] } : Signature).Covers op := by
  cases op with
  | parameter index =>
    show index.toNat < (s.params ++ [p]).length
    have hlt : index.toNat < s.params.length := h
    rw [List.length_append]
    omega
  | _ => exact h

namespace Tidy

theorem fresh (id : FuncId) (name : String) : (Function.fresh id name).Tidy where
  toFiled := .fresh id name
  instrs _ _ h := nomatch h
  listedOnce := List.nodup_nil
  placed k i h := by
    obtain ⟨b, hb, hi⟩ := h
    obtain ⟨rfl, rfl⟩ := Prod.mk.inj
      (List.mem_singleton.mp (((Function.fresh id name).blocks.find?_eq_some_iff k b).mp hb))
    cases hi
  exprs _ _ h := nomatch h

/-- A change that leaves the instructions alone. What a block lists after it, the
    block listed before, or it lists nothing. -/
theorem of_same_instrs (h : f.Tidy) (hfiled : g.Filed) (hid : g.id = f.id)
    (hinstrs : g.instrs = f.instrs)
    (hcovers : ∀ op, f.signature.Covers op → g.signature.Covers op)
    (hkeys : ∀ k ∈ f.blocks.keys, k ∈ g.blocks.keys)
    (hlists : ∀ k b, g.block? k = some b →
      b.instrs = [] ∨ ∃ old, f.block? k = some old ∧ old.instrs = b.instrs)
    (hexprs : ∀ e x, g.expr? e = some x → x.id = e) : g.Tidy := by
  have hfind : g.instr? = f.instr? := by
    unfold instr?
    rw [hinstrs]
  have hplaced : ∀ k i, g.Lists k i → ∃ inst, g.instr? i = some inst ∧ inst.block = k := by
    rintro k i ⟨b, hb, hi⟩
    rw [hfind]
    rcases hlists k b hb with hnil | ⟨old, hold, heq⟩
    · rw [hnil] at hi
      cases hi
    · exact h.placed k i ⟨old, hold, heq ▸ hi⟩
  refine ⟨hfiled, ?_, (nodup_listed_iff hplaced).mpr ?_, hplaced, hexprs⟩
  · intro i inst hi
    rw [hfind] at hi
    exact (h.instrs i inst hi).mono hid hkeys hcovers
  · intro k b hb
    rcases hlists k b hb with hnil | ⟨old, hold, heq⟩
    · rw [hnil]
      exact List.nodup_nil
    · rw [← heq]
      exact (nodup_listed_iff h.placed).mp h.listedOnce k old hold

/-- A change that leaves instructions and blocks alone. -/
theorem of_same_code (h : f.Tidy) (hid : g.id = f.id) (hentry : g.entry = f.entry)
    (hblocks : g.blocks = f.blocks) (hinstrs : g.instrs = f.instrs)
    (hcovers : ∀ op, f.signature.Covers op → g.signature.Covers op)
    (hexprs : ∀ e x, g.expr? e = some x → x.id = e) : g.Tidy := by
  refine h.of_same_instrs (h.toFiled.of_same hentry hblocks) hid hinstrs hcovers ?_ ?_ hexprs
  · intro k hk
    rw [hblocks]
    exact hk
  · intro k b hb
    unfold block? at hb
    rw [hblocks] at hb
    exact .inr ⟨b, hb, rfl⟩

/-- A change to one instruction that leaves its id, its function and its block
    alone. -/
theorem adjustInstr {d : Draft} {i : InstrId} {change : Instr → Instr} (h : d.function.Tidy)
    (hsame : ∀ old, (change old).id = old.id ∧ (change old).function = old.function ∧
      (change old).block = old.block)
    (hcovers : ∀ old, d.function.signature.Covers old.op →
      d.function.signature.Covers (change old).op) : (d.adjustInstr i change).function.Tidy := by
  have hfind : ∀ j, (d.adjustInstr i change).function.instr? j =
      if j = i then (d.function.instr? j).map change else d.function.instr? j :=
    d.function.instrs.find?_adjust i change
  refine ⟨h.toFiled.of_same rfl rfl, ?_, h.listedOnce, ?_, h.exprs⟩
  · intro j inst hj
    rw [hfind] at hj
    split at hj
    · obtain ⟨old, hold, rfl⟩ := Option.map_eq_some_iff.mp hj
      obtain ⟨hid, hfunction, hblock⟩ := hsame old
      have hholds := h.instrs j old hold
      exact ⟨hid.trans hholds.id, hfunction.trans hholds.function, hblock ▸ hholds.block,
        hcovers old hholds.signature⟩
    · exact (h.instrs j inst hj).mono rfl (fun _ hk => hk) fun _ hop => hop
  · intro k j hlists
    obtain ⟨inst, hinst, hblock⟩ := h.placed k j hlists
    rw [hfind, hinst]
    split
    · exact ⟨change inst, rfl, (hsame inst).2.2.trans hblock⟩
    · exact ⟨inst, rfl, hblock⟩

theorem ne_of_lists (h : f.Tidy) {i j : InstrId} {k : BlockId} (hnew : j ∉ f.instrs.keys)
    (hi : f.Lists k i) : i ≠ j := by
  rintro rfl
  obtain ⟨inst, hinst, -⟩ := h.placed k i hi
  exact hnew ((f.instrs.mem_keys_iff i).mpr ⟨inst, hinst⟩)

/-- What is listed after a new instruction is that one, in its block, or what was
    listed before. -/
theorem placed_emit {w : Workbench} {c : Cursor} {op : Operation} {ty : Ty}
    (h : w.draft.function.Tidy) (hnew : w.context.freshInstr.1 ∉ w.draft.function.instrs.keys)
    (k : BlockId) (i : InstrId) (hi : (w.emit c op ty).2.draft.function.Lists k i) :
    ∃ inst, (w.emit c op ty).2.draft.function.instr? i = some inst ∧ inst.block = k := by
  have hold : w.draft.function.Lists k i →
      ∃ inst, (w.emit c op ty).2.draft.function.instr? i = some inst ∧ inst.block = k := by
    intro hlists
    rw [Workbench.instr?_emit, if_neg (h.ne_of_lists hnew hlists)]
    exact h.placed k i hlists
  obtain ⟨b, hb, hmem⟩ := hi
  rw [Workbench.block?_emit] at hb
  split at hb
  · next hk =>
    obtain ⟨b₀, hb₀, rfl⟩ := Option.map_eq_some_iff.mp hb
    rcases List.mem_append.mp hmem with hmem | hmem
    · exact hold ⟨b₀, hb₀, hmem⟩
    · rw [Workbench.instr?_emit, if_pos (List.mem_singleton.mp hmem)]
      exact ⟨_, rfl, hk.symm⟩
  · exact hold ⟨b, hb, hmem⟩

/-- A new instruction goes to the end of the open block. It must not have the id of
    one that is there. -/
theorem emit {w : Workbench} {c : Cursor} {op : Operation} (h : w.draft.function.Tidy) (ty : Ty)
    (hc : c.block ∈ w.draft.function.blocks.keys)
    (hnew : w.context.freshInstr.1 ∉ w.draft.function.instrs.keys)
    (hop : w.draft.function.signature.Covers op) : (w.emit c op ty).2.draft.function.Tidy := by
  have hkeys : ∀ k ∈ w.draft.function.blocks.keys,
      k ∈ (w.emit c op ty).2.draft.function.blocks.keys := by
    intro k hk
    show k ∈ (w.draft.function.blocks.adjust c.block _).keys
    rw [OrderedMap.keys_adjust]
    exact hk
  have hplaced : ∀ k i, (w.emit c op ty).2.draft.function.Lists k i →
      ∃ inst, (w.emit c op ty).2.draft.function.instr? i = some inst ∧ inst.block = k :=
    h.placed_emit hnew
  have honce := (nodup_listed_iff h.placed).mp h.listedOnce
  refine ⟨h.toFiled.adjust rfl rfl fun _ => rfl, ?_, (nodup_listed_iff hplaced).mpr ?_, hplaced,
    h.exprs⟩
  · intro i inst hi
    rw [Workbench.instr?_emit] at hi
    split at hi
    · next heq =>
      obtain rfl := Option.some.inj hi
      exact ⟨heq.symm, rfl, hkeys _ hc, hop⟩
    · exact (h.instrs i inst hi).mono rfl hkeys fun _ hcovers => hcovers
  · intro k b hb
    rw [Workbench.block?_emit] at hb
    split at hb
    · -- The block that got the instruction did not list it before.
      obtain ⟨b₀, hb₀, rfl⟩ := Option.map_eq_some_iff.mp hb
      have hfree : w.context.freshInstr.1 ∉ b₀.instrs :=
        fun hi => h.ne_of_lists hnew ⟨b₀, hb₀, hi⟩ rfl
      exact List.nodup_append.mpr ⟨honce k b₀ hb₀, List.nodup_singleton _, fun a ha b hb heq =>
        hfree (List.mem_singleton.mp hb ▸ heq ▸ ha)⟩
    · exact honce k b hb

/-- **One move** keeps a function in good order, as long as a new instruction has a
    new id. -/
theorem move {t : Step} {cursor : Option Cursor} {w w' : Workbench}
    (hmove : Workbench.Move t cursor w w') (h : w.draft.function.Tidy)
    (hcursor : ∀ c, cursor = some c → c.block ∈ w.draft.function.blocks.keys)
    (hnew : w'.context.nextInstr ≠ w.context.nextInstr →
      w.context.freshInstr.1 ∉ w.draft.function.instrs.keys) : w'.draft.function.Tidy := by
  have hfiled := h.toFiled.move hmove
  have hexprs := hmove.exprs_filed h.exprs
  cases hmove with
  | addParam name ty =>
    exact h.of_same_code rfl rfl rfl rfl (fun _ => covers_addParam _ _) h.exprs
  | sign change hname hcovers => exact h.of_same_code rfl rfl rfl rfl (hcovers _) h.exprs
  | addExpr kind text location =>
    exact h.of_same_code rfl rfl rfl rfl (fun _ hop => hop) hexprs
  | bind hbind =>
    obtain rfl := Draft.bind_cases hbind
    exact h.adjustInstr (fun _ => ⟨rfl, rfl, rfl⟩) fun _ hop => hop
  | addIncoming hadd =>
    -- A phi reads neither parameters nor the receiver.
    obtain ⟨incoming, rfl⟩ := Draft.addIncoming_cases hadd
    exact h.adjustInstr (fun _ => ⟨rfl, rfl, rfl⟩) fun _ _ => trivial
  | newBlock _ hdraft =>
    have hblock := Draft.block?_newBlock? hdraft
    obtain ⟨-, -, rfl⟩ := Draft.newBlock?_cases hdraft
    refine h.of_same_instrs hfiled rfl rfl (fun _ hop => hop) ?_ ?_ h.exprs
    · intro k hk
      exact (w.draft.function.blocks.mem_keys_insert _ _ k).mpr (.inr hk)
    · intro k b hb
      rw [hblock] at hb
      split at hb
      · obtain rfl := Option.some.inj hb
        exact .inl rfl
      · exact .inr ⟨b, hb, rfl⟩
  | @enter b hb =>
    rcases w.draft.function_enter b with heq | heq
    · rw [heq]
      exact h
    · rw [heq] at hfiled ⊢
      refine h.of_same_instrs hfiled rfl rfl (fun _ hop => hop) ?_ ?_ h.exprs
      · intro k hk
        exact (w.draft.function.blocks.mem_keys_insert b _ k).mpr (.inr hk)
      · intro k block hblock
        have hfind : (w.draft.function.blocks.insert b _).find? k = some block := hblock
        rw [OrderedMap.find?_insert] at hfind
        split at hfind
        · obtain rfl := Option.some.inj hfind
          exact .inl rfl
        · exact .inr ⟨block, hfind, rfl⟩
  | emit hc op ty hop => exact h.emit ty (hcursor _ hc) (hnew (Nat.succ_ne_self _)) hop
  | @terminate c terminator d hc hend =>
    obtain ⟨-, rfl⟩ := Draft.terminate_cases hend
    refine h.of_same_instrs hfiled rfl rfl (fun _ hop => hop) ?_ ?_ h.exprs
    · intro k hk
      exact (OrderedMap.keys_adjust w.draft.function.blocks c.block _).symm ▸ hk
    · intro k b hb
      have hfind : (w.draft.function.blocks.adjust c.block _).find? k = some b := hb
      rw [OrderedMap.find?_adjust] at hfind
      split at hfind
      · obtain ⟨old, hold, rfl⟩ := Option.map_eq_some_iff.mp hfind
        exact .inr ⟨old, hold, rfl⟩
      · exact .inr ⟨b, hfind, rfl⟩

end Tidy

end Function

end SsaFlow
