import Mathlib.Data.List.Nodup
import SsaFlow.Proofs.Validation

/-! # Self-contained functions

    The check asks the program's indexes who owns an instruction. For a program
    that was obtained without edits this comes to asking the function's own
    maps, and the rules can be told without any index.

    * `Operation.Uses`: which instructions an operation uses, form by form.
    * `Function.Closed`: all that a function uses is stored in it.
    * `Function.SelfContained`: the rules, read off the maps of one function.
    * `Program.validate_iff_selfContained`: the check decides them.
-/

namespace SsaFlow

/-! ### What an operation uses -/

/-- The operation uses the value of instruction `i`. -/
inductive Operation.Uses : Operation → InstrId → Prop where
  | copySource (i : InstrId) : Uses (.copy i) i
  | loadAddress (i source : InstrId) : Uses (.load i source) i
  | loadSource (address i : InstrId) : Uses (.load address i) i
  | storeAddress (i value : InstrId) : Uses (.store i value) i
  | storeValue (address i : InstrId) : Uses (.store address i) i
  | incoming {incoming : List (BlockId × InstrId)} {b : BlockId} {i : InstrId}
      (h : (b, i) ∈ incoming) : Uses (.phi incoming) i
  | converted (how : Conversion) (i : InstrId) : Uses (.convert how i) i
  | chiTotal (i part : InstrId) : Uses (.chi i part) i
  | chiPart (total i : InstrId) : Uses (.chi total i) i
  | binaryLeft (op : BinaryOp) (i right : InstrId) : Uses (.binary op i right) i
  | binaryRight (op : BinaryOp) (left i : InstrId) : Uses (.binary op left i) i
  | compareLeft (op : CompareOp) (i right : InstrId) : Uses (.compare op i right) i
  | compareRight (op : CompareOp) (left i : InstrId) : Uses (.compare op left i) i
  | callee (i : InstrId) (arguments : List InstrId) (object : Option InstrId) :
      Uses (.call (.indirect i) arguments object) i
  | argument {target : CallTarget} {arguments : List InstrId} {object : Option InstrId}
      {i : InstrId} (h : i ∈ arguments) : Uses (.call target arguments object) i
  | object (target : CallTarget) (arguments : List InstrId) (i : InstrId) :
      Uses (.call target arguments (some i)) i
  | sideEffect (i : InstrId) (index : Int32) : Uses (.sideEffect i index) i
  | returned (i : InstrId) : Uses (.ret (some i)) i

/-- The operands are what the operation uses, whatever their roles. -/
theorem Operation.exists_operand_iff (op : Operation) (i : InstrId) :
    (∃ o ∈ op.operands, o.instr = i) ↔ op.Uses i := by
  constructor
  · intro h
    obtain ⟨o, ho, rfl⟩ := h
    cases op with
    | constant | variableAddress | parameter | receiver => simp [operands] at ho
    | copy =>
      rw [List.mem_singleton.mp ho]
      exact .copySource _
    | convert =>
      rw [List.mem_singleton.mp ho]
      exact .converted _ _
    | sideEffect =>
      rw [List.mem_singleton.mp ho]
      exact .sideEffect _ _
    | load =>
      rcases List.mem_pair.mp ho with rfl | rfl
      · exact .loadAddress _ _
      · exact .loadSource _ _
    | store =>
      rcases List.mem_pair.mp ho with rfl | rfl
      · exact .storeAddress _ _
      · exact .storeValue _ _
    | chi =>
      rcases List.mem_pair.mp ho with rfl | rfl
      · exact .chiTotal _ _
      · exact .chiPart _ _
    | binary =>
      rcases List.mem_pair.mp ho with rfl | rfl
      · exact .binaryLeft _ _ _
      · exact .binaryRight _ _ _
    | compare =>
      rcases List.mem_pair.mp ho with rfl | rfl
      · exact .compareLeft _ _ _
      · exact .compareRight _ _ _
    | phi incoming =>
      obtain ⟨e, he, rfl⟩ := List.mem_map.mp ho
      exact .incoming he
    | call target arguments object =>
      -- A known callee is no operand; an unknown one comes first.
      rcases List.mem_append.mp ho with hfirst | harg
      · rcases List.mem_append.mp hfirst with htarget | hobject
        · cases target with
          | static => simp at htarget
          | indirect =>
            rw [List.mem_singleton.mp htarget]
            exact .callee _ _ _
        · obtain ⟨x, hx, rfl⟩ := List.mem_map.mp hobject
          rw [Option.mem_toList.mp hx]
          exact .object _ _ _
      · obtain ⟨a, ha, rfl⟩ := List.mem_map.mp harg
        exact .argument (List.mem_zipIdx' ha |>.2 ▸ List.getElem_mem _)
    | ret value =>
      obtain ⟨x, hx, rfl⟩ := List.mem_map.mp ho
      rw [Option.mem_toList.mp hx]
      exact .returned _
  · intro h
    cases h with
    | incoming h => exact ⟨_, List.mem_map.mpr ⟨_, h, rfl⟩, rfl⟩
    | argument h =>
      obtain ⟨n, hn, rfl⟩ := List.getElem_of_mem h
      refine ⟨⟨.argument (UInt64.ofNat n), _⟩, List.mem_append_right _ ?_, rfl⟩
      exact List.mem_map.mpr ⟨(_, n), List.mem_zipIdx_iff_getElem?.mpr (by simp), rfl⟩
    | object target arguments i =>
      refine ⟨⟨.receiver, i⟩, List.mem_append_left _ (List.mem_append_right _ ?_), rfl⟩
      exact List.mem_singleton.mpr rfl
    | _ => simp [operands]

/-! ### The rules -/

/-- The rules for one function, told by its own maps. Of the rest of the program
    they need only the ids of the functions, for calls. -/
structure Function.SelfContained (p : Program) (f : Function) : Prop where
  /-- Every block has a terminator, -/
  ended : ∀ b ∈ f.blocks.values, b.terminator ≠ .unset
  /-- which leads to blocks of the function. -/
  targets : ∀ b ∈ f.blocks.values, ∀ t ∈ b.successors, t ∈ f.blocks.keys
  /-- Branches test instructions of the function. -/
  conditions : ∀ b ∈ f.blocks.values, ∀ i thenBlock elseBlock,
    b.terminator = .branch i thenBlock elseBlock → i ∈ f.instrs.keys
  /-- Instructions use instructions of the function. -/
  uses : ∀ i inst, f.instr? i = some inst → ∀ o, inst.op.Uses o → o ∈ f.instrs.keys
  /-- An instruction is stored under its own id and names the function. -/
  filed : ∀ i inst, f.instr? i = some inst → inst.id = i ∧ inst.function = f.id
  /-- The blocks together list no id twice, -/
  listedOnce : ∀ i ∈ f.listed, f.listed.count i = 1
  /-- list only instructions that name the block by its own id, -/
  placed : ∀ b ∈ f.blocks.values, ∀ i ∈ b.instrs, ∃ inst, f.instr? i = some inst ∧ inst.block = b.id
  /-- and leave no instruction out. -/
  listedAll : ∀ i ∈ f.instrs.keys, i ∈ f.listed
  /-- Known callees are functions of the program. -/
  callees : ∀ i inst, f.instr? i = some inst → ∀ callee arguments object,
    inst.op = .call (.static callee) arguments object → callee ∈ p.functions.keys
  /-- Instructions are bound to expressions of the function. -/
  bound : ∀ i inst, f.instr? i = some inst → ∀ e, inst.expr = some e → e ∈ f.exprs.keys
  /-- Conversions convert expressions of the function. -/
  converted : ∀ e ∈ f.exprs.values, ∀ operand, e.kind = .conversion (some operand) →
    operand ∈ f.exprs.keys

theorem Block.isTerminated_iff (b : Block) : b.isTerminated = true ↔ b.terminator ≠ .unset := by
  unfold isTerminated
  cases b.terminator <;> simp

theorem Terminator.condition?_eq_some_iff (t : Terminator) (i : InstrId) :
    t.condition? = some i ↔ ∃ thenBlock elseBlock, t = .branch i thenBlock elseBlock := by
  cases t <;> simp [condition?]

/-- A branch of the function tests instruction `i`, or an operation uses it. -/
def Function.Uses (f : Function) (i : InstrId) : Prop :=
  (∃ b ∈ f.blocks.values, b.terminator.condition? = some i) ∨
    ∃ j inst, f.instr? j = some inst ∧ inst.op.Uses i

/-- All that the function uses is stored in it. -/
def Function.Closed (f : Function) : Prop := ∀ i, f.Uses i → i ∈ f.instrs.keys

namespace Function

variable {p : Program} {f : Function} {i : InstrId}

/-- Whatever a sound function uses is indexed to it. -/
theorem Sound.owner_of_uses (h : f.Sound p) (hi : f.Uses i) : p.instrOwner.find? i = some f.id := by
  rcases hi with ⟨b, hb, hcond⟩ | ⟨j, inst, hj, huse⟩
  · exact h.conditions b hb i hcond
  · obtain ⟨o, ho, rfl⟩ := (inst.op.exists_operand_iff i).mpr huse
    exact h.operands j inst hj o ho

theorem SelfContained.closed (h : f.SelfContained p) : f.Closed := by
  rintro i (⟨b, hb, hcond⟩ | ⟨j, inst, hj, huse⟩)
  · obtain ⟨thenBlock, elseBlock, hend⟩ := (b.terminator.condition?_eq_some_iff i).mp hcond
    exact h.conditions b hb i thenBlock elseBlock hend
  · exact h.uses j inst hj i huse

/-- Only for what a function uses do the rules over the indexes leave open what
    the rules over the maps demand. -/
theorem Sound.selfContained (h : f.Sound p) (hclosed : f.Closed) : f.SelfContained p where
  ended b hb := b.isTerminated_iff.mp (h.ended b hb)
  targets b hb t ht := (f.blocks.contains_iff t).mp (h.targets b hb t ht)
  conditions b hb i thenBlock elseBlock hend := by
    have hcond := (b.terminator.condition?_eq_some_iff i).mpr ⟨thenBlock, elseBlock, hend⟩
    exact hclosed i (.inl ⟨b, hb, hcond⟩)
  uses i inst hi o ho := hclosed o (.inr ⟨i, inst, hi, ho⟩)
  filed i inst hi := ⟨(h.filed i inst hi).1.symm, h.within i inst hi⟩
  listedOnce _ hi := List.count_eq_one_of_mem h.listedOnce hi
  placed := h.placed
  listedAll := h.listedAll
  callees i inst hi callee arguments object hop :=
    (p.functions.contains_iff callee).mp (h.callees i inst hi callee arguments object hop)
  bound i inst hi e he := (f.exprs.contains_iff e).mp (h.bound i inst hi e he)
  converted e he o ho := (f.exprs.contains_iff o).mp (h.converted e he o ho)

end Function

namespace Program

variable {p : Program} {f : Function} {k : FuncId}

/-- In step with the functions, the index of owners leads to a function exactly
    from the instructions that the function stores. -/
theorem Indexed.owner_eq_iff (hp : p.Indexed) (hf : p.function? k = some f) (i : InstrId) :
    p.instrOwner.find? i = some f.id ↔ i ∈ f.instrs.keys := by
  rw [hp.owned, hp.filed k f hf, hf]
  constructor
  · intro h
    obtain ⟨g, hg, hi⟩ := h
    exact Option.some.inj hg ▸ hi
  · intro hi
    exact ⟨f, rfl, hi⟩

/-- The rules over the indexes and the rules over the maps are the same rules. -/
theorem Indexed.sound_iff (hp : p.Indexed) (hf : p.function? k = some f) :
    f.Sound p ↔ f.SelfContained p := by
  have howner := hp.owner_eq_iff hf
  constructor
  · intro h
    exact h.selfContained fun i hi => (howner i).mp (h.owner_of_uses hi)
  · intro h
    refine
      { ended := fun b hb => b.isTerminated_iff.mpr (h.ended b hb)
        targets := fun b hb t ht => (f.blocks.contains_iff t).mpr (h.targets b hb t ht)
        conditions := ?_
        name := (hp.named f.name f.id).mpr ⟨f, hp.filed k f hf ▸ hf, rfl⟩
        filed := ?_
        listedOnce := ?_
        placed := h.placed
        listedAll := h.listedAll
        within := fun i inst hi => (h.filed i inst hi).2
        operands := ?_
        callees := ?_
        bound := fun i inst hi e he => (f.exprs.contains_iff e).mpr (h.bound i inst hi e he)
        converted := fun e he o ho => (f.exprs.contains_iff o).mpr (h.converted e he o ho) }
    · intro b hb i hcond
      obtain ⟨thenBlock, elseBlock, hend⟩ := (b.terminator.condition?_eq_some_iff i).mp hcond
      exact (howner i).mpr (h.conditions b hb i thenBlock elseBlock hend)
    · -- A stored instruction is its function's own, so the index leads back.
      intro i inst hi
      have hkey : i ∈ f.instrs.keys := (f.instrs.mem_keys_iff i).mpr ⟨inst, hi⟩
      exact ⟨(h.filed i inst hi).1.symm, (howner i).mpr hkey⟩
    · exact List.nodup_iff_count_eq_one.mpr h.listedOnce
    · intro i inst hi o ho
      have huse : inst.op.Uses o.instr := (inst.op.exists_operand_iff o.instr).mp ⟨o, ho, rfl⟩
      exact (howner o.instr).mpr (h.uses i inst hi o.instr huse)
    · intro i inst hi callee arguments object hop
      exact (p.functions.contains_iff callee).mpr (h.callees i inst hi callee arguments object hop)

/-- **The check is exact**: a program that was obtained without edits passes if and
    only if all its functions are self-contained. -/
theorem validate_iff_selfContained (p : Program) (hp : p.Obtained) :
    p.validate = .ok () ↔ ∀ k f, p.function? k = some f → f.SelfContained p := by
  rw [validate_iff]
  refine forall_congr' fun k => forall_congr' fun f => ?_
  constructor
  · intro h hf
    exact (hp.indexed.sound_iff hf).mp (h hf)
  · intro h hf
    exact (hp.indexed.sound_iff hf).mpr (h hf)

/-- The function with the loop is self-contained. -/
theorem loop_selfContained :
    loop.validate = .ok () ∧ ∀ k f, loop.function? k = some f → f.SelfContained loop :=
  ⟨validate_loop, (validate_iff_selfContained loop obtained_loop).mp validate_loop⟩

end Program

end SsaFlow
