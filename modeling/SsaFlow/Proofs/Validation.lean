import SsaFlow.Proofs.Indexes

/-! # What validation establishes

    The check lists the breaches of the rules; no breach means that the rules
    hold. `Function.Sound` is the list of the rules, each read off the maps, and
    `Program.validate_iff` says that the check decides them.

    The last part draws the consequences for programs whose indexes are in step:
    instructions are found from the whole program where their functions store
    them, and operands stay within a function.
-/

namespace SsaFlow

/-- The rules for one function of a program. -/
structure Function.Sound (p : Program) (f : Function) : Prop where
  /-- Every block has a terminator. -/
  ended : ∀ b ∈ f.blocks.values, b.isTerminated = true
  /-- Terminators lead to blocks of the function. -/
  targets : ∀ b ∈ f.blocks.values, ∀ t ∈ b.successors, f.blocks.contains t = true
  /-- Branches test instructions of the function. -/
  conditions : ∀ b ∈ f.blocks.values, ∀ i, b.terminator.condition? = some i →
    p.instrOwner.find? i = some f.id
  /-- The function's name leads to it. -/
  name : p.byName.find? f.name = some f.id
  /-- Instructions are stored under their own ids, and these lead to the
      function. -/
  filed : ∀ i inst, f.instr? i = some inst → i = inst.id ∧ p.instrOwner.find? i = some f.id
  /-- No id is listed twice. -/
  listedOnce : f.listed.Nodup
  /-- What a block lists is an instruction that names the block. -/
  placed : ∀ b ∈ f.blocks.values, ∀ i ∈ b.instrs, ∃ inst, f.instr? i = some inst ∧ inst.block = b.id
  /-- Every instruction is listed. -/
  listedAll : ∀ i ∈ f.instrs.keys, i ∈ f.listed
  /-- Instructions name the function. -/
  within : ∀ i inst, f.instr? i = some inst → inst.function = f.id
  /-- Operands are instructions of the function. -/
  operands : ∀ i inst, f.instr? i = some inst → ∀ o ∈ inst.operands,
    p.instrOwner.find? o.instr = some f.id
  /-- Known callees are functions of the program. -/
  callees : ∀ i inst, f.instr? i = some inst → ∀ callee arguments object,
    inst.op = .call (.static callee) arguments object → p.functions.contains callee = true
  /-- Bound expressions are expressions of the function. -/
  bound : ∀ i inst, f.instr? i = some inst → ∀ e, inst.expr = some e → f.exprs.contains e = true
  /-- Conversions convert expressions of the function. -/
  converted : ∀ e ∈ f.exprs.values, ∀ operand, e.kind = .conversion (some operand) →
    f.exprs.contains operand = true

/-! ### The parts of the check -/

/-- A rule that is reported as one breach. -/
theorem breach_eq_nil_iff {c : Prop} [Decidable c] (e : Error) : (if c then [] else [e]) = [] ↔ c := by
  by_cases h : c <;> simp [h]

namespace Program

variable (p : Program) (f : Function)

theorem useFlaws_eq_nil_iff (i : InstrId) :
    p.useFlaws f i = [] ↔ p.instrOwner.find? i = some f.id := by
  unfold useFlaws
  cases p.instrOwner.find? i with
  | none => simp
  | some owner =>
    rw [breach_eq_nil_iff]
    exact Option.some_inj.symm

theorem blockFlaws_eq_nil_iff (b : Block) :
    p.blockFlaws f b = [] ↔
      b.isTerminated = true ∧ (∀ t ∈ b.successors, f.blocks.contains t = true) ∧
        ∀ i, b.terminator.condition? = some i → p.instrOwner.find? i = some f.id := by
  unfold blockFlaws
  rw [List.append_eq_nil_iff, List.append_eq_nil_iff, breach_eq_nil_iff, List.map_eq_nil_iff,
    List.filter_eq_nil_iff, List.flatMap_eq_nil_iff, and_assoc]
  simp only [useFlaws_eq_nil_iff, Option.mem_toList, Bool.not_eq_true', Bool.not_eq_false]

theorem ownerFlaws_eq_nil_iff (entry : InstrId × Instr) :
    p.ownerFlaws f entry = [] ↔
      entry.1 = entry.2.id ∧ p.instrOwner.find? entry.1 = some f.id := by
  unfold ownerFlaws
  rw [List.append_eq_nil_iff, breach_eq_nil_iff, breach_eq_nil_iff]

theorem instrFlaws_eq_nil_iff (i : Instr) :
    p.instrFlaws f i = [] ↔
      i.function = f.id ∧ (∀ o ∈ i.operands, p.instrOwner.find? o.instr = some f.id) ∧
        (∀ callee arguments object, i.op = .call (.static callee) arguments object →
          p.functions.contains callee = true) ∧
        ∀ e, i.expr = some e → f.exprs.contains e = true := by
  unfold instrFlaws
  rw [List.append_eq_nil_iff, List.append_eq_nil_iff, List.append_eq_nil_iff, breach_eq_nil_iff,
    List.flatMap_eq_nil_iff, and_assoc, and_assoc]
  simp only [useFlaws_eq_nil_iff]
  refine and_congr_right fun _ => and_congr_right fun _ => and_congr ?_ ?_
  · -- Only calls of known functions are checked.
    split
    · next callee arguments object hop =>
      rw [breach_eq_nil_iff, hop]
      constructor
      · intro h callee' arguments' object' heq
        cases heq
        exact h
      · intro h
        exact h callee arguments object rfl
    · next hop =>
      refine ⟨fun _ callee arguments object heq => ?_, fun _ => rfl⟩
      exact absurd heq (hop callee arguments object)
  · cases i.expr with
    | none => simp
    | some e => simp

end Program

namespace Function

variable (f : Function)

theorem placeFlaws_eq_nil_iff (before : List InstrId) (b : BlockId) (i : InstrId) :
    f.placeFlaws before b i = [] ↔
      i ∉ before ∧ ∃ inst, f.instr? i = some inst ∧ inst.block = b := by
  unfold placeFlaws
  -- A repeated id is reported as such, whatever else is wrong with it.
  by_cases h : i ∈ before
  · simp [h]
  · rw [if_neg h]
    cases f.instr? i with
    | none => simp
    | some inst => simp [h]

/-- The listed ids are right if none is listed twice or before, and each is an
    instruction of the block that lists it. -/
theorem placesFlaws_eq_nil_iff (before : List InstrId) (l : List (BlockId × InstrId)) :
    f.placesFlaws before l = [] ↔
      (∀ e ∈ l, e.2 ∉ before) ∧ (l.map Prod.snd).Nodup ∧
        ∀ e ∈ l, ∃ inst, f.instr? e.2 = some inst ∧ inst.block = e.1 := by
  -- The ids seen so far grow by the head of the list, hence any `before`.
  induction l generalizing before with
  | nil => simp [placesFlaws]
  | cons e rest ih =>
    obtain ⟨b, i⟩ := e
    rw [placesFlaws, List.append_eq_nil_iff, placeFlaws_eq_nil_iff, ih]
    constructor
    · intro h
      obtain ⟨⟨hbefore, hinst⟩, hrest, hnodup, hall⟩ := h
      refine ⟨?_, ?_, ?_⟩
      · intro e he
        rcases List.mem_cons.mp he with heq | he'
        · rw [heq]; exact hbefore
        · exact fun hm => hrest e he' (List.mem_cons_of_mem i hm)
      · rw [List.map_cons, List.nodup_cons]
        refine ⟨?_, hnodup⟩
        intro hm
        obtain ⟨e, he, heq⟩ := List.mem_map.mp hm
        exact hrest e he (heq ▸ List.mem_cons_self)
      · intro e he
        rcases List.mem_cons.mp he with heq | he'
        · rw [heq]; exact hinst
        · exact hall e he'
    · intro h
      obtain ⟨hbefore, hnodup, hall⟩ := h
      rw [List.map_cons, List.nodup_cons] at hnodup
      refine ⟨⟨hbefore (b, i) List.mem_cons_self, hall (b, i) List.mem_cons_self⟩, ?_, hnodup.2, ?_⟩
      · intro e he hm
        rcases List.mem_cons.mp hm with heq | hm'
        · exact hnodup.1 (List.mem_map.mpr ⟨e, he, heq⟩)
        · exact hbefore e (List.mem_cons_of_mem (b, i) he) hm'
      · intro e he
        exact hall e (List.mem_cons_of_mem (b, i) he)

theorem map_snd_placed : f.placed.map Prod.snd = f.listed := by
  unfold placed listed
  rw [List.map_flatMap]
  simp [Function.comp_def]

theorem mem_placed_iff (e : BlockId × InstrId) :
    e ∈ f.placed ↔ ∃ b ∈ f.blocks.values, e.2 ∈ b.instrs ∧ b.id = e.1 := by
  unfold placed
  rw [List.mem_flatMap]
  refine exists_congr fun b => and_congr_right fun _ => ?_
  rw [List.mem_map]
  constructor
  · intro h
    obtain ⟨i, hi, rfl⟩ := h
    exact ⟨hi, rfl⟩
  · intro h
    exact ⟨e.2, h.1, Prod.ext h.2 rfl⟩

theorem layoutFlaws_eq_nil_iff :
    f.layoutFlaws = [] ↔
      f.listed.Nodup ∧
        (∀ b ∈ f.blocks.values, ∀ i ∈ b.instrs, ∃ inst, f.instr? i = some inst ∧ inst.block = b.id) ∧
        ∀ i ∈ f.instrs.keys, i ∈ f.listed := by
  unfold layoutFlaws
  rw [List.append_eq_nil_iff, placesFlaws_eq_nil_iff, map_snd_placed, List.map_eq_nil_iff,
    List.filter_eq_nil_iff]
  simp only [mem_placed_iff, Bool.not_eq_true', Bool.not_eq_false, List.contains_iff_mem]
  constructor
  · intro h
    obtain ⟨⟨_, hnodup, hplaced⟩, hlisted⟩ := h
    exact ⟨hnodup, fun b hb i hi => hplaced (b.id, i) ⟨b, hb, hi, rfl⟩, hlisted⟩
  · intro h
    obtain ⟨hnodup, hplaced, hlisted⟩ := h
    refine ⟨⟨fun _ _ => List.not_mem_nil, hnodup, ?_⟩, hlisted⟩
    intro e he
    obtain ⟨b, hb, hi, heq⟩ := he
    exact heq ▸ hplaced b hb e.2 hi

theorem exprFlaws_eq_nil_iff (e : Expr) :
    f.exprFlaws e = [] ↔
      ∀ operand, e.kind = .conversion (some operand) → f.exprs.contains operand = true := by
  unfold exprFlaws
  split
  · next operand hkind => simp [hkind]
  · next hkind =>
    refine ⟨fun _ operand heq => ?_, fun _ => rfl⟩
    exact absurd heq (hkind operand)

end Function

/-! ### The whole check -/

namespace Program

variable {p : Program} {f : Function} {k : FuncId} {i : InstrId} {inst : Instr}

theorem functionFlaws_eq_nil_iff (p : Program) (f : Function) :
    p.functionFlaws f = [] ↔ f.Sound p := by
  have howner : (∀ e ∈ f.instrs.entries, p.ownerFlaws f e = []) ↔
      ∀ i inst, f.instr? i = some inst → i = inst.id ∧ p.instrOwner.find? i = some f.id := by
    simp only [ownerFlaws_eq_nil_iff]
    constructor
    · intro h i inst hi
      exact h (i, inst) ((f.instrs.find?_eq_some_iff i inst).mp hi)
    · intro h e he
      exact h e.1 e.2 ((f.instrs.find?_eq_some_iff e.1 e.2).mpr he)
  have hstored : ∀ i inst, f.instr? i = some inst → inst ∈ f.instrs.values := fun i inst hi =>
    (f.instrs.mem_values_iff inst).mpr ⟨i, hi⟩
  unfold functionFlaws nameFlaws
  simp only [List.append_eq_nil_iff, List.flatMap_eq_nil_iff, breach_eq_nil_iff, howner,
    blockFlaws_eq_nil_iff, Function.layoutFlaws_eq_nil_iff, instrFlaws_eq_nil_iff,
    Function.exprFlaws_eq_nil_iff]
  -- The check goes by blocks and instructions, the rules are stated one by one.
  constructor
  · intro h
    obtain ⟨⟨⟨⟨⟨hblocks, hname⟩, hfiled⟩, honce, hplaced, hall⟩, hinstrs⟩, hexprs⟩ := h
    exact
      { ended := fun b hb => (hblocks b hb).1
        targets := fun b hb => (hblocks b hb).2.1
        conditions := fun b hb => (hblocks b hb).2.2
        name := hname
        filed := hfiled
        listedOnce := honce
        placed := hplaced
        listedAll := hall
        within := fun i inst hi => (hinstrs inst (hstored i inst hi)).1
        operands := fun i inst hi => (hinstrs inst (hstored i inst hi)).2.1
        callees := fun i inst hi => (hinstrs inst (hstored i inst hi)).2.2.1
        bound := fun i inst hi => (hinstrs inst (hstored i inst hi)).2.2.2
        converted := hexprs }
  · intro h
    refine ⟨⟨⟨⟨⟨?_, h.name⟩, h.filed⟩, h.listedOnce, h.placed, h.listedAll⟩, ?_⟩, h.converted⟩
    · intro b hb
      exact ⟨h.ended b hb, h.targets b hb, h.conditions b hb⟩
    · intro inst hinst
      obtain ⟨i, hi⟩ := (f.instrs.mem_values_iff inst).mp hinst
      exact ⟨h.within i inst hi, h.operands i inst hi, h.callees i inst hi, h.bound i inst hi⟩

/-- A program passes the check if the rules hold for all its functions. -/
theorem validate_iff (p : Program) :
    p.validate = .ok () ↔ ∀ k f, p.function? k = some f → f.Sound p := by
  have hnil : p.validate = .ok () ↔ p.flaws = [] := by
    unfold validate
    cases p.flaws with
    | nil => simp
    | cons e rest => simp
  rw [hnil]
  unfold flaws
  rw [List.flatMap_eq_nil_iff]
  simp only [OrderedMap.mem_values_iff, functionFlaws_eq_nil_iff]
  constructor
  · intro h k f hf
    exact h f ⟨k, hf⟩
  · intro h f hf
    obtain ⟨k, hk⟩ := hf
    exact h k f hk

/-! ### Indexed programs that pass -/

/-- The program is indexed and passes the check. -/
structure WellFormed (p : Program) : Prop where
  /-- The indexes are in step with the functions. -/
  indexed : p.Indexed
  /-- The rules hold for every function. -/
  sound : ∀ k f, p.function? k = some f → f.Sound p

theorem Obtained.wellFormed (hp : p.Obtained) (hv : p.validate = .ok ()) : p.WellFormed :=
  ⟨hp.indexed, (validate_iff p).mp hv⟩

namespace WellFormed

/-- An instruction of a function has the id under which it is stored and names
    the function. -/
theorem instr_names (h : p.WellFormed) (hf : p.function? k = some f) (hi : f.instr? i = some inst) :
    inst.id = i ∧ inst.function = k := by
  have hs := h.sound k f hf
  exact ⟨(hs.filed i inst hi).1.symm, (hs.within i inst hi).trans (h.indexed.filed k f hf)⟩

theorem instr?_eq_some_iff (h : p.WellFormed) :
    p.instr? i = some inst ↔ ∃ k f, p.function? k = some f ∧ f.instr? i = some inst :=
  h.indexed.instr?_eq_some_iff i inst

/-- An instruction of the program stands in the function that it names. -/
theorem instr_in_function (h : p.WellFormed) (hi : p.instr? i = some inst) :
    ∃ f, p.function? inst.function = some f ∧ f.instr? i = some inst := by
  obtain ⟨k, f, hf, hfi⟩ := h.instr?_eq_some_iff.mp hi
  exact ⟨f, (h.instr_names hf hfi).2 ▸ hf, hfi⟩

/-- An operand is an instruction of the same function. -/
theorem operand_in_function (h : p.WellFormed) (hf : p.function? k = some f)
    (hi : f.instr? i = some inst) {o : Operand} (ho : o ∈ inst.operands) :
    ∃ inst', f.instr? o.instr = some inst' := by
  -- The rule speaks of owners; the index turns an owner into a stored key.
  have howner := (h.sound k f hf).operands i inst hi o ho
  obtain ⟨f', hf', hkey⟩ := (h.indexed.owned o.instr f.id).mp howner
  rw [h.indexed.filed k f hf, hf] at hf'
  exact (f.instrs.mem_keys_iff o.instr).mp (Option.some.inj hf' ▸ hkey)

/-- The listing of a function holds its instructions. -/
theorem mem_listing_iff (h : p.WellFormed) (hf : p.function? k = some f) :
    inst ∈ f.listing ↔ f.instr? inst.id = some inst := by
  unfold Function.listing
  rw [List.mem_filterMap]
  constructor
  · intro hmem
    obtain ⟨i, _, hi⟩ := hmem
    exact (h.instr_names hf hi).1 ▸ hi
  · intro hi
    refine ⟨inst.id, ?_, hi⟩
    exact (h.sound k f hf).listedAll inst.id ((f.instrs.mem_keys_iff inst.id).mpr ⟨inst, hi⟩)

/-- The listing follows the listed ids one by one. -/
theorem map_id_listing (h : p.WellFormed) (hf : p.function? k = some f) :
    f.listing.map Instr.id = f.listed := by
  unfold Function.listing
  rw [List.map_filterMap]
  have hid : ∀ i ∈ f.listed, (f.instr? i).map Instr.id = some i := by
    intro i hi
    obtain ⟨b, hb, hlisted⟩ := List.mem_flatMap.mp hi
    obtain ⟨inst, hinst, _⟩ := (h.sound k f hf).placed b hb i hlisted
    rw [hinst, Option.map_some, (h.instr_names hf hinst).1]
  rw [List.filterMap_congr hid, List.filterMap_some]

end WellFormed

/-! ### A loop -/

/-- The steps that build a loop: a flag comes into the loop, is tested at its
    head, copied in its body and carried back. -/
def loopSteps : List Step :=
  [.program (.function "loop"), .function .newBlock, .function .newBlock, .function .newBlock,
    .function .enterEntry, .block (.constant (.bool true) .bool), .block (.terminate (.jump ⟨1⟩)),
    .function (.switchTo ⟨1⟩), .block (.phi [(⟨0⟩, ⟨0⟩), (⟨2⟩, ⟨2⟩)] .bool),
    .block (.terminate (.branch ⟨1⟩ ⟨2⟩ ⟨3⟩)),
    .function (.switchTo ⟨2⟩), .block (.copy ⟨1⟩ .bool), .block (.terminate (.jump ⟨1⟩)),
    .function (.switchTo ⟨3⟩), .block (.terminate .ret), .function .build]

/-- The program with the loop. -/
def loop : Program := (Session.empty.run loopSteps).1.program

theorem obtained_loop : loop.Obtained := .built loopSteps

theorem validate_loop : loop.validate = .ok () := rfl

end Program

end SsaFlow
