import SsaFlow.Analysis.ControlFlow
import SsaFlow.Proofs.Construction
import SsaFlow.Proofs.SaveLoad

/-! # Blocks by key and by id

    A block is stored under a key and has an id of its own. Control flow goes by
    keys; instructions and `Function.predecessors` name blocks by their ids. The
    check compares each of them with itself only, so the two may differ in a
    program that was loaded, and they never do in one that was built.

    * `ControlFlow.predecessors_of` and `Function.predecessors_eq`: both kinds of
      predecessors, off the same list of blocks.
    * `Function.Coherent`: keys and ids tell the same story.
    * `Program.coherent_iff_filed`: what the check leaves open.
-/

namespace SsaFlow

/-! ### Predecessors -/

namespace ControlFlow

/-- A block that leads to `b` has one edge there. -/
theorem edgesOf_into (e : BlockId × Block) (b : BlockId) :
    ((edgesOf e).filter fun edge => edge.2 = b).map Prod.fst =
      if e.2.successors.contains b then [e.1] else [] := by
  rw [edgesOf_eq]
  unfold Block.successors
  cases e.2.terminator with
  | jump target =>
    by_cases h : b = target
    · simp [Terminator.successors, List.eraseDups_cons, h]
    · simp [Terminator.successors, List.eraseDups_cons, h, Ne.symm h]
  | branch condition thenBlock elseBlock =>
    -- A branch with one target has one edge.
    by_cases hsame : elseBlock = thenBlock
    · by_cases h : b = thenBlock
      · simp [Terminator.successors, List.eraseDups_cons, hsame, h]
      · simp [Terminator.successors, List.eraseDups_cons, hsame, h, Ne.symm h]
    · by_cases h : b = thenBlock
      · simp [Terminator.successors, List.eraseDups_cons, hsame, h]
      · by_cases h' : b = elseBlock
        · simp [Terminator.successors, List.eraseDups_cons, hsame, h', Ne.symm hsame]
        · simp [Terminator.successors, List.eraseDups_cons, hsame, h, h', Ne.symm h, Ne.symm h']
  | _ => simp [Terminator.successors]

/-- Control comes to `b` from the keys of the blocks that lead there, in layout
    order. -/
theorem predecessors_of (f : Function) (b : BlockId) :
    (ControlFlow.of f).predecessors b =
      (f.blocks.entries.filter fun e => e.2.successors.contains b).map Prod.fst := by
  show (graphOf f).pred b = _
  rw [Digraph.pred_eq]
  show ((f.blocks.entries.flatMap edgesOf).filter _).map _ = _
  rw [List.filter_flatMap, List.map_flatMap]
  simp only [edgesOf_into]
  induction f.blocks.entries with
  | nil => rfl
  | cons e rest ih =>
    rw [List.flatMap_cons, ih]
    by_cases h : e.2.successors.contains b = true
    · rw [if_pos h, List.filter_cons, if_pos h]
      rfl
    · rw [if_neg h, List.filter_cons, if_neg h]
      rfl

end ControlFlow

namespace Function

variable (f : Function)

theorem predecessors_eq (b : BlockId) :
    f.predecessors b =
      (f.blocks.entries.filter fun e => e.2.successors.contains b).map fun e => e.2.id := by
  unfold predecessors OrderedMap.values
  rw [List.filter_map, List.map_map]
  rfl

/-- Predecessors by key and by id agree if every block that leads anywhere is
    stored under its id. -/
theorem predecessors_agree_iff :
    (∀ b, (ControlFlow.of f).predecessors b = f.predecessors b) ↔
      ∀ k b, f.block? k = some b → b.successors ≠ [] → b.id = k := by
  simp only [ControlFlow.predecessors_of, predecessors_eq, List.map_inj_left]
  constructor
  · intro h k b hb hsucc
    obtain ⟨t, ht⟩ := List.exists_mem_of_ne_nil _ hsucc
    have hentry : (k, b) ∈ f.blocks.entries := (f.blocks.find?_eq_some_iff k b).mp hb
    have hmem : (k, b) ∈ f.blocks.entries.filter fun e => e.2.successors.contains t :=
      List.mem_filter.mpr ⟨hentry, List.contains_iff_mem.mpr ht⟩
    exact (h t (k, b) hmem).symm
  · intro h b e he
    obtain ⟨hentry, hsucc⟩ := List.mem_filter.mp he
    have hfind : f.block? e.1 = some e.2 := (f.blocks.find?_eq_some_iff e.1 e.2).mpr hentry
    refine (h e.1 e.2 hfind ?_).symm
    exact List.ne_nil_of_mem (List.contains_iff_mem.mp hsucc)

/-! ### Instructions and their blocks -/

variable {f} {p : Program} {i : InstrId} {inst : Instr}

/-- No two blocks list the same instruction. -/
theorem Sound.key_eq (h : f.Sound p) {k k' : BlockId} (hk : f.Lists k i) (hk' : f.Lists k' i) :
    k = k' := by
  obtain ⟨b, hb, hi⟩ := hk
  obtain ⟨b', hb', hi'⟩ := hk'
  obtain ⟨-, hone⟩ := (f.blocks.nodup_flatMap_iff Block.instrs).mp h.listedOnce
  exact hone k b k' b' i hb hb' hi hi'

/-- Every instruction is listed by a block that has the id that it names. -/
theorem Sound.exists_lists (h : f.Sound p) (hi : f.instr? i = some inst) :
    ∃ k b, f.block? k = some b ∧ i ∈ b.instrs ∧ b.id = inst.block := by
  have hkey : i ∈ f.instrs.keys := (f.instrs.mem_keys_iff i).mpr ⟨inst, hi⟩
  obtain ⟨b, hb, hmem⟩ := List.mem_flatMap.mp (h.listedAll i hkey)
  obtain ⟨k, hk⟩ := (f.blocks.mem_values_iff b).mp hb
  obtain ⟨inst', hi', hblock⟩ := h.placed b hb i hmem
  obtain rfl := Option.some.inj (hi.symm.trans hi')
  exact ⟨k, b, hk, hmem, hblock.symm⟩

/-- Instructions are found in the blocks that they name if every block that lists
    anything is stored under its id. -/
theorem Sound.lists_iff (h : f.Sound p) :
    (∀ i inst, f.instr? i = some inst → f.Lists inst.block i) ↔
      ∀ k b, f.block? k = some b → b.instrs ≠ [] → b.id = k := by
  constructor
  · intro hlists k b hb hinstrs
    obtain ⟨i, hi⟩ := List.exists_mem_of_ne_nil _ hinstrs
    obtain ⟨inst, hinst, hblock⟩ := h.placed b ((f.blocks.mem_values_iff b).mpr ⟨k, hb⟩) i hi
    have hnamed : f.Lists b.id i := hblock ▸ hlists i inst hinst
    exact h.key_eq hnamed ⟨b, hb, hi⟩
  · intro hfiled i inst hi
    obtain ⟨k, b, hb, hmem, hblock⟩ := h.exists_lists hi
    have hid : b.id = k := hfiled k b hb (List.ne_nil_of_mem hmem)
    refine ⟨b, ?_, hmem⟩
    rw [← hblock, hid]
    exact hb

/-! ### Keys and ids together -/

/-- The blocks are told alike by their keys and by their ids. -/
structure Coherent (f : Function) : Prop extends f.Filed where
  /-- The block that an instruction names lists it. -/
  instrs : ∀ i inst, f.instr? i = some inst → f.Lists inst.block i
  /-- Predecessors by key are predecessors by id. -/
  predecessors : ∀ b, (ControlFlow.of f).predecessors b = f.predecessors b

/-- For a function that passes the check it is enough that blocks are stored under
    their ids. -/
theorem Sound.coherent_iff (h : f.Sound p) : f.Coherent ↔ f.Filed := by
  constructor
  · exact Coherent.toFiled
  · intro hfiled
    exact ⟨hfiled, h.lists_iff.mpr fun k b hb _ => hfiled.blocks k b hb,
      f.predecessors_agree_iff.mpr fun k b hb _ => hfiled.blocks k b hb⟩

end Function

namespace Program

/-- **What the check leaves open.** Take any function of a program that was obtained
    without edits and passes. Each instruction is listed by one block, which has
    the id that the instruction names. All that is told of blocks by keys and by
    ids agrees if the entry is a block and blocks are stored under their ids;
    for the blocks that instructions name and for predecessors alone it takes
    just the blocks that list instructions and those that lead on. In a program
    that was built it all agrees. -/
theorem coherent_iff_filed (p : Program) (hp : p.Obtained) (hv : p.validate = .ok ())
    {k : FuncId} {f : Function} (hf : p.function? k = some f) :
    (∀ i inst, f.instr? i = some inst →
      (∃ b block, f.block? b = some block ∧ i ∈ block.instrs ∧ block.id = inst.block) ∧
        ∀ b b', f.Lists b i → f.Lists b' i → b = b') ∧
    (f.Coherent ↔ f.entry ∈ f.blocks.keys ∧ ∀ b block, f.block? b = some block → block.id = b) ∧
    ((∀ i inst, f.instr? i = some inst → f.Lists inst.block i) ↔
      ∀ b block, f.block? b = some block → block.instrs ≠ [] → block.id = b) ∧
    ((∀ b, (ControlFlow.of f).predecessors b = f.predecessors b) ↔
      ∀ b block, f.block? b = some block → block.successors ≠ [] → block.id = b) ∧
    ((∃ steps, p = (Session.empty.run steps).1.program) → f.Coherent) := by
  have hsound : f.Sound p := (hp.wellFormed hv).sound k f hf
  refine ⟨?_, ?_, hsound.lists_iff, f.predecessors_agree_iff, ?_⟩
  · intro i inst hi
    exact ⟨hsound.exists_lists hi, fun b b' hb hb' => hsound.key_eq hb hb'⟩
  · rw [hsound.coherent_iff]
    exact ⟨fun h => ⟨h.entry, h.blocks⟩, fun h => ⟨h.1, h.2⟩⟩
  · rintro ⟨steps, rfl⟩
    -- Every move of construction keeps blocks under their ids.
    have hbuilt := Session.functions_run Function.Filed.fresh
      (fun _ _ _ _ hmove hfiled => hfiled.move hmove) steps
    exact hsound.coherent_iff.mpr (hbuilt.built k f hf)

/-- The function with the loop was built, so its blocks agree. -/
theorem loop_coherent :
    loop.function? ⟨0⟩ ≠ none ∧ ∀ f, loop.function? ⟨0⟩ = some f → f.Coherent := by
  refine ⟨by decide, ?_⟩
  intro f hf
  obtain ⟨-, -, -, -, hbuilt⟩ := coherent_iff_filed loop obtained_loop validate_loop hf
  exact hbuilt ⟨loopSteps, rfl⟩

/-- A function that starts nowhere, with a block that is stored under another id
    than its own. -/
def astray : Function where
  id := ⟨0⟩
  signature := ⟨"f", [], .void, none⟩
  entry := ⟨5⟩
  blocks := .ofList [(⟨0⟩, ⟨⟨7⟩, [⟨0⟩], .jump ⟨1⟩⟩), (⟨1⟩, ⟨⟨1⟩, [], .ret⟩)]
  instrs := .ofList [(⟨0⟩, ⟨⟨0⟩, ⟨0⟩, ⟨7⟩, .ret none, .void, none, .unknown⟩)]
  exprs := .empty
  nextBlock := 2

/-- The program with that function can be loaded and passes the check. -/
theorem astray_passes :
    ∃ p text, load text = .ok p ∧ p.validate = .ok () ∧ p.function? ⟨0⟩ = some astray ∧
      astray.entry ∉ astray.blocks.keys ∧
      (∃ block, astray.block? ⟨0⟩ = some block ∧ block.id ≠ ⟨0⟩) ∧
      (∃ inst, astray.instr? ⟨0⟩ = some inst ∧ inst.block ∉ astray.blocks.keys) ∧
      (ControlFlow.of astray).predecessors ⟨1⟩ ≠ astray.predecessors ⟨1⟩ := by
  have hadd : Program.empty.add? astray = .ok (Program.empty.insert astray) := rfl
  have hempty : Program.empty.Rebuilt := rfl
  have hrebuilt : (Program.empty.insert astray).Rebuilt := hempty.add hadd
  have hnests : Json.nesting (Program.empty.insert astray).save ≤ Json.maxNesting := by
    rw [nesting_save]
    decide +kernel
  refine ⟨_, _, hrebuilt.load_save hnests, rfl, rfl, ?_, ⟨_, rfl, ?_⟩, ⟨_, rfl, ?_⟩, ?_⟩
  · decide
  · decide
  · decide
  · rw [ControlFlow.predecessors_of]
    decide

end Program

end SsaFlow
