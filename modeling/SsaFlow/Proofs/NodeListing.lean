import Mathlib
import SsaFlow.Proofs.LocalFlow

/-! # One node for each instruction

    The instructions of a program are kept three times: in the maps of the functions,
    in the lists of the blocks, and as keys of the index of owners. Nothing but the
    check ties the three together. In a program that passes it, the blocks list every
    stored instruction once, the index counts them, and the nodes of the functions are
    those of the instructions.

    * `Program.stored`: the instructions in the maps of all functions.
    * `Program.WellFormed.listing_perm`: the listing has them all, each once.
    * `Program.Indexed.stats_instrs`: the index counts them.
    * `FlowGraph.mem_nodes_iff`: the nodes of a function are those that name it.
    * `FlowGraph.one_node_per_instruction`: all of it together.
-/

namespace SsaFlow

namespace Program

variable {p : Program} {f : Function} {k : FuncId} {i : InstrId} {inst : Instr}

/-! ### Stored and listed -/

/-- The instructions that are stored in any function, function by function. -/
def stored (p : Program) : List Instr := p.functions.values.flatMap fun f => f.instrs.values

/-- The keys under which they are stored. -/
def instrIds (p : Program) : List InstrId := p.functions.values.flatMap fun f => f.instrs.keys

theorem mem_stored_iff (p : Program) (inst : Instr) :
    inst ∈ p.stored ↔ ∃ k f i, p.function? k = some f ∧ f.instr? i = some inst := by
  unfold stored
  rw [List.mem_flatMap]
  constructor
  · intro h
    obtain ⟨f, hf, hinst⟩ := h
    obtain ⟨k, hk⟩ := (p.functions.mem_values_iff f).mp hf
    obtain ⟨i, hi⟩ := (f.instrs.mem_values_iff inst).mp hinst
    exact ⟨k, f, i, hk, hi⟩
  · intro h
    obtain ⟨k, f, i, hk, hi⟩ := h
    exact ⟨f, (p.functions.mem_values_iff f).mpr ⟨k, hk⟩, (f.instrs.mem_values_iff inst).mpr ⟨i, hi⟩⟩

namespace WellFormed

/-- Instructions are stored under their ids, so the ids of those that a function stores
    are its keys. -/
theorem map_id_values (h : p.WellFormed) (hf : p.function? k = some f) :
    f.instrs.values.map Instr.id = f.instrs.keys := by
  unfold OrderedMap.values OrderedMap.keys
  rw [List.map_map]
  apply List.map_congr_left
  intro e he
  have hi : f.instr? e.1 = some e.2 := (f.instrs.find?_eq_some_iff e.1 e.2).mpr he
  exact (h.instr_names hf hi).1

/-- The listing of a function has every instruction that it stores, once. -/
theorem function_listing_perm (h : p.WellFormed) (hf : p.function? k = some f) :
    f.listing.Perm f.instrs.values := by
  have hlisting : f.listing.Nodup := by
    apply List.Nodup.of_map Instr.id
    rw [h.map_id_listing hf]
    exact (h.sound k f hf).listedOnce
  have hvalues : f.instrs.values.Nodup := by
    apply List.Nodup.of_map Instr.id
    rw [h.map_id_values hf]
    exact f.instrs.keys_nodup
  rw [List.perm_ext_iff_of_nodup hlisting hvalues]
  intro inst
  rw [h.mem_listing_iff hf, OrderedMap.mem_values_iff]
  constructor
  · intro hinst
    exact ⟨inst.id, hinst⟩
  · intro hinst
    obtain ⟨i, hi⟩ := hinst
    have hid : inst.id = i := (h.instr_names hf hi).1
    rw [hid]
    exact hi

/-- **Nothing is lost or listed twice**: the listing of a program has every instruction
    that is stored in any function, once. -/
theorem listing_perm (h : p.WellFormed) : p.listing.Perm p.stored := by
  unfold listing stored
  apply List.Perm.flatMap_left
  intro f hf
  obtain ⟨k, hk⟩ := (p.functions.mem_values_iff f).mp hf
  exact h.function_listing_perm hk

/-- The ids of the stored instructions are the keys. -/
theorem map_id_stored (h : p.WellFormed) : p.stored.map Instr.id = p.instrIds := by
  unfold stored instrIds
  rw [List.map_flatMap]
  apply List.flatMap_congr
  intro f hf
  obtain ⟨k, hk⟩ := (p.functions.mem_values_iff f).mp hf
  exact h.map_id_values hk

/-- What the listing has, the program finds under its id. -/
theorem instr?_of_mem_listing (h : p.WellFormed) (hinst : inst ∈ p.listing) :
    p.instr? inst.id = some inst := by
  obtain ⟨k, f, i, hf, hi⟩ := (p.mem_stored_iff inst).mp (h.listing_perm.mem_iff.mp hinst)
  have hid : inst.id = i := (h.instr_names hf hi).1
  rw [hid]
  exact h.instr?_eq_some_iff.mpr ⟨k, f, hf, hi⟩

/-- And what the program finds is listed. -/
theorem mem_listing_of_instr? (h : p.WellFormed) (hi : p.instr? i = some inst) :
    inst ∈ p.listing := by
  obtain ⟨k, f, hf, hfi⟩ := h.instr?_eq_some_iff.mp hi
  rw [h.listing_perm.mem_iff]
  exact (p.mem_stored_iff inst).mpr ⟨k, f, i, hf, hfi⟩

end WellFormed

/-! ### The index counts them -/

/-- No two functions store an instruction under the same key. -/
theorem Indexed.nodup_instrIds (hp : p.Indexed) : p.instrIds.Nodup := by
  unfold instrIds
  rw [OrderedMap.nodup_flatMap_iff]
  constructor
  · intro k f _
    exact f.instrs.keys_nodup
  · intro k f l g i hf hg hi hi'
    exact hp.owner_unique hf hg hi hi'

/-- The index has as many instructions as the functions have keys. -/
theorem Indexed.stats_instrs (hp : p.Indexed) : p.stats.instrs = p.instrIds.length := by
  have hperm : p.instrOwner.keys.Perm p.instrIds := by
    rw [List.perm_ext_iff_of_nodup p.instrOwner.keys_nodup hp.nodup_instrIds]
    intro i
    unfold instrIds
    rw [OrderedMap.mem_keys_iff, List.mem_flatMap]
    constructor
    · intro h
      obtain ⟨k, hk⟩ := h
      obtain ⟨f, hf, hi⟩ := (hp.owned i k).mp hk
      exact ⟨f, (p.functions.mem_values_iff f).mpr ⟨k, hf⟩, hi⟩
    · intro h
      obtain ⟨f, hmem, hi⟩ := h
      obtain ⟨k, hf⟩ := (p.functions.mem_values_iff f).mp hmem
      exact ⟨k, (hp.owned i k).mpr ⟨f, hf, hi⟩⟩
  rw [← hperm.length_eq]
  exact (List.length_map _).symm

/-- No two instructions of the listing have one id. -/
theorem WellFormed.nodup_map_id_listing (h : p.WellFormed) : (p.listing.map Instr.id).Nodup := by
  rw [(h.listing_perm.map Instr.id).nodup_iff, h.map_id_stored]
  exact h.indexed.nodup_instrIds

end Program

/-! ### Nodes -/

namespace FlowGraph

variable {g : FlowGraph} {n : Node} {k : FuncId}

theorem nodes_of_function? {f : Function} (hf : g.program.function? k = some f) :
    g.nodes k = f.listing.map fun i => ⟨i.id⟩ := by
  unfold nodes
  rw [hf]

/-- **The nodes of a function** are those whose instructions name it. -/
theorem mem_nodes_iff (h : g.program.WellFormed) : n ∈ g.nodes k ↔ g.enclosing? n = some k := by
  rw [enclosing?_eq_some_iff h]
  constructor
  · intro hn
    cases hf : g.program.function? k with
    | none =>
      unfold nodes at hn
      rw [hf] at hn
      cases hn
    | some f =>
      rw [nodes_of_function? hf] at hn
      obtain ⟨i, hi, rfl⟩ := List.mem_map.mp hn
      exact ⟨f, i, rfl, (h.mem_listing_iff hf).mp hi⟩
  · intro hn
    obtain ⟨f, i, hf, hi⟩ := hn
    have hid : i.id = n.instr := (h.instr_names hf hi).1
    rw [nodes_of_function? hf, List.mem_map]
    refine ⟨i, (h.mem_listing_iff hf).mpr ?_, ?_⟩
    · rw [hid]
      exact hi
    · rw [hid]

/-- The nodes of all functions, one function after the other, are those of the listing.
    This holds of every program: both go by the same lists. -/
theorem flatMap_nodes (g : FlowGraph) :
    g.program.functions.keys.flatMap g.nodes = g.program.listing.map fun i => ⟨i.id⟩ := by
  unfold Program.listing OrderedMap.keys OrderedMap.values
  rw [List.map_flatMap, List.flatMap_map, List.flatMap_map]
  apply List.flatMap_congr
  intro e he
  exact nodes_of_function? ((g.program.functions.find?_eq_some_iff e.1 e.2).mpr he)

/-- A node of a function leads to an instruction with its id, and back. -/
theorem instr?_of_mem_nodes (h : g.program.WellFormed) (hn : n ∈ g.nodes k) :
    ∃ i, g.instr? n = some i ∧ i.id = n.instr ∧ g.nodeAt n.instr = .ok n := by
  obtain ⟨f, i, hf, hi⟩ := (enclosing?_eq_some_iff h).mp ((mem_nodes_iff h).mp hn)
  have hfound : g.program.instr? n.instr = some i := h.instr?_eq_some_iff.mpr ⟨k, f, hf, hi⟩
  refine ⟨i, hfound, (h.instr_names hf hi).1, ?_⟩
  unfold nodeAt
  rw [hfound]

/-- **One node for each instruction.** In a program that was obtained without edits and
    passes the check, the listing has every stored instruction once, no two of them with
    one id, and is as long as the index says. Every instruction is found at its node. No
    node is twice among those of a function, or among those of two functions, and
    function by function they are the nodes of the listing. A node is one of a function
    exactly if its instruction names the function; then the instruction has the node's
    id, and asking for the node of that id gives it back. -/
theorem one_node_per_instruction (g : FlowGraph) (hp : g.program.Obtained)
    (hv : g.program.validate = .ok ()) :
    g.program.listing.Perm g.program.stored ∧
    (g.program.listing.map Instr.id).Nodup ∧
    g.program.listing.length = g.program.stats.instrs ∧
    (∀ i ∈ g.program.listing, g.instr? ⟨i.id⟩ = some i) ∧
    (∀ k, (g.nodes k).Nodup) ∧
    (∀ k l, k ≠ l → (g.nodes k).Disjoint (g.nodes l)) ∧
    (g.program.functions.keys.flatMap g.nodes = g.program.listing.map fun i => ⟨i.id⟩) ∧
    (∀ k n, n ∈ g.nodes k ↔ g.enclosing? n = some k) ∧
    ∀ k, ∀ n ∈ g.nodes k,
      ∃ i, g.instr? n = some i ∧ i.id = n.instr ∧ g.nodeAt n.instr = .ok n := by
  have h := hp.wellFormed hv
  refine ⟨h.listing_perm, h.nodup_map_id_listing, ?_, fun i hi => h.instr?_of_mem_listing hi, ?_, ?_,
    g.flatMap_nodes, fun k n => mem_nodes_iff h, fun k n hn => instr?_of_mem_nodes h hn⟩
  · rw [h.indexed.stats_instrs, ← h.map_id_stored, List.length_map]
    exact h.listing_perm.length_eq
  · intro k
    cases hf : g.program.function? k with
    | none =>
      unfold nodes
      rw [hf]
      exact List.nodup_nil
    | some f =>
      rw [nodes_of_function? hf]
      -- A node is its id, and the listing has every id once.
      apply List.Nodup.of_map Node.instr
      rw [List.map_map]
      show (f.listing.map Instr.id).Nodup
      rw [h.map_id_listing hf]
      exact (h.sound k f hf).listedOnce
  · intro k l hkl n hk hl
    have hown := (mem_nodes_iff h).mp hk
    rw [(mem_nodes_iff h).mp hl] at hown
    exact hkl (Option.some.inj hown).symm

/-- The steps that build two functions. In the first, the block that is laid out last
    is filled first. -/
def crossedSteps : List SsaFlow.Step :=
  [.program (.function "crossed"), .function .newBlock, .function (.switchTo ⟨1⟩),
    .block (.constant (.bool true) .bool), .block (.terminate .ret), .function .enterEntry,
    .block (.constant (.bool false) .bool), .block (.terminate (.jump ⟨1⟩)), .function .build,
    .program (.function "other"), .function .enterEntry, .block (.constant (.bool true) .bool),
    .block (.terminate .ret), .function .build]

/-- The two functions as a flow graph. -/
def crossed : FlowGraph := ⟨(Session.empty.run crossedSteps).1.program, .standard, none⟩

/-- The first function stores its instructions in the order in which they came, and lists
    them in the order of the blocks. Its nodes and that of the second are three, as many
    as the index says. -/
theorem crossed_listed :
    crossed.program.validate = .ok () ∧
      crossed.program.stored.map Instr.id = [⟨0⟩, ⟨1⟩, ⟨2⟩] ∧
      crossed.nodes ⟨0⟩ = [⟨⟨1⟩⟩, ⟨⟨0⟩⟩] ∧ crossed.nodes ⟨1⟩ = [⟨⟨2⟩⟩] ∧
      crossed.program.listing.Perm crossed.program.stored ∧
      crossed.program.listing.length = crossed.program.stats.instrs ∧
      (crossed.nodes ⟨0⟩).Disjoint (crossed.nodes ⟨1⟩) ∧
      crossed.enclosing? ⟨⟨2⟩⟩ = some ⟨1⟩ := by
  have hv : crossed.program.validate = .ok () := rfl
  have hp : crossed.program.Obtained := .built crossedSteps
  obtain ⟨hperm, -, hlength, -, -, hapart, -, hnodes, -⟩ := one_node_per_instruction crossed hp hv
  refine ⟨hv, rfl, rfl, rfl, hperm, hlength, hapart ⟨0⟩ ⟨1⟩ (by decide), ?_⟩
  exact (hnodes ⟨1⟩ ⟨⟨2⟩⟩).mp (List.mem_singleton.mpr rfl)

end FlowGraph

end SsaFlow
