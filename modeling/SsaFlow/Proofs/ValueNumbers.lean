import Mathlib.Data.List.Nodup
import SsaFlow.Analysis.ValueClasses
import SsaFlow.Proofs.Traversal
import SsaFlow.Proofs.Validation

/-! # Value numbers

    The numbering visits the blocks in an order of its own, and still comes by
    every stored block once. So it meets what the blocks list, each listed id as
    often as it is listed, and in a function that keeps the rules every
    instruction is given one number. Then the members of a class are exactly the
    instructions with the same number.

    What one visit does to the tables is said once, by `ValueClasses.Visits`: it
    gives a number that is in use or the next free one.
-/

namespace SsaFlow

/-! ### The order of the visits -/

/-- Looking up all keys gives the values. -/
theorem OrderedMap.filterMap_find?_keys {κ α : Type} [DecidableEq κ] [Coded κ]
    (m : OrderedMap κ α) : m.keys.filterMap m.find? = m.values := by
  unfold keys values
  rw [List.filterMap_map, ← List.filterMap_eq_map]
  refine List.filterMap_congr ?_
  intro e he
  exact (m.find?_eq_some_iff e.1 e.2).mpr he

namespace Function

variable (f : Function)

theorem nodup_visitOrder : f.visitOrder.Nodup := by
  unfold visitOrder
  refine List.nodup_append.mpr ⟨?_, f.blocks.keys_nodup.filter _, ?_⟩
  · exact List.nodup_reverse.mpr (Digraph.nodup_postorder _ _)
  · -- The second part holds only what the first one left out.
    intro a ha b hb hab
    have hout := (List.mem_filter.mp hb).2
    subst hab
    simp [ha] at hout

theorem mem_visitOrder_of_mem_keys {b : BlockId} (hb : b ∈ f.blocks.keys) : b ∈ f.visitOrder := by
  unfold visitOrder
  by_cases hin : b ∈ (ControlFlow.of f).reversePostorder
  · exact List.mem_append_left _ hin
  · refine List.mem_append_right _ (List.mem_filter.mpr ⟨hb, ?_⟩)
    simpa using hin

/-- The visits come by every stored block exactly once. -/
theorem visitedBlocks_perm : (f.visitOrder.filterMap f.block?).Perm f.blocks.values := by
  have hkeys : (f.visitOrder.filter f.blocks.contains).Perm f.blocks.keys := by
    refine (List.perm_ext_iff_of_nodup (f.nodup_visitOrder.filter _) f.blocks.keys_nodup).mpr ?_
    intro b
    rw [List.mem_filter, OrderedMap.contains_iff]
    exact ⟨And.right, fun hb => ⟨f.mem_visitOrder_of_mem_keys hb, hb⟩⟩
  have hblocks := hkeys.filterMap f.block?
  -- Ids of blocks that are not stored drop out in the look-up as well.
  have hdrop : (f.visitOrder.filter f.blocks.contains).filterMap f.block? =
      f.visitOrder.filterMap f.block? := by
    rw [List.filterMap_filter]
    refine List.filterMap_congr ?_
    intro b _
    by_cases hb : f.blocks.contains b = true
    · rw [if_pos hb]
    · rw [if_neg hb]
      exact (OrderedMap.find?_eq_none_of_contains hb).symm
  rw [hdrop] at hblocks
  exact hblocks.trans (.of_eq f.blocks.filterMap_find?_keys)

/-- The ids that are met on the visits are those that the visited blocks list,
    without those that have no instruction. -/
theorem map_fst_visits :
    f.visits.map Prod.fst =
      ((f.visitOrder.filterMap f.block?).flatMap Block.instrs).filter f.instrs.contains := by
  unfold visits
  rw [List.map_filterMap, ← List.filterMap_eq_filter]
  refine List.filterMap_congr ?_
  intro i _
  cases hi : f.instr? i with
  | none => simp [Option.guard, OrderedMap.contains, show f.instrs.find? i = none from hi]
  | some inst => simp [Option.guard, OrderedMap.contains, show f.instrs.find? i = some inst from hi]

/-- So they are the listed ones, in another order. -/
theorem map_fst_visits_perm :
    (f.visits.map Prod.fst).Perm (f.listed.filter f.instrs.contains) := by
  rw [map_fst_visits]
  exact (f.visitedBlocks_perm.flatMap_right Block.instrs).filter _

/-- A visit comes with the instruction that is stored under the visited id. -/
theorem instr?_of_mem_visits {e : InstrId × Instr} (he : e ∈ f.visits) :
    f.instr? e.1 = some e.2 := by
  unfold visits at he
  obtain ⟨i, _, hi⟩ := List.mem_filterMap.mp he
  obtain ⟨inst, hinst, rfl⟩ := Option.map_eq_some_iff.mp hi
  exact hinst

/-- No instruction is visited twice if none is listed twice. -/
theorem nodup_map_fst_visits (h : f.listed.Nodup) : (f.visits.map Prod.fst).Nodup :=
  f.map_fst_visits_perm.nodup_iff.mpr (h.filter _)

end Function

/-! ### Numbers and classes -/

namespace ValueClasses

variable (v : ValueClasses) {i m : InstrId} {n : Nat}

/-- What a visit to an instruction, which is listed as `i`, makes of the numbering. -/
inductive Visits (v : ValueClasses) (i : InstrId) (inst : Instr) : ValueClasses → Prop where
  /-- The instruction takes a number that is in use. -/
  | same (n : Nat) (hclass : v.classify inst.op inst.ty = .same n) : Visits v i inst (v.give i n)
  /-- It has no shape and takes the next number. -/
  | own (hclass : v.classify inst.op inst.ty = .own) : Visits v i inst (v.giveNext i)
  /-- Its shape was met before and has a number. -/
  | found (key : ValueShape) (n : Nat) (hclass : v.classify inst.op inst.ty = .shaped key)
      (hkey : (key, n) ∈ v.shapes) : Visits v i inst (v.give i n)
  /-- Its shape is new, and both take the next number. -/
  | added (key : ValueShape) (hclass : v.classify inst.op inst.ty = .shaped key)
      (hnew : ∀ n, (key, n) ∉ v.shapes) :
      Visits v i inst { v.giveNext i with shapes := v.shapes ++ [(key, v.next)] }

theorem visits_visit (i : InstrId) (inst : Instr) : v.Visits i inst (v.visit i inst) := by
  unfold visit
  cases hc : v.classify inst.op inst.ty with
  | same n => exact .same n hc
  | own => exact .own hc
  | shaped key =>
    cases hfound : v.shapes.find? fun e => e.1 = key with
    | some e =>
      have heq : e.1 = key := by simpa using List.find?_some hfound
      simp only [hfound]
      exact .found key e.2 hc (heq ▸ List.mem_of_find?_eq_some hfound)
    | none =>
      simp only [hfound]
      refine .added key hc fun n hn => ?_
      simpa using List.find?_eq_none.mp hfound _ hn

/-- **One visit, one number**: a visit gives a number to the visited instruction
    and changes nothing that was given before. -/
theorem given_visit (i : InstrId) (inst : Instr) :
    ∃ n, (v.visit i inst).given = v.given ++ [(i, n)] := by
  have hvisits := v.visits_visit i inst
  generalize v.visit i inst = w at hvisits ⊢
  cases hvisits with
  | same n => exact ⟨n, rfl⟩
  | own => exact ⟨v.next, rfl⟩
  | found key n => exact ⟨n, rfl⟩
  | added key => exact ⟨v.next, rfl⟩

/-- A list of visits gives numbers to the visited instructions, in order. -/
theorem map_fst_given_foldl (visits : List (InstrId × Instr)) :
    (visits.foldl (fun v e => v.visit e.1 e.2) v).given.map Prod.fst =
      v.given.map Prod.fst ++ visits.map Prod.fst := by
  -- Each visit appends one entry to what the earlier ones gave.
  induction visits generalizing v with
  | nil => exact (List.append_nil _).symm
  | cons e rest ih =>
    obtain ⟨n, hn⟩ := v.given_visit e.1 e.2
    rw [List.foldl_cons, ih, hn]
    simp

theorem map_fst_given_of (f : Function) :
    (of f).given.map Prod.fst = f.visits.map Prod.fst :=
  map_fst_given_foldl empty f.visits

/-- The number of an instruction is one that it was given. -/
theorem mem_given_of_number? (h : v.number? i = some n) : (i, n) ∈ v.given := by
  unfold number? at h
  obtain ⟨e, he, rfl⟩ := Option.map_eq_some_iff.mp h
  have hi : e.1 = i := by simpa using List.find?_some he
  exact hi ▸ List.mem_reverse.mp (List.mem_of_find?_eq_some he)

/-- Where no instruction was given two numbers, the number of an instruction is
    the one it was given. -/
theorem number?_eq_some_iff (h : (v.given.map Prod.fst).Nodup) :
    v.number? i = some n ↔ (i, n) ∈ v.given := by
  constructor
  · exact v.mem_given_of_number?
  · intro hmem
    have hsome : (v.number? i).isSome = true := by
      unfold number?
      rw [Option.isSome_map]
      exact List.find?_isSome.mpr ⟨(i, n), List.mem_reverse.mpr hmem, by simp⟩
    obtain ⟨n', hn'⟩ := Option.isSome_iff_exists.mp hsome
    -- Two entries for one instruction are one entry.
    have heq : (i, n') = (i, n) :=
      List.inj_on_of_nodup_map h (v.mem_given_of_number? hn') hmem rfl
    rw [hn', (Prod.mk.inj heq).2]

theorem exists_number?_iff (h : (v.given.map Prod.fst).Nodup) :
    (∃ n, v.number? i = some n) ↔ i ∈ v.given.map Prod.fst := by
  simp only [v.number?_eq_some_iff h, List.mem_map, Prod.exists, exists_and_right, exists_eq_right]

/-- The members of a number are the instructions that have it. -/
theorem mem_membersOf_iff (h : (v.given.map Prod.fst).Nodup) :
    i ∈ v.membersOf n ↔ v.number? i = some n := by
  rw [v.number?_eq_some_iff h]
  unfold membersOf
  simp

theorem sameNumber_iff :
    v.sameNumber i m = true ↔ ∃ n, v.number? i = some n ∧ v.number? m = some n := by
  unfold sameNumber
  cases v.number? i with
  | none => simp
  | some a =>
    cases v.number? m with
    | none => simp
    | some b => simp [eq_comm]

theorem sameNumber_comm (i m : InstrId) : v.sameNumber i m = v.sameNumber m i := by
  rw [Bool.eq_iff_iff, sameNumber_iff, sameNumber_iff]
  simp only [and_comm]

/-- **Classes are numbers**: the members of an instruction's class are the
    instructions with its number. -/
theorem mem_classOf_iff (h : (v.given.map Prod.fst).Nodup) :
    m ∈ v.classOf i ↔ v.sameNumber i m = true := by
  rw [sameNumber_iff]
  unfold classOf
  cases v.number? i with
  | none => simp
  | some a => simp [v.mem_membersOf_iff h]

/-- In a function that keeps the rules, classes are numbers. -/
theorem mem_classOf_of_iff {p : Program} {f : Function} (hf : f.Sound p) :
    m ∈ (of f).classOf i ↔ (of f).sameNumber i m = true := by
  refine mem_classOf_iff _ ?_
  rw [map_fst_given_of]
  exact f.nodup_map_fst_visits hf.listedOnce

end ValueClasses

end SsaFlow
