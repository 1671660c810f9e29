import Mathlib
import SsaFlow.Proofs.ReversePostorder
import SsaFlow.Proofs.ValueMeaning

/-! # Classes are a partition

    In a function that keeps the rules, the numbering puts every instruction into one
    class. Numbers and members are kept apart, so this is a fact about the whole run:
    what was given and the next number grow together.

    * `Function.inOrder`: the instructions in the order of the visits.
    * `ValueClasses.Gapless`: every number below the next one is in use. A visit takes
      a number that is in use, or the next one.
    * `ValueClasses.mem_classes_iff`, `ValueClasses.nodup_classes`: the members of the
      numbers in use are the classes of the instructions, each once.
    * `ValueClasses.Partitions`: all that makes the classes a partition, and
      `ValueClasses.partitions_of`.
-/

namespace SsaFlow

/-! ### The order of the instructions -/

namespace Function

variable {p : Program}

/-- What the blocks list: first the blocks that control can get to, in reverse
    postorder, then the others, in layout order. -/
def inOrder (f : Function) : List InstrId :=
  let flow := ControlFlow.of f
  let blocks := flow.reversePostorder ++ f.blocks.keys.filter fun b => !flow.isReachable b
  (blocks.filterMap f.block?).flatMap Block.instrs

/-- The blocks that are visited last are those that control cannot get to. -/
theorem visitOrder_eq (f : Function) :
    f.visitOrder = (ControlFlow.of f).reversePostorder ++
      f.blocks.keys.filter fun b => !(ControlFlow.of f).isReachable b := by
  have hsame : ∀ b, (ControlFlow.of f).reversePostorder.contains b =
      (ControlFlow.of f).isReachable b := by
    intro b
    rw [Bool.eq_iff_iff, List.contains_iff_mem, f.mem_reversePostorder_iff,
      ControlFlow.isReachable_of_iff]
  unfold visitOrder
  simp only [hsame]

/-- Where all that is listed is stored, all of it is visited. -/
theorem Sound.map_fst_visits {f : Function} (hs : f.Sound p) :
    f.visits.map Prod.fst = f.inOrder := by
  have hlisted : f.inOrder = (f.visitOrder.filterMap f.block?).flatMap Block.instrs := by
    rw [visitOrder_eq]
    rfl
  rw [Function.map_fst_visits, hlisted, List.filter_eq_self]
  intro i hi
  obtain ⟨b, hb, hib⟩ := List.mem_flatMap.mp hi
  obtain ⟨inst, hinst, -⟩ := hs.placed b (f.visitedBlocks_perm.subset hb) i hib
  exact (f.instrs.contains_iff i).mpr ((f.instrs.mem_keys_iff i).mpr ⟨inst, hinst⟩)

/-- The order has every instruction once. -/
theorem Sound.inOrder_perm {f : Function} (hs : f.Sound p) : f.inOrder.Perm f.instrs.keys := by
  rw [← hs.map_fst_visits]
  refine (List.perm_ext_iff_of_nodup (f.nodup_map_fst_visits hs.listedOnce)
    f.instrs.keys_nodup).mpr fun i => ?_
  rw [f.map_fst_visits_perm.mem_iff, List.mem_filter, OrderedMap.contains_iff]
  exact ⟨And.right, fun hi => ⟨hs.listedAll i hi, hi⟩⟩

end Function

namespace ValueClasses

variable {v : ValueClasses} {i j : InstrId} {n : Nat}

/-! ### Numbers without gaps -/

/-- A number has been given. -/
def InUse (v : ValueClasses) (n : Nat) : Prop := ∃ i, (i, n) ∈ v.given

/-- The numbers in use are those below the next one. -/
structure Gapless (v : ValueClasses) : Prop where
  /-- No number is left out. -/
  inUse : ∀ n, v.InUse n ↔ n < v.next
  /-- Shapes have numbers that are in use. -/
  shapes : ∀ e ∈ v.shapes, e.2 < v.next

namespace Gapless

theorem empty : Gapless .empty where
  inUse n := by
    constructor
    · rintro ⟨i, hi⟩
      cases hi
    · intro hn
      exact absurd hn (Nat.not_lt_zero n)
  shapes e he := by cases he

/-- A number in use is given once more. -/
theorem give (h : v.Gapless) (i : InstrId) (hn : n < v.next) : (v.give i n).Gapless where
  inUse m := by
    rw [show (v.give i n).next = v.next from rfl, ← h.inUse]
    unfold InUse ValueClasses.give
    constructor
    · rintro ⟨j, hj⟩
      rcases List.mem_append.mp hj with hold | hlast
      · exact ⟨j, hold⟩
      · obtain ⟨-, rfl⟩ := Prod.mk.inj (List.mem_singleton.mp hlast)
        exact (h.inUse m).mpr hn
    · rintro ⟨j, hj⟩
      exact ⟨j, List.mem_append_left _ hj⟩
  shapes := h.shapes

/-- The next number is given, and may become that of a shape. -/
theorem giveNext (h : v.Gapless) (i : InstrId) {shapes : List (ValueShape × Nat)}
    (hshapes : ∀ e ∈ shapes, e ∈ v.shapes ∨ e.2 = v.next) :
    Gapless { v.giveNext i with shapes := shapes } where
  inUse m := by
    show (∃ j, (j, m) ∈ v.given ++ [(i, v.next)]) ↔ m < v.next + 1
    rw [Nat.lt_succ_iff_lt_or_eq, ← h.inUse]
    constructor
    · rintro ⟨j, hj⟩
      rcases List.mem_append.mp hj with hold | hlast
      · exact .inl ⟨j, hold⟩
      · exact .inr (Prod.mk.inj (List.mem_singleton.mp hlast)).2
    · rintro (⟨j, hj⟩ | rfl)
      · exact ⟨j, List.mem_append_left _ hj⟩
      · exact ⟨i, List.mem_append_right _ (List.mem_singleton.mpr rfl)⟩
  shapes e he := by
    show e.2 < v.next + 1
    rcases hshapes e he with hold | heq
    · exact Nat.lt_succ_of_lt (h.shapes e hold)
    · omega

/-- **One visit** takes a number that is in use, or the next one. -/
theorem visit (h : v.Gapless) (i : InstrId) (inst : Instr) : (v.visit i inst).Gapless := by
  have hvisits := v.visits_visit i inst
  generalize v.visit i inst = w at hvisits ⊢
  cases hvisits with
  | same n hclass =>
    obtain ⟨source, -, hn⟩ := copy_of_classify hclass
    exact h.give i ((h.inUse n).mp ⟨source, v.mem_given_of_number? hn⟩)
  | own => exact h.giveNext i fun e he => .inl he
  | found key n _ hkey => exact h.give i (h.shapes (key, n) hkey)
  | added key =>
    refine h.giveNext i fun e he => ?_
    rcases List.mem_append.mp he with hold | hlast
    · exact .inl hold
    · exact .inr (congrArg Prod.snd (List.mem_singleton.mp hlast))

/-- **All visits** leave no gap. -/
theorem foldl (h : v.Gapless) (visits : List (InstrId × Instr)) :
    (visits.foldl (fun v e => v.visit e.1 e.2) v).Gapless := by
  induction visits generalizing v with
  | nil => exact h
  | cons e rest ih => exact ih (h.visit e.1 e.2)

end Gapless

theorem gapless_of (f : Function) : (of f).Gapless := Gapless.empty.foldl f.visits

/-! ### Members and classes -/

theorem classOf_eq (hi : v.number? i = some n) : v.classOf i = v.membersOf n := by
  unfold classOf
  rw [hi]

/-- A class has those with the number of the instruction, in the order of the visits. -/
theorem classOf_eq_filter (h : (v.given.map Prod.fst).Nodup) (i : InstrId) :
    v.classOf i = (v.given.map Prod.fst).filter (v.sameNumber i) := by
  cases hi : v.number? i with
  | none =>
    have hnone : v.classOf i = [] := by
      unfold classOf
      rw [hi]
    have hfalse : ∀ j, v.sameNumber i j = false := by
      intro j
      unfold sameNumber
      rw [hi]
    simp [hnone, hfalse]
  | some n =>
    rw [classOf_eq hi]
    unfold membersOf
    rw [List.filter_map]
    congr 1
    refine List.filter_congr fun e he => ?_
    -- An entry tells the number of its instruction.
    have hnumber : v.number? e.1 = some e.2 := (v.number?_eq_some_iff h).mpr he
    simp [sameNumber, hi, hnumber, eq_comm]

/-- The members of each number, in the order of the numbers. -/
def classes (v : ValueClasses) : List (List InstrId) := (List.range v.next).map v.membersOf

theorem congruent_eq (v : ValueClasses) : v.congruent = v.classes.filter fun l => l.length > 1 :=
  rfl

/-- The members of the numbers are the classes of the instructions. -/
theorem mem_classes_iff (h : (v.given.map Prod.fst).Nodup) (hg : v.Gapless) (l : List InstrId) :
    l ∈ v.classes ↔ ∃ i ∈ v.given.map Prod.fst, v.classOf i = l := by
  unfold classes
  simp only [List.mem_map, List.mem_range]
  constructor
  · rintro ⟨n, hn, rfl⟩
    obtain ⟨i, hi⟩ := (hg.inUse n).mpr hn
    exact ⟨i, ⟨(i, n), hi, rfl⟩, classOf_eq ((v.number?_eq_some_iff h).mpr hi)⟩
  · rintro ⟨i, ⟨e, he, rfl⟩, rfl⟩
    exact ⟨e.2, (hg.inUse e.2).mp ⟨e.1, he⟩, (classOf_eq ((v.number?_eq_some_iff h).mpr he)).symm⟩

/-- Different numbers have different members. -/
theorem nodup_classes (h : (v.given.map Prod.fst).Nodup) (hg : v.Gapless) : v.classes.Nodup := by
  refine List.Nodup.map_on ?_ List.nodup_range
  intro m hm n _ heq
  obtain ⟨i, hi⟩ := (hg.inUse m).mpr (List.mem_range.mp hm)
  have him : v.number? i = some m := (v.number?_eq_some_iff h).mpr hi
  have hin := (v.mem_membersOf_iff h).mpr him
  rw [heq, v.mem_membersOf_iff h, him] at hin
  exact Option.some.inj hin

/-! ### The partition -/

/-- The numbering is a partition of the instructions of a function. -/
structure Partitions (v : ValueClasses) (f : Function) : Prop where
  /-- The instructions of the function have numbers, and nothing else has. -/
  numbered : ∀ i, (∃ n, v.number? i = some n) ↔ i ∈ f.instrs.keys
  /-- An instruction is a member of the number that it has and of no other. -/
  members : ∀ i n, i ∈ v.membersOf n ↔ v.number? i = some n
  /-- Having the same number is an equivalence on the instructions of the function. -/
  equivalence : Equivalence fun i j : { i // i ∈ f.instrs.keys } => v.sameNumber i j = true
  /-- What is no instruction of the function has the same number as nothing. -/
  foreign : ∀ i j, i ∉ f.instrs.keys ∨ j ∉ f.instrs.keys → v.sameNumber i j = false
  /-- The order of the visits has every instruction of the function once. -/
  order : f.inOrder.Perm f.instrs.keys
  /-- The class of an instruction has those with the same number, in that order. -/
  classOf : ∀ i, v.classOf i = f.inOrder.filter (v.sameNumber i)
  /-- The classes with more than one member are listed, each once. -/
  congruent : v.congruent.Nodup ∧
    ∀ l, l ∈ v.congruent ↔ 1 < l.length ∧ ∃ i ∈ f.instrs.keys, v.classOf i = l
  /-- The numbers go from zero up to the number of classes, without a gap. -/
  gapless : ∀ n, (∃ i, v.number? i = some n) ↔ n < (f.instrs.keys.map v.classOf).dedup.length

/-- There are as many classes as numbers. -/
theorem length_dedup_classOf (h : (v.given.map Prod.fst).Nodup) (hg : v.Gapless)
    {keys : List InstrId} (hkeys : ∀ i, i ∈ v.given.map Prod.fst ↔ i ∈ keys) :
    (keys.map v.classOf).dedup.length = v.next := by
  have hperm : (keys.map v.classOf).dedup.Perm v.classes := by
    refine (List.perm_ext_iff_of_nodup (List.nodup_dedup _) (nodup_classes h hg)).mpr fun l => ?_
    rw [List.mem_dedup, mem_classes_iff h hg, List.mem_map]
    simp only [hkeys]
  calc (keys.map v.classOf).dedup.length = v.classes.length := hperm.length_eq
    _ = v.next := by
      unfold classes
      rw [List.length_map, List.length_range]

/-- **Classes are a partition**: in a function of a program that passes the check, every
    instruction and nothing else has a number, having the same number is an
    equivalence, classes list exactly the instructions with one number in the order of
    the visits, the congruent sets are the classes with more than one member, and the
    numbers go up to the number of classes. -/
theorem partitions_of {p : Program} {k : FuncId} {f : Function} (hv : p.validate = .ok ())
    (hf : p.function? k = some f) : (of f).Partitions f := by
  have hs := (Program.validate_iff p).mp hv k f hf
  have hgiven : (of f).given.map Prod.fst = f.inOrder := by
    rw [map_fst_given_of, hs.map_fst_visits]
  have hnodup : ((of f).given.map Prod.fst).Nodup := by
    rw [hgiven]
    exact hs.inOrder_perm.nodup_iff.mpr f.instrs.keys_nodup
  have hkeys : ∀ i, i ∈ (of f).given.map Prod.fst ↔ i ∈ f.instrs.keys := by
    intro i
    rw [hgiven]
    exact hs.inOrder_perm.mem_iff
  have hnumbered : ∀ i, (∃ n, (of f).number? i = some n) ↔ i ∈ f.instrs.keys := fun i =>
    ((of f).exists_number?_iff hnodup).trans (hkeys i)
  have hgapless := gapless_of f
  refine ⟨hnumbered, fun i n => (of f).mem_membersOf_iff hnodup, ?_, ?_, hs.inOrder_perm, ?_, ?_, ?_⟩
  · refine ⟨?_, ?_, ?_⟩
    · intro i
      obtain ⟨n, hn⟩ := (hnumbered i).mpr i.2
      exact (of f).sameNumber_iff.mpr ⟨n, hn, hn⟩
    · intro i j hij
      rw [sameNumber_comm]
      exact hij
    · intro i j k hij hjk
      obtain ⟨n, hi, hj⟩ := (of f).sameNumber_iff.mp hij
      obtain ⟨m, hj', hk⟩ := (of f).sameNumber_iff.mp hjk
      obtain rfl := Option.some.inj (hj.symm.trans hj')
      exact (of f).sameNumber_iff.mpr ⟨n, hi, hk⟩
  · intro i j hout
    rw [Bool.eq_false_iff]
    intro hsame
    obtain ⟨n, hi, hj⟩ := (of f).sameNumber_iff.mp hsame
    rcases hout with hout | hout
    · exact hout ((hnumbered i).mp ⟨n, hi⟩)
    · exact hout ((hnumbered j).mp ⟨n, hj⟩)
  · intro i
    rw [classOf_eq_filter hnodup, hgiven]
  · rw [congruent_eq]
    refine ⟨(nodup_classes hnodup hgapless).filter _, fun l => ?_⟩
    rw [List.mem_filter, mem_classes_iff hnodup hgapless, decide_eq_true_eq, and_comm]
    simp only [hkeys, gt_iff_lt]
  · intro n
    rw [length_dedup_classOf hnodup hgapless hkeys, ← hgapless.inUse n]
    exact exists_congr fun i => (of f).number?_eq_some_iff hnodup

/-- A constant, the same constant in a block that control cannot get to, and a copy in
    the block after that. -/
def strayConstant : Function where
  id := ⟨0⟩
  signature := ⟨"stray", [], .void, none⟩
  entry := ⟨0⟩
  blocks := .ofList
    [(⟨0⟩, ⟨⟨0⟩, [⟨0⟩], .jump ⟨2⟩⟩), (⟨1⟩, ⟨⟨1⟩, [⟨1⟩], .ret⟩), (⟨2⟩, ⟨⟨2⟩, [⟨2⟩, ⟨3⟩], .ret⟩)]
  instrs := .ofList
    [(⟨0⟩, soleInstr ⟨0⟩ (.constant (.int 2))),
      (⟨1⟩, { soleInstr ⟨1⟩ (.constant (.int 2)) with block := ⟨1⟩ }),
      (⟨2⟩, { soleInstr ⟨2⟩ (.copy ⟨0⟩) with block := ⟨2⟩ }),
      (⟨3⟩, { soleInstr ⟨3⟩ (.constant (.int 3)) with block := ⟨2⟩ })]
  exprs := .empty
  nextBlock := 3

/-- The two constants and the copy are one class, with the constant that is never
    executed last; the other constant is alone. -/
theorem strayConstant_comes_last :
    (Program.empty.insert strayConstant).validate = .ok () ∧
      (of strayConstant).classOf ⟨1⟩ = [⟨0⟩, ⟨2⟩, ⟨1⟩] ∧
      [⟨0⟩, ⟨2⟩, ⟨1⟩] ∈ (of strayConstant).congruent ∧ [⟨3⟩] ∉ (of strayConstant).congruent ∧
      ∃ i, (of strayConstant).number? i = some 1 := by
  have hparts : (of strayConstant).Partitions strayConstant :=
    partitions_of (p := Program.empty.insert strayConstant) (k := ⟨0⟩) rfl rfl
  have hclass : (of strayConstant).classOf ⟨1⟩ = [⟨0⟩, ⟨2⟩, ⟨1⟩] :=
    (hparts.classOf ⟨1⟩).trans (by cbv)
  refine ⟨rfl, hclass, ?_, ?_, (hparts.gapless 1).mpr (by cbv)⟩
  · exact (hparts.congruent.2 _).mpr ⟨by decide, ⟨1⟩, by decide, hclass⟩
  · intro hmem
    have hlong := ((hparts.congruent.2 _).mp hmem).1
    exact absurd hlong (by decide)

end ValueClasses

end SsaFlow
