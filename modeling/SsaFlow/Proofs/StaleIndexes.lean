import SsaFlow.Proofs.FunctionTable
import SsaFlow.Proofs.SelfContained

/-! # Programs edited past their indexes

    Only adding a function touches the indexes. When the functions are changed
    afterwards, the index of owners goes on telling what was added. The check
    asks this index about operands, so it lets a function use an instruction
    that was taken out of it.

    * `Program.Reworked`: a program and the functions that were added on the way
      to it, whatever else was done to its functions.
    * `Program.Reworked.owner_iff`: the index tells what was added.
    * `Program.Covered.edit`: edits that take nothing away keep the owners true.
    * `Program.closed_iff_none_lost`: what a passed check is worth after edits.
-/

namespace SsaFlow

/-- Instruction `i` was added under the function's id and is not stored in the
    function now. -/
def Function.Lost (added : List Function) (f : Function) (i : InstrId) : Prop :=
  (∃ g ∈ added, g.id = f.id ∧ i ∈ g.instrs.keys) ∧ i ∉ f.instrs.keys

/-- The edit takes no function and no instruction away and leaves the ids of the
    functions alone. -/
def Edit.Keeps : Edit → Prop
  | .remove _ | .setId _ _ | .dropInstr _ _ => False
  | _ => True

namespace Program

variable {p q : Program} {f : Function} {k : FuncId} {i : InstrId} {added : List Function}

/-! ### What the index of owners tells -/

/-- The program comes from the empty one by adding the given functions, the last
    one first, and by changing the stored functions in any way in between. -/
inductive Reworked : List Function → Program → Prop where
  /-- Nothing was done. -/
  | empty : Reworked [] .empty
  /-- A function was added. -/
  | added {added : List Function} {p q : Program} {f : Function} (before : Reworked added p)
      (h : p.add? f = .ok q) : Reworked (f :: added) q
  /-- The functions were replaced by any others; the indexes stay. -/
  | rewritten {added : List Function} {p : Program} (before : Reworked added p)
      (functions : OrderedMap FuncId Function) : Reworked added { p with functions := functions }

/-- An instruction leads to the function under whose id it was added. -/
theorem Reworked.owner_iff (h : Reworked added p) :
    p.instrOwner.find? i = some k ↔ ∃ g ∈ added, g.id = k ∧ i ∈ g.instrs.keys := by
  induction h with
  | empty =>
    constructor
    · intro hfind; cases hfind
    · rintro ⟨g, hg, -⟩; cases hg
  | rewritten _ _ ih => exact ih
  | @added added p q f _ hadd ih =>
    obtain ⟨rfl, -, -, hnew⟩ := add?_cases hadd
    have hfind : (p.insert f).instrOwner.find? i =
        if i ∈ f.instrs.keys then some f.id else p.instrOwner.find? i :=
      find?_claim p.instrOwner f.instrs.keys f.id i
    rw [hfind]
    simp only [List.exists_mem_cons_iff]
    by_cases hi : i ∈ f.instrs.keys
    · -- The instructions of a function that is added were in no function before.
      rw [if_pos hi]
      rw [hnew i hi] at ih
      constructor
      · intro hk
        exact .inl ⟨Option.some.inj hk, hi⟩
      · rintro (⟨hk, -⟩ | hold)
        · rw [hk]
        · exact nomatch ih.mpr hold
    · rw [if_neg hi, ih]
      constructor
      · exact .inr
      · rintro (⟨-, hi'⟩ | hold)
        · exact absurd hi' hi
        · exact hold

/-! ### Edits -/

theorem editAt_eq (p : Program) (k : FuncId) (change : Function → Function × EditOutcome) :
    ∃ functions, (p.editAt k change).1 = { p with functions := functions } := by
  unfold editAt
  split
  · exact ⟨_, rfl⟩
  · exact ⟨p.functions, rfl⟩

/-- An edit adds a function, or leaves the indexes as they are. -/
theorem edit_cases (p : Program) (e : Edit) :
    (∃ f, e = .add f ∧ p.add? f = .ok (p.edit e).1) ∨
      ∃ functions, (p.edit e).1 = { p with functions := functions } := by
  cases e with
  | add f =>
    simp only [edit]
    cases hadd : p.add? f with
    | ok q => exact .inl ⟨f, rfl, hadd⟩
    | error e => exact .inr ⟨p.functions, rfl⟩
  | remove f => exact .inr ⟨_, rfl⟩
  | _ => exact .inr (p.editAt_eq _ _)

/-- The program after some edits. -/
def editAll (p : Program) (edits : List Edit) : Program :=
  edits.foldl (fun p e => (p.edit e).1) p

theorem Reworked.editAll (h : Reworked added p) (edits : List Edit) :
    ∃ added, Reworked added (p.editAll edits) := by
  induction edits generalizing p added with
  | nil => exact ⟨added, h⟩
  | cons e rest ih =>
    rcases p.edit_cases e with ⟨f, -, hadd⟩ | ⟨functions, heq⟩
    · exact ih (h.added hadd)
    · have hnext : Reworked added (p.edit e).1 := heq ▸ h.rewritten functions
      exact ih hnext

/-! ### Edits that take nothing away -/

/-- Functions are stored under their ids, and what the index of owners tells is
    stored. Not all that is stored needs to be indexed. -/
structure Covered (p : Program) : Prop where
  /-- Every function is stored under its own id. -/
  filed : ∀ k f, p.function? k = some f → f.id = k
  /-- An instruction is stored in the function that the index names. -/
  held : ∀ i k, p.instrOwner.find? i = some k → ∃ f, p.function? k = some f ∧ i ∈ f.instrs.keys

theorem covered_empty : Program.empty.Covered where
  filed _ _ h := nomatch h
  held _ _ h := nomatch h

theorem Covered.add (h : p.Covered) (hadd : p.add? f = .ok q) : q.Covered := by
  obtain ⟨rfl, hid, -, -⟩ := add?_cases hadd
  constructor
  · intro k g hg
    rw [function?_insert] at hg
    split at hg
    · next hk => rw [hk, Option.some.inj hg]
    · exact h.filed k g hg
  · intro i k hfind
    have hclaim := find?_claim p.instrOwner f.instrs.keys f.id i
    rw [function?_insert]
    by_cases hi : i ∈ f.instrs.keys
    · rw [if_pos hi] at hclaim
      have hk : k = f.id := Option.some.inj (hfind.symm.trans hclaim)
      exact ⟨f, if_pos hk, hi⟩
    · rw [if_neg hi] at hclaim
      obtain ⟨g, hg, hgi⟩ := h.held i k (hclaim.symm.trans hfind)
      have hk : k ≠ f.id := by
        rintro rfl
        exact nomatch hid.symm.trans hg
      exact ⟨g, (if_neg hk).trans hg, hgi⟩

/-- The change keeps the function's id and the keys of its instructions. -/
def KeepsKeys (change : Function → Function × EditOutcome) : Prop :=
  ∀ f, (change f).1.id = f.id ∧ ∀ i ∈ f.instrs.keys, i ∈ (change f).1.instrs.keys

theorem Covered.editAt (h : p.Covered) {change : Function → Function × EditOutcome}
    (hchange : KeepsKeys change) (k : FuncId) : (p.editAt k change).1.Covered := by
  unfold Program.editAt
  split
  · next f hf =>
    obtain ⟨hid, hkeys⟩ := hchange f
    have hput : ∀ l, (p.put k (change f).1).function? l =
        if l = k then some (change f).1 else p.function? l :=
      OrderedMap.find?_insert p.functions k (change f).1
    constructor
    · intro l g hg
      rw [hput] at hg
      split at hg
      · next hl =>
        obtain rfl := Option.some.inj hg
        rw [hid, hl]
        exact h.filed k f hf
      · exact h.filed l g hg
    · intro i l hfind
      obtain ⟨g, hg, hi⟩ := h.held i l hfind
      rw [hput]
      by_cases hl : l = k
      · rw [hl, hf] at hg
        obtain rfl := Option.some.inj hg
        exact ⟨_, if_pos hl, hkeys i hi⟩
      · exact ⟨g, (if_neg hl).trans hg, hi⟩
  · exact h

theorem keepsKeys_editBlock (b : BlockId) (change : Block → Block)
    (outcome : Block → EditOutcome) : KeepsKeys fun f => f.editBlock b change outcome := by
  intro f
  simp only [Function.editBlock]
  split
  · exact ⟨rfl, fun _ hi => hi⟩
  · exact ⟨rfl, fun _ hi => hi⟩

theorem mem_keys_insert_of_mem {inst : Instr} {j : InstrId} (hi : i ∈ f.instrs.keys) :
    i ∈ (f.instrs.insert j inst).keys := by
  rw [OrderedMap.keys_insert]
  split
  · exact hi
  · exact List.mem_append_left _ hi

/-- An edit that takes nothing away keeps the owners true. -/
theorem Covered.edit (h : p.Covered) {e : Edit} (he : e.Keeps) : (p.edit e).1.Covered := by
  cases e with
  | remove | setId | dropInstr => exact he.elim
  | add f =>
    simp only [Program.edit]
    cases hadd : p.add? f with
    | ok q => exact h.add hadd
    | error e => exact h
  | newBlock =>
    refine h.editAt (fun f => ?_) _
    unfold Function.newBlock?
    by_cases hroom : f.nextBlock.toNat + 1 < UInt32.size
    · rw [if_pos hroom]
      exact ⟨rfl, fun _ hi => hi⟩
    · rw [if_neg hroom]
      exact ⟨rfl, fun _ hi => hi⟩
  | terminate | list => exact h.editAt (keepsKeys_editBlock _ _ _) _
  | insertInstr => exact h.editAt (fun f => ⟨rfl, fun _ => mem_keys_insert_of_mem⟩) _
  | editInstr =>
    refine h.editAt (fun f => ?_) _
    split
    · exact ⟨rfl, fun _ => mem_keys_insert_of_mem⟩
    · exact ⟨rfl, fun _ hi => hi⟩
  | rename | dropBlock | dropExpr | setEntry => exact h.editAt (fun f => ⟨rfl, fun _ hi => hi⟩) _

theorem Covered.editAll (h : p.Covered) {edits : List Edit} (hkeeps : ∀ e ∈ edits, e.Keeps) :
    (p.editAll edits).Covered := by
  induction edits generalizing p with
  | nil => exact h
  | cons e rest ih =>
    have hnext : (p.edit e).1.Covered := h.edit (hkeeps e List.mem_cons_self)
    exact ih hnext fun e he => hkeeps e (List.mem_cons_of_mem _ he)

/-- While the owners are true, a function that passes is closed. -/
theorem Covered.closed (h : p.Covered) (hf : p.function? k = some f) (hs : f.Sound p) :
    f.Closed := by
  intro i hi
  obtain ⟨g, hg, hkey⟩ := h.held i f.id (hs.owner_of_uses hi)
  rw [h.filed k f hf, hf] at hg
  exact Option.some.inj hg ▸ hkey

/-! ### What a passed check is worth -/

/-- A function that passes uses what it stores and what it lost. -/
theorem Reworked.stored_or_lost (h : Reworked added p) (hs : f.Sound p) (hi : f.Uses i) :
    i ∈ f.instrs.keys ∨ f.Lost added i := by
  by_cases hkey : i ∈ f.instrs.keys
  · exact .inl hkey
  · exact .inr ⟨h.owner_iff.mp (hs.owner_of_uses hi), hkey⟩

/-- The functions of a program that passes, put together anew, pass again exactly
    if they are stored under their ids and closed. -/
theorem reindexed_passes_iff (hv : p.validate = .ok ()) :
    (∃ q, ofEntries? p.functions.entries = .ok q ∧ q.validate = .ok ()) ↔
      ∀ k f, p.function? k = some f → f.id = k ∧ f.Closed := by
  have hsound := (validate_iff p).mp hv
  constructor
  · rintro ⟨q, hq, hqv⟩ k f hf
    have hindexed : q.Indexed := indexed_of_ofEntries? hq
    have hfunctions : q.functions = p.functions := OrderedMap.ext (entries_of_ofEntries? hq)
    have hf' : q.function? k = some f := by
      unfold function?
      rw [hfunctions]
      exact hf
    have hself := (hindexed.sound_iff hf').mp ((validate_iff q).mp hqv k f hf')
    exact ⟨hindexed.filed k f hf', hself.closed⟩
  · intro h
    -- Names and instructions lead to one function each, hence are not shared.
    have hone : ∀ {k l f g}, p.function? k = some f → p.function? l = some g → f.id = g.id →
        k = l := by
      intro k l f g hf hg hid
      rw [← (h k f hf).1, hid, (h l g hg).1]
    obtain ⟨q, hq⟩ : ∃ q, ofEntries? p.functions.entries = .ok q := by
      apply exists_reindexed fun k f hf => (h k f hf).1
      · intro k f l g hf hg hname
        have hk := (hsound k f hf).name
        rw [hname, (hsound l g hg).name] at hk
        exact hone hf hg (Option.some.inj hk).symm
      · intro k f l g i hf hg hi hi'
        obtain ⟨inst, hinst⟩ := (f.instrs.mem_keys_iff i).mp hi
        obtain ⟨inst', hinst'⟩ := (g.instrs.mem_keys_iff i).mp hi'
        have hk := ((hsound k f hf).filed i inst hinst).2
        rw [((hsound l g hg).filed i inst' hinst').2] at hk
        exact hone hf hg (Option.some.inj hk).symm
    have hfunctions : q.functions = p.functions := OrderedMap.ext (entries_of_ofEntries? hq)
    refine ⟨q, hq, (validate_iff q).mpr fun k f hf => ?_⟩
    have hf' : p.function? k = some f := by
      unfold function?
      rw [← hfunctions]
      exact hf
    have hself := (hsound k f hf').selfContained (h k f hf').2
    -- Of the program the rules ask only which functions there are.
    apply ((indexed_of_ofEntries? hq).sound_iff hf).mpr
    exact { hself with callees := hfunctions ▸ hself.callees }

/-- **What a passed check is worth after edits.** However the functions were
    changed, a function of a program that passes uses only what it stores and
    what it lost since it was added, so that it is closed exactly if it uses
    nothing it lost. Putting the functions together anew and checking again
    tells whether all are closed and stored under their ids. After edits that
    take nothing away all are closed. -/
theorem closed_iff_none_lost (p : Program) (hv : p.validate = .ok ()) :
    (∀ added, Reworked added p → ∀ k f, p.function? k = some f →
      (∀ i, f.Uses i → i ∈ f.instrs.keys ∨ f.Lost added i) ∧
      (f.Closed ↔ ∀ i, f.Lost added i → ¬ f.Uses i)) ∧
    ((∃ q, ofEntries? p.functions.entries = .ok q ∧ q.validate = .ok ()) ↔
      ∀ k f, p.function? k = some f → f.id = k ∧ f.Closed) ∧
    ∀ edits : List Edit, p = empty.editAll edits →
      (∃ added, Reworked added p) ∧
      ((∀ e ∈ edits, e.Keeps) → ∀ k f, p.function? k = some f → f.Closed) := by
  have hsound := (validate_iff p).mp hv
  refine ⟨?_, reindexed_passes_iff hv, ?_⟩
  · intro added h k f hf
    have hs := hsound k f hf
    refine ⟨fun i hi => h.stored_or_lost hs hi, ?_, ?_⟩
    · intro hclosed i hlost hi
      exact hlost.2 (hclosed i hi)
    · intro hnone i hi
      rcases h.stored_or_lost hs hi with hkey | hlost
      · exact hkey
      · exact absurd hi (hnone i hlost)
  · rintro edits rfl
    refine ⟨Reworked.empty.editAll edits, ?_⟩
    intro hkeeps k f hf
    have hcovered : (empty.editAll edits).Covered := covered_empty.editAll hkeeps
    exact hcovered.closed hf (hsound k f hf)

/-- A function of two blocks without an edge between them. The first returns the
    value of an instruction of the second. -/
def farReturn : Function where
  id := ⟨0⟩
  signature := ⟨"f", [], .void, none⟩
  entry := ⟨0⟩
  blocks := .ofList [(⟨0⟩, ⟨⟨0⟩, [⟨1⟩], .ret⟩), (⟨1⟩, ⟨⟨1⟩, [⟨0⟩], .ret⟩)]
  instrs := .ofList
    [(⟨0⟩, ⟨⟨0⟩, ⟨0⟩, ⟨1⟩, .ret none, .void, none, .unknown⟩),
      (⟨1⟩, ⟨⟨1⟩, ⟨0⟩, ⟨0⟩, .ret (some ⟨0⟩), .void, none, .unknown⟩)]
  exprs := .empty
  nextBlock := 2

/-- The second block and its instruction are taken out. -/
def trimmed : Program :=
  empty.editAll [.add farReturn, .dropBlock ⟨0⟩ ⟨1⟩, .dropInstr ⟨0⟩ ⟨0⟩]

/-- The check passes although the function uses an instruction that is gone. -/
theorem trimmed_passes :
    trimmed.validate = .ok () ∧
      ∃ f, trimmed.function? ⟨0⟩ = some f ∧ f.Uses ⟨0⟩ ∧ ⟨0⟩ ∉ f.instrs.keys := by
  refine ⟨rfl, _, rfl, .inr ⟨⟨1⟩, _, rfl, .returned ⟨0⟩⟩, ?_⟩
  decide

/-- The instruction is one that the function lost, and the check of the functions
    put together anew does not pass. With the entry moved and nothing taken out
    the function is closed. -/
theorem trimmed_lost :
    (∃ f, trimmed.function? ⟨0⟩ = some f ∧ f.Lost [farReturn] ⟨0⟩ ∧
      ¬ ∃ q, ofEntries? trimmed.functions.entries = .ok q ∧ q.validate = .ok ()) ∧
    ∃ f, (empty.editAll [.add farReturn, .setEntry ⟨0⟩ ⟨1⟩]).function? ⟨0⟩ = some f ∧ f.Closed := by
  have hadd : empty.add? farReturn = .ok (empty.insert farReturn) := rfl
  have hreworked : Reworked [farReturn] trimmed :=
    ((Reworked.empty.added hadd).rewritten _).rewritten _
  have hkeeps : ∀ e ∈ [Edit.add farReturn, .setEntry ⟨0⟩ ⟨1⟩], e.Keeps := by
    intro e he
    rcases List.mem_pair.mp he with rfl | rfl
    · exact trivial
    · exact trivial
  constructor
  · obtain ⟨hstored, hanew, -⟩ := closed_iff_none_lost trimmed rfl
    refine ⟨_, rfl, ?_, ?_⟩
    · rcases (hstored _ hreworked ⟨0⟩ _ rfl).1 ⟨0⟩ (.inr ⟨⟨1⟩, _, rfl, .returned ⟨0⟩⟩) with
        hkey | hlost
      · exact absurd hkey (by decide)
      · exact hlost
    · intro hpasses
      have hclosed := (hanew.mp hpasses ⟨0⟩ _ rfl).2
      have hkey := hclosed ⟨0⟩ (.inr ⟨⟨1⟩, _, rfl, .returned ⟨0⟩⟩)
      exact absurd hkey (by decide)
  · obtain ⟨-, -, hedits⟩ :=
      closed_iff_none_lost (empty.editAll [.add farReturn, .setEntry ⟨0⟩ ⟨1⟩]) rfl
    exact ⟨_, rfl, (hedits _ rfl).2 hkeeps ⟨0⟩ _ rfl⟩

end Program

end SsaFlow
