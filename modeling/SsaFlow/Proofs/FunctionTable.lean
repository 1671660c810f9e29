import SsaFlow.Proofs.SaveLoad

/-! # Tables of functions

    Functions are added one by one. A function that clashes with one that is there
    is refused and nothing changes; any other goes to the end. So whatever was
    added, in whatever order, look-ups by name and by instruction id tell exactly
    what the functions hold.

    * `Program.Clashes`: why a function is refused.
    * `Program.Consistent`: what look-ups tell, said of the functions alone.
    * `Program.adding_is_atomic`: every call does all or nothing and leaves a
      consistent program, and so does loading.
-/

namespace SsaFlow

namespace Program

variable {p : Program} {f : Function}

/-! ### Look-ups -/

/-- What look-ups tell about the functions of a program. -/
structure Consistent (p : Program) : Prop where
  /-- Every function is stored under its own id. -/
  filed : ∀ k f, p.function? k = some f → f.id = k
  /-- A name finds a function if a function has it, -/
  named : ∀ name, (∃ f, p.named? name = some f) ↔ ∃ k f, p.function? k = some f ∧ f.name = name
  /-- and then the only one that has it. -/
  sole : ∀ name f, p.named? name = some f →
    ∀ k g, p.function? k = some g ∧ g.name = name ↔ k = f.id ∧ g = f
  /-- An id finds the instruction that the only function with that key stores. -/
  owned : ∀ i inst, p.instr? i = some inst ↔
    ∃ k f, p.function? k = some f ∧ f.instr? i = some inst ∧
      ∀ l g, p.function? l = some g → i ∈ g.instrs.keys → l = k
  /-- No two functions have a key of an instruction in common. -/
  apart : ∀ i k f l g, p.function? k = some f → p.function? l = some g →
    i ∈ f.instrs.keys → i ∈ g.instrs.keys → k = l

/-- Indexes that are in step tell what the functions hold. -/
theorem Indexed.consistent (hp : p.Indexed) : p.Consistent where
  filed := hp.filed
  named name := by
    simp only [hp.named?_eq_some_iff]
    constructor
    · rintro ⟨f, hf, hname⟩
      exact ⟨f.id, f, hf, hname⟩
    · rintro ⟨k, f, hf, hname⟩
      exact ⟨f, (hp.filed k f hf).symm ▸ hf, hname⟩
  sole name f hnamed k g := by
    obtain ⟨hf, hname⟩ := (hp.named?_eq_some_iff name).mp hnamed
    constructor
    · rintro ⟨hg, hgname⟩
      -- The name index has one answer, which is both functions.
      have hk := (hp.named name k).mpr ⟨g, hg, hgname⟩
      have hid := (hp.named name f.id).mpr ⟨f, hf, hname⟩
      obtain rfl : k = f.id := Option.some.inj (hk.symm.trans hid)
      exact ⟨rfl, Option.some.inj (hg.symm.trans hf)⟩
    · rintro ⟨rfl, rfl⟩
      exact ⟨hf, hname⟩
  owned i inst := by
    rw [hp.instr?_eq_some_iff]
    constructor
    · rintro ⟨k, f, hf, hi⟩
      have hkey : i ∈ f.instrs.keys := (f.instrs.mem_keys_iff i).mpr ⟨inst, hi⟩
      exact ⟨k, f, hf, hi, fun l g hg hi' => hp.owner_unique hg hf hi' hkey⟩
    · rintro ⟨k, f, hf, hi, -⟩
      exact ⟨k, f, hf, hi⟩
  apart i k f l g hf hg hi hi' := hp.owner_unique hf hg hi hi'

/-! ### Adding -/

/-- A function of the program has the id or the name of `f`, or stores an
    instruction under a key of `f`. -/
def Clashes (p : Program) (f : Function) : Prop :=
  ∃ k g, p.function? k = some g ∧
    (k = f.id ∨ g.name = f.name ∨ ∃ i ∈ g.instrs.keys, i ∈ f.instrs.keys)

/-- A function is added exactly if it clashes with none. -/
theorem Indexed.add?_eq_ok_iff (hp : p.Indexed) :
    p.add? f = .ok (p.insert f) ↔ ¬ p.Clashes f := by
  constructor
  · rintro hadd ⟨k, g, hg, hclash⟩
    obtain ⟨-, hid, hname, hinstrs⟩ := add?_cases hadd
    rcases hclash with rfl | hsame | ⟨i, hi, hi'⟩
    · exact nomatch hid.symm.trans hg
    · have hk := (hp.named g.name k).mpr ⟨g, hg, rfl⟩
      rw [hsame, hname] at hk
      cases hk
    · have hk := (hp.owned i k).mpr ⟨g, hg, hi⟩
      rw [hinstrs i hi'] at hk
      cases hk
  · intro hnone
    apply hp.add?_of_apart
    rintro ⟨k, g⟩ hmem
    have hg : p.function? k = some g := (p.functions.find?_eq_some_iff k g).mpr hmem
    refine ⟨?_, ?_, ?_⟩
    · intro hid
      exact hnone ⟨k, g, hg, .inl hid⟩
    · intro hname
      exact hnone ⟨k, g, hg, .inr (.inl hname)⟩
    · intro i hi hi'
      exact hnone ⟨k, g, hg, .inr (.inr ⟨i, hi, hi'⟩)⟩

/-- Adding does all or nothing. -/
theorem Indexed.edit_add (hp : p.Indexed) (f : Function) :
    (p.Clashes f ∧ (p.edit (.add f)).1 = p ∧ ∃ e, (p.edit (.add f)).2 = .failed e) ∨
      (¬ p.Clashes f ∧ (p.edit (.add f)).2 = .done ∧
        (p.edit (.add f)).1.functions.entries = p.functions.entries ++ [(f.id, f)]) := by
  simp only [edit]
  cases hadd : p.add? f with
  | error e =>
    refine .inl ⟨Classical.byContradiction fun hnone => ?_, rfl, e, rfl⟩
    exact nomatch hadd.symm.trans (hp.add?_eq_ok_iff.mpr hnone)
  | ok q =>
    obtain ⟨rfl, -⟩ := add?_cases hadd
    exact .inr ⟨hp.add?_eq_ok_iff.mp hadd, rfl, entries_of_add? hadd⟩

/-- The program after a call for each function, in turn. -/
def addAll (p : Program) (fs : List Function) : Program :=
  fs.foldl (fun p f => (p.edit (.add f)).1) p

theorem Indexed.addAll (hp : p.Indexed) (fs : List Function) : (p.addAll fs).Indexed := by
  induction fs generalizing p with
  | nil => exact hp
  | cons f rest ih =>
    apply ih
    simp only [edit]
    cases hadd : p.add? f with
    | error e => exact hp
    | ok q => exact hp.add hadd

/-- **Adding is atomic and keeps look-ups right.** After any calls, from the empty
    program on, look-ups tell what the functions hold. The next call fails and
    changes nothing if its function clashes with one that is there, and puts it
    at the end if not. Loading yields nothing but such programs. -/
theorem adding_is_atomic :
    (∀ fs : List Function, (empty.addAll fs).Consistent ∧
      ∀ f, ((empty.addAll fs).Clashes f ∧
          ((empty.addAll fs).edit (.add f)).1 = empty.addAll fs ∧
          ∃ e, ((empty.addAll fs).edit (.add f)).2 = .failed e) ∨
        (¬ (empty.addAll fs).Clashes f ∧
          ((empty.addAll fs).edit (.add f)).2 = .done ∧
          ((empty.addAll fs).edit (.add f)).1.functions.entries =
            (empty.addAll fs).functions.entries ++ [(f.id, f)])) ∧
    ∀ text p, load text = .ok p → p.Consistent := by
  constructor
  · intro fs
    have hindexed : (empty.addAll fs).Indexed := indexed_empty.addAll fs
    exact ⟨hindexed.consistent, hindexed.edit_add⟩
  · intro text p hload
    have hobtained : p.Obtained := .loaded hload
    exact hobtained.indexed.consistent

/-- A function that returns at once. -/
def returning (id : FuncId) (name : String) (i : InstrId) : Function where
  id := id
  signature := ⟨name, [], .void, none⟩
  entry := ⟨0⟩
  blocks := .ofList [(⟨0⟩, ⟨⟨0⟩, [i], .ret⟩)]
  instrs := .ofList [(i, ⟨i, id, ⟨0⟩, .ret none, .void, none, .unknown⟩)]
  exprs := .empty
  nextBlock := 1

/-- A taken id, a taken name and a taken instruction are refused; the others are
    found, and so are those of a program that is loaded. -/
theorem returning_found :
    (empty.addAll [returning ⟨0⟩ "a" ⟨0⟩, returning ⟨0⟩ "b" ⟨1⟩, returning ⟨1⟩ "a" ⟨2⟩,
      returning ⟨2⟩ "c" ⟨0⟩, returning ⟨3⟩ "d" ⟨3⟩]).functions.keys = [⟨0⟩, ⟨3⟩] ∧
    (empty.addAll [returning ⟨0⟩ "a" ⟨0⟩, returning ⟨0⟩ "b" ⟨1⟩, returning ⟨1⟩ "a" ⟨2⟩,
      returning ⟨2⟩ "c" ⟨0⟩, returning ⟨3⟩ "d" ⟨3⟩]).Consistent ∧
    load loop.save = .ok loop ∧ loop.Consistent := by
  have hnests : Json.nesting loop.save ≤ Json.maxNesting := by
    rw [nesting_save]
    decide +kernel
  have hload : load loop.save = .ok loop := obtained_loop.rebuilt.load_save hnests
  exact ⟨by decide, (adding_is_atomic.1 _).1, hload, adding_is_atomic.2 loop.save loop hload⟩

end Program

end SsaFlow
