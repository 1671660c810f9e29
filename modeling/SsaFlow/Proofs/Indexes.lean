import Mathlib.Data.List.Nodup
import Mathlib.Data.List.Pairwise
import SsaFlow.Build.Session

/-! # Programs and their indexes

    A program that was loaded, built in a session, or had functions added to it
    keeps its indexes in step with its functions.

    * `Program.Obtained`: the ways to get a program without editing one.
    * `Program.Indexed`: what the indexes say is what the functions hold.
    * `Program.add?_cases`: what adding a function checks and does.
    * `Session.program_step`: what one step of construction does to the program.
    * `Program.Obtained.invariant`: what adding a function keeps holds of every
      program that was obtained, so that all of them are indexed.
-/

namespace SsaFlow

/-! ### Maps -/

namespace OrderedMap

variable {κ α : Type} [DecidableEq κ] [Coded κ]

theorem mem_keys_iff (m : OrderedMap κ α) (k : κ) : k ∈ m.keys ↔ ∃ v, m.find? k = some v := by
  rw [← contains_iff]
  exact Option.isSome_iff_exists

theorem mem_values_iff (m : OrderedMap κ α) (v : α) : v ∈ m.values ↔ ∃ k, m.find? k = some v := by
  unfold values
  rw [List.mem_map]
  constructor
  · intro h
    obtain ⟨e, he, rfl⟩ := h
    exact ⟨e.1, (m.find?_eq_some_iff e.1 e.2).mpr he⟩
  · intro h
    obtain ⟨k, hk⟩ := h
    exact ⟨(k, v), (m.find?_eq_some_iff k v).mp hk, rfl⟩

/-- The parts of the values have nothing twice if no part has and different keys
    have nothing in common. -/
theorem nodup_flatMap_iff {β : Type} (m : OrderedMap κ α) (part : α → List β) :
    (m.values.flatMap part).Nodup ↔
      (∀ k v, m.find? k = some v → (part v).Nodup) ∧
        ∀ k v l w x, m.find? k = some v → m.find? l = some w → x ∈ part v → x ∈ part w → k = l := by
  unfold values
  rw [List.flatMap_map, List.nodup_flatMap]
  constructor
  · rintro ⟨heach, hpairs⟩
    refine ⟨fun k v hv => heach (k, v) ((m.find?_eq_some_iff k v).mp hv), ?_⟩
    intro k v l w x hv hw hx hx'
    have : Std.Symm (Function.onFun List.Disjoint fun e : κ × α => part e.2) :=
      ⟨fun _ _ hdisj _ hy hy' => hdisj hy' hy⟩
    by_contra hne
    have hdisj := hpairs.forall ((m.find?_eq_some_iff k v).mp hv) ((m.find?_eq_some_iff l w).mp hw)
      fun heq => hne (congrArg Prod.fst heq)
    exact hdisj hx hx'
  · rintro ⟨heach, happart⟩
    refine ⟨fun e he => heach e.1 e.2 ((m.find?_eq_some_iff e.1 e.2).mpr he), ?_⟩
    have hkeys : m.entries.Pairwise fun a b => a.1 ≠ b.1 := List.pairwise_map.mp m.distinct
    refine hkeys.imp_of_mem ?_
    intro a b ha hb hne x hx hx'
    exact hne (happart a.1 a.2 b.1 b.2 x ((m.find?_eq_some_iff _ _).mpr ha)
      ((m.find?_eq_some_iff _ _).mpr hb) hx hx')

theorem find?_eq_none_of_contains {m : OrderedMap κ α} {k : κ} (h : ¬ m.contains k = true) :
    m.find? k = none := by
  unfold contains at h
  exact Option.not_isSome_iff_eq_none.mp h

end OrderedMap

/-! ### Adding functions -/

namespace Program

variable {p q : Program} {f : Function}

/-- Claimed keys lead to the new owner, all others where they led before. -/
theorem find?_claim {κ : Type} [DecidableEq κ] [Coded κ] (index : OrderedMap κ FuncId)
    (keys : List κ) (owner : FuncId) (j : κ) :
    (claim index keys owner).find? j = if j ∈ keys then some owner else index.find? j := by
  induction keys generalizing index with
  | nil => rfl
  | cons k rest ih =>
    have hstep : claim index (k :: rest) owner = claim (index.insert k owner) rest owner := rfl
    rw [hstep, ih, OrderedMap.find?_insert]
    -- Later claims of a key repeat the same owner, so their order does not matter.
    by_cases hrest : j ∈ rest
    · rw [if_pos hrest, if_pos (List.mem_cons_of_mem k hrest)]
    · by_cases hk : j = k
      · rw [if_neg hrest, if_pos hk, if_pos (hk ▸ List.mem_cons_self)]
      · have hcons : j ∉ k :: rest := by simp [hk, hrest]
        rw [if_neg hrest, if_neg hk, if_neg hcons]

/-- Adding a function succeeds only if its id, its name and its instructions are
    new, and then inserts it. -/
theorem add?_cases (h : p.add? f = .ok q) :
    q = p.insert f ∧ p.function? f.id = none ∧ p.byName.find? f.name = none ∧
      ∀ i ∈ f.instrs.keys, p.instrOwner.find? i = none := by
  unfold add? at h
  -- The three checks come in this order; each failure ends in an error.
  split at h
  · cases h
  · next hid =>
    split at h
    · cases h
    · next hname =>
      cases htaken : f.instrs.keys.find? fun i => p.instrOwner.contains i with
      | some i =>
        rw [htaken] at h
        cases h
      | none =>
        rw [htaken] at h
        have hfresh := List.find?_eq_none.mp htaken
        refine ⟨(Except.ok.inj h).symm, OrderedMap.find?_eq_none_of_contains hid,
          OrderedMap.find?_eq_none_of_contains hname, ?_⟩
        intro i hi
        exact OrderedMap.find?_eq_none_of_contains (hfresh i hi)

theorem function?_insert (p : Program) (f : Function) (k : FuncId) :
    (p.insert f).function? k = if k = f.id then some f else p.function? k :=
  OrderedMap.find?_insert p.functions f.id f k

/-! ### The index invariant -/

/-- The indexes of a program are in step with its functions. -/
structure Indexed (p : Program) : Prop where
  /-- Every function is stored under its own id. -/
  filed : ∀ k f, p.function? k = some f → f.id = k
  /-- A name leads to the function that has it. -/
  named : ∀ name k, p.byName.find? name = some k ↔ ∃ f, p.function? k = some f ∧ f.name = name
  /-- An instruction id leads to the function that stores it. -/
  owned : ∀ i k, p.instrOwner.find? i = some k ↔
    ∃ f, p.function? k = some f ∧ i ∈ f.instrs.keys

theorem indexed_empty : Program.empty.Indexed where
  filed k f h := by cases h
  named name k := by
    constructor
    · intro h; cases h
    · intro h; obtain ⟨f, hf, _⟩ := h; cases hf
  owned i k := by
    constructor
    · intro h; cases h
    · intro h; obtain ⟨f, hf, _⟩ := h; cases hf

/-- An index that leads from what a function has to the function stays right when
    a new function claims what no other function has. -/
theorem claimed_iff {β : Type} (has : Function → β → Prop) {find find' : β → Option FuncId}
    (hid : p.function? f.id = none)
    (hold : ∀ x k, find x = some k ↔ ∃ g, p.function? k = some g ∧ has g x)
    (hfresh : ∀ x, has f x → find x = none) (hnew : ∀ x, has f x → find' x = some f.id)
    (hsame : ∀ x, ¬ has f x → find' x = find x) (x : β) (k : FuncId) :
    find' x = some k ↔ ∃ g, (p.insert f).function? k = some g ∧ has g x := by
  rw [function?_insert]
  by_cases hx : has f x
  · rw [hnew x hx]
    constructor
    · intro h
      have hk : k = f.id := (Option.some.inj h).symm
      exact ⟨f, if_pos hk, hx⟩
    · intro h
      obtain ⟨g, hg, hgx⟩ := h
      by_cases hk : k = f.id
      · rw [hk]
      · -- Another function that has `x` would have been found before.
        rw [if_neg hk] at hg
        have hother := (hold x k).mpr ⟨g, hg, hgx⟩
        rw [hfresh x hx] at hother
        cases hother
  · rw [hsame x hx, hold x k]
    by_cases hk : k = f.id
    · -- The new function has no such `x`, and its id led nowhere before.
      rw [if_pos hk, hk, hid]
      constructor
      · intro h; obtain ⟨g, hg, _⟩ := h; cases hg
      · intro h
        obtain ⟨g, hg, hgx⟩ := h
        exact absurd (Option.some.inj hg ▸ hgx) hx
    · rw [if_neg hk]

/-- Adding a function keeps the indexes in step. -/
theorem Indexed.add (hp : p.Indexed) (h : p.add? f = .ok q) : q.Indexed := by
  obtain ⟨rfl, hid, hname, hinstrs⟩ := add?_cases h
  refine ⟨?_, ?_, ?_⟩
  · intro k g hg
    rw [function?_insert] at hg
    by_cases hk : k = f.id
    · rw [if_pos hk] at hg
      rw [hk, Option.some.inj hg]
    · rw [if_neg hk] at hg
      exact hp.filed k g hg
  · have hfind : ∀ name, (p.insert f).byName.find? name =
        if name = f.name then some f.id else p.byName.find? name :=
      OrderedMap.find?_insert p.byName f.name f.id
    refine claimed_iff (fun g name => g.name = name) hid hp.named ?_ ?_ ?_
    · intro name hn; rw [← hn]; exact hname
    · intro name hn; rw [hfind, if_pos hn.symm]
    · intro name hn; rw [hfind, if_neg fun e => hn e.symm]
  · have hfind : ∀ i, (p.insert f).instrOwner.find? i =
        if i ∈ f.instrs.keys then some f.id else p.instrOwner.find? i :=
      find?_claim p.instrOwner f.instrs.keys f.id
    refine claimed_iff (fun g i => i ∈ g.instrs.keys) hid hp.owned hinstrs ?_ ?_
    · intro i hi; rw [hfind, if_pos hi]
    · intro i hi; rw [hfind, if_neg hi]

/-- Adding the functions of a list adds the first, then the others. -/
theorem foldlM_addEntry?_cons {p₀ : Program} {e : FuncId × Function}
    {rest : List (FuncId × Function)} (h : (e :: rest).foldlM addEntry? p₀ = .ok p) :
    ∃ p₁, e.1 = e.2.id ∧ p₀.add? e.2 = .ok p₁ ∧ rest.foldlM addEntry? p₁ = .ok p := by
  rw [List.foldlM_cons] at h
  by_cases hkey : e.1 = e.2.id
  · have hentry : p₀.addEntry? e = p₀.add? e.2 := if_pos hkey
    rw [hentry] at h
    cases hadd : p₀.add? e.2 with
    | error err =>
      rw [hadd] at h
      cases h
    | ok p₁ =>
      rw [hadd] at h
      exact ⟨p₁, hkey, rfl, h⟩
  · have hentry : p₀.addEntry? e = .error (.functionMisfiled e.2.id e.1) := if_neg hkey
    rw [hentry] at h
    cases h

/-- What holds of the empty program and is kept when a function is added holds of
    every program that is put together from a list. -/
theorem ofEntries?_invariant {P : Program → Prop} (hempty : P .empty)
    (hadd : ∀ p f q, P p → p.add? f = .ok q → P q) {entries : List (FuncId × Function)}
    (h : ofEntries? entries = .ok p) : P p := by
  -- The induction goes over any start that has the property, not just the empty one.
  have hrun : ∀ (l : List (FuncId × Function)) (p₀ : Program), P p₀ →
      l.foldlM addEntry? p₀ = .ok p → P p := by
    intro l
    induction l with
    | nil =>
      intro p₀ hp₀ hfold
      exact Except.ok.inj hfold ▸ hp₀
    | cons e rest ih =>
      intro p₀ hp₀ hfold
      obtain ⟨p₁, -, hfirst, hrest⟩ := foldlM_addEntry?_cons hfold
      exact ih p₁ (hadd p₀ e.2 p₁ hp₀ hfirst) hrest
  exact hrun entries .empty hempty h

/-- The programs of lists of functions are indexed. -/
theorem indexed_of_ofEntries? {entries : List (FuncId × Function)}
    (h : ofEntries? entries = .ok p) : p.Indexed :=
  ofEntries?_invariant indexed_empty (fun _ _ _ => Indexed.add) h

/-- A name finds the function that has it. -/
theorem Indexed.named?_eq_some_iff (hp : p.Indexed) (name : String) :
    p.named? name = some f ↔ p.function? f.id = some f ∧ f.name = name := by
  unfold named?
  rw [Option.bind_eq_some_iff]
  constructor
  · rintro ⟨k, hk, hf⟩
    obtain ⟨g, hg, hname⟩ := (hp.named name k).mp hk
    obtain rfl := Option.some.inj (hf.symm.trans hg)
    exact ⟨(hp.filed k f hf).symm ▸ hf, hname⟩
  · rintro ⟨hf, hname⟩
    exact ⟨f.id, (hp.named name f.id).mpr ⟨f, hf, hname⟩, hf⟩

/-- The program finds exactly the instructions that its functions store. -/
theorem Indexed.instr?_eq_some_iff (hp : p.Indexed) (i : InstrId) (inst : Instr) :
    p.instr? i = some inst ↔ ∃ k f, p.function? k = some f ∧ f.instr? i = some inst := by
  show ((p.instrOwner.find? i).bind fun owner => (p.function? owner).bind fun f => f.instr? i) =
    some inst ↔ _
  simp only [Option.bind_eq_some_iff]
  constructor
  · rintro ⟨k, -, f, hf, hi⟩
    exact ⟨k, f, hf, hi⟩
  · rintro ⟨k, f, hf, hi⟩
    have hkey : i ∈ f.instrs.keys := (f.instrs.mem_keys_iff i).mpr ⟨inst, hi⟩
    exact ⟨k, (hp.owned i k).mpr ⟨f, hf, hkey⟩, f, hf, hi⟩

/-- A key of an instruction belongs to one function. -/
theorem Indexed.owner_unique (hp : p.Indexed) {i : InstrId} {k l : FuncId} {f g : Function}
    (hf : p.function? k = some f) (hg : p.function? l = some g) (hi : i ∈ f.instrs.keys)
    (hi' : i ∈ g.instrs.keys) : k = l := by
  have hk := (hp.owned i k).mpr ⟨f, hf, hi⟩
  have hl := (hp.owned i l).mpr ⟨g, hg, hi'⟩
  exact Option.some.inj (hk.symm.trans hl)

/-- A program is loaded from a text that is one tree, whose functions are read and
    then put together. -/
theorem load_cases {text : String} (h : load text = .ok p) :
    ∃ tree functions, Json.parse? text = some (tree, []) ∧
      readFunctions Json.maxNesting tree = some functions ∧
      ofEntries? functions.entries = .ok p := by
  unfold load at h
  cases hparse : Json.parse? text with
  | none => simp [hparse] at h
  | some result =>
    obtain ⟨tree, rest⟩ := result
    cases hread : readFunctions Json.maxNesting tree with
    | none => simp [hparse, hread] at h
    | some functions =>
      cases hentries : ofEntries? functions.entries with
      | error e => simp [hparse, hread, hentries] at h
      | ok p' =>
        -- A text that goes on after the value is refused, but only at the end.
        simp only [hparse, hread, hentries] at h
        split at h
        · next hrest =>
          obtain rfl := List.isEmpty_iff.mp hrest
          obtain rfl := Except.ok.inj h
          exact ⟨tree, functions, rfl, hread, hentries⟩
        · cases h

end Program

/-! ### Construction sessions -/

namespace Session

variable (s : Session) (w : Workbench)

theorem program_settle (cursor : Option Cursor) (result : Except Error Draft) :
    (s.settle w cursor result).1.program = s.program := by
  cases result <;> rfl

/-- A step on the open block leaves the program alone. -/
theorem program_blockStep (c : Cursor) (t : BlockStep) :
    (s.blockStep w c t).1.program = s.program := by
  cases t with
  | parameter index =>
    simp only [blockStep]
    split <;> rfl
  | receiver =>
    simp only [blockStep]
    split <;> rfl
  | ret value => exact program_settle s _ _ _
  | bind instr expr => exact program_settle s _ _ _
  | terminate terminator => exact program_settle s _ _ _
  | _ => rfl

/-- A step on the open function leaves the program alone, or adds the function. -/
theorem program_functionStep (t : FunctionStep) :
    (s.functionStep w t).1.program = s.program ∨
      ∃ f, s.program.add? f = .ok (s.functionStep w t).1.program := by
  cases t with
  | build =>
    simp only [functionStep]
    cases hadd : s.program.add? w.draft.function with
    | ok p => exact Or.inr ⟨w.draft.function, hadd⟩
    | error e => exact Or.inl rfl
  | newBlock =>
    left
    simp only [functionStep]
    split <;> rfl
  | enterNew =>
    left
    simp only [functionStep]
    split <;> rfl
  | switchTo b =>
    left
    simp only [functionStep]
    split <;> rfl
  | addIncoming phi pred value => exact Or.inl (program_settle s _ _ _)
  | bind instr expr => exact Or.inl (program_settle s _ _ _)
  | _ => exact Or.inl rfl

/-- A step on the program leaves it alone, or starts over. -/
theorem program_programStep (t : ProgramStep) :
    (s.programStep t).1.program = s.program ∨ (s.programStep t).1.program = .empty := by
  cases t with
  | clear => exact Or.inr rfl
  | validate =>
    left
    simp only [programStep]
    split <;> rfl
  | _ => exact Or.inl rfl

/-- **What a step does to the program**: nothing, starting over, or adding one
    function. -/
theorem program_step (t : Step) :
    (s.step t).1.program = s.program ∨ (s.step t).1.program = .empty ∨
      ∃ f, s.program.add? f = .ok (s.step t).1.program := by
  cases t with
  | block b =>
    left
    simp only [step]
    split
    · exact program_blockStep s _ _ b
    · rfl
  | function t =>
    -- Without an open function the step is refused.
    simp only [step]
    split
    · rcases program_functionStep s _ t with h | h
      · exact Or.inl h
      · exact Or.inr (Or.inr h)
    · exact Or.inl rfl
  | program t =>
    rcases program_programStep s.closeAll t with h | h
    · exact Or.inl h
    · exact Or.inr (Or.inl h)
  | unknown => exact Or.inl rfl

/-- What holds of the empty program and is kept when a function is added is kept by
    a session, whatever the steps. -/
theorem program_run_invariant {P : Program → Prop} (hempty : P .empty)
    (hadd : ∀ p f q, P p → p.add? f = .ok q → P q) (steps : List Step) (h : P s.program) :
    P (s.run steps).1.program := by
  induction steps generalizing s with
  | nil => exact h
  | cons t rest ih =>
    show P ((s.step t).1.run rest).1.program
    apply ih
    -- One step: the program is the same, empty, or has one more function.
    rcases s.program_step t with heq | heq | ⟨f, hf⟩
    · rw [heq]; exact h
    · rw [heq]; exact hempty
    · exact hadd _ f _ h hf

end Session

/-! ### The ways to a program -/

namespace Program

/-- The program was read from a text, or built in a session, or had functions
    added since; nothing in it was edited. -/
inductive Obtained : Program → Prop where
  /-- Read from a text. -/
  | loaded {text : String} {p : Program} (h : load text = .ok p) : Obtained p
  /-- Built by the steps of a session. -/
  | built (steps : List Step) : Obtained (Session.empty.run steps).1.program
  /-- One more function was added. -/
  | extended {p q : Program} {f : Function} (before : Obtained p) (h : p.add? f = .ok q) :
      Obtained q

/-- What holds of the empty program and is kept when a function is added holds of
    every program that was obtained. -/
theorem Obtained.invariant {P : Program → Prop} {p : Program} (h : p.Obtained) (hempty : P .empty)
    (hadd : ∀ p f q, P p → p.add? f = .ok q → P q) : P p := by
  induction h with
  | loaded h =>
    obtain ⟨tree, functions, -, -, hentries⟩ := load_cases h
    exact ofEntries?_invariant hempty hadd hentries
  | built steps => exact Session.empty.program_run_invariant hempty hadd steps hempty
  | extended _ h ih => exact hadd _ _ _ ih h

theorem Obtained.indexed {p : Program} (h : p.Obtained) : p.Indexed :=
  h.invariant indexed_empty fun _ _ _ => Indexed.add

end Program

end SsaFlow
