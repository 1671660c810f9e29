import SsaFlow.Ir.Edit
import SsaFlow.Proofs.SavedFunctions
import SsaFlow.Proofs.Validation

/-! # Saving and loading programs

    A saved program holds the functions and not the indexes; loading reads the
    functions back and puts them together again.

    * `Program.load_save_eq`: loading a saved text amounts to putting the stored
      functions together in their order.
    * `Program.Savable`: the conditions under which that succeeds.
    * `Program.Obtained.rebuilt`: a program that was never edited is what its
      functions make.
    * `Program.load_save_roundTrip`: what saving and loading keeps.
    * `Program.strayed_found_after_load`: what it does not keep, if indexes are out
      of step.
-/

namespace SsaFlow

namespace Program

variable {p q : Program} {f : Function}

/-! ### Putting functions together -/

/-- A function whose id, name and instructions are new can be added. -/
theorem add?_of_new (hid : p.function? f.id = none) (hname : p.byName.find? f.name = none)
    (hinstrs : ∀ i ∈ f.instrs.keys, p.instrOwner.find? i = none) :
    p.add? f = .ok (p.insert f) := by
  have htaken : (f.instrs.keys.find? fun i => p.instrOwner.contains i) = none := by
    rw [List.find?_eq_none]
    intro i hi
    simp [OrderedMap.contains, hinstrs i hi]
  have hid' : p.functions.contains f.id = false := by
    unfold function? at hid
    simp [OrderedMap.contains, hid]
  have hname' : p.byName.contains f.name = false := by
    simp [OrderedMap.contains, hname]
  unfold add?
  rw [hid', hname', htaken]
  rfl

/-- A function that was added comes last. -/
theorem entries_of_add? (h : p.add? f = .ok q) :
    q.functions.entries = p.functions.entries ++ [(f.id, f)] := by
  obtain ⟨rfl, hid, -, -⟩ := add?_cases h
  apply Entries.put_of_not_mem
  intro hmem
  obtain ⟨g, hg⟩ := (p.functions.mem_keys_iff f.id).mp hmem
  unfold function? at hid
  rw [hid] at hg
  cases hg

/-- Whatever functions were put together, they are stored in that order. -/
theorem entries_of_ofEntries? {entries : List (FuncId × Function)}
    (h : ofEntries? entries = .ok p) : p.functions.entries = entries := by
  have hrun : ∀ (l : List (FuncId × Function)) (p₀ : Program), l.foldlM addEntry? p₀ = .ok p →
      p.functions.entries = p₀.functions.entries ++ l := by
    intro l
    induction l with
    | nil =>
      intro p₀ hfold
      obtain rfl := Except.ok.inj hfold
      exact (List.append_nil _).symm
    | cons e rest ih =>
      intro p₀ hfold
      obtain ⟨p₁, hkey, hadd, hrest⟩ := foldlM_addEntry?_cons hfold
      have he : (e.2.id, e.2) = e := Prod.ext hkey.symm rfl
      rw [ih p₁ hrest, entries_of_add? hadd, he, List.append_assoc]
      rfl
  exact hrun entries .empty h

/-- Two stored functions that can be in one program: their ids and names differ,
    and they have no instruction in common. -/
structure Apart (a b : FuncId × Function) : Prop where
  id : a.1 ≠ b.1
  name : a.2.name ≠ b.2.name
  instrs : ∀ i ∈ a.2.instrs.keys, i ∉ b.2.instrs.keys

/-- A function that is apart from all that are there can be added. -/
theorem Indexed.add?_of_apart (hp : p.Indexed) (h : ∀ a ∈ p.functions.entries, Apart a (f.id, f)) :
    p.add? f = .ok (p.insert f) := by
  have hmem : ∀ {k g}, p.function? k = some g → (k, g) ∈ p.functions.entries :=
    fun hg => (p.functions.find?_eq_some_iff _ _).mp hg
  apply add?_of_new
  · refine Option.eq_none_iff_forall_ne_some.mpr ?_
    intro g hg
    exact (h _ (hmem hg)).id rfl
  · refine Option.eq_none_iff_forall_ne_some.mpr ?_
    intro k hk
    obtain ⟨g, hg, hname⟩ := (hp.named f.name k).mp hk
    exact (h _ (hmem hg)).name hname
  · intro i hi
    refine Option.eq_none_iff_forall_ne_some.mpr ?_
    intro k hk
    obtain ⟨g, hg, hkey⟩ := (hp.owned i k).mp hk
    exact (h _ (hmem hg)).instrs i hkey hi

/-- Functions that are apart, each under its own id, can be put together. -/
theorem exists_ofEntries? {entries : List (FuncId × Function)}
    (hfiled : ∀ e ∈ entries, e.1 = e.2.id) (hapart : entries.Pairwise Apart) :
    ∃ q, ofEntries? entries = .ok q := by
  -- The invariant: what was added before is apart from what is to come.
  have hrun : ∀ (l : List (FuncId × Function)) (p₀ : Program), p₀.Indexed →
      (∀ e ∈ l, e.1 = e.2.id) → (p₀.functions.entries ++ l).Pairwise Apart →
      ∃ q, l.foldlM addEntry? p₀ = .ok q := by
    intro l
    induction l with
    | nil => intro p₀ _ _ _; exact ⟨p₀, rfl⟩
    | cons e rest ih =>
      intro p₀ hp₀ hkeys hpairs
      have hkey : e.1 = e.2.id := hkeys e List.mem_cons_self
      have he : (e.2.id, e.2) = e := Prod.ext hkey.symm rfl
      have hbefore : ∀ a ∈ p₀.functions.entries, Apart a (e.2.id, e.2) := by
        intro a ha
        rw [he]
        exact (List.pairwise_append.mp hpairs).2.2 a ha e List.mem_cons_self
      have hadd := hp₀.add?_of_apart hbefore
      have hnext : ((p₀.insert e.2).functions.entries ++ rest).Pairwise Apart := by
        rw [entries_of_add? hadd, he, List.append_assoc]
        exact hpairs
      obtain ⟨q, hq⟩ := ih (p₀.insert e.2) (hp₀.add hadd)
        (fun e' he' => hkeys e' (List.mem_cons_of_mem e he')) hnext
      refine ⟨q, ?_⟩
      have hentry : p₀.addEntry? e = .ok (p₀.insert e.2) := (if_pos hkey).trans hadd
      rw [List.foldlM_cons, hentry]
      exact hq
  exact hrun entries .empty indexed_empty hfiled hapart

/-! ### Programs that are what their functions make -/

/-- Putting the functions of the program together gives the program. -/
def Rebuilt (p : Program) : Prop := ofEntries? p.functions.entries = .ok p

theorem Rebuilt.add (hp : p.Rebuilt) (h : p.add? f = .ok q) : q.Rebuilt := by
  have hentry : p.addEntry? (f.id, f) = .ok q := (if_pos rfl).trans h
  unfold Rebuilt ofEntries? at hp ⊢
  rw [entries_of_add? h, List.foldlM_append, hp]
  show [(f.id, f)].foldlM addEntry? p = .ok q
  rw [List.foldlM_cons, hentry]
  rfl

/-- A program that was never edited is what its functions make. -/
theorem Obtained.rebuilt (h : p.Obtained) : p.Rebuilt := h.invariant rfl fun _ _ _ => Rebuilt.add

/-! ### The text of a program -/

theorem printable_toJson (p : Program) : p.toJson.Printable :=
  (functions_form.stands p.functions).prints

/-- The text of a program nests as deep as its tree. -/
theorem nesting_save (p : Program) : Json.nesting p.save = p.toJson.depth :=
  Json.nesting_pretty p.printable_toJson

/-- **What loading a saved text does**: the stored functions are put together in
    their order. -/
theorem load_save_eq (h : Json.nesting p.save ≤ Json.maxNesting) :
    load p.save = (ofEntries? p.functions.entries).mapError .rejected := by
  have hparse : Json.parse? p.save = some (p.toJson, []) := Json.parse?_pretty p.printable_toJson
  have hdepth : p.toJson.depth ≤ Json.maxNesting := p.nesting_save ▸ h
  have hread : readFunctions Json.maxNesting p.toJson = some p.functions :=
    (functions_form.stands p.functions).reads hdepth
  unfold load
  simp only [hparse, hread]
  cases ofEntries? p.functions.entries <;> rfl

theorem Rebuilt.load_save (hp : p.Rebuilt) (h : Json.nesting p.save ≤ Json.maxNesting) :
    load p.save = .ok p := by
  rw [load_save_eq h, hp]
  rfl

/-- A loaded program nests no deeper than a text may. -/
theorem nesting_of_load {text : String} (h : load text = .ok p) :
    Json.nesting p.save ≤ Json.maxNesting := by
  obtain ⟨tree, functions, -, hread, hentries⟩ := load_cases h
  have hfunctions : p.functions = functions := OrderedMap.ext (entries_of_ofEntries? hentries)
  -- Whatever was skipped in the text, what was read fits once it is written.
  obtain ⟨functions', rfl, hdepth⟩ := functions_form.fits hread
  rw [nesting_save]
  unfold toJson
  rw [hfunctions]
  exact hdepth

/-! ### Round trip -/

/-- The conditions under which a saved program can be loaded. -/
structure Savable (p : Program) : Prop where
  /-- Every function is stored under its own id. -/
  filed : ∀ k f, p.function? k = some f → f.id = k
  /-- No two functions have the same name. -/
  names : ∀ k f l g, p.function? k = some f → p.function? l = some g → f.name = g.name → k = l
  /-- No two functions store an instruction under the same key. -/
  instrs : ∀ k f l g i, p.function? k = some f → p.function? l = some g →
    i ∈ f.instrs.keys → i ∈ g.instrs.keys → k = l
  /-- The saved text nests no deeper than a text may. -/
  nests : Json.nesting p.save ≤ Json.maxNesting

/-- Indexes that are in step leave no room for a shared name or instruction. -/
theorem Indexed.savable (hp : p.Indexed) (h : Json.nesting p.save ≤ Json.maxNesting) :
    p.Savable where
  filed := hp.filed
  names k f l g hf hg hname := by
    have hk := (hp.named f.name k).mpr ⟨f, hf, rfl⟩
    have hl := (hp.named f.name l).mpr ⟨g, hg, hname.symm⟩
    exact Option.some.inj (hk.symm.trans hl)
  instrs _ _ _ _ _ hf hg hfi hgi := hp.owner_unique hf hg hfi hgi
  nests := h

/-- Functions that are stored under their ids and share no name and no key can be
    put together anew. -/
theorem exists_reindexed (hfiled : ∀ k f, p.function? k = some f → f.id = k)
    (hnames : ∀ k f l g, p.function? k = some f → p.function? l = some g → f.name = g.name → k = l)
    (hinstrs : ∀ k f l g i, p.function? k = some f → p.function? l = some g →
      i ∈ f.instrs.keys → i ∈ g.instrs.keys → k = l) :
    ∃ q, ofEntries? p.functions.entries = .ok q := by
  have hfind : ∀ {e}, e ∈ p.functions.entries → p.function? e.1 = some e.2 :=
    fun he => (p.functions.find?_eq_some_iff _ _).mpr he
  have hdistinct : p.functions.entries.Pairwise fun a b => a.1 ≠ b.1 :=
    List.pairwise_map.mp p.functions.distinct
  apply exists_ofEntries?
  · intro e he
    exact (hfiled e.1 e.2 (hfind he)).symm
  · -- Two entries with different keys are apart, since they share nothing.
    refine hdistinct.imp_of_mem ?_
    intro a b ha hb hne
    refine ⟨hne, ?_, ?_⟩
    · intro hname
      exact hne (hnames _ _ _ _ (hfind ha) (hfind hb) hname)
    · intro i hi hi'
      exact hne (hinstrs _ _ _ _ i (hfind ha) (hfind hb) hi hi')

theorem Savable.exists_load (h : p.Savable) :
    ∃ q, load p.save = .ok q ∧ ofEntries? p.functions.entries = .ok q := by
  obtain ⟨q, hq⟩ := exists_reindexed h.filed h.names h.instrs
  refine ⟨q, ?_, hq⟩
  rw [load_save_eq h.nests, hq]
  rfl

section

variable (hp : p.Indexed) (hq : q.Indexed) (h : q.functions = p.functions)
include hp hq h

/-- Indexes that are in step with the same functions find the same by name. -/
theorem Indexed.named?_eq (name : String) : q.named? name = p.named? name := by
  have hfunction : q.function? = p.function? := by
    unfold function?
    rw [h]
  have hindex : q.byName.find? name = p.byName.find? name := by
    ext k
    rw [hq.named, hp.named, hfunction]
  unfold named?
  rw [hindex, hfunction]

/-- Indexes that are in step with the same functions find the same instructions. -/
theorem Indexed.instr?_eq (i : InstrId) : q.instr? i = p.instr? i := by
  have hfunction : q.function? = p.function? := by
    unfold function?
    rw [h]
  have hindex : q.instrOwner.find? i = p.instrOwner.find? i := by
    ext k
    rw [hq.owned, hp.owned, hfunction]
  unfold instr?
  rw [hindex, hfunction]

end

/-- **Saved programs are loaded back.** If every function is stored under its own
    id, no two share a name or an instruction key, and the text nests no deeper
    than a text may, loading what was saved gives a program with the same
    functions, indexed anew, which is saved as the same text; look-ups give what
    they gave if the indexes were in step, and a program that was never edited
    comes back whole. Every program that is loaded meets the conditions, and
    comes back whole itself. -/
theorem load_save_roundTrip :
    (∀ p : Program, p.Savable → ∃ q, load p.save = .ok q ∧ q.functions = p.functions ∧
      q.save = p.save ∧ q.Indexed ∧
      (p.Indexed → (∀ name, q.named? name = p.named? name) ∧ ∀ i, q.instr? i = p.instr? i) ∧
      (p.Obtained → q = p)) ∧
    ∀ text (q : Program), load text = .ok q → q.Savable ∧ load q.save = .ok q := by
  constructor
  · intro p hp
    obtain ⟨q, hload, hentries⟩ := hp.exists_load
    have hfunctions : q.functions = p.functions := OrderedMap.ext (entries_of_ofEntries? hentries)
    have hindexed : q.Indexed := indexed_of_ofEntries? hentries
    refine ⟨q, hload, hfunctions, ?_, hindexed, ?_, ?_⟩
    · unfold save toJson
      rw [hfunctions]
    · intro hown
      exact ⟨hown.named?_eq hindexed hfunctions, hown.instr?_eq hindexed hfunctions⟩
    · intro hobtained
      have hrebuilt : ofEntries? p.functions.entries = .ok p := hobtained.rebuilt
      exact Except.ok.inj (hentries.symm.trans hrebuilt)
  · intro text q hload
    have hobtained : q.Obtained := .loaded hload
    have hnests := nesting_of_load hload
    exact ⟨hobtained.indexed.savable hnests, hobtained.rebuilt.load_save hnests⟩

/-- The program with the loop comes back whole, and can be saved again. -/
theorem loop_comes_back : load loop.save = .ok loop ∧ loop.Savable := by
  have hnests : Json.nesting loop.save ≤ Json.maxNesting := by
    rw [nesting_save]
    decide +kernel
  obtain ⟨q, hload, -, -, -, -, hsame⟩ :=
    load_save_roundTrip.1 loop (obtained_loop.indexed.savable hnests)
  rw [hsame obtained_loop] at hload
  exact ⟨hload, (load_save_roundTrip.2 loop.save loop hload).1⟩

/-! ### Indexes that are out of step -/

/-- A return that stands in no block. -/
def strayReturn : Instr := ⟨⟨0⟩, ⟨0⟩, ⟨0⟩, .ret none, .void, none, .unknown⟩

/-- A program that got one more instruction after its only function was added,
    past the indexes. -/
def strayed : Program :=
  ((Program.empty.edit (.add (.fresh ⟨0⟩ "f"))).1.edit (.insertInstr ⟨0⟩ ⟨0⟩ strayReturn)).1

/-- Loading indexes the functions anew, so a look-up that failed before, since
    the instruction was stored past the indexes, succeeds on what is loaded. -/
theorem strayed_found_after_load :
    strayed.Savable ∧ strayed.instr? ⟨0⟩ = none ∧
      ∃ q, load strayed.save = .ok q ∧ q.instr? ⟨0⟩ = some strayReturn := by
  have hnests : Json.nesting strayed.save ≤ Json.maxNesting := by
    rw [nesting_save]
    decide +kernel
  have honly : ∀ k f, strayed.function? k = some f → k = ⟨0⟩ ∧ f.id = ⟨0⟩ := by
    intro k f hf
    have hmem := (strayed.functions.find?_eq_some_iff k f).mp hf
    obtain ⟨rfl, rfl⟩ := Prod.mk.inj (List.mem_singleton.mp hmem)
    exact ⟨rfl, rfl⟩
  refine ⟨⟨?_, ?_, ?_, hnests⟩, rfl, ?_⟩
  · intro k f hf
    exact (honly k f hf).2.trans (honly k f hf).1.symm
  · intro k f l g hf hg _
    exact (honly k f hf).1.trans (honly l g hg).1.symm
  · intro k f l g i hf hg _ _
    exact (honly k f hf).1.trans (honly l g hg).1.symm
  · rw [load_save_eq hnests]
    exact ⟨_, rfl, rfl⟩

end Program

end SsaFlow
