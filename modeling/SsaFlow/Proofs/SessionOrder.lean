import SsaFlow.Proofs.FunctionTable
import SsaFlow.Proofs.TidyFunctions

/-! # Sessions in good order

    The functions that a session has built and the one that is open take their
    ids from one context. As long as its counters fit into ids, no id is given to
    two of them.

    * `Session.functions`: the built functions and the open one. Building moves
      a function over without changing this list.
    * `Context.Accounts`: the functions are in good order and have their ids from
      the counters. Every move keeps it so (`Workbench.Move.accounts`).
    * `Context.Numbered`: different names have different numbers.
    * `Session.InOrder`: all of it for a session. Every step keeps it so
      (`Session.InOrder.step`), and it tells when building fails
      (`Session.InOrder.build_fails_iff`).
-/

namespace SsaFlow

/-! ### Ids that are given out -/

/-- The counters of a context fit into ids. They only grow until a session starts
    over, so none of them has overflown since. -/
structure Context.InRange (c : Context) : Prop where
  /-- The counter of instructions. -/
  instrs : c.nextInstr < UInt32.size
  /-- The counter of expressions. -/
  exprs : c.nextExpr < UInt32.size
  /-- The counter of functions. -/
  functions : c.nextFunc < UInt32.size

/-- The functions have their ids from a counter, which stands at `next`, and no id
    twice. -/
structure Allotted {κ : Type} [Coded κ] (ids : Function → List κ) (next : Nat)
    (functions : List Function) : Prop where
  /-- No id is one of two functions, or twice one of the same function. -/
  once : (functions.flatMap ids).Nodup
  /-- The counter is past every id. -/
  below : ∀ f ∈ functions, ∀ i ∈ ids f, Coded.code i < next

namespace Allotted

variable {κ : Type} [Coded κ] {ids : Function → List κ} {next : Nat} {l : List Function}
  {f g : Function}

/-- Another function with the same ids. -/
theorem of_same (h : Allotted ids next (l ++ [f])) (hids : ids g = ids f) :
    Allotted ids next (l ++ [g]) := by
  have heq : (l ++ [g]).flatMap ids = (l ++ [f]).flatMap ids := by simp [hids]
  refine ⟨heq ▸ h.once, ?_⟩
  intro f' hf' i hi
  rcases List.mem_append.mp hf' with hl | hg
  · exact h.below f' (List.mem_append_left _ hl) i hi
  · obtain rfl := List.mem_singleton.mp hg
    exact h.below f (List.mem_append_right _ (List.mem_singleton.mpr rfl)) i (hids ▸ hi)

/-- The last function gets the id at which the counter stands. -/
theorem give {k : κ} (h : Allotted ids next (l ++ [f])) (hk : Coded.code k = next)
    (hids : ids g = ids f ++ [k]) : Allotted ids (next + 1) (l ++ [g]) := by
  have heq : (l ++ [g]).flatMap ids = (l ++ [f]).flatMap ids ++ [k] := by simp [hids]
  refine ⟨?_, ?_⟩
  · rw [heq]
    refine List.nodup_append.mpr ⟨h.once, List.nodup_singleton k, ?_⟩
    -- All other ids are below the counter.
    intro i hi j hj hij
    obtain ⟨f', hf', hi'⟩ := List.mem_flatMap.mp hi
    have hlt := h.below f' hf' i hi'
    rw [hij, List.mem_singleton.mp hj, hk] at hlt
    omega
  · intro f' hf' i hi
    rcases List.mem_append.mp hf' with hl | hg
    · have hlt := h.below f' (List.mem_append_left _ hl) i hi
      omega
    · obtain rfl := List.mem_singleton.mp hg
      rw [hids] at hi
      rcases List.mem_append.mp hi with hi | hi
      · have hlt := h.below f (List.mem_append_right _ (List.mem_singleton.mpr rfl)) i hi
        omega
      · rw [List.mem_singleton.mp hi, hk]
        omega

/-- Without the last function. -/
theorem init (h : Allotted ids next (l ++ [f])) : Allotted ids next l := by
  refine ⟨?_, fun f' hf' => h.below f' (List.mem_append_left _ hf')⟩
  have honce := h.once
  rw [List.flatMap_append] at honce
  exact (List.nodup_append.mp honce).1

/-- With a function that has no ids. -/
theorem snoc (h : Allotted ids next l) (hf : ids f = []) : Allotted ids next (l ++ [f]) := by
  refine ⟨?_, ?_⟩
  · rw [List.flatMap_append]
    simpa [hf] using h.once
  · intro f' hf' i hi
    rcases List.mem_append.mp hf' with hl | hg
    · exact h.below f' hl i hi
    · rw [List.mem_singleton.mp hg, hf] at hi
      cases hi

end Allotted

/-- A new id of an instruction has the number at which the counter stood. -/
theorem InstrId.code_ofNat {n : Nat} (h : n < UInt32.size) : Coded.code (InstrId.ofNat n) = n :=
  UInt32.toNat_ofNat_of_lt h

theorem ExprId.code_ofNat {n : Nat} (h : n < UInt32.size) : Coded.code (ExprId.ofNat n) = n :=
  UInt32.toNat_ofNat_of_lt h

/-- The functions of a session against its context: they are in good order, have
    their ids from the counters, and their numbers from their names. -/
structure Context.Accounts (c : Context) (functions : List Function) : Prop where
  /-- Every function is in good order. -/
  tidy : ∀ f ∈ functions, f.Tidy
  /-- The ids of instructions. -/
  instrs : Allotted (fun f => f.instrs.keys) c.nextInstr functions
  /-- The ids of expressions. -/
  exprs : Allotted (fun f => f.exprs.keys) c.nextExpr functions
  /-- A function has the number of its name. -/
  named : ∀ f ∈ functions, c.declared.find? f.name = some f.id

namespace Workbench

variable {t : Step} {cursor : Option Cursor} {w w' : Workbench}

/-- What a move leaves alone, and what it takes from the counters. -/
structure Footprint (w w' : Workbench) : Prop where
  /-- The function keeps its id, -/
  id : w'.draft.function.id = w.draft.function.id
  /-- and its name. -/
  name : w'.draft.function.name = w.draft.function.name
  /-- No name gets a number. -/
  declared : w'.context.declared = w.context.declared
  /-- The counter of functions stays. -/
  nextFunc : w'.context.nextFunc = w.context.nextFunc
  /-- The function gets no new instruction, or the next one. -/
  instrs :
    (w'.context.nextInstr = w.context.nextInstr ∧
        w'.draft.function.instrs.keys = w.draft.function.instrs.keys) ∨
      (w'.context.nextInstr = w.context.nextInstr + 1 ∧
        ∃ inst, w'.draft.function.instrs =
          w.draft.function.instrs.insert (.ofNat w.context.nextInstr) inst)
  /-- It gets no new expression, or the next one. -/
  exprs :
    (w'.context.nextExpr = w.context.nextExpr ∧
        w'.draft.function.exprs = w.draft.function.exprs) ∨
      (w'.context.nextExpr = w.context.nextExpr + 1 ∧
        ∃ x, w'.draft.function.exprs =
          w.draft.function.exprs.insert (.ofNat w.context.nextExpr) x)

theorem Move.footprint (hmove : Move t cursor w w') : Footprint w w' := by
  cases hmove with
  | addParam name ty =>
    -- A note may be made, which changes no counter.
    simp only [Workbench.addParam]
    split <;> exact ⟨rfl, rfl, rfl, rfl, .inl ⟨rfl, rfl⟩, .inl ⟨rfl, rfl⟩⟩
  | sign change hname => exact ⟨rfl, hname _, rfl, rfl, .inl ⟨rfl, rfl⟩, .inl ⟨rfl, rfl⟩⟩
  | newBlock _ hnew =>
    obtain ⟨-, -, rfl⟩ := Draft.newBlock?_cases hnew
    exact ⟨rfl, rfl, rfl, rfl, .inl ⟨rfl, rfl⟩, .inl ⟨rfl, rfl⟩⟩
  | @enter b hb =>
    rcases w.draft.function_enter b with heq | heq
    · constructor <;> simp [heq]
    · constructor <;> simp [heq, Function.name]
  | emit hc op ty hop => exact ⟨rfl, rfl, rfl, rfl, .inr ⟨rfl, _, rfl⟩, .inl ⟨rfl, rfl⟩⟩
  | addExpr kind text location =>
    exact ⟨rfl, rfl, rfl, rfl, .inl ⟨rfl, rfl⟩, .inr ⟨rfl, _, rfl⟩⟩
  | bind hbind =>
    obtain rfl := Draft.bind_cases hbind
    exact ⟨rfl, rfl, rfl, rfl, .inl ⟨rfl, OrderedMap.keys_adjust _ _ _⟩, .inl ⟨rfl, rfl⟩⟩
  | addIncoming hadd =>
    obtain ⟨incoming, rfl⟩ := Draft.addIncoming_cases hadd
    exact ⟨rfl, rfl, rfl, rfl, .inl ⟨rfl, OrderedMap.keys_adjust _ _ _⟩, .inl ⟨rfl, rfl⟩⟩
  | terminate hc hend =>
    obtain ⟨-, rfl⟩ := Draft.terminate_cases hend
    exact ⟨rfl, rfl, rfl, rfl, .inl ⟨rfl, rfl⟩, .inl ⟨rfl, rfl⟩⟩

/-- Counters that are in range after a move were so before it. -/
theorem Move.inRange (hmove : Move t cursor w w') (h : w'.context.InRange) :
    w.context.InRange := by
  obtain ⟨hi, he, hf⟩ := h
  refine ⟨?_, ?_, hmove.footprint.nextFunc ▸ hf⟩
  · rcases hmove.footprint.instrs with ⟨heq, -⟩ | ⟨heq, -⟩ <;> omega
  · rcases hmove.footprint.exprs with ⟨heq, -⟩ | ⟨heq, -⟩ <;> omega

/-- **One move** keeps the accounts. -/
theorem Move.accounts {l : List Function} (hmove : Move t cursor w w')
    (hcursor : ∀ c, cursor = some c → c.block ∈ w.draft.function.blocks.keys)
    (hroom : w'.context.InRange) (h : w.context.Accounts (l ++ [w.draft.function])) :
    w'.context.Accounts (l ++ [w'.draft.function]) := by
  have hlast : w.draft.function ∈ l ++ [w.draft.function] :=
    List.mem_append_right _ (List.mem_singleton.mpr rfl)
  have hbefore := hmove.inRange hroom
  -- The next ids are new: the counters are past all that the function has.
  have hinstr : InstrId.ofNat w.context.nextInstr ∉ w.draft.function.instrs.keys := by
    intro hmem
    have hlt := h.instrs.below _ hlast _ hmem
    rw [InstrId.code_ofNat hbefore.instrs] at hlt
    omega
  have hexpr : ExprId.ofNat w.context.nextExpr ∉ w.draft.function.exprs.keys := by
    intro hmem
    have hlt := h.exprs.below _ hlast _ hmem
    rw [ExprId.code_ofNat hbefore.exprs] at hlt
    omega
  have hfoot := hmove.footprint
  refine ⟨?_, ?_, ?_, ?_⟩
  · intro f hf
    rcases List.mem_append.mp hf with hf | hf
    · exact h.tidy f (List.mem_append_left _ hf)
    · rw [List.mem_singleton.mp hf]
      exact (h.tidy _ hlast).move hmove hcursor fun _ => hinstr
  · rcases hfoot.instrs with ⟨heq, hkeys⟩ | ⟨heq, inst, hinsert⟩
    · rw [heq]
      exact h.instrs.of_same hkeys
    · rw [heq]
      refine h.instrs.give (InstrId.code_ofNat hbefore.instrs) ?_
      rw [hinsert, OrderedMap.keys_insert, if_neg hinstr]
  · rcases hfoot.exprs with ⟨heq, hsame⟩ | ⟨heq, x, hinsert⟩
    · rw [heq]
      exact h.exprs.of_same (by rw [hsame])
    · rw [heq]
      refine h.exprs.give (ExprId.code_ofNat hbefore.exprs) ?_
      rw [hinsert, OrderedMap.keys_insert, if_neg hexpr]
  · intro f hf
    rw [hfoot.declared]
    rcases List.mem_append.mp hf with hf | hf
    · exact h.named f (List.mem_append_left _ hf)
    · rw [List.mem_singleton.mp hf, hfoot.id, hfoot.name]
      exact h.named _ hlast

theorem Moves.inRange (h : Moves t cursor w w') (hroom : w'.context.InRange) :
    w.context.InRange := by
  induction h with
  | refl => exact hroom
  | tail _ hlast ih => exact ih (hlast.inRange hroom)

theorem Moves.keys (h : Moves t cursor w w') {k : BlockId}
    (hk : k ∈ w.draft.function.blocks.keys) : k ∈ w'.draft.function.blocks.keys :=
  h.keep (P := fun w => k ∈ w.draft.function.blocks.keys) (fun _ _ hmove => hmove.keys) hk

/-- The moves of a step keep the accounts. -/
theorem Moves.accounts {l : List Function} (h : Moves t cursor w w')
    (hcursor : ∀ c, cursor = some c → c.block ∈ w.draft.function.blocks.keys)
    (hroom : w'.context.InRange) (haccounts : w.context.Accounts (l ++ [w.draft.function])) :
    w'.context.Accounts (l ++ [w'.draft.function]) := by
  -- The counters only grow, so they fit before the last move as they do after it.
  induction h with
  | refl => exact haccounts
  | tail hfirst hlast ih =>
    have hbetween := ih (hlast.inRange hroom)
    refine hlast.accounts (fun c hc => ?_) hroom hbetween
    exact Moves.keys hfirst (hcursor c hc)

end Workbench

/-! ### Names and their numbers -/

/-- Different names have different numbers, all below the counter. -/
structure Context.Numbered (c : Context) : Prop where
  /-- The counter is past every number. -/
  below : ∀ name f, c.declared.find? name = some f → Coded.code f < c.nextFunc
  /-- A number is that of one name. -/
  apart : ∀ name name' f, c.declared.find? name = some f → c.declared.find? name' = some f →
    name = name'

/-- No move gives a number to a name. -/
theorem Workbench.Moves.numbered {t : Step} {cursor : Option Cursor} {w w' : Workbench}
    (h : Moves t cursor w w') (hw : w.context.Numbered) : w'.context.Numbered := by
  refine h.keep (P := fun w => w.context.Numbered) ?_ hw
  intro w w' hmove hnumbered
  refine ⟨?_, ?_⟩
  · rw [hmove.footprint.declared, hmove.footprint.nextFunc]
    exact hnumbered.below
  · rw [hmove.footprint.declared]
    exact hnumbered.apart

namespace Context

variable {c : Context}

/-- What asking for the number of a name does: the name has one, or gets the next. -/
theorem funcId_cases (c : Context) (name : String) :
    (c.declared.find? name = some (c.funcId name).1 ∧ (c.funcId name).2 = c) ∨
      c.declared.find? name = none ∧ (c.funcId name).1 = .ofNat c.nextFunc ∧
        (c.funcId name).2 = { c with
          nextFunc := c.nextFunc + 1
          declared := c.declared.insert name (.ofNat c.nextFunc) } := by
  unfold funcId
  cases hfind : c.declared.find? name with
  | some f => exact .inl ⟨rfl, rfl⟩
  | none => exact .inr ⟨rfl, rfl, rfl⟩

theorem nextInstr_funcId (c : Context) (name : String) :
    (c.funcId name).2.nextInstr = c.nextInstr := by
  rcases c.funcId_cases name with ⟨-, heq⟩ | ⟨-, -, heq⟩ <;> rw [heq]

theorem nextExpr_funcId (c : Context) (name : String) :
    (c.funcId name).2.nextExpr = c.nextExpr := by
  rcases c.funcId_cases name with ⟨-, heq⟩ | ⟨-, -, heq⟩ <;> rw [heq]

/-- Afterwards the name has the number, and other names have what they had. -/
theorem find?_declared_funcId (c : Context) (name : String) :
    (c.funcId name).2.declared.find? name = some (c.funcId name).1 ∧
      ∀ other f, c.declared.find? other = some f →
        (c.funcId name).2.declared.find? other = some f := by
  rcases c.funcId_cases name with ⟨hfound, heq⟩ | ⟨hnew, hid, heq⟩
  · rw [heq]
    exact ⟨hfound, fun _ _ h => h⟩
  · rw [heq, hid]
    refine ⟨by rw [OrderedMap.find?_insert, if_pos rfl], ?_⟩
    intro other f hf
    have hne : other ≠ name := by
      rintro rfl
      rw [hnew] at hf
      cases hf
    rw [OrderedMap.find?_insert, if_neg hne]
    exact hf

theorem inRange_of_funcId {name : String} (h : (c.funcId name).2.InRange) : c.InRange := by
  refine ⟨c.nextInstr_funcId name ▸ h.instrs, c.nextExpr_funcId name ▸ h.exprs, ?_⟩
  have hlt := h.functions
  rcases c.funcId_cases name with ⟨-, heq⟩ | ⟨-, -, heq⟩
  · rwa [heq] at hlt
  · rw [heq] at hlt
    exact Nat.lt_of_succ_lt hlt

theorem Numbered.funcId {name : String} (h : c.Numbered) (hroom : c.InRange) :
    (c.funcId name).2.Numbered := by
  rcases c.funcId_cases name with ⟨-, heq⟩ | ⟨hnew, -, heq⟩
  · rw [heq]
    exact h
  · rw [heq]
    have hnext : Coded.code (FuncId.ofNat c.nextFunc) = c.nextFunc :=
      UInt32.toNat_ofNat_of_lt hroom.functions
    -- The next number is not one of those that were given before.
    have hold : ∀ other f, c.declared.find? other = some f → f ≠ .ofNat c.nextFunc := by
      rintro other f hf rfl
      have hlt := h.below other _ hf
      omega
    have hfind : ∀ other, (c.declared.insert name (.ofNat c.nextFunc)).find? other =
        if other = name then some (.ofNat c.nextFunc) else c.declared.find? other :=
      c.declared.find?_insert name _
    constructor
    · intro other f hf
      show Coded.code f < c.nextFunc + 1
      rw [hfind] at hf
      split at hf
      · rw [← Option.some.inj hf, hnext]
        omega
      · have hlt := h.below other f hf
        omega
    · intro other other' f hf hf'
      rw [hfind] at hf hf'
      split at hf <;> split at hf'
      · next h₁ h₂ => rw [h₁, h₂]
      · exact absurd (Option.some.inj hf).symm (hold _ f hf')
      · exact absurd (Option.some.inj hf').symm (hold _ f hf)
      · exact h.apart other other' f hf hf'

/-- A name that gets its number leaves the accounts right. -/
theorem Accounts.funcId {l : List Function} {name : String} (h : c.Accounts l) :
    (c.funcId name).2.Accounts l where
  tidy := h.tidy
  instrs := (c.nextInstr_funcId name).symm ▸ h.instrs
  exprs := (c.nextExpr_funcId name).symm ▸ h.exprs
  named f hf := (c.find?_declared_funcId name).2 f.name f.id (h.named f hf)

/-- A function that is begun under its name joins them. -/
theorem Accounts.begin {l : List Function} (h : c.Accounts l) (name : String) :
    (c.funcId name).2.Accounts (l ++ [Function.fresh (c.funcId name).1 name]) := by
  have hbuilt : (c.funcId name).2.Accounts l := h.funcId
  refine ⟨?_, hbuilt.instrs.snoc rfl, hbuilt.exprs.snoc rfl, ?_⟩
  · intro g hg
    rcases List.mem_append.mp hg with hg | hg
    · exact hbuilt.tidy g hg
    · rw [List.mem_singleton.mp hg]
      exact .fresh (c.funcId name).1 name
  · intro g hg
    rcases List.mem_append.mp hg with hg | hg
    · exact hbuilt.named g hg
    · rw [List.mem_singleton.mp hg]
      exact (c.find?_declared_funcId name).1

end Context

/-! ### One step -/

namespace Session

variable {s : Session} {t : Step}

/-- The functions of a session: those that are built, then the open one. -/
def functions (s : Session) : List Function :=
  s.program.functions.values ++ (s.opened.map fun o => o.draft.function).toList

theorem functions_of_none (h : s.opened = none) : s.functions = s.program.functions.values := by
  unfold functions
  rw [h]
  exact List.append_nil _

theorem functions_of_some {o : Opened} (h : s.opened = some o) :
    s.functions = s.program.functions.values ++ [o.draft.function] := by
  unfold functions
  rw [h]
  rfl

/-- What may be entered is a block, and so is the open block. -/
def OnBlocks (s : Session) : Prop :=
  ∀ o, s.opened = some o → (∃ steps, o.draft.Charted steps) ∧
    ∀ c, o.cursor = some c → c.block ∈ o.draft.function.blocks.keys

/-- **One step** keeps to the blocks, whatever the counters say. -/
theorem OnBlocks.step (h : s.OnBlocks) (t : Step) : (s.step t).1.OnBlocks := by
  intro o₁ ho₁
  cases s.turn_step t with
  | @worked o o' before after program moves cursor =>
    obtain rfl := Option.some.inj (after.symm.trans ho₁)
    obtain ⟨⟨steps, hcharted⟩, hcursor⟩ := h o before
    have hcharted' : ∃ steps, o'.draft.Charted steps := by
      refine Workbench.Moves.keep (P := fun w => ∃ steps, w.draft.Charted steps) ?_ moves
        ⟨steps, hcharted⟩
      rintro w w' hmove ⟨earlier, hw⟩
      have hmore := hw.mono (List.subset_cons_self t earlier)
      exact ⟨t :: earlier, hmore.move List.mem_cons_self hmove⟩
    refine ⟨hcharted', ?_⟩
    intro c' hc'
    rcases cursor c' hc' with ⟨c, hc, hblock⟩ | hknown
    · rw [← hblock]
      exact Workbench.Moves.keys moves (hcursor c hc)
    · obtain ⟨later, hlater⟩ := hcharted'
      exact hlater.known _ hknown
  | built before after => exact nomatch after.symm.trans ho₁
  | closed after => exact nomatch after.symm.trans ho₁
  | @opened f name step after =>
    obtain rfl := Option.some.inj (after.symm.trans ho₁)
    exact ⟨⟨[], .start f name⟩, fun c hc => nomatch hc⟩
  | cleared after =>
    rw [after] at ho₁
    cases ho₁

/-- A session in good order. -/
structure InOrder (s : Session) : Prop where
  /-- Its functions are, and have their ids from the context. -/
  accounts : s.context.Accounts s.functions
  /-- Names have numbers of their own. -/
  numbered : s.context.Numbered
  /-- It keeps to the blocks. -/
  opened : s.OnBlocks

theorem inOrder_empty : empty.InOrder where
  accounts :=
    { tidy := fun _ hf => nomatch hf
      instrs := ⟨List.nodup_nil, fun _ hf => nomatch hf⟩
      exprs := ⟨List.nodup_nil, fun _ hf => nomatch hf⟩
      named := fun _ hf => nomatch hf }
  numbered :=
    { below := fun _ _ h => nomatch h
      apart := fun _ _ _ h => nomatch h }
  opened _ ho := nomatch ho

/-- The built functions alone keep the accounts. -/
theorem InOrder.accounts_built (h : s.InOrder) :
    s.context.Accounts s.program.functions.values := by
  have haccounts := h.accounts
  cases hopened : s.opened with
  | none => rwa [functions_of_none hopened] at haccounts
  | some o =>
    rw [functions_of_some hopened] at haccounts
    exact ⟨fun f hf => haccounts.tidy f (List.mem_append_left _ hf), haccounts.instrs.init,
      haccounts.exprs.init, fun f hf => haccounts.named f (List.mem_append_left _ hf)⟩

/-- Until it starts over, a session whose counters are in range had them in range
    before. -/
theorem inRange_of_step (hroom : (s.step t).1.context.InRange) :
    s.context.InRange ∨ t = .program .clear := by
  cases s.turn_step t with
  | worked before after program moves cursor => exact .inl (Workbench.Moves.inRange moves hroom)
  | built before after program context => exact .inl (context ▸ hroom)
  | closed after program context =>
    rcases context with heq | ⟨name, heq⟩
    · exact .inl (heq ▸ hroom)
    · rw [heq] at hroom
      exact .inl (Context.inRange_of_funcId hroom)
  | @opened f name step after program context =>
    have heq : (s.step t).1.context = ((s.context.setCurrent name).funcId name).2 := by rw [context]
    rw [heq] at hroom
    have hbefore := Context.inRange_of_funcId hroom
    exact .inl ⟨hbefore.instrs, hbefore.exprs, hbefore.functions⟩
  | cleared after step => exact .inr step

/-- **One step** keeps a session in good order. -/
theorem InOrder.step (h : s.InOrder) (hroom : (s.step t).1.context.InRange) :
    (s.step t).1.InOrder := by
  have hblocks := OnBlocks.step h.opened t
  cases s.turn_step t with
  | @worked o o' before after program moves cursor =>
    have haccounts := h.accounts
    rw [functions_of_some before] at haccounts
    refine ⟨?_, ?_, hblocks⟩
    · rw [functions_of_some after, program]
      exact Workbench.Moves.accounts moves (h.opened o before).2 hroom haccounts
    · exact Workbench.Moves.numbered moves h.numbered
  | @built o before after program context =>
    -- The open function was last, and now it is the last of those that are built.
    have hfunctions : (s.step t).1.functions = s.functions := by
      rw [functions_of_none after, functions_of_some before]
      unfold OrderedMap.values
      rw [Program.entries_of_add? program, List.map_append]
      rfl
    refine ⟨?_, context ▸ h.numbered, hblocks⟩
    rw [hfunctions, context]
    exact h.accounts
  | closed after program context =>
    refine ⟨?_, ?_, hblocks⟩
    · rw [functions_of_none after, program]
      rcases context with heq | ⟨name, heq⟩
      · rw [heq]
        exact h.accounts_built
      · rw [heq]
        exact h.accounts_built.funcId
    · rcases context with heq | ⟨name, heq⟩
      · rw [heq]
        exact h.numbered
      · rw [heq] at hroom ⊢
        exact h.numbered.funcId (Context.inRange_of_funcId hroom)
  | @opened f name step after program context =>
    have hf : f = ((s.context.setCurrent name).funcId name).1 := by rw [context]
    have heq : (s.step t).1.context = ((s.context.setCurrent name).funcId name).2 := by rw [context]
    have hnumbered : (s.context.setCurrent name).Numbered := ⟨h.numbered.below, h.numbered.apart⟩
    have haccounts : (s.context.setCurrent name).Accounts s.program.functions.values :=
      ⟨h.accounts_built.tidy, h.accounts_built.instrs, h.accounts_built.exprs,
        h.accounts_built.named⟩
    refine ⟨?_, ?_, hblocks⟩
    · rw [functions_of_some after, program, heq, hf]
      exact haccounts.begin name
    · rw [heq] at hroom ⊢
      exact hnumbered.funcId (Context.inRange_of_funcId hroom)
  | cleared after =>
    rw [after]
    exact inOrder_empty

/-- The open function clashes with one of its name only. A taken id comes with a
    taken name, and instructions are never taken. -/
theorem InOrder.clashes_iff (h : s.InOrder) (hp : s.program.Indexed) {o : Opened}
    (ho : s.opened = some o) :
    s.program.Clashes o.draft.function ↔
      o.draft.function.name ∈ s.program.functions.values.map Function.name := by
  have haccounts := h.accounts
  rw [functions_of_some ho] at haccounts
  have hlast : o.draft.function ∈ s.program.functions.values ++ [o.draft.function] :=
    List.mem_append_right _ (List.mem_singleton.mpr rfl)
  constructor
  · rintro ⟨k, g, hg, hsame⟩
    have hmem : g ∈ s.program.functions.values := (OrderedMap.mem_values_iff _ g).mpr ⟨k, hg⟩
    rcases hsame with hid | hname | ⟨i, hi, hi'⟩
    · -- Both names have the number, so they are one name.
      have hgid : g.id = o.draft.function.id := (hp.filed k g hg).trans hid
      have hnames := h.numbered.apart _ _ _ (haccounts.named g (List.mem_append_left _ hmem))
        (hgid ▸ haccounts.named _ hlast)
      exact List.mem_map.mpr ⟨g, hmem, hnames⟩
    · exact List.mem_map.mpr ⟨g, hmem, hname⟩
    · have honce := haccounts.instrs.once
      rw [List.flatMap_append, List.flatMap_singleton] at honce
      have hbuilt : i ∈ s.program.functions.values.flatMap fun f => f.instrs.keys :=
        List.mem_flatMap.mpr ⟨g, hmem, hi⟩
      exact absurd rfl ((List.nodup_append.mp honce).2.2 i hbuilt i hi')
  · intro hname
    obtain ⟨g, hmem, hsame⟩ := List.mem_map.mp hname
    obtain ⟨k, hg⟩ := (OrderedMap.mem_values_iff _ g).mp hmem
    exact ⟨k, g, hg, .inr (.inl hsame)⟩

/-- **When building fails**: a function of the same name is built already. -/
theorem InOrder.build_fails_iff (h : s.InOrder) (hp : s.program.Indexed) {o : Opened}
    (ho : s.opened = some o) :
    (∃ e, (s.step (.function .build)).2 = .failed e) ↔
      o.draft.function.name ∈ s.program.functions.values.map Function.name := by
  rw [← h.clashes_iff hp ho]
  simp only [Session.step, ho, functionStep]
  cases hadd : s.program.add? o.draft.function with
  | ok q =>
    obtain ⟨rfl, -⟩ := Program.add?_cases hadd
    have hnone := hp.add?_eq_ok_iff.mp hadd
    constructor
    · rintro ⟨e, he⟩
      cases he
    · intro hc
      exact absurd hc hnone
  | error e =>
    refine ⟨fun _ => Classical.byContradiction fun hnone => ?_, fun _ => ⟨e, rfl⟩⟩
    have hok := hp.add?_eq_ok_iff.mpr hnone
    rw [hadd] at hok
    cases hok

end Session

end SsaFlow
