import SsaFlow.Proofs.SessionOrder

/-! # What every session keeps

    Whatever the steps of a session, in whatever order and with whatever failures
    among them, its functions are in good order and its ids were given out once.

    * `History`: what a session has given out and built since it last started
      over, read off the answers of its steps.
    * `Context.Gives`: the ids that a step tells are those that it takes from the
      counters.
    * `Session.run_keeps_order`: the whole invariant, for every run.
-/

namespace SsaFlow

/-! ### Histories -/

/-- What a session has given out and built since it last started over. -/
structure History where
  /-- The ids of instructions, in the order in which they were given out. -/
  instrs : List InstrId
  /-- The ids of expressions. -/
  exprs : List ExprId
  /-- The names of the functions that were built. -/
  built : List String

/-- The instruction that the open block lists last. -/
def Session.lastListed? (s : Session) : Option InstrId := do
  let o ← s.opened
  let c ← o.cursor
  let b ← o.draft.function.block? c.block
  b.instrs.getLast?

/-- The id of an instruction that a step gave out, told by how the step ended. A
    step that ends a block with a result does not tell the id that it takes, but the
    block lists it last. -/
def Step.givenInstr? (t : Step) (after : Session × Outcome) : Option InstrId :=
  match t, after.2 with
  | .block (.ret _), _ => after.1.lastListed?
  | _, .ok (.instr i) => some i
  | _, _ => none

/-- The id of an expression that a step gave out. -/
def Outcome.givenExpr? : Outcome → Option ExprId
  | .ok (.expr e) => some e
  | _ => none

namespace Session

/-- The name of the function that a step builds. -/
def builtName? (s : Session) (t : Step) : Option String :=
  match t, s.opened, (s.step t).2 with
  | .function .build, some o, .ok _ => some o.draft.function.name
  | _, _, _ => none

/-- The history after one more step. -/
def record (s : Session) (h : History) (t : Step) : History :=
  match t with
  | .program .clear => ⟨[], [], []⟩
  | _ =>
    ⟨h.instrs ++ (t.givenInstr? (s.step t)).toList, h.exprs ++ (s.step t).2.givenExpr?.toList,
      h.built ++ (s.builtName? t).toList⟩

/-- The history after some steps. -/
def historyFrom (s : Session) (h : History) : List Step → History
  | [] => h
  | t :: rest => (s.step t).1.historyFrom (s.record h t) rest

/-- The history of a session from its start. -/
def history (steps : List Step) : History := empty.historyFrom ⟨[], [], []⟩ steps

end Session

/-- The counters go from one context to the other by giving out the ids that are
    named, if any. -/
inductive Context.Gives (c c' : Context) : Option InstrId → Option ExprId → Prop where
  /-- No id. -/
  | nothing (hi : c'.nextInstr = c.nextInstr) (he : c'.nextExpr = c.nextExpr) : Gives c c' none none
  /-- One of an instruction. -/
  | instr (hi : c'.nextInstr = c.nextInstr + 1) (he : c'.nextExpr = c.nextExpr) :
      Gives c c' (some (.ofNat c.nextInstr)) none
  /-- One of an expression. -/
  | expr (hi : c'.nextInstr = c.nextInstr) (he : c'.nextExpr = c.nextExpr + 1) :
      Gives c c' none (some (.ofNat c.nextExpr))

namespace Session

variable {s : Session} {t : Step}

/-- Whether or not the block ends with it, the result is the last that it lists. -/
theorem givenInstr?_ret (s : Session) (w : Workbench) {c : Cursor}
    (hc : c.block ∈ w.draft.function.blocks.keys) (value : InstrId) :
    (Step.block (.ret value)).givenInstr? (s.blockStep w c (.ret value)) =
      some (.ofNat w.context.nextInstr) := by
  obtain ⟨block, hblock⟩ := (w.draft.function.blocks.mem_keys_iff c.block).mp hc
  have hemitted : (w.emit c (.ret (some value)) (w.draft.typeOf value)).2.draft.function.block?
      c.block = some (block.append (.ofNat w.context.nextInstr)) := by
    rw [Workbench.block?_emit, if_pos rfl]
    unfold Function.block?
    rw [hblock]
    rfl
  simp only [Step.givenInstr?, blockStep, settle]
  split
  · next d hend =>
    obtain ⟨-, rfl⟩ := Draft.terminate_cases hend
    show ((OrderedMap.adjust _ c.block _).find? c.block).bind
      (fun b : Block => b.instrs.getLast?) = _
    rw [OrderedMap.find?_adjust, if_pos rfl]
    have hfind := hemitted
    unfold Function.block? at hfind
    rw [hfind]
    exact List.getLast?_concat
  · show (Function.block? _ c.block).bind (fun b : Block => b.instrs.getLast?) = _
    rw [hemitted]
    exact List.getLast?_concat

/-- A step on the open block gives out the ids that it tells, and one more for a
    result. -/
theorem gives_blockStep (s : Session) (w : Workbench) {c : Cursor}
    (hc : c.block ∈ w.draft.function.blocks.keys) (b : BlockStep) :
    w.context.Gives (s.blockStep w c b).1.context
      ((Step.block b).givenInstr? (s.blockStep w c b)) (s.blockStep w c b).2.givenExpr? := by
  cases b with
  | blockId => exact .nothing rfl rfl
  | locate location => exact .nothing rfl rfl
  | hasEnded => exact .nothing rfl rfl
  | parameter index =>
    simp only [blockStep]
    split
    · exact .instr rfl rfl
    · exact .nothing rfl rfl
  | receiver =>
    simp only [blockStep]
    split
    · exact .instr rfl rfl
    · exact .nothing rfl rfl
  | expr kind text => exact .expr rfl rfl
  | bind instr expr =>
    simp only [blockStep, settle]
    split <;> exact .nothing rfl rfl
  | terminate terminator =>
    simp only [blockStep, settle]
    split <;> exact .nothing rfl rfl
  | ret value =>
    rw [givenInstr?_ret s w hc value]
    simp only [blockStep, settle]
    split <;> exact .instr rfl rfl
  | _ => exact .instr rfl rfl

/-- A step on the open function gives out no instruction. -/
theorem gives_functionStep (s : Session) (w : Workbench) (f : FunctionStep) :
    w.context.Gives (s.functionStep w f).1.context
      ((Step.function f).givenInstr? (s.functionStep w f)) (s.functionStep w f).2.givenExpr? := by
  cases f with
  | param name ty =>
    simp only [functionStep, Workbench.addParam, resume]
    split <;> exact .nothing rfl rfl
  | expr kind text location => exact .expr rfl rfl
  | newBlock =>
    simp only [functionStep]
    split <;> exact .nothing rfl rfl
  | enterNew =>
    simp only [functionStep]
    split <;> exact .nothing rfl rfl
  | switchTo b =>
    simp only [functionStep]
    split <;> exact .nothing rfl rfl
  | addIncoming phi pred value =>
    simp only [functionStep, settle]
    split <;> exact .nothing rfl rfl
  | bind instr expr =>
    simp only [functionStep, settle]
    split <;> exact .nothing rfl rfl
  | build =>
    simp only [functionStep]
    split <;> exact .nothing rfl rfl
  | _ => exact .nothing rfl rfl

/-- A step on a block needs an open one. -/
theorem step_block_cases (s : Session) (b : BlockStep) :
    s.step (.block b) = (s.closeAll, .notOpen) ∨
      ∃ draft c, s.opened = some ⟨draft, some c⟩ ∧
        s.step (.block b) = s.blockStep ⟨s.context, draft⟩ c b := by
  cases hopened : s.opened with
  | none => exact .inl (by simp only [Session.step, hopened])
  | some o =>
    obtain ⟨draft, cursor⟩ := o
    cases cursor with
    | none => exact .inl (by simp only [Session.step, hopened])
    | some c => exact .inr ⟨draft, c, rfl, by simp only [Session.step, hopened]⟩

/-- A step on a function needs an open one. -/
theorem step_function_cases (s : Session) (f : FunctionStep) :
    (s.opened = none ∧ s.step (.function f) = (s.closeAll, .notOpen)) ∨
      ∃ o, s.opened = some o ∧ s.step (.function f) = s.functionStep ⟨s.context, o.draft⟩ f := by
  cases hopened : s.opened with
  | none => exact .inl ⟨rfl, by simp only [Session.step, hopened]⟩
  | some o => exact .inr ⟨o, rfl, by simp only [Session.step, hopened]⟩

/-- **What a step gives out**, unless it starts over. -/
theorem InOrder.gives (h : s.InOrder) (ht : t ≠ .program .clear) :
    s.context.Gives (s.step t).1.context (t.givenInstr? (s.step t)) (s.step t).2.givenExpr? := by
  cases t with
  | block b =>
    rcases s.step_block_cases b with hstep | ⟨draft, c, hopened, hstep⟩
    · rw [hstep]
      cases b <;> exact .nothing rfl rfl
    · rw [hstep]
      exact s.gives_blockStep ⟨s.context, draft⟩ ((h.opened _ hopened).2 c rfl) b
  | function f =>
    rcases s.step_function_cases f with ⟨-, hstep⟩ | ⟨o, -, hstep⟩
    · rw [hstep]
      exact .nothing rfl rfl
    · rw [hstep]
      exact s.gives_functionStep ⟨s.context, o.draft⟩ f
  | program p =>
    cases p with
    | clear => exact absurd rfl ht
    | declare name =>
      exact .nothing (s.context.nextInstr_funcId name) (s.context.nextExpr_funcId name)
    | function name =>
      exact .nothing ((s.context.setCurrent name).nextInstr_funcId name)
        ((s.context.setCurrent name).nextExpr_funcId name)
    | validate =>
      simp only [Session.step, programStep]
      split <;> exact .nothing rfl rfl
    | stats => exact .nothing rfl rfl
    | context => exact .nothing rfl rfl
  | unknown => exact .nothing rfl rfl

/-- Building adds the open function under its name, or fails and adds nothing. -/
theorem names_build {o : Opened} (ho : s.opened = some o) :
    (s.step (.function .build)).1.program.functions.values.map Function.name =
      s.program.functions.values.map Function.name ++ (s.builtName? (.function .build)).toList := by
  cases hadd : s.program.add? o.draft.function with
  | error e =>
    have hstep : s.step (.function .build) = ({ s with opened := none }, .failed e) := by
      simp only [Session.step, ho, functionStep, hadd]
    have hname : s.builtName? (.function .build) = none := by simp only [builtName?, ho, hstep]
    rw [hstep, hname]
    exact (List.append_nil _).symm
  | ok q =>
    have hstep : s.step (.function .build) =
        ({ s with opened := none, program := q }, .ok (.function o.draft.function.id)) := by
      simp only [Session.step, ho, functionStep, hadd]
    have hname : s.builtName? (.function .build) = some o.draft.function.name := by
      simp only [builtName?, ho, hstep]
    rw [hname, hstep]
    unfold OrderedMap.values
    rw [Program.entries_of_add? hadd, List.map_append, List.map_append]
    rfl

/-- A step that does not start over adds to the program the function that it builds,
    if any. -/
theorem names_step (s : Session) (ht : t ≠ .program .clear) :
    (s.step t).1.program.functions.values.map Function.name =
      s.program.functions.values.map Function.name ++ (s.builtName? t).toList := by
  have hsame : (s.step t).1.program = s.program → s.builtName? t = none →
      (s.step t).1.program.functions.values.map Function.name =
        s.program.functions.values.map Function.name ++ (s.builtName? t).toList := by
    intro hprogram hname
    rw [hprogram, hname]
    exact (List.append_nil _).symm
  cases t with
  | block b =>
    refine hsame ?_ rfl
    rcases s.step_block_cases b with hstep | ⟨draft, c, -, hstep⟩
    · rw [hstep]
      rfl
    · rw [hstep]
      exact program_blockStep s _ _ b
  | unknown => exact hsame rfl rfl
  | program p =>
    refine hsame ?_ rfl
    cases p with
    | clear => exact absurd rfl ht
    | validate =>
      simp only [Session.step, programStep]
      split <;> rfl
    | _ => rfl
  | function f =>
    rcases s.step_function_cases f with ⟨hopened, hstep⟩ | ⟨o, hopened, hstep⟩
    · apply hsame
      · rw [hstep]
        rfl
      · cases f <;> simp only [builtName?, hopened]
    · by_cases hbuild : f = .build
      · rw [hbuild]
        exact names_build hopened
      · -- Every other step only works on the open function.
        apply hsame
        · obtain ⟨w', cursor', heq, -, -⟩ :=
            s.moves_functionStep ⟨s.context, o.draft⟩ o.cursor hbuild
          rw [hstep, heq]
          rfl
        · cases f with
          | build => exact absurd rfl hbuild
          | _ => rfl

/-! ### Every run -/

/-- The history tells what the counters and the program tell. -/
structure Recorded (s : Session) (h : History) : Prop where
  /-- The ids of instructions are given out in the order of their numbers. -/
  instrs : h.instrs = (List.range s.context.nextInstr).map InstrId.ofNat
  /-- So are the ids of expressions. -/
  exprs : h.exprs = (List.range s.context.nextExpr).map ExprId.ofNat
  /-- What was built is what the program holds. -/
  built : h.built = s.program.functions.values.map Function.name

theorem Recorded.step {h : History} (hr : s.Recorded h) (hs : s.InOrder) :
    (s.step t).1.Recorded (s.record h t) := by
  by_cases ht : t = .program .clear
  · subst ht
    exact ⟨rfl, rfl, rfl⟩
  · have hrecord : s.record h t =
        ⟨h.instrs ++ (t.givenInstr? (s.step t)).toList, h.exprs ++ (s.step t).2.givenExpr?.toList,
          h.built ++ (s.builtName? t).toList⟩ := by
      unfold record
      split
      · exact absurd rfl ht
      · rfl
    have hgives := hs.gives ht
    rw [hrecord]
    generalize t.givenInstr? (s.step t) = instr? at hgives ⊢
    generalize (s.step t).2.givenExpr? = expr? at hgives ⊢
    refine ⟨?_, ?_, ?_⟩
    · show h.instrs ++ _ = _
      rw [hr.instrs]
      cases hgives with
      | nothing hi he => rw [hi, Option.toList_none, List.append_nil]
      | instr hi he => rw [hi, List.range_succ, List.map_append]; rfl
      | expr hi he => rw [hi, Option.toList_none, List.append_nil]
    · show h.exprs ++ _ = _
      rw [hr.exprs]
      cases hgives with
      | nothing hi he => rw [he, Option.toList_none, List.append_nil]
      | instr hi he => rw [he, Option.toList_none, List.append_nil]
      | expr hi he => rw [he, List.range_succ, List.map_append]; rfl
    · show h.built ++ _ = _
      rw [hr.built, s.names_step ht]

/-- The ids below a counter that is in range are different ids. -/
theorem nodup_ids_below {κ : Type} [Coded κ] {id : Nat → κ}
    (hcode : ∀ n, n < UInt32.size → Coded.code (id n) = n) {next : Nat}
    (hnext : next < UInt32.size) : ((List.range next).map id).Nodup := by
  refine List.Nodup.map_on ?_ List.nodup_range
  intro m hm n hn heq
  rw [List.mem_range] at hm hn
  rw [← hcode m (by omega), heq, hcode n (by omega)]

/-- A run keeps good order and an exact history, if the counters fit in the end. -/
theorem inOrder_run (steps : List Step) {h : History}
    (hstart : s.context.InRange → s.InOrder ∧ s.Recorded h)
    (hroom : (s.run steps).1.context.InRange) :
    (s.run steps).1.InOrder ∧ (s.run steps).1.Recorded (s.historyFrom h steps) := by
  -- That the counters fit is known of the end only, and a session that starts over
  -- may have been out of range before. So the start is in good order if it is in range.
  induction steps generalizing s h with
  | nil => exact hstart hroom
  | cons t rest ih =>
    refine ih (s := (s.step t).1) (h := s.record h t) ?_ hroom
    intro hnext
    rcases inRange_of_step hnext with hbefore | rfl
    · obtain ⟨hs, hr⟩ := hstart hbefore
      exact ⟨hs.step hnext, hr.step hs⟩
    · -- Whatever went before, nothing of it is left.
      exact ⟨inOrder_empty, rfl, rfl, rfl⟩

/-- **What every session keeps.** After any steps, in any order and with any
    failures among them, if the counters fit into ids: no id of an instruction or
    of an expression is one of two functions, be they built or open; none was
    given out twice since the session last started over, and every id of a
    function was given out. Every function is in good order. And the open
    function cannot be built exactly if one of its name was built since. -/
theorem run_keeps_order (steps : List Step) {now : Session} (hnow : now = (empty.run steps).1)
    (hroom : now.context.InRange) :
    (now.functions.flatMap fun f => f.instrs.keys).Nodup ∧
    (now.functions.flatMap fun f => f.exprs.keys).Nodup ∧
    (history steps).instrs.Nodup ∧ (history steps).exprs.Nodup ∧
    (∀ f ∈ now.functions, (∀ i ∈ f.instrs.keys, i ∈ (history steps).instrs) ∧
      (∀ e ∈ f.exprs.keys, e ∈ (history steps).exprs) ∧ f.Tidy) ∧
    ∀ o, now.opened = some o →
      ((∃ e, (now.step (.function .build)).2 = .failed e) ↔
        o.draft.function.name ∈ (history steps).built) := by
  subst hnow
  obtain ⟨horder, hrecorded⟩ :=
    inOrder_run (s := empty) (h := ⟨[], [], []⟩) steps
      (fun _ => ⟨inOrder_empty, rfl, rfl, rfl⟩) hroom
  have hindexed := (Program.Obtained.built steps).indexed
  have hinstrs : (history steps).instrs = _ := hrecorded.instrs
  have hexprs : (history steps).exprs = _ := hrecorded.exprs
  refine ⟨horder.accounts.instrs.once, horder.accounts.exprs.once, ?_, ?_, ?_, ?_⟩
  · rw [hinstrs]
    exact nodup_ids_below (fun _ => InstrId.code_ofNat) hroom.instrs
  · rw [hexprs]
    exact nodup_ids_below (fun _ => ExprId.code_ofNat) hroom.exprs
  · intro f hf
    refine ⟨?_, ?_, horder.accounts.tidy f hf⟩
    · -- An id below the counter was given out when the counter stood there.
      intro i hi
      rw [hinstrs]
      have hlt := horder.accounts.instrs.below f hf i hi
      exact List.mem_map.mpr ⟨i.val.toNat, List.mem_range.mpr hlt, by simp [InstrId.ofNat]⟩
    · intro e he
      rw [hexprs]
      have hlt := horder.accounts.exprs.below f hf e he
      exact List.mem_map.mpr ⟨e.val.toNat, List.mem_range.mpr hlt, by simp [ExprId.ofNat]⟩
  · intro o ho
    have hbuilt : (history steps).built = _ := hrecorded.built
    rw [hbuilt]
    exact horder.build_fails_iff hindexed ho

/-- A function that returns its parameter is built, although it tries to return
    twice; another is given up; then one of the first name is begun again. -/
def repeatedSteps : List Step :=
  [.program (.declare "g"), .program (.function "f"), .function (.param "x" .bool),
    .function .enterEntry, .block (.parameter 0), .block (.expr .other "x"), .block (.bind ⟨0⟩ ⟨0⟩),
    .block (.ret ⟨0⟩), .block (.ret ⟨0⟩), .function .build,
    .program (.function "g"), .function .enterEntry, .block (.constant (.bool true) .bool),
    .program (.function "f"), .function .enterEntry, .block (.constant (.bool false) .bool)]

/-- All is in order there: the built function has the ids 0 to 2, the open one has 4,
    since 3 was given to the function that was given up; and it cannot be built. -/
theorem repeated_in_order :
    let now := (empty.run repeatedSteps).1
    now.context.InRange ∧
      (now.functions.flatMap fun f => f.instrs.keys) = [⟨0⟩, ⟨1⟩, ⟨2⟩, ⟨4⟩] ∧
      (history repeatedSteps).instrs = [⟨0⟩, ⟨1⟩, ⟨2⟩, ⟨3⟩, ⟨4⟩] ∧
      (history repeatedSteps).instrs.Nodup ∧ (∀ f ∈ now.functions, f.Tidy) ∧
      ∃ e, (now.step (.function .build)).2 = .failed e := by
  intro now
  have hroom : now.context.InRange := ⟨by decide, by decide, by decide⟩
  obtain ⟨-, -, honce, -, hfunctions, hbuild⟩ := run_keeps_order repeatedSteps rfl hroom
  refine ⟨hroom, rfl, rfl, honce, fun f hf => (hfunctions f hf).2.2, ?_⟩
  exact (hbuild _ rfl).mpr (by decide)

end Session

end SsaFlow
