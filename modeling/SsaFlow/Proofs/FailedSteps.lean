import SsaFlow.Proofs.SessionHistory

/-! # Steps that fail

    A step on the open function or block looks before it changes anything, so that a step
    which fails leaves everything as it was. There is one exception: a result is emitted
    before it is known whether the block can end.

    * `Step.canFail`: the steps that fail at all.
    * `Session.blockStep_failed`, `Session.functionStep_failed`, `Session.ret_failed`: what
      one failed step does on its level.
    * `Session.CountsPast`: the next id of an instruction is not one of the open function.
      A failed result needs it to add an instruction, and not to replace one.
    * `Session.failed_steps_change_nothing`: what failed steps do after any steps.
-/

namespace SsaFlow

/-- The steps that can fail. -/
def Step.canFail : Step → Bool
  | .block (.parameter _) => true
  | .block .receiver => true
  | .block (.bind _ _) => true
  | .block (.terminate _) => true
  | .block (.ret _) => true
  | .function (.addIncoming _ _ _) => true
  | .function (.bind _ _) => true
  | .function (.switchTo _) => true
  | .function .build => true
  | .program .validate => true
  | _ => false

/-! ### Ends of blocks -/

/-- A block that is there cannot end only if it has ended. -/
theorem Draft.terminate_failed {d : Draft} {b : BlockId} {t : Terminator} {e : Error}
    (hb : b ∈ d.function.blocks.keys) (h : d.terminate b t = .error e) :
    e = .alreadyTerminated b ∧
      ∃ block, d.function.block? b = some block ∧ block.isTerminated = true := by
  obtain ⟨block, hblock⟩ := (d.function.blocks.mem_keys_iff b).mp hb
  unfold terminate at h
  split at h
  · next hended =>
    unfold hasEnded Function.block? at hended
    rw [hblock] at hended
    exact ⟨(Except.error.inj h).symm, block, hblock, hended⟩
  · split at h
    · next hlost =>
      have hthere : d.function.blocks.contains b = true := (d.function.blocks.contains_iff b).mpr hb
      rw [hthere] at hlost
      cases hlost
    · cases h

/-! ### One failed step -/

namespace Session

variable {s : Session} {w : Workbench} {c : Cursor} {e : Error}

/-- Going on with what is open changes nothing. -/
theorem resume_opened {d : Draft} {cursor : Option Cursor} (h : s.opened = some ⟨d, cursor⟩) :
    s.resume ⟨s.context, d⟩ cursor = s := by
  cases s
  cases h
  rfl

theorem settle_failed {cursor : Option Cursor} {result : Except Error Draft}
    (h : (s.settle w cursor result).2 = .failed e) :
    (s.settle w cursor result).1 = s.resume w cursor ∧ result = .error e := by
  cases result with
  | ok draft => cases h
  | error cause =>
    cases h
    exact ⟨rfl, rfl⟩

/-- **A failed step on the open block** changes nothing, unless it is a result. -/
theorem blockStep_failed {b : BlockStep} (hret : ∀ value, b ≠ .ret value)
    (h : (s.blockStep w c b).2 = .failed e) :
    (Step.block b).canFail = true ∧ (s.blockStep w c b).1 = s.resume w c := by
  cases b with
  | ret value => exact absurd rfl (hret value)
  | bind instr expr => exact ⟨rfl, (settle_failed h).1⟩
  | terminate terminator => exact ⟨rfl, (settle_failed h).1⟩
  | parameter index =>
    refine ⟨rfl, ?_⟩
    simp only [blockStep] at h ⊢
    cases hparam : w.draft.function.param? index.toNat with
    | none => rfl
    | some param =>
      rw [hparam] at h
      cases h
  | receiver =>
    refine ⟨rfl, ?_⟩
    simp only [blockStep] at h ⊢
    cases hthis : w.draft.function.signature.thisType with
    | none => rfl
    | some ty =>
      rw [hthis] at h
      cases h
  | _ => cases h

/-- **A failed result** has been emitted, at the end of a block that has ended. -/
theorem ret_failed {value : InstrId} (hc : c.block ∈ w.draft.function.blocks.keys)
    (h : (s.blockStep w c (.ret value)).2 = .failed e) :
    e = .alreadyTerminated c.block ∧
      (∃ block, w.draft.function.block? c.block = some block ∧ block.isTerminated = true) ∧
      (s.blockStep w c (.ret value)).1 =
        s.resume (w.emit c (.ret (some value)) (w.draft.typeOf value)).2 c := by
  obtain ⟨hstate, hend⟩ := settle_failed h
  have hthere : c.block ∈
      (w.emit c (.ret (some value)) (w.draft.typeOf value)).2.draft.function.blocks.keys := by
    show c.block ∈ (w.draft.function.blocks.adjust c.block _).keys
    rw [OrderedMap.keys_adjust]
    exact hc
  obtain ⟨hcause, after, hafter, hended⟩ := Draft.terminate_failed hthere hend
  -- The block had ended before, since an instruction does not end it.
  rw [w.block?_emit, if_pos rfl] at hafter
  obtain ⟨block, hblock, rfl⟩ := Option.map_eq_some_iff.mp hafter
  exact ⟨hcause, ⟨block, hblock, hended⟩, hstate⟩

/-- **A failed step on the open function** changes nothing, unless it builds it. -/
theorem functionStep_failed {f : FunctionStep} (hbuild : f ≠ .build)
    (h : (s.functionStep w f).2 = .failed e) :
    (Step.function f).canFail = true ∧ (s.functionStep w f).1 = s.resume w none := by
  cases f with
  | build => exact absurd rfl hbuild
  | addIncoming phi pred value => exact ⟨rfl, (settle_failed h).1⟩
  | bind instr expr => exact ⟨rfl, (settle_failed h).1⟩
  | switchTo b =>
    refine ⟨rfl, ?_⟩
    simp only [functionStep] at h ⊢
    by_cases hknown : w.draft.known.contains b = true
    · rw [if_pos hknown] at h
      cases h
    · rw [if_neg hknown]
  | newBlock =>
    simp only [functionStep] at h
    split at h <;> cases h
  | enterNew =>
    simp only [functionStep] at h
    split at h <;> cases h
  | _ => cases h

/-- **A function that cannot be built** is given up, and nothing else changes. -/
theorem build_failed (h : (s.functionStep w .build).2 = .failed e) :
    (s.functionStep w .build).1 = { s with context := w.context, opened := none } := by
  simp only [functionStep] at h ⊢
  cases hadd : s.program.add? w.draft.function with
  | ok p =>
    rw [hadd] at h
    cases h
  | error cause => rfl

/-! ### The next id -/

/-- The counter of instructions is past every id of the open function. -/
def CountsPast (s : Session) : Prop :=
  ∀ o, s.opened = some o → ∀ i ∈ o.draft.function.instrs.keys, Coded.code i < s.context.nextInstr

/-- A new id is at most the number at which the counter stood. -/
theorem code_ofNat_le (n : Nat) : Coded.code (InstrId.ofNat n) ≤ n := by
  show (UInt32.ofNat n).toNat ≤ n
  rw [UInt32.toNat_ofNat']
  exact Nat.mod_le n _

/-- **One step** keeps the counter ahead. -/
theorem CountsPast.step (h : s.CountsPast) (t : Step) : (s.step t).1.CountsPast := by
  intro o₁ ho₁
  cases s.turn_step t with
  | @worked o o' before after program moves cursor =>
    obtain rfl := Option.some.inj (after.symm.trans ho₁)
    apply Workbench.Moves.keep (P := fun w =>
      ∀ i ∈ w.draft.function.instrs.keys, Coded.code i < w.context.nextInstr) _ moves (h o before)
    intro w w' hmove hw i hi
    rcases hmove.footprint.instrs with ⟨hnext, hkeys⟩ | ⟨hnext, inst, hinsert⟩
    · rw [hkeys] at hi
      rw [hnext]
      exact hw i hi
    · rw [hinsert, OrderedMap.mem_keys_insert] at hi
      rw [hnext]
      rcases hi with rfl | hi
      · have hle := code_ofNat_le w.context.nextInstr
        omega
      · have hlt := hw i hi
        omega
  | built before after => exact nomatch after.symm.trans ho₁
  | closed after => exact nomatch after.symm.trans ho₁
  | opened step after =>
    obtain rfl := Option.some.inj (after.symm.trans ho₁)
    intro i hi
    cases hi
  | cleared after =>
    rw [after] at ho₁
    cases ho₁

/-- As long as the counter fits into ids, the next id is new. -/
theorem CountsPast.next_new (h : s.CountsPast) {o : Opened} (ho : s.opened = some o)
    (hroom : s.context.nextInstr < UInt32.size) :
    InstrId.ofNat s.context.nextInstr ∉ o.draft.function.instrs.keys := by
  intro hmem
  have hlt := h o ho _ hmem
  rw [InstrId.code_ofNat hroom] at hlt
  omega

/-! ### After any steps -/

/-- The session with no open block. -/
def closeBlock (s : Session) : Session :=
  { s with opened := s.opened.map fun o => { o with cursor := none } }

/-- A step on a block that fails had an open block to work on. -/
theorem blockStep_of_failed {b : BlockStep} (h : (s.step (.block b)).2 = .failed e) :
    ∃ d c, s.opened = some ⟨d, some c⟩ ∧
      s.step (.block b) = s.blockStep ⟨s.context, d⟩ c b := by
  rcases s.step_block_cases b with hstep | hopen
  · rw [hstep] at h
    cases h
  · exact hopen

/-- A step on a function that fails had an open function to work on. -/
theorem functionStep_of_failed {f : FunctionStep} (h : (s.step (.function f)).2 = .failed e) :
    ∃ o, s.opened = some o ∧ s.step (.function f) = s.functionStep ⟨s.context, o.draft⟩ f := by
  rcases s.step_function_cases f with ⟨-, hstep⟩ | hopen
  · rw [hstep] at h
    cases h
  · exact hopen

/-- Only the steps of `Step.canFail` fail. -/
theorem canFail_of_failed {t : Step} (h : (s.step t).2 = .failed e) : t.canFail = true := by
  cases t with
  | block b =>
    obtain ⟨d, c, -, hstep⟩ := blockStep_of_failed h
    rw [hstep] at h
    by_cases hret : ∃ value, b = .ret value
    · obtain ⟨value, rfl⟩ := hret
      rfl
    · exact (blockStep_failed (fun value heq => hret ⟨value, heq⟩) h).1
  | function f =>
    obtain ⟨o, -, hstep⟩ := functionStep_of_failed h
    rw [hstep] at h
    by_cases hbuild : f = .build
    · rw [hbuild]
      rfl
    · exact (functionStep_failed hbuild h).1
  | program p =>
    cases p with
    | validate => rfl
    | _ => cases h
  | unknown => cases h

/-- **Failed steps change nothing.** After any steps, a step on the open block that fails
    leaves the session as it was. One on the open function leaves it as it was but for
    the open block, which every step on the function closes; the function still knows the
    block that was entered last. A function that cannot be built is given up, and all
    else stays. The one exception is a result for a block that has ended: the block keeps
    its terminator and lists one more instruction at its end, the result, which is stored
    under the next id, a new one as long as the counter fits into ids; and nothing else
    changes. -/
theorem failed_steps_change_nothing (steps : List Step) :
    let s := (empty.run steps).1
    (∀ t e, (s.step t).2 = .failed e → t.canFail = true) ∧
    (∀ b e, (∀ value, b ≠ .ret value) → (s.step (.block b)).2 = .failed e →
      (s.step (.block b)).1 = s) ∧
    (∀ f e, f ≠ .build → (s.step (.function f)).2 = .failed e →
      (s.step (.function f)).1 = s.closeBlock) ∧
    (∀ e, (s.step (.function .build)).2 = .failed e →
      (s.step (.function .build)).1 = s.closeAll) ∧
    ∀ value e, (s.step (.block (.ret value))).2 = .failed e →
      ∃ d c block, s.opened = some ⟨d, some c⟩ ∧ e = .alreadyTerminated c.block ∧
        d.function.block? c.block = some block ∧ block.isTerminated = true ∧
        let id := InstrId.ofNat s.context.nextInstr
        let result : Instr := ⟨id, d.function.id, c.block, .ret (some value), d.typeOf value, none,
          c.location.getD .unknown⟩
        (s.step (.block (.ret value))).1 =
          { s with
            context := { s.context with nextInstr := s.context.nextInstr + 1 }
            opened := some ⟨{ d with
              function := { d.function with
                instrs := d.function.instrs.insert id result
                blocks := d.function.blocks.adjust c.block fun b =>
                  { b with instrs := b.instrs ++ [id] } } }, some c⟩ } ∧
        (s.context.nextInstr < UInt32.size → id ∉ d.function.instrs.keys) := by
  intro s
  have hblocks : s.OnBlocks :=
    empty.run_invariant (P := OnBlocks) (fun _ t hs => hs.step t) steps fun o ho => by cases ho
  have hcounts : s.CountsPast :=
    empty.run_invariant (P := CountsPast) (fun _ t hs => hs.step t) steps fun o ho => by cases ho
  refine ⟨fun t e h => canFail_of_failed h, ?_, ?_, ?_, ?_⟩
  · intro b e hret h
    obtain ⟨d, c, hopened, hstep⟩ := blockStep_of_failed h
    rw [hstep] at h ⊢
    rw [(blockStep_failed hret h).2]
    exact resume_opened hopened
  · intro f e hbuild h
    obtain ⟨o, hopened, hstep⟩ := functionStep_of_failed h
    rw [hstep] at h ⊢
    rw [(functionStep_failed hbuild h).2]
    unfold closeBlock
    rw [hopened]
    rfl
  · intro e h
    obtain ⟨o, -, hstep⟩ := functionStep_of_failed h
    rw [hstep] at h ⊢
    exact build_failed h
  · intro value e h
    obtain ⟨d, c, hopened, hstep⟩ := blockStep_of_failed h
    rw [hstep] at h ⊢
    have hc : c.block ∈ d.function.blocks.keys := (hblocks _ hopened).2 c rfl
    obtain ⟨hcause, ⟨block, hblock, hended⟩, hstate⟩ := ret_failed hc h
    exact ⟨d, c, block, hopened, hcause, hblock, hended, hstate, hcounts.next_new hopened⟩

/-- A function is built, and one of its name is open, at a block that has ended. -/
def endedSteps : List Step :=
  [.program (.function "f"), .function .enterEntry, .block (.constant (.bool true) .bool),
    .block (.ret ⟨0⟩), .function .build,
    .program (.function "f"), .function .enterEntry, .block (.constant (.bool false) .bool),
    .block (.terminate .ret)]

/-- There is no parameter to read and no block 9 to enter, the block cannot end again and
    the function cannot be built: each of these fails and changes nothing. A result fails,
    and is listed all the same, under the id 3. -/
theorem ended_unchanged :
    let s := (empty.run endedSteps).1
    (∃ e, (s.step (.block (.parameter 0))).2 = .failed e) ∧
      (s.step (.block (.parameter 0))).1 = s ∧
      (∃ e, (s.step (.block (.terminate (.jump ⟨0⟩)))).2 = .failed e) ∧
      (s.step (.block (.terminate (.jump ⟨0⟩)))).1 = s ∧
      (∃ e, (s.step (.function (.switchTo ⟨9⟩))).2 = .failed e) ∧
      (s.step (.function (.switchTo ⟨9⟩))).1 = s.closeBlock ∧
      (∃ e, (s.step (.function .build)).2 = .failed e) ∧
      (s.step (.function .build)).1 = s.closeAll ∧
      (s.step (.block (.ret ⟨2⟩))).2 = .failed (.alreadyTerminated ⟨0⟩) ∧
      (s.functions.flatMap fun f => f.instrs.keys) = [⟨0⟩, ⟨1⟩, ⟨2⟩] ∧
      ((s.step (.block (.ret ⟨2⟩))).1.functions.flatMap fun f => f.instrs.keys) =
        [⟨0⟩, ⟨1⟩, ⟨2⟩, ⟨3⟩] := by
  intro s
  obtain ⟨-, hblock, hfunction, hbuild, -⟩ := failed_steps_change_nothing endedSteps
  exact ⟨⟨_, rfl⟩, hblock _ _ (fun _ h => by cases h) rfl,
    ⟨_, rfl⟩, hblock _ _ (fun _ h => by cases h) rfl,
    ⟨_, rfl⟩, hfunction _ _ (fun h => by cases h) rfl,
    ⟨_, rfl⟩, hbuild _ rfl, rfl, rfl, rfl⟩

end Session

end SsaFlow
