import SsaFlow.Proofs.SavedValues

/-! # Saved functions are read back

    For everything that a function is made of, its reader undoes its writer:
    operations, instructions, expressions, blocks and signatures, up to the
    functions of a whole program (`Program.functions_form`).
-/

namespace SsaFlow

open Json (Inverts Form StandsFor)

/-! ### Operations -/

theorem BinaryOp.inverts : Inverts BinaryOp.read fun op => .ofString op.name :=
  Json.inverts_names fun op => by cases op <;> rfl

theorem CompareOp.inverts : Inverts CompareOp.read fun op => .ofString op.name :=
  Json.inverts_names fun op => by cases op <;> rfl

theorem CallTarget.inverts : Inverts CallTarget.read CallTarget.toJson where
  stands target := by
    cases target with
    | static callee => exact .carrying rfl ((FuncId.inverts.form static).stands callee)
    | indirect callee => exact .carrying rfl ((InstrId.inverts.form indirect).stands callee)
  fits {room j target} hread := by
    rcases Json.readVariant_cases hread with ⟨name, hname⟩ | ⟨name, inner, payload, rfl, htagged⟩
    · cases hname
    · split at htagged
      · obtain ⟨callee, rfl, hcallee⟩ := (FuncId.inverts.form static).fits htagged
        exact Json.depth_tagged "Static" hcallee
      split at htagged
      · obtain ⟨callee, rfl, hcallee⟩ := (InstrId.inverts.form indirect).fits htagged
        exact Json.depth_tagged "Indirect" hcallee
      · cases htagged

namespace Operation

theorem readCall_form :
    Form readCall (fun e : CallTarget × List InstrId × Option InstrId => call e.1 e.2.1 e.2.2)
      fun e => .ofMembers [("target", e.1.toJson), ("arguments", .ofList InstrId.toJson e.2.1),
        ("this_argument", .ofOption InstrId.toJson e.2.2)] where
  stands e := by
    have htarget := CallTarget.inverts
    have harguments := InstrId.inverts.list
    have hobject := InstrId.inverts_option
    refine StandsFor.record rfl (by decide) ?_ ?_
    · simp [htarget.prints, harguments.prints, hobject.prints]
    · intro room hroom
      simp only [List.forall_mem_cons] at hroom
      obtain ⟨h₁, h₂, h₃, -⟩ := hroom
      simp [Json.required, Json.optional, htarget.reads h₁, harguments.reads h₂, hobject.reads h₃]
  fits {room j op} hread := by
    obtain ⟨inner, fields, rfl, hbuild⟩ := Json.readRecord_cases hread
    split at hbuild
    · simp only [Option.bind_eq_bind, Option.pure_def, Option.bind_eq_some_iff,
        Option.some.injEq] at hbuild
      obtain ⟨target, h₁, arguments, h₂, object, h₃, rfl⟩ := hbuild
      refine ⟨(target, arguments, object), rfl,
        (Json.depth_ofMembers_le_iff _ _).mpr ⟨inner, rfl, ?_⟩⟩
      simp [CallTarget.inverts.required h₁, InstrId.inverts.list.required h₂,
        InstrId.inverts_option.optional h₃]
    · cases hbuild

theorem stands (op : Operation) : StandsFor read op.toJson op := by
  have hinstr := InstrId.inverts
  -- Every operation but one carries a payload under its opcode.
  cases op with
  | constant value => exact .carrying rfl ((Constant.inverts.form constant).stands value)
  | variableAddress name =>
    exact .carrying rfl ((readOne_form Json.inverts_string "name" variableAddress).stands name)
  | parameter index =>
    exact .carrying rfl ((readOne_form Json.inverts_uint64 "index" parameter).stands index)
  | receiver => exact .plain rfl
  | copy source => exact .carrying rfl ((readOne_form hinstr "source" copy).stands source)
  | load address source =>
    exact .carrying rfl ((readTwo_form hinstr hinstr (by decide) load).stands (address, source))
  | store address value =>
    exact .carrying rfl ((readTwo_form hinstr hinstr (by decide) store).stands (address, value))
  | phi incoming =>
    exact .carrying rfl
      ((readOne_form (BlockId.inverts.pair hinstr).list "incoming" phi).stands incoming)
  | convert how operand =>
    have hform := (readOne_form hinstr "operand" (convert how)).stands operand
    cases how <;> exact .carrying rfl hform
  | chi total part =>
    exact .carrying rfl ((readTwo_form hinstr hinstr (by decide) chi).stands (total, part))
  | binary op left right =>
    exact .carrying rfl ((readOperator_form BinaryOp.inverts binary).stands (op, left, right))
  | compare op left right =>
    exact .carrying rfl ((readOperator_form CompareOp.inverts compare).stands (op, left, right))
  | call target arguments object =>
    exact .carrying rfl (readCall_form.stands (target, arguments, object))
  | sideEffect source index =>
    exact .carrying rfl
      ((readTwo_form hinstr Json.inverts_int32 (by decide) sideEffect).stands (source, index))
  | ret value =>
    exact .carrying rfl ((readMaybe_form InstrId.inverts_option "value" ret).stands value)

theorem fits_tagged {name : String} {room : Nat} {payload : Json} {op : Operation}
    (h : readTagged name room payload = some op) : op.toJson.depth ≤ room + 1 := by
  have hinstr := InstrId.inverts
  -- Whichever name it was, the payload had the form that belongs to the name.
  unfold readTagged at h
  rcases Json.read_ite_cases h with h | h
  · obtain ⟨value, rfl, hdepth⟩ := (Constant.inverts.form constant).fits h
    exact Json.depth_tagged "Constant" hdepth
  rcases Json.read_ite_cases h with h | h
  · obtain ⟨name, rfl, hdepth⟩ := (readOne_form Json.inverts_string _ variableAddress).fits h
    exact Json.depth_tagged "VariableAddress" hdepth
  rcases Json.read_ite_cases h with h | h
  · obtain ⟨index, rfl, hdepth⟩ := (readOne_form Json.inverts_uint64 _ parameter).fits h
    exact Json.depth_tagged "InitializeParameter" hdepth
  rcases Json.read_ite_cases h with h | h
  · obtain ⟨source, rfl, hdepth⟩ := (readOne_form hinstr _ copy).fits h
    exact Json.depth_tagged "Copy" hdepth
  rcases Json.read_ite_cases h with h | h
  · obtain ⟨e, rfl, hdepth⟩ := (readTwo_form hinstr hinstr (by decide) load).fits h
    exact Json.depth_tagged "Load" hdepth
  rcases Json.read_ite_cases h with h | h
  · obtain ⟨e, rfl, hdepth⟩ := (readTwo_form hinstr hinstr (by decide) store).fits h
    exact Json.depth_tagged "Store" hdepth
  rcases Json.read_ite_cases h with h | h
  · obtain ⟨incoming, rfl, hdepth⟩ :=
      (readOne_form (BlockId.inverts.pair hinstr).list _ phi).fits h
    exact Json.depth_tagged "Phi" hdepth
  rcases Json.read_ite_cases h with h | h
  · obtain ⟨e, rfl, hdepth⟩ := (readTwo_form hinstr hinstr (by decide) chi).fits h
    exact Json.depth_tagged "Chi" hdepth
  rcases Json.read_ite_cases h with h | h
  · obtain ⟨e, rfl, hdepth⟩ := (readOperator_form BinaryOp.inverts binary).fits h
    exact Json.depth_tagged "Binary" hdepth
  rcases Json.read_ite_cases h with h | h
  · obtain ⟨e, rfl, hdepth⟩ := (readOperator_form CompareOp.inverts compare).fits h
    exact Json.depth_tagged "Compare" hdepth
  rcases Json.read_ite_cases h with h | h
  · obtain ⟨e, rfl, hdepth⟩ := readCall_form.fits h
    exact Json.depth_tagged "Call" hdepth
  rcases Json.read_ite_cases h with h | h
  · obtain ⟨e, rfl, hdepth⟩ :=
      (readTwo_form hinstr Json.inverts_int32 (by decide) sideEffect).fits h
    exact Json.depth_tagged "WriteSideEffect" hdepth
  rcases Json.read_ite_cases h with h | h
  · obtain ⟨value, rfl, hdepth⟩ := (readMaybe_form InstrId.inverts_option _ ret).fits h
    exact Json.depth_tagged "Return" hdepth
  -- The conversions share one form; the name says which it is.
  cases hhow : Conversion.ofName? name with
  | some how =>
    rw [hhow] at h
    obtain ⟨operand, rfl, hdepth⟩ := (readOne_form hinstr _ (convert how)).fits h
    exact Json.depth_tagged how.name hdepth
  | none =>
    rw [hhow] at h
    cases h

theorem inverts : Inverts read toJson where
  stands := stands
  fits {room j op} hread := by
    rcases Json.readVariant_cases hread with ⟨name, hname⟩ | ⟨name, inner, payload, rfl, htagged⟩
    · split at hname
      · obtain rfl := Option.some.inj hname
        exact Nat.zero_le _
      · cases hname
    · exact fits_tagged htagged

end Operation

/-! ### Instructions and expressions -/

theorem Instr.inverts : Inverts Instr.read Instr.toJson := by
  have hid := InstrId.inverts
  have hfunction := FuncId.inverts
  have hblock := BlockId.inverts
  have hop := Operation.inverts
  have hty := Ty.inverts
  have hexpr := ExprId.inverts_option
  have hlocation := Location.inverts
  refine Inverts.record (fun i => rfl) (by decide) ?_ ?_ ?_
  · intro i
    simp [hid.prints, hfunction.prints, hblock.prints, hop.prints, hty.prints, hexpr.prints,
      hlocation.prints]
  · intro room i h
    simp only [List.forall_mem_cons] at h
    obtain ⟨h₁, h₂, h₃, h₄, h₅, h₆, h₇, -⟩ := h
    simp [Json.required, Json.optional, hid.reads h₁, hfunction.reads h₂, hblock.reads h₃,
      hop.reads h₄, hty.reads h₅, hexpr.reads h₆, hlocation.reads h₇]
  · intro room fields i h
    split at h
    · simp only [Option.bind_eq_bind, Option.pure_def, Option.bind_eq_some_iff,
        Option.some.injEq] at h
      obtain ⟨id, h₁, function, h₂, block, h₃, op, h₄, ty, h₅, expr, h₆, location, h₇, rfl⟩ := h
      simp [hid.required h₁, hfunction.required h₂, hblock.required h₃, hop.required h₄,
        hty.required h₅, hexpr.optional h₆, hlocation.required h₇]
    · cases h

theorem ExprKind.inverts : Inverts ExprKind.read ExprKind.toJson where
  stands kind := by
    cases kind with
    | conversion operand =>
      exact .carrying rfl
        ((readMaybe_form ExprId.inverts_option "operand" conversion).stands operand)
    | other => exact .plain rfl
  fits {room j kind} hread := by
    rcases Json.readVariant_cases hread with ⟨name, hname⟩ | ⟨name, inner, payload, rfl, htagged⟩
    · split at hname
      · obtain rfl := Option.some.inj hname
        exact Nat.zero_le _
      · cases hname
    · split at htagged
      · obtain ⟨operand, rfl, hdepth⟩ :=
          (readMaybe_form ExprId.inverts_option _ conversion).fits htagged
        exact Json.depth_tagged "Conversion" hdepth
      · cases htagged

theorem Expr.inverts : Inverts Expr.read Expr.toJson := by
  have hid := ExprId.inverts
  have hkind := ExprKind.inverts
  have htext := Json.inverts_string
  have hlocation := Location.inverts
  refine Inverts.record (fun e => rfl) (by decide) ?_ ?_ ?_
  · intro e
    simp [hid.prints, hkind.prints, htext.prints, hlocation.prints]
  · intro room e h
    simp only [List.forall_mem_cons] at h
    obtain ⟨h₁, h₂, h₃, h₄, -⟩ := h
    simp [Json.required, hid.reads h₁, hkind.reads h₂, htext.reads h₃, hlocation.reads h₄]
  · intro room fields e h
    split at h
    · simp only [Option.bind_eq_bind, Option.pure_def, Option.bind_eq_some_iff,
        Option.some.injEq] at h
      obtain ⟨id, h₁, kind, h₂, text, h₃, location, h₄, rfl⟩ := h
      simp [hid.required h₁, hkind.required h₂, htext.required h₃, hlocation.required h₄]
    · cases h

/-! ### Blocks -/

namespace Terminator

theorem readBranch_form :
    Form readBranch (fun e : InstrId × BlockId × BlockId => branch e.1 e.2.1 e.2.2) fun e =>
      .ofMembers [("condition", e.1.toJson), ("then_block", e.2.1.toJson),
        ("else_block", e.2.2.toJson)] where
  stands e := by
    have hinstr := InstrId.inverts
    have hblock := BlockId.inverts
    refine StandsFor.record rfl (by decide) ?_ ?_
    · simp [hinstr.prints, hblock.prints]
    · intro room hroom
      simp only [List.forall_mem_cons] at hroom
      obtain ⟨h₁, h₂, h₃, -⟩ := hroom
      simp [Json.required, hinstr.reads h₁, hblock.reads h₂, hblock.reads h₃]
  fits {room j t} hread := by
    obtain ⟨inner, fields, rfl, hbuild⟩ := Json.readRecord_cases hread
    split at hbuild
    · simp only [Option.bind_eq_bind, Option.pure_def, Option.bind_eq_some_iff,
        Option.some.injEq] at hbuild
      obtain ⟨condition, h₁, thenBlock, h₂, elseBlock, h₃, rfl⟩ := hbuild
      refine ⟨(condition, thenBlock, elseBlock), rfl,
        (Json.depth_ofMembers_le_iff _ _).mpr ⟨inner, rfl, ?_⟩⟩
      simp [InstrId.inverts.required h₁, BlockId.inverts.required h₂, BlockId.inverts.required h₃]
    · cases hbuild

theorem depth_of_ofName? {name : String} {t : Terminator} (h : ofName? name = some t) :
    t.toJson.depth = 0 := by
  unfold ofName? at h
  split at h
  · cases h; rfl
  split at h
  · cases h; rfl
  split at h
  · cases h; rfl
  · cases h

theorem inverts : Inverts read toJson where
  stands t := by
    cases t with
    | jump target => exact .carrying rfl ((BlockId.inverts.form jump).stands target)
    | branch condition thenBlock elseBlock =>
      exact .carrying rfl (readBranch_form.stands (condition, thenBlock, elseBlock))
    | ret => exact .plain rfl
    | unreachable => exact .plain rfl
    | unset => exact .plain rfl
  fits {room j t} hread := by
    rcases Json.readVariant_cases hread with ⟨name, hname⟩ | ⟨name, inner, payload, rfl, htagged⟩
    · rw [depth_of_ofName? hname]
      exact Nat.zero_le _
    · split at htagged
      · obtain ⟨target, rfl, hdepth⟩ := (BlockId.inverts.form jump).fits htagged
        exact Json.depth_tagged "Jump" hdepth
      split at htagged
      · obtain ⟨e, rfl, hdepth⟩ := readBranch_form.fits htagged
        exact Json.depth_tagged "Branch" hdepth
      · cases htagged

end Terminator

theorem Block.inverts : Inverts Block.read Block.toJson := by
  have hid := BlockId.inverts
  have hinstrs := InstrId.inverts.list
  have hterminator := Terminator.inverts
  refine Inverts.record (fun b => rfl) (by decide) ?_ ?_ ?_
  · intro b
    simp [hid.prints, hinstrs.prints, hterminator.prints]
  · intro room b h
    simp only [List.forall_mem_cons] at h
    obtain ⟨h₁, h₂, h₃, -⟩ := h
    simp [Json.required, hid.reads h₁, hinstrs.reads h₂, hterminator.reads h₃]
  · intro room fields b h
    split at h
    · simp only [Option.bind_eq_bind, Option.pure_def, Option.bind_eq_some_iff,
        Option.some.injEq] at h
      obtain ⟨id, h₁, instrs, h₂, terminator, h₃, rfl⟩ := h
      simp [hid.required h₁, hinstrs.required h₂, hterminator.required h₃]
    · cases h

/-! ### Functions -/

theorem Param.inverts : Inverts Param.read Param.toJson := by
  have hform := readTwo_form Json.inverts_string Ty.inverts
    (show "name" ≠ "param_type" by decide) Param.mk
  exact hform.inverts (fun p => (p.name, p.ty)) (fun p => rfl) fun e => rfl

theorem Signature.inverts : Inverts Signature.read Signature.toJson := by
  have hname := Json.inverts_string
  have hparams := Param.inverts.list
  have hty := Ty.inverts
  have hthis := Ty.inverts_option
  refine Inverts.record (fun s => rfl) (by decide) ?_ ?_ ?_
  · intro s
    simp [hname.prints, hparams.prints, hty.prints, hthis.prints]
  · intro room s h
    simp only [List.forall_mem_cons] at h
    obtain ⟨h₁, h₂, h₃, h₄, -⟩ := h
    simp [Json.required, Json.optional, hname.reads h₁, hparams.reads h₂, hty.reads h₃,
      hthis.reads h₄]
  · intro room fields s h
    split at h
    · simp only [Option.bind_eq_bind, Option.pure_def, Option.bind_eq_some_iff,
        Option.some.injEq] at h
      obtain ⟨name, h₁, params, h₂, returns, h₃, thisType, h₄, rfl⟩ := h
      simp [hname.required h₁, hparams.required h₂, hty.required h₃, hthis.optional h₄]
    · cases h

namespace Function

theorem inverts_blocks : Inverts (Json.readMap BlockId.mk Block.read)
    (Json.ofMap BlockId.val Block.toJson) :=
  Block.inverts.map BlockId.mk BlockId.val fun _ => rfl

theorem inverts_instrs : Inverts (Json.readMap InstrId.mk Instr.read)
    (Json.ofMap InstrId.val Instr.toJson) :=
  Instr.inverts.map InstrId.mk InstrId.val fun _ => rfl

theorem inverts_exprs : Inverts (Json.readMap ExprId.mk Expr.read)
    (Json.ofMap ExprId.val Expr.toJson) :=
  Expr.inverts.map ExprId.mk ExprId.val fun _ => rfl

theorem stands_body (f : Function) : StandsFor (readBody f.id f.signature) f.bodyJson f := by
  have hentry := BlockId.inverts
  have hnext := Json.inverts_uint32
  refine StandsFor.record rfl (by decide) ?_ ?_
  · simp [hentry.prints, inverts_blocks.prints, inverts_instrs.prints, inverts_exprs.prints,
      hnext.prints]
  · intro room hroom
    simp only [List.forall_mem_cons] at hroom
    obtain ⟨h₁, h₂, h₃, h₄, h₅, -⟩ := hroom
    simp [Json.required, hentry.reads h₁, inverts_blocks.reads h₂, inverts_instrs.reads h₃,
      inverts_exprs.reads h₄, hnext.reads h₅]

theorem fits_body {id : FuncId} {signature : Signature} {room : Nat} {j : Json} {f : Function}
    (h : readBody id signature room j = some f) :
    f.id = id ∧ f.signature = signature ∧ f.bodyJson.depth ≤ room := by
  have hentry := BlockId.inverts
  have hnext := Json.inverts_uint32
  obtain ⟨inner, fields, rfl, hbuild⟩ := Json.readRecord_cases h
  split at hbuild
  · simp only [Option.bind_eq_bind, Option.pure_def, Option.bind_eq_some_iff,
      Option.some.injEq] at hbuild
    obtain ⟨entry, h₁, blocks, h₂, instrs, h₃, exprs, h₄, nextBlock, h₅, rfl⟩ := hbuild
    refine ⟨rfl, rfl, (Json.depth_ofMembers_le_iff _ _).mpr ⟨inner, rfl, ?_⟩⟩
    simp [hentry.required h₁, inverts_blocks.required h₂, inverts_instrs.required h₃,
      inverts_exprs.required h₄, hnext.required h₅]
  · cases hbuild

theorem inverts : Inverts Function.read Function.toJson := by
  have hid := FuncId.inverts
  have hsignature := Signature.inverts
  refine Inverts.record (fun f => rfl) (by decide) ?_ ?_ ?_
  · intro f
    simp [hid.prints, hsignature.prints, (stands_body f).prints]
  · intro room f h
    simp only [List.forall_mem_cons] at h
    obtain ⟨h₁, h₂, h₃, -⟩ := h
    simp [Json.required, hid.reads h₁, hsignature.reads h₂, (stands_body f).reads h₃]
  · intro room fields f h
    split at h
    · simp only [Option.bind_eq_bind, Option.bind_eq_some_iff] at h
      obtain ⟨id, h₁, signature, h₂, hbody⟩ := h
      -- The body is read for the id and the signature that were read before it.
      obtain ⟨j, -, hread⟩ := Option.bind_eq_some_iff.mp hbody
      obtain ⟨rfl, rfl, hdepth⟩ := fits_body hread
      simp [hid.required h₁, hsignature.required h₂, hdepth]
    · cases h

end Function

/-! ### Programs -/

/-- The functions of a program are read back from its tree, under their keys and
    in their order. -/
theorem Program.functions_form : Form readFunctions id fun functions =>
    .ofMembers [("functions", Json.ofMap FuncId.val Function.toJson functions)] :=
  readOne_form (Function.inverts.map FuncId.mk FuncId.val fun _ => rfl) "functions" id

end SsaFlow
