import SsaFlow.Build.Context
import SsaFlow.Ir.Saved

/-! # Functions under construction

    A draft is a function that is being put together, with the blocks that may
    be entered and the one that was entered last. Ids come from the context, so
    every operation that hands one out changes both; together they are a
    workbench.
-/

namespace SsaFlow

/-- A function under construction. -/
structure Draft where
  /-- The function so far. -/
  function : Function
  /-- The block that was entered last. -/
  current : Option BlockId
  /-- The blocks that may be entered. -/
  known : List BlockId

/-- The open block, and the place in the source that its next instructions come
    from. -/
structure Cursor where
  /-- The block. -/
  block : BlockId
  /-- The place, once one was given. -/
  location : Option Location

/-- A draft and the context that it takes its ids from. -/
structure Workbench where
  /-- The ids in use. -/
  context : Context
  /-- The function under construction. -/
  draft : Draft

namespace Draft

/-- The draft of a function of which nothing is known but its name. -/
def start (id : FuncId) (name : String) : Draft :=
  let f := Function.fresh id name
  ⟨f, none, [f.entry]⟩

/-- The type of an instruction, unknown for one that the function lacks. -/
def typeOf (d : Draft) (i : InstrId) : Ty := ((d.function.instr? i).map Instr.ty).getD .unknown

/-- Change the function's signature. -/
def sign (d : Draft) (change : Signature → Signature) : Draft :=
  { d with function := { d.function with signature := change d.function.signature } }

/-- A new empty block. None once the numbers are used up. -/
def newBlock? (d : Draft) : Option (BlockId × Draft) :=
  d.function.newBlock?.map fun (b, f) => (b, { d with function := f, known := b :: d.known })

/-- Enter a block, which is stored first if it is not there. -/
def enter (d : Draft) (b : BlockId) : Draft where
  function :=
    if d.function.blocks.contains b then d.function
    else { d.function with blocks := d.function.blocks.insert b (Block.fresh b) }
  current := some b
  known := b :: d.known

/-- Change an instruction. -/
def adjustInstr (d : Draft) (i : InstrId) (change : Instr → Instr) : Draft :=
  { d with function := { d.function with instrs := d.function.instrs.adjust i change } }

/-- Change a block. -/
def adjustBlock (d : Draft) (b : BlockId) (change : Block → Block) : Draft :=
  { d with function := { d.function with blocks := d.function.blocks.adjust b change } }

/-- Bind an instruction to the expression whose value it computes. -/
def bind (d : Draft) (i : InstrId) (e : ExprId) : Except Error Draft :=
  if !d.function.exprs.contains e then .error (.noExpr e)
  else if !d.function.instrs.contains i then .error (.noInstr i)
  else .ok (d.adjustInstr i fun inst => { inst with expr := some e })

/-- Add an incoming value to a phi. The value of a loop's back edge is known
    only after the phi that uses it. -/
def addIncoming (d : Draft) (phi : InstrId) (pred : BlockId) (value : InstrId) :
    Except Error Draft :=
  match d.function.instr? phi with
  | none => .error (.noInstr phi)
  | some inst =>
    match inst.op with
    | .phi incoming =>
      .ok (d.adjustInstr phi fun inst => { inst with op := .phi (incoming ++ [(pred, value)]) })
    | op => .error (.notPhi phi op.opcode)

/-- Whether a block has its terminator. -/
def hasEnded (d : Draft) (b : BlockId) : Bool :=
  match d.function.block? b with
  | some block => block.isTerminated
  | none => false

/-- Give a block its terminator. -/
def terminate (d : Draft) (b : BlockId) (t : Terminator) : Except Error Draft :=
  if d.hasEnded b then .error (.alreadyTerminated b)
  else if !d.function.blocks.contains b then .error (.lostBlock b)
  else .ok (d.adjustBlock b fun block => { block with terminator := t })

end Draft

namespace Workbench

/-- A new instruction at the end of the open block. -/
def emit (w : Workbench) (c : Cursor) (op : Operation) (ty : Ty) : InstrId × Workbench :=
  let (id, context) := w.context.freshInstr
  let f := w.draft.function
  let inst : Instr := ⟨id, f.id, c.block, op, ty, none, c.location.getD .unknown⟩
  let f := { f with
    instrs := f.instrs.insert id inst
    blocks := f.blocks.adjust c.block fun b => b.append id }
  (id, ⟨context, { w.draft with function := f }⟩)

/-- A new expression. -/
def addExpr (w : Workbench) (kind : ExprKind) (text : String) (location : Location) :
    ExprId × Workbench :=
  let (id, context) := w.context.freshExpr
  let f := w.draft.function
  let f := { f with exprs := f.exprs.insert id ⟨id, kind, text, location⟩ }
  (id, ⟨context, { w.draft with function := f }⟩)

/-- One more parameter. A name that is taken is noted as a mistake. -/
def addParam (w : Workbench) (name : String) (ty : Ty) : Workbench where
  context :=
    if w.draft.function.signature.params.any fun p => p.name = name then
      w.context.note ("Duplicate parameter " ++ name ++ " in " ++ w.draft.function.name)
    else w.context
  draft := w.draft.sign fun s => { s with params := s.params ++ [⟨name, ty⟩] }

end Workbench

end SsaFlow
