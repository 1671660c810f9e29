import SsaFlow.Ir.Program
import SsaFlow.Json.Render

/-! # Saved programs

    The JSON form of instructions, blocks, functions and programs. A program is
    saved without its indexes; loading rebuilds them, and so refuses functions
    that `Program.add?` refuses, or that are stored under another id.

    The checks on the functions come after the whole tree has been read and
    before the text behind the tree is looked at.
-/

namespace SsaFlow

/-! ### Operations -/

/-- The saved name of a computation. -/
def BinaryOp.name : BinaryOp → String
  | add => "Add"
  | sub => "Sub"
  | mul => "Mul"
  | div => "Div"
  | rem => "Rem"
  | and => "And"
  | or => "Or"
  | xor => "Xor"
  | shl => "Shl"
  | shr => "Shr"
  | pointerAdd => "PointerAdd"

/-- All computations. -/
def BinaryOp.all : List BinaryOp :=
  [.add, .sub, .mul, .div, .rem, .and, .or, .xor, .shl, .shr, .pointerAdd]

/-- The saved name of a comparison. -/
def CompareOp.name : CompareOp → String
  | eq => "Eq"
  | ne => "Ne"
  | lt => "Lt"
  | le => "Le"
  | gt => "Gt"
  | ge => "Ge"

/-- All comparisons. -/
def CompareOp.all : List CompareOp := [.eq, .ne, .lt, .le, .gt, .ge]

/-- The saved name of a conversion. -/
def Conversion.name : Conversion → String
  | plain => "Convert"
  | checked => "CheckedConvert"
  | toBase => "ConvertToBase"
  | toDerived => "ConvertToDerived"

/-- All conversions. -/
def Conversion.all : List Conversion := [.plain, .checked, .toBase, .toDerived]

/-- The computation with a saved name. -/
def BinaryOp.ofName? (name : String) : Option BinaryOp := all.find? fun op => op.name = name

/-- The comparison with a saved name. -/
def CompareOp.ofName? (name : String) : Option CompareOp := all.find? fun op => op.name = name

/-- The conversion with a saved name. -/
def Conversion.ofName? (name : String) : Option Conversion := all.find? fun how => how.name = name

/-- A computation off its tree. -/
def BinaryOp.read : Json.Reader BinaryOp := Json.readVariant BinaryOp.ofName? fun _ _ _ => none

/-- A comparison off its tree. -/
def CompareOp.read : Json.Reader CompareOp := Json.readVariant CompareOp.ofName? fun _ _ _ => none

/-- What is called, as a tree. -/
def CallTarget.toJson : CallTarget → Json
  | static callee => .ofMembers [("Static", callee.toJson)]
  | indirect callee => .ofMembers [("Indirect", callee.toJson)]

/-- What is called, off its tree. -/
def CallTarget.read : Json.Reader CallTarget :=
  Json.readVariant (fun _ => none) fun name room payload =>
    if name = "Static" then (FuncId.read room payload).map static
    else if name = "Indirect" then (InstrId.read room payload).map indirect
    else none

/-- The name of the kind of an operation. -/
def Operation.opcode : Operation → String
  | constant _ => "Constant"
  | variableAddress _ => "VariableAddress"
  | parameter _ => "InitializeParameter"
  | receiver => "InitializeThis"
  | copy _ => "Copy"
  | load _ _ => "Load"
  | store _ _ => "Store"
  | phi _ => "Phi"
  | convert how _ => how.name
  | chi _ _ => "Chi"
  | binary _ _ _ => "Binary"
  | compare _ _ _ => "Compare"
  | call _ _ _ => "Call"
  | sideEffect _ _ => "WriteSideEffect"
  | ret _ => "Return"

/-- What an operation carries, as a tree; none for the one that carries nothing. -/
def Operation.payload : Operation → Option Json
  | constant value => some value.toJson
  | variableAddress name => some (.ofMembers [("name", .ofString name)])
  | parameter index => some (.ofMembers [("index", .ofNat index.toNat)])
  | receiver => none
  | copy source => some (.ofMembers [("source", source.toJson)])
  | load address source =>
    some (.ofMembers [("address", address.toJson), ("source", source.toJson)])
  | store address value =>
    some (.ofMembers [("address", address.toJson), ("value", value.toJson)])
  | phi incoming =>
    some (.ofMembers [("incoming",
      .ofList (fun e : BlockId × InstrId => .arr [e.1.toJson, e.2.toJson]) incoming)])
  | convert _ operand => some (.ofMembers [("operand", operand.toJson)])
  | chi total part => some (.ofMembers [("total", total.toJson), ("partial", part.toJson)])
  | binary op left right =>
    some (.ofMembers
      [("op", .ofString op.name), ("left", left.toJson), ("right", right.toJson)])
  | compare op left right =>
    some (.ofMembers
      [("op", .ofString op.name), ("left", left.toJson), ("right", right.toJson)])
  | call target arguments object =>
    some (.ofMembers [("target", target.toJson), ("arguments", .ofList InstrId.toJson arguments),
      ("this_argument", .ofOption InstrId.toJson object)])
  | sideEffect source index =>
    some (.ofMembers [("call", source.toJson), ("index", .ofInt index.toInt)])
  | ret value => some (.ofMembers [("value", .ofOption InstrId.toJson value)])

/-- An operation as a tree. -/
def Operation.toJson (op : Operation) : Json :=
  match op.payload with
  | none => .ofString op.opcode
  | some payload => .ofMembers [(op.opcode, payload)]

/-- A record with one field. -/
def readOne {α β : Type} (name : String) (read : Json.Reader α) (make : α → β) : Json.Reader β :=
  Json.readRecord [name] fun
    | room, [a] => do
      let a ← Json.required read room a
      return make a
    | _, _ => none

/-- A record with two fields. -/
def readTwo {α β γ : Type} (name₁ name₂ : String) (read₁ : Json.Reader α) (read₂ : Json.Reader β)
    (make : α → β → γ) : Json.Reader γ :=
  Json.readRecord [name₁, name₂] fun
    | room, [a, b] => do
      let a ← Json.required read₁ room a
      let b ← Json.required read₂ room b
      return make a b
    | _, _ => none

/-- A record with one field that may be absent. -/
def readMaybe {α β : Type} (name : String) (read : Json.Reader α) (make : Option α → β) :
    Json.Reader β :=
  Json.readRecord [name] fun
    | room, [a] => do
      let a ← Json.optional read room a
      return make a
    | _, _ => none

/-- A record with an operator and two operands. -/
def readOperator {α β : Type} (read : Json.Reader α) (make : α → InstrId → InstrId → β) :
    Json.Reader β :=
  Json.readRecord ["op", "left", "right"] fun
    | room, [op, left, right] => do
      let op ← Json.required read room op
      let left ← Json.required InstrId.read room left
      let right ← Json.required InstrId.read room right
      return make op left right
    | _, _ => none

/-- The record of a call. -/
def readCall : Json.Reader Operation :=
  Json.readRecord ["target", "arguments", "this_argument"] fun
    | room, [target, arguments, object] => do
      let target ← Json.required CallTarget.read room target
      let arguments ← Json.required (Json.readList InstrId.read) room arguments
      let object ← Json.optional InstrId.read room object
      return .call target arguments object
    | _, _ => none

/-- An operation that carries something, off its name and payload. -/
def Operation.readTagged (name : String) : Json.Reader Operation :=
  if name = "Constant" then fun room j => (Constant.read room j).map .constant
  else if name = "VariableAddress" then readOne "name" Json.readString .variableAddress
  else if name = "InitializeParameter" then readOne "index" Json.readUInt64 .parameter
  else if name = "Copy" then readOne "source" InstrId.read .copy
  else if name = "Load" then readTwo "address" "source" InstrId.read InstrId.read .load
  else if name = "Store" then readTwo "address" "value" InstrId.read InstrId.read .store
  else if name = "Phi" then
    readOne "incoming" (Json.readList (Json.readPair BlockId.read InstrId.read)) .phi
  else if name = "Chi" then readTwo "total" "partial" InstrId.read InstrId.read .chi
  else if name = "Binary" then readOperator BinaryOp.read .binary
  else if name = "Compare" then readOperator CompareOp.read .compare
  else if name = "Call" then readCall
  else if name = "WriteSideEffect" then
    readTwo "call" "index" InstrId.read Json.readInt32 .sideEffect
  else if name = "Return" then readMaybe "value" InstrId.read .ret
  else
    match Conversion.ofName? name with
    | some how => readOne "operand" InstrId.read (.convert how)
    | none => fun _ _ => none

/-- An operation off its tree. -/
def Operation.read : Json.Reader Operation :=
  Json.readVariant (fun name => if name = "InitializeThis" then some .receiver else none)
    Operation.readTagged

/-! ### Operand roles -/

/-- A role as a tree. -/
def Role.toJson : Role → Json
  | sourceValue => .ofString "SourceValue"
  | phiIncoming block => .ofMembers [("PhiIncoming", block.toJson)]
  | unary => .ofString "Unary"
  | chiTotal => .ofString "ChiTotal"
  | chiPart => .ofString "ChiPartial"
  | left => .ofString "Left"
  | right => .ofString "Right"
  | address => .ofString "Address"
  | argument index => .ofMembers [("Argument", .ofNat index.toNat)]
  | receiver => .ofString "ThisArgument"
  | callTarget => .ofString "CallTarget"
  | sideEffectCall => .ofString "SideEffectCall"
  | returnValue => .ofString "ReturnValue"

/-- The roles without content, with their names. -/
def Role.plain : List (String × Role) :=
  [("SourceValue", .sourceValue), ("Unary", .unary), ("ChiTotal", .chiTotal),
    ("ChiPartial", .chiPart), ("Left", .left), ("Right", .right), ("Address", .address),
    ("ThisArgument", .receiver), ("CallTarget", .callTarget),
    ("SideEffectCall", .sideEffectCall), ("ReturnValue", .returnValue)]

/-- A role off its tree. -/
def Role.read : Json.Reader Role :=
  Json.readVariant (fun name => (plain.find? fun r => r.1 = name).map Prod.snd)
    fun name room payload =>
      if name = "PhiIncoming" then (BlockId.read room payload).map .phiIncoming
      else if name = "Argument" then (Json.readUInt64 room payload).map .argument
      else none

/-! ### Instructions and expressions -/

/-- An instruction as a tree. -/
def Instr.toJson (i : Instr) : Json :=
  .ofMembers [("id", i.id.toJson), ("function", i.function.toJson), ("block", i.block.toJson),
    ("kind", i.op.toJson), ("result_type", i.ty.toJson), ("expr", .ofOption ExprId.toJson i.expr),
    ("location", i.location.toJson)]

/-- An instruction off its tree. -/
def Instr.read : Json.Reader Instr :=
  Json.readRecord ["id", "function", "block", "kind", "result_type", "expr", "location"] fun
    | room, [id, function, block, op, ty, expr, location] => do
      let id ← Json.required InstrId.read room id
      let function ← Json.required FuncId.read room function
      let block ← Json.required BlockId.read room block
      let op ← Json.required Operation.read room op
      let ty ← Json.required Ty.read room ty
      let expr ← Json.optional ExprId.read room expr
      let location ← Json.required Location.read room location
      return ⟨id, function, block, op, ty, expr, location⟩
    | _, _ => none

/-- What an expression is, as a tree. -/
def ExprKind.toJson : ExprKind → Json
  | conversion operand =>
    .ofMembers [("Conversion", .ofMembers [("operand", .ofOption ExprId.toJson operand)])]
  | other => .ofString "Other"

/-- What an expression is, off its tree. -/
def ExprKind.read : Json.Reader ExprKind :=
  Json.readVariant (fun name => if name = "Other" then some .other else none)
    fun name room payload =>
      if name = "Conversion" then readMaybe "operand" ExprId.read .conversion room payload
      else none

/-- An expression as a tree. -/
def Expr.toJson (e : Expr) : Json :=
  .ofMembers [("id", e.id.toJson), ("kind", e.kind.toJson), ("text", .ofString e.text),
    ("location", e.location.toJson)]

/-- An expression off its tree. -/
def Expr.read : Json.Reader Expr :=
  Json.readRecord ["id", "kind", "text", "location"] fun
    | room, [id, kind, text, location] => do
      let id ← Json.required ExprId.read room id
      let kind ← Json.required ExprKind.read room kind
      let text ← Json.required Json.readString room text
      let location ← Json.required Location.read room location
      return ⟨id, kind, text, location⟩
    | _, _ => none

/-! ### Blocks -/

/-- A terminator as a tree. -/
def Terminator.toJson : Terminator → Json
  | jump target => .ofMembers [("Jump", target.toJson)]
  | branch condition thenBlock elseBlock =>
    .ofMembers [("Branch", .ofMembers [("condition", condition.toJson),
      ("then_block", thenBlock.toJson), ("else_block", elseBlock.toJson)])]
  | ret => .ofString "Return"
  | unreachable => .ofString "Unreachable"
  | unset => .ofString "Invalid"

/-- The terminators without content, by name. -/
def Terminator.ofName? (name : String) : Option Terminator :=
  if name = "Return" then some ret
  else if name = "Unreachable" then some unreachable
  else if name = "Invalid" then some unset
  else none

/-- The record of a branch. -/
def Terminator.readBranch : Json.Reader Terminator :=
  Json.readRecord ["condition", "then_block", "else_block"] fun
    | room, [condition, thenBlock, elseBlock] => do
      let condition ← Json.required InstrId.read room condition
      let thenBlock ← Json.required BlockId.read room thenBlock
      let elseBlock ← Json.required BlockId.read room elseBlock
      return branch condition thenBlock elseBlock
    | _, _ => none

/-- A terminator off its tree. -/
def Terminator.read : Json.Reader Terminator :=
  Json.readVariant ofName? fun name room payload =>
    if name = "Jump" then (BlockId.read room payload).map jump
    else if name = "Branch" then readBranch room payload
    else none

/-- A block as a tree. -/
def Block.toJson (b : Block) : Json :=
  .ofMembers [("id", b.id.toJson), ("instructions", .ofList InstrId.toJson b.instrs),
    ("terminator", b.terminator.toJson)]

/-- A block off its tree. -/
def Block.read : Json.Reader Block :=
  Json.readRecord ["id", "instructions", "terminator"] fun
    | room, [id, instrs, terminator] => do
      let id ← Json.required BlockId.read room id
      let instrs ← Json.required (Json.readList InstrId.read) room instrs
      let terminator ← Json.required Terminator.read room terminator
      return ⟨id, instrs, terminator⟩
    | _, _ => none

/-! ### Functions -/

/-- A parameter as a tree. -/
def Param.toJson (p : Param) : Json :=
  .ofMembers [("name", .ofString p.name), ("param_type", p.ty.toJson)]

/-- A parameter off its tree. -/
def Param.read : Json.Reader Param :=
  readTwo "name" "param_type" Json.readString Ty.read Param.mk

/-- A signature as a tree. -/
def Signature.toJson (s : Signature) : Json :=
  .ofMembers [("name", .ofString s.name), ("params", .ofList Param.toJson s.params),
    ("returns", s.returns.toJson), ("this_type", .ofOption Ty.toJson s.thisType)]

/-- A signature off its tree. -/
def Signature.read : Json.Reader Signature :=
  Json.readRecord ["name", "params", "returns", "this_type"] fun
    | room, [name, params, returns, thisType] => do
      let name ← Json.required Json.readString room name
      let params ← Json.required (Json.readList Param.read) room params
      let returns ← Json.required Ty.read room returns
      let thisType ← Json.optional Ty.read room thisType
      return ⟨name, params, returns, thisType⟩
    | _, _ => none

/-- The body of a function: everything but its id and signature. -/
def Function.bodyJson (f : Function) : Json :=
  .ofMembers [("entry_block", f.entry.toJson),
    ("blocks", Json.ofMap BlockId.val Block.toJson f.blocks),
    ("instructions", Json.ofMap InstrId.val Instr.toJson f.instrs),
    ("exprs", Json.ofMap ExprId.val Expr.toJson f.exprs),
    ("next_block_id", .ofNat f.nextBlock.toNat)]

/-- The body of a function off its tree, for a given id and signature. -/
def Function.readBody (id : FuncId) (signature : Signature) : Json.Reader Function :=
  Json.readRecord ["entry_block", "blocks", "instructions", "exprs", "next_block_id"] fun
    | room, [entry, blocks, instrs, exprs, nextBlock] => do
      let entry ← Json.required BlockId.read room entry
      let blocks ← Json.required (Json.readMap BlockId.mk Block.read) room blocks
      let instrs ← Json.required (Json.readMap InstrId.mk Instr.read) room instrs
      let exprs ← Json.required (Json.readMap ExprId.mk Expr.read) room exprs
      let nextBlock ← Json.required Json.readUInt32 room nextBlock
      return ⟨id, signature, entry, blocks, instrs, exprs, nextBlock⟩
    | _, _ => none

/-- A function as a tree. -/
def Function.toJson (f : Function) : Json :=
  .ofMembers [("id", f.id.toJson), ("signature", f.signature.toJson), ("body", f.bodyJson)]

/-- A function off its tree. -/
def Function.read : Json.Reader Function :=
  Json.readRecord ["id", "signature", "body"] fun
    | room, [id, signature, body] => do
      let id ← Json.required FuncId.read room id
      let signature ← Json.required Signature.read room signature
      Json.required (Function.readBody id signature) room body
    | _, _ => none

/-! ### Programs -/

/-- A program as a tree. -/
def Program.toJson (p : Program) : Json :=
  .ofMembers [("functions", Json.ofMap FuncId.val Function.toJson p.functions)]

/-- The functions of a program off its tree, each under its key. -/
def Program.readFunctions : Json.Reader (OrderedMap FuncId Function) :=
  readOne "functions" (Json.readMap FuncId.mk Function.read) id

/-- The saved text of a program. -/
def Program.save (p : Program) : String := p.toJson.pretty

/-- Why a text is not a program. -/
inductive LoadError where
  /-- It does not have the form of one. -/
  | malformed
  /-- It has the form, but the functions do not fit together. -/
  | rejected (cause : Error)
  deriving DecidableEq

/-- The program of a saved text. -/
def Program.load (text : String) : Except LoadError Program :=
  match Json.parse? text with
  | none => .error .malformed
  | some (tree, rest) =>
    match Program.readFunctions Json.maxNesting tree with
    | none => .error .malformed
    | some functions =>
      match Program.ofEntries? functions.entries with
      | .error e => .error (.rejected e)
      | .ok p => if rest.isEmpty then .ok p else .error .malformed

end SsaFlow
