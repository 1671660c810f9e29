import SsaFlow.Build.Draft
import SsaFlow.Ir.Listing
import SsaFlow.Ir.Validate

/-! # Construction sessions

    A program is put together in steps on three levels: the program, the open
    function, and the open block. A step of one level closes everything inside
    that level first: an open block loses its place in the source, and an open
    function that was not built is dropped. A step whose level is not open does
    nothing but close everything.

    `Session.step` takes one step, `Session.run` a list of them.
-/

namespace SsaFlow

/-! ### Steps -/

/-- A step on the open block. -/
inductive BlockStep where
  /-- Which block is open? -/
  | blockId
  /-- The next instructions come from this place. -/
  | locate (location : Location)
  /-- A constant. -/
  | constant (value : Constant) (ty : Ty)
  /-- The address of a variable of the given type. -/
  | variableAddress (name : String) (ty : Ty)
  /-- The value of a parameter. -/
  | parameter (index : UInt64)
  /-- The receiver. -/
  | receiver
  /-- A copy. -/
  | copy (source : InstrId) (ty : Ty)
  /-- A read; its type is that of the memory's definition. -/
  | load (address source : InstrId)
  /-- A write; its type is that of the value. -/
  | store (address value : InstrId)
  /-- A phi. -/
  | phi (incoming : List (BlockId × InstrId)) (ty : Ty)
  /-- A conversion. -/
  | convert (how : Conversion) (operand : InstrId) (ty : Ty)
  /-- A possible write. -/
  | chi (total part : InstrId) (ty : Ty)
  /-- A computation. -/
  | binary (op : BinaryOp) (left right : InstrId) (ty : Ty)
  /-- A comparison. -/
  | compare (op : CompareOp) (left right : InstrId)
  /-- A call. -/
  | call (target : CallTarget) (arguments : List InstrId) (object : Option InstrId) (ty : Ty)
  /-- A write through an argument of a call. -/
  | sideEffect (source : InstrId) (index : Int32) (ty : Ty)
  /-- A source expression. -/
  | expr (kind : ExprKind) (text : String)
  /-- Bind an instruction to an expression. -/
  | bind (instr : InstrId) (expr : ExprId)
  /-- End the block. -/
  | terminate (terminator : Terminator)
  /-- End the block with a result. -/
  | ret (value : InstrId)
  /-- Has the block ended? -/
  | hasEnded

/-- A step on the open function. -/
inductive FunctionStep where
  /-- One more parameter. -/
  | param (name : String) (ty : Ty)
  /-- The type of the result. -/
  | returns (ty : Ty)
  /-- The type of the receiver. -/
  | thisType (ty : Ty)
  /-- A new block. -/
  | newBlock
  /-- Which block was entered last? -/
  | currentBlock
  /-- The function as text. -/
  | listing
  /-- An incoming value of a phi. -/
  | addIncoming (phi : InstrId) (pred : BlockId) (value : InstrId)
  /-- A source expression at a place. -/
  | expr (kind : ExprKind) (text : String) (location : Location)
  /-- Bind an instruction to an expression. -/
  | bind (instr : InstrId) (expr : ExprId)
  /-- Enter a block that may be entered. -/
  | switchTo (block : BlockId)
  /-- Enter the entry block. -/
  | enterEntry
  /-- Enter a new block. -/
  | enterNew
  /-- Enter any block. -/
  | enter (block : BlockId)
  /-- Add the function to the program. -/
  | build

/-- A step on the program. -/
inductive ProgramStep where
  /-- Give a function its number. -/
  | declare (name : String)
  /-- Open a function. -/
  | function (name : String)
  /-- Check the program. -/
  | validate
  /-- How large is the program? -/
  | stats
  /-- Start over. -/
  | clear
  /-- What has been used up and noted? -/
  | context

/-- A step of construction. -/
inductive Step where
  /-- On the open block. -/
  | block (step : BlockStep)
  /-- On the open function. -/
  | function (step : FunctionStep)
  /-- On the program. -/
  | program (step : ProgramStep)
  /-- On nothing: a step that no level knows. -/
  | unknown

/-! ### Answers -/

/-- What a successful step answers. -/
inductive Answer where
  /-- Nothing. -/
  | done
  /-- An instruction. -/
  | instr (id : InstrId)
  /-- An expression. -/
  | expr (id : ExprId)
  /-- A function. -/
  | function (id : FuncId)
  /-- A block, if there is one. -/
  | block (id : Option BlockId)
  /-- Yes or no. -/
  | flag (value : Bool)
  /-- A text. -/
  | text (value : String)
  /-- The size of the program. -/
  | stats (value : Stats)
  /-- The context. -/
  | context (value : Context)

/-- How a step ends. -/
inductive Outcome where
  /-- With an answer. -/
  | ok (answer : Answer)
  /-- With an error. -/
  | failed (cause : Error)
  /-- The step's level is not open. -/
  | notOpen
  /-- The numbers for blocks are used up. -/
  | exhausted

/-! ### States -/

/-- The open function, and the open block in it. -/
structure Opened where
  /-- The function under construction. -/
  draft : Draft
  /-- The open block. -/
  cursor : Option Cursor

/-- The state of a construction. -/
structure Session where
  /-- The ids in use, and notes. -/
  context : Context
  /-- The functions that are built. -/
  program : Program
  /-- What is open. -/
  opened : Option Opened

namespace Session

/-- The state at the start. -/
def empty : Session := ⟨.empty, .empty, none⟩

/-- Continue on a workbench with a block open. -/
def resume (s : Session) (w : Workbench) (cursor : Option Cursor) : Session :=
  { s with context := w.context, opened := some ⟨w.draft, cursor⟩ }

/-! ### Steps on the open block -/

/-- A new instruction, as the whole of a step. -/
def emit (s : Session) (w : Workbench) (c : Cursor) (op : Operation) (ty : Ty) :
    Session × Outcome :=
  let (id, w) := w.emit c op ty
  (s.resume w c, .ok (.instr id))

/-- Take over a changed draft, or report why there is none and leave everything
    as it was. -/
def settle (s : Session) (w : Workbench) (cursor : Option Cursor) (result : Except Error Draft) :
    Session × Outcome :=
  match result with
  | .ok draft => (s.resume { w with draft := draft } cursor, .ok .done)
  | .error e => (s.resume w cursor, .failed e)

/-- One step on the open block. -/
def blockStep (s : Session) (w : Workbench) (c : Cursor) : BlockStep → Session × Outcome
  | .blockId => (s.resume w c, .ok (.block (some c.block)))
  | .locate location => (s.resume w (some { c with location := some location }), .ok .done)
  | .constant value ty => s.emit w c (.constant value) ty
  | .variableAddress name ty => s.emit w c (.variableAddress name) (.pointer ty)
  | .parameter index =>
    match w.draft.function.param? index.toNat with
    | some p => s.emit w c (.parameter index) p.ty
    | none => (s.resume w c, .failed (.noParameter w.draft.function.name index))
  | .receiver =>
    match w.draft.function.signature.thisType with
    | some ty => s.emit w c .receiver (.pointer ty)
    | none => (s.resume w c, .failed (.notMember w.draft.function.name))
  | .copy source ty => s.emit w c (.copy source) ty
  | .load address source => s.emit w c (.load address source) (w.draft.typeOf source)
  | .store address value => s.emit w c (.store address value) (w.draft.typeOf value)
  | .phi incoming ty => s.emit w c (.phi incoming) ty
  | .convert how operand ty => s.emit w c (.convert how operand) ty
  | .chi total part ty => s.emit w c (.chi total part) ty
  | .binary op left right ty => s.emit w c (.binary op left right) ty
  | .compare op left right => s.emit w c (.compare op left right) .bool
  | .call target arguments object ty => s.emit w c (.call target arguments object) ty
  | .sideEffect source index ty => s.emit w c (.sideEffect source index) ty
  | .expr kind text =>
    let (id, w) := w.addExpr kind text (c.location.getD .unknown)
    (s.resume w c, .ok (.expr id))
  | .bind instr expr => s.settle w c (w.draft.bind instr expr)
  | .terminate terminator => s.settle w c (w.draft.terminate c.block terminator)
  | .ret value =>
    -- The instruction is emitted first, whether or not the block can end.
    let (_, w) := w.emit c (.ret (some value)) (w.draft.typeOf value)
    s.settle w c (w.draft.terminate c.block .ret)
  | .hasEnded => (s.resume w c, .ok (.flag (w.draft.hasEnded c.block)))

/-! ### Steps on the open function -/

/-- Enter a block. -/
def enter (s : Session) (w : Workbench) (b : BlockId) : Session × Outcome :=
  (s.resume { w with draft := w.draft.enter b } (some ⟨b, none⟩), .ok (.block (some b)))

/-- One step on the open function; the open block is closed. -/
def functionStep (s : Session) (w : Workbench) : FunctionStep → Session × Outcome
  | .param name ty => (s.resume (w.addParam name ty) none, .ok .done)
  | .returns ty =>
    (s.resume { w with draft := w.draft.sign fun g => { g with returns := ty } } none, .ok .done)
  | .thisType ty =>
    (s.resume { w with draft := w.draft.sign fun g => { g with thisType := some ty } } none,
      .ok .done)
  | .newBlock =>
    match w.draft.newBlock? with
    | some (b, draft) => (s.resume { w with draft := draft } none, .ok (.block (some b)))
    | none => (s.resume w none, .exhausted)
  | .currentBlock => (s.resume w none, .ok (.block w.draft.current))
  | .listing => (s.resume w none, .ok (.text w.draft.function.text))
  | .addIncoming phi pred value => s.settle w none (w.draft.addIncoming phi pred value)
  | .expr kind text location =>
    let (id, w) := w.addExpr kind text location
    (s.resume w none, .ok (.expr id))
  | .bind instr expr => s.settle w none (w.draft.bind instr expr)
  | .switchTo b =>
    if w.draft.known.contains b then s.enter w b
    else (s.resume w none, .failed (.noBlock b))
  | .enterEntry => s.enter w w.draft.function.entry
  | .enterNew =>
    match w.draft.newBlock? with
    | some (b, draft) => s.enter { w with draft := draft } b
    | none => (s.resume w none, .exhausted)
  | .enter b => s.enter w b
  | .build =>
    let s := { s with context := w.context, opened := none }
    match s.program.add? w.draft.function with
    | .ok p => ({ s with program := p }, .ok (.function w.draft.function.id))
    | .error e => (s, .failed e)

/-! ### Steps on the program -/

/-- Check what is built: no mistakes were noted, every declared function is
    there, and the program is well formed. -/
def validate (s : Session) : Except Error Unit :=
  if s.context.hasNotes then .error (.mistakes s.context.notes)
  else
    match s.context.declared.entries.find? fun e => !s.program.functions.contains e.2 with
    | some e => .error (.neverBuilt e.1)
    | none => s.program.validate

/-- One step on the program; everything inside is closed. -/
def programStep (s : Session) : ProgramStep → Session × Outcome
  | .declare name =>
    let (f, context) := s.context.funcId name
    ({ s with context := context }, .ok (.function f))
  | .function name =>
    let (f, context) := (s.context.setCurrent name).funcId name
    ({ s with context := context, opened := some ⟨.start f name, none⟩ }, .ok (.function f))
  | .validate =>
    match s.validate with
    | .ok () => (s, .ok .done)
    | .error e => (s, .failed e)
  | .stats => (s, .ok (.stats s.program.stats))
  | .clear => (empty, .ok .done)
  | .context => (s, .ok (.context s.context))

/-! ### Sessions -/

/-- Close everything that is open. -/
def closeAll (s : Session) : Session := { s with opened := none }

/-- One step. -/
def step (s : Session) : Step → Session × Outcome
  | .block b =>
    match s.opened with
    | some ⟨draft, some c⟩ => s.blockStep ⟨s.context, draft⟩ c b
    | _ => (s.closeAll, .notOpen)
  | .function f =>
    match s.opened with
    | some o => s.functionStep ⟨s.context, o.draft⟩ f
    | none => (s.closeAll, .notOpen)
  | .program p => s.closeAll.programStep p
  | .unknown => (s.closeAll, .notOpen)

/-- Steps, first to last, with their outcomes. -/
def run (s : Session) : List Step → Session × List Outcome
  | [] => (s, [])
  | t :: rest =>
    let (s, outcome) := s.step t
    let (s, outcomes) := s.run rest
    (s, outcome :: outcomes)

/-- The finished program. -/
def finish (s : Session) : Except Error Program :=
  match s.validate with
  | .ok () => .ok s.program
  | .error e => .error e

end Session

end SsaFlow
