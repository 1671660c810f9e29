import SsaFlow.Ir.Listing

/-! # Edits

    Changes to a program that is already put together. Only `add` touches the
    indexes; every other edit changes the functions and leaves the indexes as
    they are, so that look-ups may lead astray until the program is checked.
-/

namespace SsaFlow

/-- A change to one field of an instruction. -/
inductive InstrEdit where
  /-- Its id. -/
  | id (value : InstrId)
  /-- The function it names. -/
  | function (value : FuncId)
  /-- The block it names. -/
  | block (value : BlockId)
  /-- What it does. -/
  | op (value : Operation)
  /-- The expression it is bound to. -/
  | expr (value : Option ExprId)
  /-- The type of its value. -/
  | ty (value : Ty)

/-- The instruction with a field changed. -/
def InstrEdit.apply (i : Instr) : InstrEdit → Instr
  | id value => { i with id := value }
  | function value => { i with function := value }
  | block value => { i with block := value }
  | op value => { i with op := value }
  | expr value => { i with expr := value }
  | ty value => { i with ty := value }

/-- A change to a program. Functions, blocks and instructions are named by the
    keys under which they are stored. -/
inductive Edit where
  /-- Add a function. -/
  | add (function : Function)
  /-- Remove a function; the others keep their order. -/
  | remove (function : FuncId)
  /-- Give a function another name. -/
  | rename (function : FuncId) (name : String)
  /-- Give a function another id. -/
  | setId (function id : FuncId)
  /-- Add an empty block. -/
  | newBlock (function : FuncId)
  /-- Give a block another terminator. -/
  | terminate (function : FuncId) (block : BlockId) (terminator : Terminator)
  /-- List one more instruction in a block. -/
  | list (function : FuncId) (block : BlockId) (instr : InstrId)
  /-- Remove a block. -/
  | dropBlock (function : FuncId) (block : BlockId)
  /-- Remove an instruction; blocks go on listing it. -/
  | dropInstr (function : FuncId) (instr : InstrId)
  /-- Remove an expression. -/
  | dropExpr (function : FuncId) (expr : ExprId)
  /-- Let control start at another block. -/
  | setEntry (function : FuncId) (block : BlockId)
  /-- Store an instruction under a key. -/
  | insertInstr (function : FuncId) (key : InstrId) (instr : Instr)
  /-- Change an instruction. -/
  | editInstr (function : FuncId) (key : InstrId) (change : InstrEdit)

/-- How an edit ends. -/
inductive EditOutcome where
  /-- It is done, and there is nothing to tell. -/
  | done
  /-- A function that is no longer there, if there was one. -/
  | removed (id : Option FuncId)
  /-- A block. -/
  | block (id : BlockId)
  /-- What a block lists now. -/
  | listed (instrs : List InstrId)
  /-- Yes or no. -/
  | flag (value : Bool)
  /-- An instruction as it is now. -/
  | instr (value : Instr)
  /-- It is refused. -/
  | failed (cause : Error)
  /-- What it names is not there. -/
  | missing
  /-- The numbers for blocks are used up. -/
  | exhausted

namespace Program

/-- Replace a stored function, leaving the indexes as they are. -/
def put (p : Program) (key : FuncId) (f : Function) : Program :=
  { p with functions := p.functions.insert key f }

/-- An edit inside one function, which has to be there. -/
def editAt (p : Program) (key : FuncId) (change : Function → Function × EditOutcome) :
    Program × EditOutcome :=
  match p.function? key with
  | some f =>
    let (f, outcome) := change f
    (p.put key f, outcome)
  | none => (p, .missing)

end Program

namespace Function

/-- Change a block, which has to be there. -/
def editBlock (f : Function) (b : BlockId) (change : Block → Block)
    (outcome : Block → EditOutcome) : Function × EditOutcome :=
  match f.block? b with
  | some block =>
    ({ f with blocks := f.blocks.insert b (change block) }, outcome (change block))
  | none => (f, .missing)

end Function

namespace Program

/-- Make an edit. -/
def edit (p : Program) : Edit → Program × EditOutcome
  | .add f =>
    match p.add? f with
    | .ok p => (p, .done)
    | .error e => (p, .failed e)
  | .remove f =>
    ({ p with functions := p.functions.erase f }, .removed ((p.function? f).map Function.id))
  | .rename f name =>
    p.editAt f fun f => ({ f with signature := { f.signature with name := name } }, .done)
  | .setId f id => p.editAt f fun f => ({ f with id := id }, .done)
  | .newBlock f =>
    p.editAt f fun f =>
      match f.newBlock? with
      | some (b, f) => (f, .block b)
      | none => (f, .exhausted)
  | .terminate f b t =>
    p.editAt f fun f =>
      f.editBlock b (fun block => { block with terminator := t }) fun block =>
        .flag block.isTerminated
  | .list f b i =>
    p.editAt f fun f => f.editBlock b (fun block => block.append i) fun block =>
      .listed block.instrs
  | .dropBlock f b =>
    p.editAt f fun f => ({ f with blocks := f.blocks.erase b }, .flag (f.blocks.contains b))
  | .dropInstr f i =>
    p.editAt f fun f => ({ f with instrs := f.instrs.erase i }, .flag (f.instrs.contains i))
  | .dropExpr f e =>
    p.editAt f fun f => ({ f with exprs := f.exprs.erase e }, .flag (f.exprs.contains e))
  | .setEntry f b => p.editAt f fun f => ({ f with entry := b }, .block b)
  | .insertInstr f key i =>
    p.editAt f fun f =>
      ({ f with instrs := f.instrs.insert key i }, .flag (f.instrs.contains key))
  | .editInstr f key change =>
    p.editAt f fun f =>
      match f.instr? key with
      | some i =>
        ({ f with instrs := f.instrs.insert key (change.apply i) }, .instr (change.apply i))
      | none => (f, .missing)

end Program

end SsaFlow
