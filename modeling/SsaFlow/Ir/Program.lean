import SsaFlow.Ir.Error
import SsaFlow.Ir.Function

/-! # Programs

    A program is a list of functions and three indexes: from names to functions,
    and from instruction and expression ids to the functions that own them.
    `add?` keeps the indexes in step with the functions. They are data of their
    own all the same, since a function can be changed after it was added, and
    every look-up by name or by id goes through them.
-/

namespace SsaFlow

/-- A program. -/
structure Program where
  /-- The functions, in the order in which they were added. -/
  functions : OrderedMap FuncId Function
  /-- The function of each name. -/
  byName : OrderedMap String FuncId
  /-- The function that owns each instruction. -/
  instrOwner : OrderedMap InstrId FuncId
  /-- The function that owns each expression. -/
  exprOwner : OrderedMap ExprId FuncId
  deriving Inhabited

/-- How large a program is. -/
structure Stats where
  /-- The number of functions. -/
  functions : Nat
  /-- The number of blocks of all functions. -/
  blocks : Nat
  /-- The number of indexed instructions. -/
  instrs : Nat
  /-- The number of indexed expressions. -/
  exprs : Nat
  deriving DecidableEq

namespace Program

/-- The program without functions. -/
def empty : Program := ⟨.empty, .empty, .empty, .empty⟩

/-! ### Adding functions -/

/-- Record `f` as the owner of every key in a list. -/
def claim {κ : Type} [DecidableEq κ] [Coded κ] (index : OrderedMap κ FuncId) (keys : List κ)
    (f : FuncId) : OrderedMap κ FuncId :=
  index.insertAll (keys.map fun k => (k, f))

/-- The program with one more function, indexed. -/
def insert (p : Program) (f : Function) : Program where
  functions := p.functions.insert f.id f
  byName := p.byName.insert f.name f.id
  instrOwner := claim p.instrOwner f.instrs.keys f.id
  exprOwner := claim p.exprOwner f.exprs.keys f.id

/-- Add a function at the end. Its id, its name and its instructions must be
    new; expressions that another function owns change hands. -/
def add? (p : Program) (f : Function) : Except Error Program :=
  if p.functions.contains f.id then .error (.functionIdTaken f.id)
  else if p.byName.contains f.name then .error (.functionNameTaken f.name)
  else
    match f.instrs.keys.find? fun i => p.instrOwner.contains i with
    | some i => .error (.instrTaken i)
    | none => .ok (p.insert f)

/-- Add a function that is stored under a key, which has to be its own id. -/
def addEntry? (p : Program) (e : FuncId × Function) : Except Error Program :=
  if e.1 = e.2.id then p.add? e.2 else .error (.functionMisfiled e.2.id e.1)

/-- The program of a list of functions, each given with the id under which it
    is stored. -/
def ofEntries? (entries : List (FuncId × Function)) : Except Error Program :=
  entries.foldlM addEntry? empty

/-! ### Looking things up -/

/-- The function stored under an id. -/
def function? (p : Program) (f : FuncId) : Option Function := p.functions.find? f

/-- The function of a name. -/
def named? (p : Program) (name : String) : Option Function :=
  (p.byName.find? name).bind p.function?

/-- The function of a name, which has to be there. -/
def require (p : Program) (name : String) : Except Error Function :=
  match p.named? name with
  | some f => .ok f
  | none => .error (.functionNotFound name)

/-- The instruction of an id, in the function that owns it. -/
def instr? (p : Program) (i : InstrId) : Option Instr := do
  let owner ← p.instrOwner.find? i
  let f ← p.function? owner
  f.instr? i

/-- The expression of an id, in the function that owns it. -/
def expr? (p : Program) (e : ExprId) : Option Expr := do
  let owner ← p.exprOwner.find? e
  let f ← p.function? owner
  f.expr? e

/-- The listed instructions of all functions, in order. -/
def listing (p : Program) : List Instr := p.functions.values.flatMap Function.listing

/-- How large the program is. -/
def stats (p : Program) : Stats where
  functions := p.functions.size
  blocks := p.functions.values.foldl (fun n f => n + f.blocks.size) 0
  instrs := p.instrOwner.size
  exprs := p.exprOwner.size

end Program

end SsaFlow
