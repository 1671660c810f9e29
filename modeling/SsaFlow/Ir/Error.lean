import SsaFlow.Ir.Ids
import SsaFlow.Text.Quoted

/-! # Errors

    Everything that can go wrong with a program, by cause: while functions are
    put together, while a step of construction is taken, and when a program is
    checked. The wording is in `Error.message` alone.
-/

namespace SsaFlow

/-- What is wrong. Functions are given by name where the message names them. -/
inductive Error where
  /-- A function with this id is there already. -/
  | functionIdTaken (id : FuncId)
  /-- A function with this name is there already. -/
  | functionNameTaken (name : String)
  /-- An instruction of the new function belongs to another function. -/
  | instrTaken (id : InstrId)
  /-- A function is stored under another id than its own. -/
  | functionMisfiled (id key : FuncId)
  /-- No function has this name. -/
  | functionNotFound (name : String)
  /-- A block has no terminator. -/
  | notTerminated (block : BlockId) (function : String)
  /-- A terminator names a block that does not exist. -/
  | missingTarget (block : BlockId) (function : String) (target : BlockId)
  /-- An instruction of another function is used. -/
  | foreignUse (function : String) (id : FuncId) (used : InstrId) (owner : FuncId)
  /-- An instruction that does not exist is used. -/
  | undefinedUse (function : String) (used : InstrId)
  /-- The name of a function leads to another function. -/
  | nameShared (name : String) (id : FuncId)
  /-- An instruction is stored under another id than its own. -/
  | instrMisfiled (id key : InstrId) (function : String)
  /-- An instruction belongs to another function as well. -/
  | instrShared (key : InstrId) (function : String)
  /-- An instruction is listed twice. -/
  | listedTwice (id : InstrId) (function : String)
  /-- An instruction is listed in another block than the one it names. -/
  | wrongBlock (id : InstrId) (listing claimed : BlockId)
  /-- A block lists an instruction that does not exist. -/
  | undefinedListed (block : BlockId) (function : String) (id : InstrId)
  /-- An instruction is listed nowhere. -/
  | notListed (id : InstrId) (function : String)
  /-- An instruction names another function than the one that holds it. -/
  | wrongFunction (id : InstrId) (function : String) (claimed : FuncId)
  /-- A call names a function that does not exist. -/
  | missingCallee (id : InstrId) (callee : FuncId)
  /-- An instruction is bound to an expression that does not exist. -/
  | missingExpr (id : InstrId) (expr : ExprId)
  /-- A conversion wraps an expression that does not exist. -/
  | missingOperand (id operand : ExprId)
  /-- The function has no parameter at this position. -/
  | noParameter (function : String) (index : UInt64)
  /-- The function has no receiver. -/
  | notMember (function : String)
  /-- The function under construction has no such expression. -/
  | noExpr (id : ExprId)
  /-- The function under construction has no such instruction. -/
  | noInstr (id : InstrId)
  /-- The instruction is no phi. -/
  | notPhi (id : InstrId) (opcode : String)
  /-- The function under construction has no such block. -/
  | noBlock (id : BlockId)
  /-- The open block is not stored. -/
  | lostBlock (id : BlockId)
  /-- The block has its terminator already. -/
  | alreadyTerminated (id : BlockId)
  /-- Mistakes were noted during construction. -/
  | mistakes (notes : List String)
  /-- A declared function was never built. -/
  | neverBuilt (name : String)
  deriving DecidableEq

/-- The classes of errors. -/
inductive Error.Class where
  /-- Something is not well formed. -/
  | invalid
  /-- A step of construction is refused. -/
  | builder
  /-- A function was asked for that does not exist. -/
  | notFound
  deriving DecidableEq

namespace Error

/-- The class of an error. -/
def cls : Error → Class
  | functionIdTaken _ => .builder
  | functionNameTaken _ => .builder
  | instrTaken _ => .builder
  | functionNotFound _ => .notFound
  | noParameter _ _ => .builder
  | notMember _ => .builder
  | noExpr _ => .builder
  | noInstr _ => .builder
  | noBlock _ => .builder
  | lostBlock _ => .builder
  | alreadyTerminated _ => .builder
  | mistakes _ => .builder
  | neverBuilt _ => .builder
  | _ => .invalid

/-- What the message says about the class. -/
def Class.text : Class → String
  | invalid => "Invalid instruction: "
  | builder => "Builder error: "
  | notFound => "Function not found: "

/-- What the message says about the cause. -/
def detail : Error → String
  | functionIdTaken id => "Function " ++ id.text ++ " already exists"
  | functionNameTaken name => "Function " ++ name ++ " already exists"
  | instrTaken id => "Instruction " ++ id.text ++ " is defined in more than one function"
  | functionMisfiled id key => id.text ++ " is stored under " ++ key.text
  | functionNotFound name => name
  | notTerminated block function => block.text ++ " in " ++ function ++ " has no terminator"
  | missingTarget block function target =>
    block.text ++ " in " ++ function ++ " jumps to missing " ++ target.text
  | foreignUse function id used owner =>
    function ++ " in " ++ id.text ++ " uses " ++ used.text ++ " from " ++ owner.text
  | undefinedUse function used => function ++ " uses undefined " ++ used.text
  | nameShared name id => "name " ++ name ++ " of " ++ id.text ++ " is shared with another function"
  | instrMisfiled id key function =>
    id.text ++ " is stored under " ++ key.text ++ " in " ++ function
  | instrShared key function =>
    key.text ++ " of " ++ function ++ " is defined in more than one function"
  | listedTwice id function => id.text ++ " is listed more than once in " ++ function
  | wrongBlock id listing claimed =>
    id.text ++ " is listed in " ++ listing.text ++ " but claims " ++ claimed.text
  | undefinedListed block function id =>
    block.text ++ " in " ++ function ++ " lists undefined " ++ id.text
  | notListed id function => id.text ++ " of " ++ function ++ " is not listed in any block"
  | wrongFunction id function claimed =>
    id.text ++ " is stored in " ++ function ++ " but claims " ++ claimed.text
  | missingCallee id callee => id.text ++ " calls missing function " ++ callee.text
  | missingExpr id expr => id.text ++ " refers to missing expression " ++ expr.text
  | missingOperand id operand =>
    "conversion " ++ id.text ++ " wraps missing expression " ++ operand.text
  | noParameter function index =>
    function ++ " has no parameter at index " ++ toString index.toNat
  | notMember function => function ++ " is not a member function"
  | noExpr id => "Expression " ++ id.text ++ " does not exist in function"
  | noInstr id => id.text ++ " is not in this function"
  | notPhi id opcode => id.text ++ " is a " ++ opcode ++ ", not a phi"
  | noBlock id => "Block " ++ id.text ++ " does not exist in function"
  | lostBlock id => "Block " ++ id.text ++ " not found"
  | alreadyTerminated id => "Block " ++ id.text ++ " is already terminated"
  | mistakes notes => "IR building errors: " ++ Text.quoteList notes
  | neverBuilt name => "Function " ++ name ++ " was declared but never built"

/-- The message of an error. -/
def message (e : Error) : String := e.cls.text ++ e.detail

end Error

end SsaFlow
