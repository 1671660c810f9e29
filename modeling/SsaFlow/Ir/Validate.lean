import SsaFlow.Ir.Program

/-! # Checking programs

    The structural rules that the analyses rely on:

    * every block has a terminator, and its targets are blocks of the function;
    * names and instruction ids lead, through the indexes, to the function that
      has them, and every instruction is stored under its own id;
    * every instruction is listed exactly once, in the block that it names;
    * operands and branch conditions are instructions of the same function,
      callees are functions of the program, and bound expressions and the
      operands of conversions are expressions of the same function.

    `flaws` lists every breach in the order in which a reader meets them, and
    `validate` reports the first.
-/

namespace SsaFlow

namespace Program

/-- The breach, if any, when function `f` uses instruction `i`. -/
def useFlaws (p : Program) (f : Function) (i : InstrId) : List Error :=
  match p.instrOwner.find? i with
  | some owner => if owner = f.id then [] else [.foreignUse f.name f.id i owner]
  | none => [.undefinedUse f.name i]

/-- The breaches of a block's end. -/
def blockFlaws (p : Program) (f : Function) (b : Block) : List Error :=
  (if b.isTerminated then [] else [.notTerminated b.id f.name]) ++
  ((b.successors.filter fun t => !f.blocks.contains t).map (.missingTarget b.id f.name)) ++
  (b.terminator.condition?.toList.flatMap (p.useFlaws f))

/-- The breach, if any, of the name index. -/
def nameFlaws (p : Program) (f : Function) : List Error :=
  if p.byName.find? f.name = some f.id then [] else [.nameShared f.name f.id]

/-- The breaches of one stored instruction against its key and the index. -/
def ownerFlaws (p : Program) (f : Function) (entry : InstrId × Instr) : List Error :=
  (if entry.1 = entry.2.id then [] else [.instrMisfiled entry.2.id entry.1 f.name]) ++
  (if p.instrOwner.find? entry.1 = some f.id then [] else [.instrShared entry.1 f.name])

/-- The breaches of one stored instruction by itself. -/
def instrFlaws (p : Program) (f : Function) (i : Instr) : List Error :=
  (if i.function = f.id then [] else [.wrongFunction i.id f.name i.function]) ++
  (i.operands.flatMap fun o => p.useFlaws f o.instr) ++
  (match i.op with
    | .call (.static callee) _ _ =>
      if p.functions.contains callee then [] else [.missingCallee i.id callee]
    | _ => []) ++
  (match i.expr with
    | some e => if f.exprs.contains e then [] else [.missingExpr i.id e]
    | none => [])

end Program

namespace Function

/-- Each listed id with the id of the block that lists it, in layout order. -/
def placed (f : Function) : List (BlockId × InstrId) :=
  f.blocks.values.flatMap fun b => b.instrs.map fun i => (b.id, i)

/-- The breaches of one listed id, given the ids that are listed before it. -/
def placeFlaws (f : Function) (before : List InstrId) (block : BlockId) (i : InstrId) :
    List Error :=
  if i ∈ before then [.listedTwice i f.name]
  else
    match f.instr? i with
    | some inst => if inst.block = block then [] else [.wrongBlock i block inst.block]
    | none => [.undefinedListed block f.name i]

/-- The breaches of all listed ids. -/
def placesFlaws (f : Function) : (before : List InstrId) → List (BlockId × InstrId) → List Error
  | _, [] => []
  | before, (block, i) :: rest =>
    f.placeFlaws before block i ++ f.placesFlaws (i :: before) rest

/-- The breaches of the layout: of the listed ids, and the instructions that no
    block lists. -/
def layoutFlaws (f : Function) : List Error :=
  f.placesFlaws [] f.placed ++
  ((f.instrs.keys.filter fun i => !f.listed.contains i).map fun i => .notListed i f.name)

/-- The breach, if any, of one expression. -/
def exprFlaws (f : Function) (e : Expr) : List Error :=
  match e.kind with
  | .conversion (some operand) =>
    if f.exprs.contains operand then [] else [.missingOperand e.id operand]
  | _ => []

end Function

namespace Program

/-- The breaches of one function, in the order in which they are met. -/
def functionFlaws (p : Program) (f : Function) : List Error :=
  f.blocks.values.flatMap (p.blockFlaws f) ++
  p.nameFlaws f ++
  f.instrs.entries.flatMap (p.ownerFlaws f) ++
  f.layoutFlaws ++
  f.instrs.values.flatMap (p.instrFlaws f) ++
  f.exprs.values.flatMap f.exprFlaws

/-- The breaches of the whole program. -/
def flaws (p : Program) : List Error := p.functions.values.flatMap p.functionFlaws

/-- Refuse a program that breaks a rule, with the first breach. -/
def validate (p : Program) : Except Error Unit :=
  match p.flaws with
  | [] => .ok ()
  | e :: _ => .error e

end Program

end SsaFlow
