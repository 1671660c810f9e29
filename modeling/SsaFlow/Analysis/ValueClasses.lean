import SsaFlow.Analysis.ControlFlow

/-! # Value classes

    A numbering of a function's instructions: two instructions with the same
    number compute the same value whenever both are evaluated.

    * A copy takes its source's number.
    * Constants are numbered by value and type; computations, comparisons and
      conversions by what they do and the numbers of their operands, and loads
      by the numbers of the address and of the memory they read.
    * Everything else gets a number of its own, and so does whatever uses an
      instruction that has no number yet.

    Blocks are visited in reverse postorder, then the unreachable ones in layout
    order.
-/

namespace SsaFlow

/-- The shape of a computation, with numbers for its operands. -/
inductive ValueShape where
  /-- A constant and its type. -/
  | constant (value : Constant) (ty : Ty)
  /-- A computation with two operands. -/
  | binary (op : BinaryOp) (ty : Ty) (left right : Nat)
  /-- A comparison. -/
  | compare (op : CompareOp) (left right : Nat)
  /-- A conversion. -/
  | convert (how : Conversion) (ty : Ty) (operand : Nat)
  /-- A read of some memory at some address. -/
  | load (ty : Ty) (address memory : Nat)
  deriving DecidableEq

/-- How an instruction gets its number. -/
inductive Numbered where
  /-- It takes a number that is in use. -/
  | same (number : Nat)
  /-- It shares a number with all instructions of its shape. -/
  | shaped (key : ValueShape)
  /-- It gets a number of its own. -/
  | own

/-- The numbering of the instructions that have been visited. -/
structure ValueClasses where
  /-- The visited instructions with the numbers they were given, in order. -/
  given : List (InstrId × Nat)
  /-- The number of each shape. -/
  shapes : List (ValueShape × Nat)
  /-- The next number. It has no bound, where a counter of 32 bits ends at 2^32. That
      makes no difference to a function that lists fewer instructions, since every
      number below the next was given in some visit (`ValueClasses.Gapless`). -/
  next : Nat

namespace ValueClasses

/-- Nothing has a number. -/
def empty : ValueClasses := ⟨[], [], 0⟩

/-- The number of an instruction: the last one it was given. -/
def number? (v : ValueClasses) (i : InstrId) : Option Nat :=
  (v.given.reverse.find? fun e => e.1 = i).map Prod.snd

/-- The numbers of two operands, the smaller first if they may be exchanged. -/
def ordered (op : BinaryOp) (l r : Nat) : Nat × Nat :=
  if op.isCommutative && r < l then (r, l) else (l, r)

/-- How an instruction gets its number. -/
def classify (v : ValueClasses) (op : Operation) (ty : Ty) : Numbered :=
  match op with
  | .constant value => .shaped (.constant value ty)
  | .copy source =>
    match v.number? source with
    | some n => .same n
    | none => .own
  | .binary op left right =>
    match v.number? left, v.number? right with
    | some l, some r => .shaped (.binary op ty (ordered op l r).1 (ordered op l r).2)
    | _, _ => .own
  | .compare op left right =>
    match v.number? left, v.number? right with
    | some l, some r => .shaped (.compare op l r)
    | _, _ => .own
  | .convert how operand =>
    match v.number? operand with
    | some n => .shaped (.convert how ty n)
    | none => .own
  | .load address source =>
    match v.number? address, v.number? source with
    | some a, some m => .shaped (.load ty a m)
    | _, _ => .own
  | _ => .own

/-- Give an instruction a number that is in use. -/
def give (v : ValueClasses) (i : InstrId) (n : Nat) : ValueClasses :=
  { v with given := v.given ++ [(i, n)] }

/-- Give an instruction the next number. -/
def giveNext (v : ValueClasses) (i : InstrId) : ValueClasses :=
  { v with given := v.given ++ [(i, v.next)], next := v.next + 1 }

/-- Visit an instruction, which is listed as `i`. -/
def visit (v : ValueClasses) (i : InstrId) (inst : Instr) : ValueClasses :=
  match v.classify inst.op inst.ty with
  | .same n => v.give i n
  | .own => v.giveNext i
  | .shaped key =>
    match v.shapes.find? fun e => e.1 = key with
    | some e => v.give i e.2
    | none => { v.giveNext i with shapes := v.shapes ++ [(key, v.next)] }

end ValueClasses

/-- The blocks in the order in which values are numbered. -/
def Function.visitOrder (f : Function) : List BlockId :=
  let order := (ControlFlow.of f).reversePostorder
  order ++ f.blocks.keys.filter fun b => !order.contains b

/-- The instructions in the order in which they are numbered, each under the id
    by which it is listed. -/
def Function.visits (f : Function) : List (InstrId × Instr) :=
  ((f.visitOrder.filterMap f.block?).flatMap Block.instrs).filterMap fun i =>
    (f.instr? i).map fun inst => (i, inst)

namespace ValueClasses

/-- The value classes of a function. -/
def of (f : Function) : ValueClasses := f.visits.foldl (fun v e => v.visit e.1 e.2) empty

/-- Whether two instructions have the same number. -/
def sameNumber (v : ValueClasses) (a b : InstrId) : Bool :=
  match v.number? a, v.number? b with
  | some m, some n => m = n
  | _, _ => false

/-- The instructions that were given a number, in the order of the visits. -/
def membersOf (v : ValueClasses) (n : Nat) : List InstrId :=
  (v.given.filter fun e => e.2 = n).map Prod.fst

/-- The class of an instruction; empty if it has no number. -/
def classOf (v : ValueClasses) (i : InstrId) : List InstrId :=
  match v.number? i with
  | some n => v.membersOf n
  | none => []

/-- The classes with more than one member. -/
def congruent (v : ValueClasses) : List (List InstrId) :=
  ((List.range v.next).map v.membersOf).filter fun l => l.length > 1

end ValueClasses

end SsaFlow
