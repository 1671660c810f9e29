import SsaFlow.Ir.Program

/-! # Listings

    Programs as text: a line for each instruction and each terminator, under
    their block's name.
-/

namespace SsaFlow

/-! ### Words -/

/-- The word for a computation. -/
def BinaryOp.word : BinaryOp → String
  | add => "add"
  | sub => "sub"
  | mul => "mul"
  | div => "div"
  | rem => "rem"
  | and => "and"
  | or => "or"
  | xor => "xor"
  | shl => "shl"
  | shr => "shr"
  | pointerAdd => "ptradd"

/-- The word for a comparison. -/
def CompareOp.word : CompareOp → String
  | eq => "eq"
  | ne => "ne"
  | lt => "lt"
  | le => "le"
  | gt => "gt"
  | ge => "ge"

/-- The word for a conversion. -/
def Conversion.word : Conversion → String
  | plain => "convert"
  | checked => "checked_convert"
  | toBase => "to_base"
  | toDerived => "to_derived"

/-- Texts with a comma and a blank between them. -/
def commas (l : List String) : String := String.intercalate ", " l

/-! ### Lines -/

/-- What is called, with the word for how. -/
def CallTarget.text : CallTarget → String
  | static callee => "call " ++ callee.text
  | indirect callee => "call_indirect " ++ callee.text

/-- An operation as it is shown. -/
def Operation.text : Operation → String
  | constant value => "const " ++ value.text
  | variableAddress name => "addr &" ++ name
  | parameter index => "init_param #" ++ toString index.toNat
  | receiver => "init_this"
  | copy source => "copy " ++ source.text
  | load address source => "load [" ++ address.text ++ "], " ++ source.text
  | store address value => "store [" ++ address.text ++ "], " ++ value.text
  | phi incoming =>
    "phi " ++ commas (incoming.map fun e => "[" ++ e.1.text ++ ": " ++ e.2.text ++ "]")
  | convert how operand => how.word ++ " " ++ operand.text
  | chi total part => "chi total:" ++ total.text ++ ", partial:" ++ part.text
  | binary op left right => op.word ++ " " ++ left.text ++ ", " ++ right.text
  | compare op left right => "cmp " ++ op.word ++ " " ++ left.text ++ ", " ++ right.text
  | call target arguments object =>
    target.text ++ "(" ++
      commas (object.toList.map (fun o => "this=" ++ o.text) ++ arguments.map InstrId.text) ++ ")"
  | sideEffect source index =>
    "write_side_effect " ++ source.text ++ "[" ++ toString index.toInt ++ "]"
  | ret (some value) => "ret " ++ value.text
  | ret none => "ret"

/-- An instruction as it is shown. -/
def Instr.text (i : Instr) : String := i.id.text ++ ": " ++ i.ty.text ++ " = " ++ i.op.text

/-- A terminator as it is shown. -/
def Terminator.text : Terminator → String
  | jump target => "jump " ++ target.text
  | branch condition thenBlock elseBlock =>
    "brif " ++ condition.text ++ ", " ++ thenBlock.text ++ ", " ++ elseBlock.text
  | ret => "return"
  | unreachable => "unreachable"
  | unset => "<unterminated>"

/-- A line inside a block. -/
def indented (s : String) : String := "    " ++ s ++ "\n"

/-- A block of a function as it is shown. -/
def Block.text (f : Function) (b : Block) : String :=
  b.id.text ++ ":\n" ++
    String.join ((b.instrs.filterMap f.instr?).map fun i => indented i.text) ++
    indented b.terminator.text

/-- The first line of a function, without the brace. -/
def Signature.text (s : Signature) : String :=
  "function %" ++ s.name ++ "(" ++
    commas (s.thisType.toList.map (fun t => "this: " ++ t.text ++ "*") ++
      s.params.map fun p => p.name ++ ": " ++ p.ty.text) ++
    ") -> " ++ s.returns.text

/-- A function as it is shown. -/
def Function.text (f : Function) : String :=
  f.signature.text ++ " \x7b\n" ++ String.join (f.blocks.values.map (Block.text f)) ++ "\x7d\n"

/-- A program as it is shown: its functions, each followed by an empty line. -/
def Program.text (p : Program) : String :=
  String.join (p.functions.values.map fun f => f.text ++ "\n")

end SsaFlow
