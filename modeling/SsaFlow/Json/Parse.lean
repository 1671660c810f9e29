import SsaFlow.Json.Token

/-! # Reading JSON trees

    The second half of reading: tokens to a tree, by a pushdown machine that
    takes one token a step. Its stack holds the containers that are open; its
    state says what may come next.

    * `run` stops as soon as the tree is complete and hands back the tokens it
      has not looked at.
    * `parse?` reads the tree at the front of a text, `parseAll?` a text that is
      one tree and nothing else.
-/

namespace SsaFlow.Json

/-- A container that is open around the value being read. -/
inductive Frame where
  /-- An array, with its items so far, last first. -/
  | arr (items : List Json)
  /-- An object, with its members so far, last first, and the name whose value
      is being read. -/
  | obj (members : List (Lexeme × Json)) (name : Lexeme)

/-- What has been read, and what may come next. -/
inductive State where
  /-- A value must come. -/
  | value (stack : List Frame)
  /-- Right after an opening bracket: a value or the closing bracket. -/
  | firstItem (stack : List Frame)
  /-- After an item: a comma or the closing bracket. -/
  | afterItem (stack : List Frame) (items : List Json)
  /-- Right after an opening brace: a name or the closing brace. -/
  | firstName (stack : List Frame)
  /-- After a comma in an object: a name. -/
  | name (stack : List Frame) (members : List (Lexeme × Json))
  /-- After a name: a colon. -/
  | colon (stack : List Frame) (members : List (Lexeme × Json)) (name : Lexeme)
  /-- After a member: a comma or the closing brace. -/
  | afterMember (stack : List Frame) (members : List (Lexeme × Json))
  /-- The tree is complete. -/
  | complete (tree : Json)

/-- The state after a whole value: it belongs to the innermost open container,
    or it is the tree itself. -/
def close (stack : List Frame) (value : Json) : State :=
  match stack with
  | [] => .complete value
  | .arr items :: rest => .afterItem rest (value :: items)
  | .obj members name :: rest => .afterMember rest ((name, value) :: members)

/-- The state after the first token of a value. -/
def start (stack : List Frame) : Token → Option State
  | .openArr => some (.firstItem stack)
  | .openObj => some (.firstName stack)
  | .null => some (close stack .null)
  | .bool b => some (close stack (.bool b))
  | .num n => some (close stack (.num n))
  | .str l => some (close stack (.str l))
  | _ => none

/-- One token. -/
def step : State → Token → Option State
  | .value stack, t => start stack t
  | .firstItem stack, .closeArr => some (close stack (.arr []))
  | .firstItem stack, t => start (.arr [] :: stack) t
  | .afterItem stack items, .comma => some (.value (.arr items :: stack))
  | .afterItem stack items, .closeArr => some (close stack (.arr items.reverse))
  | .firstName stack, .closeObj => some (close stack (.obj []))
  | .firstName stack, .str n => some (.colon stack [] n)
  | .name stack members, .str n => some (.colon stack members n)
  | .colon stack members n, .colon => some (.value (.obj members n :: stack))
  | .afterMember stack members, .comma => some (.name stack members)
  | .afterMember stack members, .closeObj => some (close stack (.obj members.reverse))
  | _, _ => none

/-- Read tokens until the tree is complete. -/
def run : State → List Token → Option (Json × List Token)
  | .complete tree, rest => some (tree, rest)
  | _, [] => none
  | s, t :: rest =>
    match step s t with
    | some s' => run s' rest
    | none => none

/-- The tree at the front of a text, and the tokens after it. -/
def parse? (text : String) : Option (Json × List Token) :=
  run (.value []) (tokens text.toList)

/-- The tree of a text that holds one tree and nothing else. -/
def parseAll? (text : String) : Option Json :=
  match parse? text with
  | some (tree, []) => some tree
  | _ => none

end SsaFlow.Json
