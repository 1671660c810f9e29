import SsaFlow.Json.Basic

/-! # Writing JSON trees

    One printer with two styles: `compact` puts nothing between the tokens,
    `pretty` gives every item and member a line of its own, two columns deeper
    than its container, and writes an empty container on one line.
-/

namespace SsaFlow.Json

/-- Where blanks go. -/
structure Style where
  /-- What stands before an item at the given depth, and before the closing
      mark of a container at that depth. -/
  gap : Nat → List Char
  /-- What stands between a name and its value. -/
  colon : List Char

/-- No blanks at all. -/
def Style.compact : Style := ⟨fun _ => [], [':']⟩

/-- A line for each item. -/
def Style.pretty : Style := ⟨fun depth => '\n' :: List.replicate (2 * depth) ' ', [':', ' ']⟩

/-- A quoted text. -/
def quote (l : Lexeme) : List Char := '"' :: l ++ ['"']

/-- A number literal. Minus zero stands for the literals whose value is not
    kept. -/
def Number.render : Number → List Char
  | .int z => (toString z).toList
  | .other => ['-', '0']

mutual

/-- A tree at the given depth. -/
def render (style : Style) (depth : Nat) : Json → List Char
  | .null => ['n', 'u', 'l', 'l']
  | .bool true => ['t', 'r', 'u', 'e']
  | .bool false => ['f', 'a', 'l', 's', 'e']
  | .num n => n.render
  | .str l => quote l
  | .arr [] => ['[', ']']
  | .arr (item :: items) =>
    '[' :: style.gap (depth + 1) ++ render style (depth + 1) item ++
      renderItems style (depth + 1) items ++ style.gap depth ++ [']']
  | .obj [] => ['\x7b', '\x7d']
  | .obj ((name, value) :: members) =>
    '\x7b' :: style.gap (depth + 1) ++ quote name ++ style.colon ++
      render style (depth + 1) value ++ renderMembers style (depth + 1) members ++
      style.gap depth ++ ['\x7d']

/-- The items after the first, each behind a comma. -/
def renderItems (style : Style) (depth : Nat) : List Json → List Char
  | [] => []
  | item :: items =>
    ',' :: style.gap depth ++ render style depth item ++ renderItems style depth items

/-- The members after the first, each behind a comma. -/
def renderMembers (style : Style) (depth : Nat) : List (Lexeme × Json) → List Char
  | [] => []
  | (name, value) :: members =>
    ',' :: style.gap depth ++ quote name ++ style.colon ++ render style depth value ++
      renderMembers style depth members

end

/-- The tree on one line, without blanks. -/
def compact (j : Json) : String := String.ofList (render .compact 0 j)

/-- The tree over several lines. -/
def pretty (j : Json) : String := String.ofList (render .pretty 0 j)

end SsaFlow.Json
