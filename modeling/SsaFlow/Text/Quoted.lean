import SsaFlow.Text.Combining
import SsaFlow.Text.Hidden

/-! # Quoted text in messages

    A text as it is shown inside a message: between double quotes, and with an
    escape for every character that a reader could not see or tell apart.

    * The quote, the backslash and four controls have an escape of two
      characters.
    * Characters without a shape and combining characters are written by their
      number in hexadecimal, between braces.
-/

namespace SsaFlow.Text

/-- The number of a character in hexadecimal, between braces. -/
def braced (c : Char) : List Char :=
  '\\' :: 'u' :: '\x7b' :: Nat.toDigits 16 c.toNat ++ ['\x7d']

/-- One character as it is shown inside quotes. -/
def quoteChar (c : Char) : List Char :=
  if c = '"' then ['\\', '"']
  else if c = '\\' then ['\\', '\\']
  else if c = '\n' then ['\\', 'n']
  else if c = '\r' then ['\\', 'r']
  else if c = '\t' then ['\\', 't']
  else if c.toNat = 0 then ['\\', '0']
  else if isCombining c || isHidden c then braced c
  else [c]

/-- A text as it is shown inside a message. -/
def quote (s : String) : String :=
  String.ofList ('"' :: s.toList.flatMap quoteChar ++ ['"'])

/-- A list of texts as it is shown inside a message. -/
def quoteList (l : List String) : String :=
  "[" ++ String.intercalate ", " (l.map quote) ++ "]"

end SsaFlow.Text
