import MeshExchange.Text.Decimal
import MeshExchange.Text.Hexadecimal

/-!
# JSON values and their text

A JSON value, as far as data of this library can tell values apart: numbers with a fraction or an
exponent, and minus zero, are no integers and need no further account. A string may escape a surrogate
without its partner; it is then no text, and neither equals any key nor yields any value.

**Results.**
* `Json`: the values;
* `Json.write`: the text of a value, without blanks.
-/

namespace MeshExchange

/-- A JSON value. -/
inductive Json
  | null
  | bool (value : Bool)
  | integer (value : Int)
  /-- A number that is not written as an integer. -/
  | fraction
  /-- A string; none if it is no text. -/
  | text (value : Option String)
  | array (items : List Json)
  | object (members : List (Option String × Json))

namespace Json

section Strings

/-- A character of a string: quote and backslash are escaped, and so are control characters. -/
def escape (c : Char) : List Char :=
  if c = '"' then ['\\', '"']
  else if c = '\\' then ['\\', '\\']
  else if c = '\x08' then ['\\', 'b']
  else if c = '\x0c' then ['\\', 'f']
  else if c = '\n' then ['\\', 'n']
  else if c = '\r' then ['\\', 'r']
  else if c = '\t' then ['\\', 't']
  else if c.toNat < 0x20 then
    ['\\', 'u', '0', '0', Hexadecimal.lowerDigit (c.toNat / 16),
      Hexadecimal.lowerDigit (c.toNat % 16)]
  else [c]

/-- The text of a string between its quotes. -/
def writeText : Option String → List Char
  | some s => '"' :: s.toList.flatMap escape ++ ['"']
  | none => ['"', '\\', 'u', 'd', '8', '0', '0', '"']

end Strings

section Values

mutual

/-- The text of a value. -/
def write : Json → List Char
  | .null => ['n', 'u', 'l', 'l']
  | .bool true => ['t', 'r', 'u', 'e']
  | .bool false => ['f', 'a', 'l', 's', 'e']
  | .integer n => Decimal.ofInt n
  | .fraction => ['0', '.', '0']
  | .text t => writeText t
  | .array items => '[' :: writeItems items ++ [']']
  | .object members => '\x7b' :: writeMembers members ++ ['\x7d']

/-- The texts of items with commas between them. -/
def writeItems : List Json → List Char
  | [] => []
  | [item] => write item
  | item :: items => write item ++ ',' :: writeItems items

/-- The texts of members with commas between them. -/
def writeMembers : List (Option String × Json) → List Char
  | [] => []
  | [(key, value)] => writeText key ++ ':' :: write value
  | (key, value) :: members =>
      writeText key ++ ':' :: write value ++ ',' :: writeMembers members

end

end Values

end Json
end MeshExchange
