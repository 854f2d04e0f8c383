import MeshExchange.Json.Value

/-!
# Reading JSON

**Input.** A row of characters.

**Results.**
* `Json.parse`: the one value that the whole text holds, if it is JSON. Blanks are space, tab, line
  feed and carriage return; numbers have no leading zero and no plus sign; strings hold no raw control
  character; no comma is left over.
-/

namespace MeshExchange
namespace Json

section Blanks

/-- What may stand between the tokens. -/
def isSpace (c : Char) : Bool := c == ' ' || c == '\t' || c == '\n' || c == '\r'

/-- The text from its first token on. -/
def skip (cs : List Char) : List Char := cs.dropWhile isSpace

end Blanks

section Strings

/-- A piece of a string: a character, or an escaped unit of two bytes. -/
inductive Piece
  | char (c : Char)
  | unit (n : Nat)
  deriving DecidableEq, Repr

/-- The unit that four hexadecimal digits denote. -/
def unit? (a b c d : Char) : Option Nat := do
  let a ← Hexadecimal.value? a
  let b ← Hexadecimal.value? b
  let c ← Hexadecimal.value? c
  let d ← Hexadecimal.value? d
  return ((a * 16 + b) * 16 + c) * 16 + d

/-- The character that a backslash and a letter stand for. -/
def escaped? : Char → Option Char
  | '"' => some '"'
  | '\\' => some '\\'
  | '/' => some '/'
  | 'b' => some '\x08'
  | 'f' => some '\x0c'
  | 'n' => some '\n'
  | 'r' => some '\r'
  | 't' => some '\t'
  | _ => none

/-- The pieces of a string up to its closing quote, and what follows it. -/
def pieces : List Char → Option (List Piece × List Char)
  | [] => none
  | '"' :: rest => some ([], rest)
  | '\\' :: 'u' :: a :: b :: c :: d :: rest => do
      let n ← unit? a b c d
      let (ps, rest) ← pieces rest
      return (.unit n :: ps, rest)
  | '\\' :: e :: rest => do
      let c ← escaped? e
      let (ps, rest) ← pieces rest
      return (.char c :: ps, rest)
  | c :: rest =>
      if c.toNat < 0x20 then none
      else do
        let (ps, rest) ← pieces rest
        return (.char c :: ps, rest)

/-- The first unit of a pair. -/
def isHigh (n : Nat) : Bool := 0xD800 ≤ n && n < 0xDC00

/-- The second unit of a pair. -/
def isLow (n : Nat) : Bool := 0xDC00 ≤ n && n < 0xE000

/-- The characters of a string, whose pairs of units are complete. -/
def characters : List Piece → Option (List Char)
  | [] => some []
  | .char c :: rest => (characters rest).map (c :: ·)
  | .unit h :: .unit l :: rest =>
      if isHigh h then
        if isLow l then
          (characters rest).map (Char.ofNat (0x10000 + (h - 0xD800) * 0x400 + (l - 0xDC00)) :: ·)
        else none
      else if isLow h then none
      else (characters (.unit l :: rest)).map (Char.ofNat h :: ·)
  | .unit n :: rest =>
      if isHigh n || isLow n then none else (characters rest).map (Char.ofNat n :: ·)

/-- The string behind its opening quote, and what follows it. -/
def readText (cs : List Char) : Option (Option String × List Char) :=
  (pieces cs).map fun (ps, rest) => ((characters ps).map String.ofList, rest)

end Strings

section Numbers

/-- Whether a character is a decimal digit. -/
def isDigit (c : Char) : Bool := '0' ≤ c && c ≤ '9'

/-- At least one digit, and what follows them. -/
def digits (cs : List Char) : Option (List Char × List Char) :=
  match cs.takeWhile isDigit with
  | [] => none
  | ds => some (ds, cs.dropWhile isDigit)

/-- The digits of an integer without a leading zero, and what follows them. -/
def wholeDigits (cs : List Char) : Option (List Char × List Char) :=
  (digits cs).bind fun
    | ('0' :: _ :: _, _) => none
    | found => some found

/-- What follows the digits behind a point; none if there is no digit. -/
def skipFraction : List Char → Option (Bool × List Char)
  | '.' :: rest => (digits rest).map fun (_, rest) => (true, rest)
  | cs => some (false, cs)

/-- What follows a sign, if there is one. -/
def skipSign : List Char → List Char
  | '+' :: rest | '-' :: rest => rest
  | cs => cs

/-- What follows an exponent; none if it has no digit. -/
def skipExponent : List Char → Option (Bool × List Char)
  | 'e' :: rest | 'E' :: rest => (digits (skipSign rest)).map fun (_, rest) => (true, rest)
  | cs => some (false, cs)

/-- A number without its sign, and what follows it. -/
def readMagnitude (negative : Bool) (cs : List Char) : Option (Json × List Char) := do
  let (ds, rest) ← wholeDigits cs
  let (hasFraction, rest) ← skipFraction rest
  let (hasExponent, rest) ← skipExponent rest
  let n ← Decimal.value? ds
  if hasFraction || hasExponent || (negative && n == 0) then return (.fraction, rest)
  else return (.integer (if negative then -(n : Int) else n), rest)

/-- A number, and what follows it. -/
def readNumber : List Char → Option (Json × List Char)
  | '-' :: rest => readMagnitude true rest
  | cs => readMagnitude false cs

end Numbers

section Values

mutual

/-- The value at the beginning of a text, and what follows it. -/
def readValue : Nat → List Char → Option (Json × List Char)
  | 0, _ => none
  | fuel + 1, cs =>
      match skip cs with
      | 'n' :: 'u' :: 'l' :: 'l' :: rest => some (.null, rest)
      | 't' :: 'r' :: 'u' :: 'e' :: rest => some (.bool true, rest)
      | 'f' :: 'a' :: 'l' :: 's' :: 'e' :: rest => some (.bool false, rest)
      | '"' :: rest => (readText rest).map fun (t, rest) => (.text t, rest)
      | '[' :: rest =>
          match skip rest with
          | ']' :: rest => some (.array [], rest)
          | rest => (readItems fuel rest).map fun (items, rest) => (.array items, rest)
      | '\x7b' :: rest =>
          match skip rest with
          | '\x7d' :: rest => some (.object [], rest)
          | rest => (readMembers fuel rest).map fun (members, rest) => (.object members, rest)
      | rest => readNumber rest

/-- The items up to the closing bracket, at least one, and what follows it. -/
def readItems : Nat → List Char → Option (List Json × List Char)
  | 0, _ => none
  | fuel + 1, cs => do
      let (item, rest) ← readValue fuel cs
      match skip rest with
      | ']' :: rest => some ([item], rest)
      | ',' :: rest =>
          let (items, rest) ← readItems fuel rest
          return (item :: items, rest)
      | _ => none

/-- The members up to the closing brace, at least one, and what follows it. -/
def readMembers : Nat → List Char → Option (List (Option String × Json) × List Char)
  | 0, _ => none
  | fuel + 1, cs =>
      match skip cs with
      | '"' :: rest => do
          let (key, rest) ← readText rest
          match skip rest with
          | ':' :: rest =>
              let (value, rest) ← readValue fuel rest
              match skip rest with
              | '\x7d' :: rest => some ([(key, value)], rest)
              | ',' :: rest =>
                  let (members, rest) ← readMembers fuel rest
                  return ((key, value) :: members, rest)
              | _ => none
          | _ => none
      | _ => none

end

/-- More levels of reading than a text can need: a bracket takes two. -/
def depthBound (cs : List Char) : Nat := 2 * cs.length + 2

/-- The value that a whole text holds. -/
def parse (cs : List Char) : Option Json :=
  (readValue (depthBound cs) cs).bind fun (value, rest) =>
    if (skip rest).isEmpty then some value else none

end Values

end Json
end MeshExchange
