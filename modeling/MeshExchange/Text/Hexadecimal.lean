/-!
# Hexadecimal numerals

**Results.**
* `lowerDigit`, `upperDigit`: the digit of a value below sixteen, in either case;
* `value?`: the value of a digit, in any case;
* `upper`: the digits of a number, most significant first, letters in upper case.
-/

namespace MeshExchange
namespace Hexadecimal

section Digits

/-- The digit of a value below sixteen, a letter counted from the given one. -/
def digitFrom (letter : Char) (d : Nat) : Char :=
  if d < 10 then Char.ofNat ('0'.toNat + d) else Char.ofNat (letter.toNat + (d - 10))

/-- The digit of a value below sixteen, letters in lower case. -/
def lowerDigit (d : Nat) : Char := digitFrom 'a' d

/-- The digit of a value below sixteen, letters in upper case. -/
def upperDigit (d : Nat) : Char := digitFrom 'A' d

/-- The value of a digit. -/
def value? (c : Char) : Option Nat :=
  if '0' ≤ c ∧ c ≤ '9' then some (c.toNat - '0'.toNat)
  else if 'a' ≤ c ∧ c ≤ 'f' then some (c.toNat - 'a'.toNat + 10)
  else if 'A' ≤ c ∧ c ≤ 'F' then some (c.toNat - 'A'.toNat + 10)
  else none

theorem value?_lowerDigit {d : Nat} (h : d < 16) : value? (lowerDigit d) = some d := by
  have all : ∀ d : Fin 16, value? (lowerDigit d.val) = some d.val := by decide
  exact all ⟨d, h⟩

end Digits

section Numbers

/-- The digits of a number, letters in upper case. -/
def upper (n : Nat) : List Char :=
  if n < 16 then [upperDigit n] else upper (n / 16) ++ [upperDigit (n % 16)]
termination_by n
decreasing_by omega

end Numbers

end Hexadecimal
end MeshExchange
